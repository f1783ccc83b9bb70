/-
# `Queue.DequeueSteps` — every step of `try_dequeue` is one of a queue's

A dequeue takes effect when the element is moved out.  An empty-handed dequeue
has seen the front block empty at a moment when it was the tail block.  One
theorem for each place in the program, and `consumer_proceeds` for all: the
consumer is never stuck, and the bounded queue can follow it.

What a step does is one of three things.  It may be one that the callers do not
notice (`Represents.consumerSilent`), as all are that look at indices; it may be a
step on one block (`ConsumerMoves.set`, and `ConsumerMoves.set_fields` where no
item changes); or the consumer goes over to the next block.  Where it has emptied
no slot a block shows its items first (`Represents.live_layout`), so that what it
finds at the front of the front block is the first item of the queue.

The copy of the tail index may be out of date, and an old one is never ahead of
the true one: what it shows is there.  Reading the tail of a live block again is
`Represents.refreshTail`; only then may the block be left, and only after the
second look, since the producer may have filled it and gone on in between.
-/
import LightQ.Queue.Represents

namespace LightQ

namespace QueueThreads

open ReaderWriterQueue

variable {α : Type}

section Consumer

variable {maxBlockSize maxSize : Nat} {w : World α} {s : Fifo.State α} {v : View α}
  {frontBlock_ blockFront : Nat}

theorem step_consumer_goto {pc pc' : DequeuePc α} {q : ReaderWriterQueue α}
    (hc : w.consumer = some pc) (hq : w.queue.tryDequeue pc = some (q, .goto pc')) :
    w.step maxBlockSize .consumer = some { w with queue := q, consumer := some pc' } := by
  simp only [World.step, hc, hq]

theorem step_consumer_ret {pc : DequeuePc α} {r : Option α} {q : ReaderWriterQueue α}
    (hc : w.consumer = some pc) (hq : w.queue.tryDequeue pc = some (q, .ret r)) :
    w.step maxBlockSize .consumer =
      some { w with queue := q, consumer := none, history := w.history ++ [.dequeued r] } := by
  simp only [World.step, hc, hq]

theorem tryDequeue_nonEmptyFrontBlock {q : ReaderWriterQueue α} {x : α} {b : Block α}
    (h : (q.blocks frontBlock_).moveOut blockFront = some (x, b)) :
    q.tryDequeue (.nonEmptyFrontBlock frontBlock_ blockFront) =
      some (q.set frontBlock_ b, .goto (.moved x frontBlock_ ((blockFront + 1) &&& b.sizeMask))) := by
  simp only [tryDequeue, h]

theorem Represents.consumerSilent (h : Represents maxSize w s v) (v' : View α)
    {q' : ReaderWriterQueue α} {c' : Option (DequeuePc α)}
    (hblocks : Blocks maxSize q' v' (inFlight w.producer c'))
    (hmoves : ConsumerMoves w.queue q' v v') (hat : ConsumerAt q' v' c' s.consumer)
    (hcontents : v'.contents = v.contents) :
    Follows maxSize s { w with queue := q', consumer := c' } := by
  refine ⟨s, v', Relation.ReflTransGen.refl, hblocks, h.producer.frame h.blocks rfl hmoves, hat, ?_,
    h.history⟩
  rw [hcontents]
  exact h.items

theorem ConsumerMoves.refl (q : ReaderWriterQueue α) (v : View α) : ConsumerMoves q q v v :=
  ⟨rfl, fun _ => ⟨rfl, rfl, rfl, rfl⟩, id, ⟨[], (List.append_nil _).symm⟩, fun _ _ => rfl⟩

theorem ConsumerMoves.set {q : ReaderWriterQueue α} {a : Nat} {b : Block α} {xs : List α}
    (ha : a ∈ v.live) (htail : b.tail = (q.blocks a).tail)
    (hlocal : b.localFront = (q.blocks a).localFront) (hmask : b.sizeMask = (q.blocks a).sizeMask)
    (hnext : b.next = (q.blocks a).next) (hitems : a ≠ q.frontBlock → xs = v.items a) :
    ConsumerMoves q (q.set a b) v (v.setItems a xs) where
  tailBlock := rfl
  fields c := ⟨set_field Block.tail q htail c, set_field Block.localFront q hlocal c,
    set_field Block.sizeMask q hmask c, set_field Block.next q hnext c⟩
  full := by
    intro hfull hne
    rw [set_tailBlock, set_field Block.sizeMask q hmask]
    rw [set_tailBlock, set_frontBlock] at hne
    by_cases htail : q.tailBlock = a
    · rw [htail, View.setItems_self, hitems (htail ▸ hne), ← htail]
      exact hfull hne
    · rw [v.setItems_of_ne htail]
      exact hfull hne
  free := ⟨[], (List.append_nil _).symm⟩
  items c hc := v.setItems_of_ne (ne_of_mem_of_not_mem ha hc).symm xs

theorem ConsumerMoves.set_fields {q : ReaderWriterQueue α} {a : Nat} {b : Block α}
    (ha : a ∈ v.live) (htail : b.tail = (q.blocks a).tail)
    (hlocal : b.localFront = (q.blocks a).localFront) (hmask : b.sizeMask = (q.blocks a).sizeMask)
    (hnext : b.next = (q.blocks a).next) : ConsumerMoves q (q.set a b) v v := by
  have hmoves := ConsumerMoves.set ha htail hlocal hmask hnext (fun _ => rfl)
  rwa [View.setItems_items] at hmoves

theorem Represents.live_layout (h : Represents maxSize w s v) {a : Nat} (ha : a ∈ v.live)
    (hvacated : vacated w.consumer a = []) :
    (w.queue.blocks a).Layout ((v.items a).map some ++ pending w.producer a)
      (v.items a).length := by
  have hlayout := h.blocks.live_layout ha
  simpa [inFlight, hvacated] using hlayout

theorem dequeue_proceeds (h : Represents maxSize w s v) (hc : w.consumer = none) :
    Proceeds maxBlockSize maxSize w .dequeue s := by
  have hblocks := h.blocks
  have hat := h.consumer
  rw [hc] at hblocks hat
  have hstep : w.step maxBlockSize .dequeue =
      some { w with consumer := some .entered, history := w.history ++ [.dequeue] } := by
    simp only [World.step, hc]
  refine ⟨_, hstep, _, v, Relation.ReflTransGen.single (.dequeue hat), hblocks, h.producer,
    ⟨false, rfl⟩, h.items, ?_⟩
  show s.history ++ _ = _
  rw [h.history]

theorem dequeue_entered_proceeds (h : Represents maxSize w s v) (hc : w.consumer = some .entered) :
    Proceeds maxBlockSize maxSize w .consumer s := by
  have hblocks := h.blocks
  have hat := h.consumer
  rw [hc] at hblocks hat
  exact ⟨_, step_consumer_goto hc rfl,
    h.consumerSilent v hblocks (ConsumerMoves.refl _ _) ⟨rfl, hat⟩ rfl⟩

theorem atFront_proceeds (h : Represents maxSize w s v)
    (hc : w.consumer = some (.atFront frontBlock_)) :
    Proceeds maxBlockSize maxSize w .consumer s := by
  have hblocks := h.blocks
  have hat := h.consumer
  rw [hc] at hblocks hat
  obtain ⟨rfl, hcall⟩ := hat
  by_cases hsees : (w.queue.blocks w.queue.frontBlock).front ≠
      (w.queue.blocks w.queue.frontBlock).localTail
  · exact ⟨_, step_consumer_goto hc (if_pos hsees),
      h.consumerSilent v hblocks (ConsumerMoves.refl _ _) ⟨rfl, rfl, hsees, hcall⟩ rfl⟩
  · exact ⟨_, step_consumer_goto hc (if_neg hsees),
      h.consumerSilent v hblocks (ConsumerMoves.refl _ _) ⟨rfl, rfl, hcall⟩ rfl⟩

theorem Represents.refreshTail (h : Represents maxSize w s v) {a : Nat} (ha : a ∈ v.live)
    {c' : Option (DequeuePc α)} (hvacated : vacated c' = vacated w.consumer) :
    Blocks maxSize (w.queue.set a { w.queue.blocks a with localTail := (w.queue.blocks a).tail }) v
      (inFlight w.producer c') := by
  refine h.blocks.set_fields (List.mem_append_left _ ha) rfl rfl rfl ?_ ?_ rfl
  · intro hlayout
    show Block.Layout _ (vacated c' a ++ _ ++ _) ((vacated c' a).length + _)
    rw [hvacated]
    exact hlayout.refreshTail
  · exact fun c _ => ⟨congrFun hvacated c, rfl⟩

theorem rereadTail_proceeds (h : Represents maxSize w s v)
    (hc : w.consumer = some (.rereadTail frontBlock_ blockFront)) :
    Proceeds maxBlockSize maxSize w .consumer s := by
  have hat := h.consumer
  rw [hc] at hat
  obtain ⟨rfl, rfl, empty, hcall⟩ := hat
  have hmem := h.blocks.front_mem
  have hlayout := h.live_layout hmem (by rw [hc]; rfl)
  have hmoves : ConsumerMoves w.queue (w.queue.set w.queue.frontBlock
      { w.queue.blocks w.queue.frontBlock with
        localTail := (w.queue.blocks w.queue.frontBlock).tail }) v v :=
    ConsumerMoves.set_fields hmem rfl rfl rfl rfl
  by_cases hsees : (w.queue.blocks w.queue.frontBlock).front ≠
      (w.queue.blocks w.queue.frontBlock).tail
  · refine ⟨_, step_consumer_goto hc (if_pos hsees), ?_⟩
    refine h.consumerSilent v (h.refreshTail hmem (by rw [hc]; rfl)) hmoves
      ⟨rfl, ?_, ?_, empty, hcall⟩ rfl
    · rw [set_self]
    · rw [SeesElement, set_self]
      exact hsees
  · refine ⟨_, step_consumer_goto hc (if_neg hsees), ?_⟩
    have hblocks' : Blocks maxSize _ v (inFlight w.producer (some (.drained w.queue.frontBlock))) :=
      h.refreshTail hmem (by rw [hc]; rfl)
    by_cases htail : w.queue.frontBlock = w.queue.tailBlock
    · have hnone : v.items w.queue.frontBlock = [] :=
        List.eq_nil_of_length_eq_zero (hlayout.front_eq_tail.mp (not_not.mp hsees))
      have hcontents : v.contents = [] := by
        rw [View.contents, h.blocks.live_of_one htail, List.flatMap_singleton, hnone]
      refine ⟨_, v, Relation.ReflTransGen.single (.empty empty hcall (h.items.trans hcontents)),
        hblocks', h.producer.frame h.blocks rfl hmoves, ⟨rfl, fun _ => rfl, true, rfl⟩, h.items,
        h.history⟩
    · exact h.consumerSilent v hblocks' hmoves ⟨rfl, fun heq => absurd heq htail, empty, hcall⟩ rfl

theorem nonEmptyFrontBlock_proceeds (h : Represents maxSize w s v)
    (hc : w.consumer = some (.nonEmptyFrontBlock frontBlock_ blockFront)) :
    Proceeds maxBlockSize maxSize w .consumer s := by
  have hblocks := h.blocks
  have hat := h.consumer
  rw [hc] at hblocks hat
  obtain ⟨rfl, rfl, hsees, empty, hcall⟩ := hat
  have hmem := hblocks.front_mem
  have hlayout := h.live_layout hmem (by rw [hc]; rfl)
  obtain ⟨l, hl⟩ := hblocks.live_split
  have hnodup := hblocks.live_nodup
  rw [hl] at hnodup
  have hfirst := (List.nodup_cons.mp hnodup).1
  cases hitems : v.items w.queue.frontBlock with
  | nil =>
      have hpos := hlayout.count_pos hsees
      rw [hitems] at hpos
      exact absurd hpos (Nat.lt_irrefl 0)
  | cons x xs =>
      rw [hitems] at hlayout
      obtain ⟨hout, hleft⟩ := hlayout.moveOut
      refine ⟨_, step_consumer_goto hc (tryDequeue_nonEmptyFrontBlock hout), ?_⟩
      have hcontents := View.contents_take hl hfirst hitems
      refine ⟨_, v.setItems w.queue.frontBlock xs, Relation.ReflTransGen.single
        (.take x _ empty hcall (h.items.trans hcontents)), ?_, h.producer.frame h.blocks rfl
        (ConsumerMoves.set hmem rfl rfl rfl rfl fun hne => absurd rfl hne), ⟨rfl, ?_, ?_, rfl⟩,
        rfl, h.history⟩
      · refine hblocks.set rfl rfl rfl ?_ ?_ ?_ ?_
        · simpa [inFlight, vacated, Nat.add_comm] using hleft
        · exact fun a ha => ⟨if_neg ha, rfl, rfl⟩
        · exact fun _ hne => absurd rfl hne
        · exact fun hfree => absurd hfree (hblocks.not_free hmem)
      · show _ = ((w.queue.set _ _).blocks w.queue.frontBlock).front + 1 &&& _
        rw [set_self]
      · rw [SeesElement, set_self]
        exact hsees

theorem moved_proceeds {result : α} (h : Represents maxSize w s v)
    (hc : w.consumer = some (.moved result frontBlock_ blockFront)) :
    Proceeds maxBlockSize maxSize w .consumer s := by
  have hblocks := h.blocks
  have hat := h.consumer
  rw [hc] at hblocks hat
  obtain ⟨rfl, rfl, hsees, hdone⟩ := hat
  have hmem := hblocks.front_mem
  have hlayout := hblocks.live_layout hmem
  refine ⟨_, step_consumer_ret hc rfl, ?_⟩
  refine ⟨_, v, Relation.ReflTransGen.single (.dequeued result hdone), ?_,
    h.producer.frame h.blocks rfl (ConsumerMoves.set_fields hmem rfl rfl rfl rfl), rfl, h.items, ?_⟩
  · refine hblocks.set_fields (List.mem_append_left _ hmem) rfl rfl rfl ?_ ?_ rfl
    · intro hl
      have hcells : (inFlight w.producer (some (.moved result w.queue.frontBlock
          ((w.queue.blocks w.queue.frontBlock).front + 1 &&&
            (w.queue.blocks w.queue.frontBlock).sizeMask)))).vacated w.queue.frontBlock = [none] :=
        if_pos rfl
      rw [hcells] at hl
      have hreleased := hl.release hsees
      simpa [inFlight, vacated] using hreleased
    · exact fun a ha => ⟨(if_neg ha).symm, rfl⟩
  · show s.history ++ _ = _
    rw [h.history]

theorem drained_proceeds (h : Represents maxSize w s v)
    (hc : w.consumer = some (.drained frontBlock_)) :
    Proceeds maxBlockSize maxSize w .consumer s := by
  have hblocks := h.blocks
  have hat := h.consumer
  rw [hc] at hblocks hat
  obtain ⟨rfl, hempty, hcall⟩ := hat
  by_cases htail : w.queue.frontBlock ≠ w.queue.tailBlock
  · exact ⟨_, step_consumer_goto hc (if_pos htail),
      h.consumerSilent v hblocks (ConsumerMoves.refl _ _) ⟨htail, hcall⟩ rfl⟩
  · refine ⟨_, step_consumer_ret hc (if_neg htail), _, v,
      Relation.ReflTransGen.single (.nothing (hempty (not_not.mp htail))), hblocks, h.producer, rfl,
      h.items, ?_⟩
    show s.history ++ _ = _
    rw [h.history]

theorem reread_proceeds (h : Represents maxSize w s v) (hc : w.consumer = some .reread) :
    Proceeds maxBlockSize maxSize w .consumer s := by
  have hat := h.consumer
  rw [hc] at hat
  obtain ⟨hne, hcall⟩ := hat
  have hmem := h.blocks.front_mem
  have hlayout := h.live_layout hmem (by rw [hc]; rfl)
  have hmoves : ConsumerMoves w.queue (w.queue.set w.queue.frontBlock
      { w.queue.blocks w.queue.frontBlock with
        localTail := (w.queue.blocks w.queue.frontBlock).tail }) v v :=
    ConsumerMoves.set_fields hmem rfl rfl rfl rfl
  by_cases hsees : (w.queue.blocks w.queue.frontBlock).front ≠
      (w.queue.blocks w.queue.frontBlock).tail
  · refine ⟨_, step_consumer_goto hc (if_pos hsees), ?_⟩
    refine h.consumerSilent v (h.refreshTail hmem (by rw [hc]; rfl)) hmoves
      ⟨rfl, ?_, ?_, hcall⟩ rfl
    · rw [set_self]
    · rw [SeesElement, set_self]
      exact hsees
  · refine ⟨_, step_consumer_goto hc (if_neg hsees), ?_⟩
    have hnone : v.items w.queue.frontBlock = [] :=
      List.eq_nil_of_length_eq_zero (hlayout.front_eq_tail.mp (not_not.mp hsees))
    exact h.consumerSilent v (h.refreshTail hmem (by rw [hc]; rfl)) hmoves
      ⟨rfl, hne, hnone, hcall⟩ rfl

theorem leaving_proceeds (h : Represents maxSize w s v)
    (hc : w.consumer = some (.leaving frontBlock_)) :
    Proceeds maxBlockSize maxSize w .consumer s := by
  have hblocks := h.blocks
  have hat := h.consumer
  rw [hc] at hblocks hat
  obtain ⟨rfl, hne, hnone, hcall⟩ := hat
  exact ⟨_, step_consumer_goto hc rfl,
    h.consumerSilent v hblocks (ConsumerMoves.refl _ _) ⟨rfl, hne, hnone, hcall⟩ rfl⟩

theorem nextBlock_proceeds {nextBlock : Nat} (h : Represents maxSize w s v)
    (hc : w.consumer = some (.nextBlock nextBlock)) :
    Proceeds maxBlockSize maxSize w .consumer s := by
  have hat := h.consumer
  rw [hc] at hat
  obtain ⟨rfl, hne, hnone, hcall⟩ := hat
  obtain ⟨l, hl⟩ := h.blocks.next_front hne
  have hnodup := h.blocks.live_nodup
  rw [hl] at hnodup
  have hother : (w.queue.blocks w.queue.frontBlock).next ≠ w.queue.frontBlock :=
    fun heq => (List.nodup_cons.mp hnodup).1 (List.mem_cons.mpr (Or.inl heq.symm))
  have hmem : (w.queue.blocks w.queue.frontBlock).next ∈ v.live :=
    hl ▸ List.mem_cons_of_mem _ List.mem_cons_self
  have hlayout := h.live_layout hmem (h.vacated_eq_nil hother)
  have hassert : (w.queue.blocks (w.queue.blocks w.queue.frontBlock).next).front ≠
      (w.queue.blocks (w.queue.blocks w.queue.frontBlock).next).tail := by
    intro heq
    exact h.blocks.waiting _ hmem hother
      (List.eq_nil_of_length_eq_zero (hlayout.front_eq_tail.mp heq))
  refine ⟨_, step_consumer_goto hc (if_pos hassert), ?_⟩
  refine h.consumerSilent v (h.refreshTail hmem (by rw [hc]; rfl))
    (ConsumerMoves.set_fields hmem rfl rfl rfl rfl) ⟨?_, hne, hnone, ?_, ?_, hcall⟩ rfl
  · rw [set_frontBlock, set_of_ne _ hother.symm]
  · rw [set_self]
  · rw [SeesElement, set_self]
    exact hassert

theorem dequeue_advancing_proceeds {nextBlock nextBlockFront : Nat} (h : Represents maxSize w s v)
    (hc : w.consumer = some (.advancing nextBlock nextBlockFront)) :
    Proceeds maxBlockSize maxSize w .consumer s := by
  have hblocks := h.blocks
  have hat := h.consumer
  rw [hc] at hblocks hat
  obtain ⟨rfl, hne, hnone, hfront, hsees, hcall⟩ := hat
  obtain ⟨l, hl⟩ := hblocks.next_front hne
  have hlanded : landed w.producer w.queue.frontBlock = [] := by
    have hproducer := h.producer
    cases hp : w.producer with
    | none => rfl
    | some pc =>
        rw [hp] at hproducer
        cases pc with
        | advancing element newTailBlock =>
            refine if_neg ?_
            rintro rfl
            exact hblocks.not_free hblocks.front_mem (List.mem_of_mem_head? hproducer.1)
        | _ => rfl
  refine ⟨_, step_consumer_goto hc rfl, ?_⟩
  refine h.consumerSilent { v with
      live := (w.queue.blocks w.queue.frontBlock).next :: l
      free := v.free ++ [w.queue.frontBlock] }
    (hblocks.advanceFront hl hnone hlanded) ?_ ⟨rfl, hfront, hsees, hcall⟩ ?_
  · refine ⟨rfl, fun _ => ⟨rfl, rfl, rfl, rfl⟩, ?_, ⟨_, rfl⟩, fun _ _ => rfl⟩
    exact fun hfull _ => hfull (Ne.symm hne)
  · rw [View.contents, View.contents, hl, List.flatMap_cons (x := w.queue.frontBlock), hnone]
    rfl

/-- The consumer is never stuck, and the bounded queue can follow it. -/
theorem consumer_proceeds {pc : DequeuePc α} (h : Represents maxSize w s v)
    (hc : w.consumer = some pc) : Proceeds maxBlockSize maxSize w .consumer s := by
  cases pc with
  | entered => exact dequeue_entered_proceeds h hc
  | atFront frontBlock_ => exact atFront_proceeds h hc
  | rereadTail frontBlock_ blockFront => exact rereadTail_proceeds h hc
  | nonEmptyFrontBlock frontBlock_ blockFront => exact nonEmptyFrontBlock_proceeds h hc
  | moved result frontBlock_ blockFront => exact moved_proceeds h hc
  | drained frontBlock_ => exact drained_proceeds h hc
  | reread => exact reread_proceeds h hc
  | leaving frontBlock_ => exact leaving_proceeds h hc
  | nextBlock nextBlock => exact nextBlock_proceeds h hc
  | advancing nextBlock nextBlockFront => exact dequeue_advancing_proceeds h hc

end Consumer

end QueueThreads

end LightQ
