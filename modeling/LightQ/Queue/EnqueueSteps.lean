/-
# `Queue.EnqueueSteps` — every step of `inner_enqueue` is one of a queue's

An enqueue takes effect when the new tail index, or the new tail block, is
stored; until then the callers notice nothing (`producerSilent`).  A refused
enqueue has seen the tail block full at a moment when no block was free.  One
theorem for each place in the program, and `producer_proceeds` for all: the
producer is never stuck, and the bounded queue can follow it.

The program has three ways to its end.  There is room in the tail block; or the
next block is free and takes the element first (`Represents.free_layout`: a block
behind the tail block, with nothing landed in it, is empty); or a block is
allocated and linked in.  In the first the element is built in a slot that no
index covers yet, in the others in a block that is not the tail block yet, so that
in each of them one store makes the element known: with it the enqueue takes
effect (`Represents.enqueued`), and it returns at once.

The fourth end is a refusal (`Represents.refused`), after an allocation that
failed or was not allowed: then the ring was full when the producer looked, by
`maxSize_le`.  What the steps do to the ring is `ProducerMoves.set` and
`ProducerMoves.set_fields` on one block, and the steps on the ring of
`Queue.BlockRing`.
-/
import LightQ.Queue.Represents

namespace LightQ

namespace QueueThreads

open ReaderWriterQueue

variable {α : Type}

section Producer

variable {maxBlockSize maxSize : Nat} {made : Bool} {w : World α} {s : Fifo.State α} {v : View α}
  {mode : AllocationMode} {element : α} {tailBlock_ tailBlockNext blockTail nextBlockTail : Nat}

theorem step_producer_goto {pc pc' : EnqueuePc α} {q : ReaderWriterQueue α}
    (hp : w.producer = some pc) (hq : w.queue.innerEnqueue maxBlockSize made pc = some (q, .goto pc')) :
    w.step maxBlockSize (.producer made) = some { w with queue := q, producer := some pc' } := by
  simp only [World.step, hp, hq]

theorem step_producer_ret {pc : EnqueuePc α} {ok : Bool} {q : ReaderWriterQueue α}
    (hp : w.producer = some pc) (hq : w.queue.innerEnqueue maxBlockSize made pc = some (q, .ret ok)) :
    w.step maxBlockSize (.producer made) =
      some { w with queue := q, producer := none, history := w.history ++ [.enqueued ok] } := by
  simp only [World.step, hp, hq]

theorem innerEnqueue_hasRoom {q : ReaderWriterQueue α} {b : Block α}
    (h : (q.blocks tailBlock_).construct blockTail element = some b) :
    q.innerEnqueue maxBlockSize made (.hasRoom element tailBlock_ blockTail nextBlockTail) =
      some (q.set tailBlock_ b, .goto (.constructed element tailBlock_ nextBlockTail)) := by
  simp only [innerEnqueue, h]

theorem innerEnqueue_roomAhead {q : ReaderWriterQueue α} {b : Block α}
    (h : (q.blocks tailBlockNext).construct nextBlockTail element = some b) :
    q.innerEnqueue maxBlockSize made (.roomAhead element tailBlockNext nextBlockTail) =
      some (q.set tailBlockNext b,
        .goto (.constructedAhead element tailBlockNext nextBlockTail)) := by
  simp only [innerEnqueue, h]

theorem Represents.producerSilent (h : Represents maxSize w s v) (v' : View α)
    {q' : ReaderWriterQueue α} {p' : Option (EnqueuePc α)}
    (hblocks : Blocks maxSize q' v' (inFlight p' w.consumer))
    (hmoves : ProducerMoves w.queue q' v v') (hat : ProducerAt q' v' p' s.producer)
    (hcontents : v'.contents = v.contents) :
    Follows maxSize s { w with queue := q', producer := p' } := by
  refine ⟨s, v', Relation.ReflTransGen.refl, hblocks, hat, h.consumer.frame h.blocks hmoves, ?_,
    h.history⟩
  rw [hcontents]
  exact h.items

theorem ProducerMoves.refl (q : ReaderWriterQueue α) (v : View α) : ProducerMoves q q v v :=
  ⟨rfl, fun _ _ => ⟨rfl, rfl, rfl⟩, fun _ _ _ => ⟨rfl, rfl⟩, fun hne => absurd rfl hne⟩

theorem ProducerMoves.set {q : ReaderWriterQueue α} {a : Nat} {b : Block α} {xs : List α}
    (hfront : b.front = (q.blocks a).front) (hlocal : b.localTail = (q.blocks a).localTail)
    (hmask : b.sizeMask = (q.blocks a).sizeMask) (hnext : b.next = (q.blocks a).next)
    (hitems : a ∈ v.live → a ≠ q.tailBlock → xs = v.items a) :
    ProducerMoves q (q.set a b) v (v.setItems a xs) where
  frontBlock := rfl
  fields c _ := ⟨set_field Block.front q hfront c, set_field Block.localTail q hlocal c,
    set_field Block.sizeMask q hmask c⟩
  before := by
    intro c hc htail
    refine ⟨?_, set_field Block.next q hnext c⟩
    by_cases hca : c = a
    · subst hca
      rw [View.setItems_self]
      exact hitems hc htail
    · exact v.setItems_of_ne hca xs
  tailBlock := fun hne => absurd rfl hne

theorem enqueue_proceeds (h : Represents maxSize w s v) (hp : w.producer = none) :
    Proceeds maxBlockSize maxSize w (.enqueue mode element) s := by
  have hblocks := h.blocks
  have hat := h.producer
  rw [hp] at hblocks hat
  have hstep : w.step maxBlockSize (.enqueue mode element) =
      some { w with
        producer := some (.entered mode element)
        history := w.history ++ [.enqueue element] } := by
    simp only [World.step, hp]
  refine ⟨_, hstep, _, v, Relation.ReflTransGen.single (.enqueue element hat), hblocks,
    ⟨false, rfl⟩, h.consumer, h.items, ?_⟩
  show s.history ++ _ = _
  rw [h.history]

theorem entered_proceeds (h : Represents maxSize w s v)
    (hp : w.producer = some (.entered mode element)) :
    Proceeds maxBlockSize maxSize w (.producer made) s := by
  have hblocks := h.blocks
  have hat := h.producer
  rw [hp] at hblocks hat
  exact ⟨_, step_producer_goto hp rfl,
    h.producerSilent v hblocks (ProducerMoves.refl _ _) ⟨rfl, hat⟩ rfl⟩

theorem atTail_proceeds (h : Represents maxSize w s v)
    (hp : w.producer = some (.atTail mode element tailBlock_)) :
    Proceeds maxBlockSize maxSize w (.producer made) s := by
  have hblocks := h.blocks
  have hat := h.producer
  rw [hp] at hblocks hat
  obtain ⟨rfl, hcall⟩ := hat
  by_cases hroom : nextTail w.queue w.queue.tailBlock ≠ (w.queue.blocks w.queue.tailBlock).localFront
  · exact ⟨_, step_producer_goto hp (if_pos hroom),
      h.producerSilent v hblocks (ProducerMoves.refl _ _) ⟨rfl, rfl, rfl, hroom, hcall⟩ rfl⟩
  · exact ⟨_, step_producer_goto hp (if_neg hroom),
      h.producerSilent v hblocks (ProducerMoves.refl _ _) ⟨rfl, rfl, rfl, hcall⟩ rfl⟩

theorem ProducerMoves.set_fields {q : ReaderWriterQueue α} {a : Nat} {b : Block α}
    (hfront : b.front = (q.blocks a).front) (hlocal : b.localTail = (q.blocks a).localTail)
    (hmask : b.sizeMask = (q.blocks a).sizeMask) (hnext : b.next = (q.blocks a).next) :
    ProducerMoves q (q.set a b) v v := by
  have hmoves : ProducerMoves q (q.set a b) v (v.setItems a (v.items a)) :=
    ProducerMoves.set hfront hlocal hmask hnext (fun _ _ => rfl)
  rwa [View.setItems_items] at hmoves

theorem rereadFront_proceeds (h : Represents maxSize w s v)
    (hp : w.producer = some (.rereadFront mode element tailBlock_ blockTail nextBlockTail)) :
    Proceeds maxBlockSize maxSize w (.producer made) s := by
  have hblocks := h.blocks
  have hat := h.producer
  rw [hp] at hblocks hat
  obtain ⟨rfl, rfl, rfl, full, hcall⟩ := hat
  have htail : w.queue.tailBlock ∈ v.ring := List.mem_append_left _ hblocks.tail_mem
  have hlayout := hblocks.live_layout hblocks.tail_mem
  have hset : Blocks maxSize (w.queue.set w.queue.tailBlock
      { w.queue.blocks w.queue.tailBlock with
        localFront := (w.queue.blocks w.queue.tailBlock).front }) v (inFlight none w.consumer) :=
    hblocks.set_fields htail rfl rfl rfl (fun hl => hl.refreshFront) (fun _ _ => ⟨rfl, rfl⟩) rfl
  have hmoves : ProducerMoves w.queue (w.queue.set w.queue.tailBlock
      { w.queue.blocks w.queue.tailBlock with
        localFront := (w.queue.blocks w.queue.tailBlock).front }) v v :=
    ProducerMoves.set_fields rfl rfl rfl rfl
  by_cases hroom : nextTail w.queue w.queue.tailBlock ≠ (w.queue.blocks w.queue.tailBlock).front
  · refine ⟨_, step_producer_goto hp (if_pos hroom), ?_⟩
    refine h.producerSilent v hset hmoves ⟨rfl, ?_, ?_, ?_, full, hcall⟩ rfl
    · rw [set_self]
    · rw [nextTail, nextTail, set_self]
    · rw [SeesRoom, nextTail, set_self]
      exact hroom
  · refine ⟨_, step_producer_goto hp (if_neg hroom), ?_⟩
    have hcount := hlayout.next_eq_front.mp (not_not.mp hroom)
    have hfull : TailFull (w.queue.set w.queue.tailBlock
        { w.queue.blocks w.queue.tailBlock with
          localFront := (w.queue.blocks w.queue.tailBlock).front }) v := by
      intro hne
      have hvacated : vacated w.consumer w.queue.tailBlock = [] := h.vacated_eq_nil hne
      rw [show (inFlight _ w.consumer).vacated w.queue.tailBlock = [] from hvacated,
        List.length_nil, Nat.zero_add] at hcount
      rw [set_tailBlock, set_self]
      exact hcount
    by_cases hfree : v.free = []
    · have hheld := hblocks.maxSize_le hfree (fun a ha => h.vacated_eq_nil ha) hcount
      have hoccupied : maxSize ≤ s.occupied := by
        rw [Fifo.State.occupied, ← h.vacated_length, h.items]
        exact hheld
      refine ⟨_, v, Relation.ReflTransGen.single (.full element full hcall hoccupied), hset,
        ⟨rfl, hfull, fun _ => rfl, true, rfl⟩, h.consumer.frame h.blocks hmoves, h.items, h.history⟩
    · exact h.producerSilent v hset hmoves
        ⟨rfl, hfull, fun hnil => absurd hnil hfree, full, hcall⟩ rfl

theorem hasRoom_proceeds (h : Represents maxSize w s v)
    (hp : w.producer = some (.hasRoom element tailBlock_ blockTail nextBlockTail)) :
    Proceeds maxBlockSize maxSize w (.producer made) s := by
  have hblocks := h.blocks
  have hat := h.producer
  rw [hp] at hblocks hat
  obtain ⟨rfl, rfl, rfl, hroom, hcall⟩ := hat
  have hlayout := hblocks.live_layout hblocks.tail_mem
  obtain ⟨hconstruct, hbuilt⟩ := hlayout.construct (by simp [inFlight, pending])
    (hlayout.count_lt hroom) element
  refine ⟨_, step_producer_goto hp (innerEnqueue_hasRoom hconstruct), ?_⟩
  refine h.producerSilent v (hblocks.set_fields ?_ rfl rfl rfl ?_ ?_ rfl)
    (ProducerMoves.set_fields rfl rfl rfl rfl) ⟨rfl, ?_, ?_, hcall⟩ rfl
  · exact List.mem_append_left _ hblocks.tail_mem
  · intro _
    simpa [inFlight, pending] using hbuilt
  · intro c hc
    exact ⟨rfl, if_neg hc⟩
  · rw [nextTail, nextTail, set_self]
  · rw [SeesRoom, nextTail, set_self]
    exact hroom

theorem Represents.enqueued (h : Represents maxSize w s v) (v' : View α)
    {q' : ReaderWriterQueue α} {full : Bool} (hcall : s.producer = .calling element full)
    (hblocks : Blocks maxSize q' v' (inFlight none w.consumer))
    (hmoves : ProducerMoves w.queue q' v v') (hcontents : v'.contents = v.contents ++ [element]) :
    Follows maxSize s
      { w with queue := q', producer := none, history := w.history ++ [.enqueued true] } := by
  have hput : Fifo.Reaches maxSize s
      { s with items := s.items ++ [element], producer := .done element } :=
    Relation.ReflTransGen.single (.put element full hcall)
  refine ⟨_, v', hput.tail (.enqueued element rfl), hblocks, rfl,
    h.consumer.frame h.blocks hmoves, ?_, ?_⟩
  · show s.items ++ [element] = _
    rw [h.items, hcontents]
  · show s.history ++ _ = _
    rw [h.history]

/-- The enqueue is refused. -/
theorem Represents.refused (h : Represents maxSize w s v)
    (hcall : s.producer = .calling element true)
    (hblocks : Blocks maxSize w.queue v (inFlight none w.consumer)) :
    Follows maxSize s { w with producer := none, history := w.history ++ [.enqueued false] } := by
  refine ⟨_, v, Relation.ReflTransGen.single (.refused element hcall), hblocks, rfl, h.consumer,
    h.items, ?_⟩
  show s.history ++ _ = _
  rw [h.history]

theorem constructed_proceeds (h : Represents maxSize w s v)
    (hp : w.producer = some (.constructed element tailBlock_ nextBlockTail)) :
    Proceeds maxBlockSize maxSize w (.producer made) s := by
  have hblocks := h.blocks
  have hat := h.producer
  rw [hp] at hblocks hat
  obtain ⟨rfl, rfl, hroom, full, hcall⟩ := hat
  obtain ⟨l, hl⟩ := hblocks.live_snoc
  have hnodup := hblocks.live_nodup
  rw [hl] at hnodup
  have hlast : w.queue.tailBlock ∉ l :=
    fun hmem => (List.nodup_append.mp hnodup).2.2 _ hmem _ List.mem_cons_self rfl
  refine ⟨_, step_producer_ret hp rfl, ?_⟩
  refine h.enqueued (v.setItems w.queue.tailBlock _) hcall (hblocks.set rfl rfl rfl ?_ ?_ ?_ ?_)
    (ProducerMoves.set rfl rfl rfl rfl fun _ hne => absurd rfl hne)
    (View.contents_put hl hlast element)
  · have hpublished := (hblocks.live_layout hblocks.tail_mem).publish hroom
    simpa [inFlight, pending, nextTail, Nat.add_assoc] using hpublished
  · intro c hc
    exact ⟨rfl, (if_neg hc).symm, rfl⟩
  · exact fun _ _ => ⟨by simp, fun hne => absurd rfl hne⟩
  · exact fun hfree => absurd hfree (hblocks.not_free hblocks.tail_mem)

theorem tailFull_proceeds (h : Represents maxSize w s v)
    (hp : w.producer = some (.tailFull mode element tailBlock_)) :
    Proceeds maxBlockSize maxSize w (.producer made) s := by
  have hblocks := h.blocks
  have hat := h.producer
  rw [hp] at hblocks hat
  obtain ⟨rfl, hfull, hseen, hcall⟩ := hat
  have hnext := hblocks.next_tail_eq_front
  by_cases hahead : (w.queue.blocks w.queue.tailBlock).next ≠ w.queue.frontBlock
  · exact ⟨_, step_producer_goto hp (if_pos hahead),
      h.producerSilent v hblocks (ProducerMoves.refl _ _)
        ⟨rfl, hfull, fun hnil => hahead (hnext.mpr hnil), hcall⟩ rfl⟩
  · have hnone := hseen (hnext.mp (not_not.mp hahead))
    cases mode with
    | canAlloc =>
        exact ⟨_, step_producer_goto hp (if_neg hahead),
          h.producerSilent v hblocks (ProducerMoves.refl _ _) ⟨rfl, hfull, hnone⟩ rfl⟩
    | cannotAlloc =>
        exact ⟨_, step_producer_ret hp (if_neg hahead), h.refused hnone hblocks⟩

theorem Represents.free_layout (h : Represents maxSize w s v) {a : Nat} (ha : a ∈ v.free)
    (hlanded : landed w.producer a = []) :
    v.items a = [] ∧ (w.queue.blocks a).Layout (pending w.producer a) 0 := by
  have hitems : v.items a = [] := (h.blocks.empty a ha).trans hlanded
  have hvacated : vacated w.consumer a = [] :=
    h.vacated_eq_nil (ne_of_mem_of_not_mem h.blocks.front_mem fun hlive =>
      h.blocks.not_free hlive ha).symm
  have hlayout := h.blocks.free_layout ha
  rw [hitems] at hlayout
  refine ⟨hitems, ?_⟩
  simpa [inFlight, hvacated] using hlayout

theorem blockAhead_proceeds (h : Represents maxSize w s v)
    (hp : w.producer = some (.blockAhead element tailBlock_)) :
    Proceeds maxBlockSize maxSize w (.producer made) s := by
  have hblocks := h.blocks
  have hat := h.producer
  rw [hp] at hblocks hat
  obtain ⟨rfl, hfull, hfree, hcall⟩ := hat
  obtain ⟨a, rest, ha⟩ := List.exists_cons_of_ne_nil hfree
  have hmem : a ∈ v.free := ha ▸ List.mem_cons_self
  have hnext : (w.queue.blocks w.queue.tailBlock).next = a := by
    rw [hblocks.next_tail, ha]
    rfl
  obtain ⟨-, hempty⟩ := h.free_layout hmem (by rw [hp]; rfl)
  have hassert := hempty.front_eq_tail.mpr rfl
  have hstep : w.queue.innerEnqueue maxBlockSize made (.blockAhead element w.queue.tailBlock) =
      some (w.queue.set a { w.queue.blocks a with localFront := (w.queue.blocks a).front },
        .goto (.roomAhead element a (w.queue.blocks a).tail)) := by
    simp only [innerEnqueue, hnext, if_pos hassert]
  refine ⟨_, step_producer_goto hp hstep, ?_⟩
  refine h.producerSilent v (hblocks.set_fields ?_ rfl rfl rfl ?_ ?_ rfl)
    (ProducerMoves.set_fields rfl rfl rfl rfl) ⟨?_, ?_, ?_, ?_, hcall⟩ rfl
  · exact List.mem_append_right _ hmem
  · exact fun hl => hl.refreshFront
  · exact fun _ _ => ⟨rfl, rfl⟩
  · rw [ha]
    rfl
  · intro hne
    have hother : w.queue.tailBlock ≠ a :=
      ne_of_mem_of_not_mem hblocks.tail_mem fun hlive => hblocks.not_free hlive hmem
    rw [set_tailBlock, set_of_ne _ hother]
    exact hfull hne
  · rw [set_self]
  · rw [SeesRoom, nextTail, set_self]
    intro heq
    have hcount := hempty.next_eq_front.mp heq
    exact absurd hcount (Nat.ne_of_lt hempty.sizeMask_pos)

theorem roomAhead_proceeds (h : Represents maxSize w s v)
    (hp : w.producer = some (.roomAhead element tailBlockNext nextBlockTail)) :
    Proceeds maxBlockSize maxSize w (.producer made) s := by
  have hblocks := h.blocks
  have hat := h.producer
  rw [hp] at hblocks hat
  obtain ⟨hhead, hfull, rfl, hroom, hcall⟩ := hat
  have hmem : tailBlockNext ∈ v.free := List.mem_of_mem_head? hhead
  obtain ⟨hitems, hempty⟩ := h.free_layout hmem (by rw [hp]; rfl)
  obtain ⟨hconstruct, hbuilt⟩ := hempty.construct (by rw [hp]; rfl) hempty.sizeMask_pos element
  have hother : w.queue.tailBlock ≠ tailBlockNext :=
    ne_of_mem_of_not_mem hblocks.tail_mem fun hlive => hblocks.not_free hlive hmem
  have hvacated : vacated w.consumer tailBlockNext = [] :=
    h.vacated_eq_nil (ne_of_mem_of_not_mem hblocks.front_mem fun hlive =>
      hblocks.not_free hlive hmem).symm
  refine ⟨_, step_producer_goto hp (innerEnqueue_roomAhead hconstruct), ?_⟩
  refine h.producerSilent v (hblocks.set_fields ?_ rfl rfl rfl ?_ ?_ rfl)
    (ProducerMoves.set_fields rfl rfl rfl rfl) ⟨hhead, ?_, ?_, ?_, hcall⟩ rfl
  · exact List.mem_append_right _ hmem
  · intro _
    rw [hp] at hbuilt
    simpa [inFlight, pending, hitems, hvacated] using hbuilt
  · intro c hc
    exact ⟨rfl, if_neg hc⟩
  · intro hne
    rw [set_tailBlock, set_of_ne _ hother]
    exact hfull hne
  · rw [set_self]
  · rw [SeesRoom, nextTail, set_self]
    exact hroom

theorem constructedAhead_proceeds (h : Represents maxSize w s v)
    (hp : w.producer = some (.constructedAhead element tailBlockNext nextBlockTail)) :
    Proceeds maxBlockSize maxSize w (.producer made) s := by
  have hblocks := h.blocks
  have hat := h.producer
  rw [hp] at hblocks hat
  obtain ⟨hhead, hfull, rfl, hroom, hcall⟩ := hat
  have hmem : tailBlockNext ∈ v.free := List.mem_of_mem_head? hhead
  have hlive : tailBlockNext ∉ v.live := fun hlive => hblocks.not_free hlive hmem
  obtain ⟨hitems, hempty⟩ := h.free_layout hmem (by rw [hp]; rfl)
  have hother : w.queue.tailBlock ≠ tailBlockNext := ne_of_mem_of_not_mem hblocks.tail_mem hlive
  have hvacated : vacated w.consumer tailBlockNext = [] :=
    h.vacated_eq_nil (ne_of_mem_of_not_mem hblocks.front_mem hlive).symm
  refine ⟨_, step_producer_goto hp rfl, ?_⟩
  refine h.producerSilent (v.setItems tailBlockNext [element])
    (hblocks.set rfl rfl rfl ?_ ?_ ?_ ?_)
    (ProducerMoves.set rfl rfl rfl rfl fun hmem' => absurd hmem' hlive) ⟨hhead, ?_, hcall⟩ ?_
  · have hpublished := hempty.publish hroom
    rw [hp] at hpublished
    simpa [inFlight, pending, hvacated] using hpublished
  · intro c hc
    exact ⟨rfl, (if_neg hc).symm, if_neg hc⟩
  · exact fun hmem' => absurd hmem' hlive
  · intro _
    exact (if_pos rfl).symm
  · intro hne
    rw [set_tailBlock, set_of_ne _ hother, View.setItems_of_ne v hother]
    exact hfull hne
  · exact v.flatMap_setItems hlive _

theorem allocating_proceeds (h : Represents maxSize w s v) (hmax : maxBlockSize < 2 ^ 62)
    (hp : w.producer = some (.allocating element tailBlock_)) :
    Proceeds maxBlockSize maxSize w (.producer made) s := by
  have hblocks := h.blocks
  have hat := h.producer
  rw [hp] at hblocks hat
  obtain ⟨rfl, hfull, hcall⟩ := hat
  cases made with
  | false => exact ⟨_, step_producer_ret hp rfl, h.refused hcall hblocks⟩
  | true =>
      obtain ⟨e, he⟩ := hblocks.large
      let size := if w.queue.largestBlockSize ≥ maxBlockSize then w.queue.largestBlockSize
        else w.queue.largestBlockSize * 2
      have hsize : ∃ e, size = 2 ^ (e + 1) ∧ w.queue.largestBlockSize ≤ size ∧ size ≤ 2 ^ 63 := by
        have hbound := hblocks.bounded.1
        by_cases hlarge : w.queue.largestBlockSize ≥ maxBlockSize
        · have hsame : size = w.queue.largestBlockSize := if_pos hlarge
          exact ⟨e, hsame.trans he, Nat.le_of_eq hsame.symm, by rwa [hsame]⟩
        · have hdouble : size = w.queue.largestBlockSize * 2 := if_neg hlarge
          exact ⟨e + 1, by rw [hdouble, he, Nat.pow_succ 2 (e + 1)], by omega, by omega⟩
      obtain ⟨e', hpow, hlarger, hbound⟩ := hsize
      have hold : ∀ a ∈ v.ring, a ≠ w.queue.allocated + 1 := by
        intro a ha heq
        have hknown := hblocks.known a (List.mem_append_left _ ha)
        omega
      have htail : w.queue.tailBlock ≠ w.queue.allocated + 1 :=
        hold _ (List.mem_append_left _ hblocks.tail_mem)
      let b : Block α := { (Block.make size : Block α) with
        data := Function.update (fun _ => none) 0 (some element)
        tail := 1
        localTail := 1
        next := (w.queue.blocks w.queue.tailBlock).next }
      have hstep : w.queue.innerEnqueue maxBlockSize true (.allocating element w.queue.tailBlock) =
          some ({ w.queue.set (w.queue.allocated + 1) b with
            allocated := w.queue.allocated + 1, largestBlockSize := size },
            .goto (.linking element w.queue.tailBlock (w.queue.allocated + 1))) := by
        simp only [innerEnqueue, makeBlock, ReaderWriterQueue.set, Block.construct,
          Function.update_self, Function.update_of_ne htail, Function.update_idem, if_true, b, size]
        rfl
      have hvacated : vacated w.consumer (w.queue.allocated + 1) = [] :=
        h.vacated_eq_nil (hold _ (List.mem_append_left _ hblocks.front_mem)).symm
      have hlive : ∀ a ∈ v.live, a ≠ w.queue.allocated + 1 :=
        fun a ha => hold a (List.mem_append_left _ ha)
      refine ⟨_, step_producer_goto hp hstep, ?_⟩
      refine h.producerSilent (v.setItems (w.queue.allocated + 1) [element])
        (hblocks.make rfl rfl ⟨e', hpow⟩ hlarger hbound rfl ?_ ?_) ?_ ⟨rfl, ?_, ?_, ?_, true, hcall⟩ ?_
      · simpa [inFlight, pending, hvacated] using Block.make_one_layout hpow element _
      · exact fun _ _ => ⟨rfl, rfl, rfl⟩
      · constructor
        · rfl
        · intro a ha
          show _ = _ ∧ _ = _ ∧ _ = _
          simp only [ReaderWriterQueue.set, Function.update_of_ne (hlive a ha), and_self]
        · intro a ha _
          exact ⟨v.setItems_of_ne (hlive a ha) _,
            congrArg Block.next (set_of_ne w.queue (hlive a ha) b)⟩
        · exact fun hne => absurd rfl hne
      · intro hne
        show ((v.setItems _ _).items w.queue.tailBlock).length =
          (Block.sizeMask ((w.queue.set (w.queue.allocated + 1) b).blocks w.queue.tailBlock))
        rw [v.setItems_of_ne htail, set_of_ne w.queue htail]
        exact hfull hne
      · show ((w.queue.set _ b).blocks _).next =
          ((w.queue.set (w.queue.allocated + 1) b).blocks w.queue.tailBlock).next
        rw [set_self, set_of_ne w.queue htail]
      · exact v.setItems_self _ _
      · exact v.flatMap_setItems (fun hmem => hlive _ hmem rfl) _

theorem linking_proceeds {newBlock : Nat} (h : Represents maxSize w s v)
    (hp : w.producer = some (.linking element tailBlock_ newBlock)) :
    Proceeds maxBlockSize maxSize w (.producer made) s := by
  have hblocks := h.blocks
  have hat := h.producer
  rw [hp] at hblocks hat
  obtain ⟨rfl, hfull, hnext, hitems, hcall⟩ := hat
  let b : Block α := { w.queue.blocks w.queue.tailBlock with next := newBlock }
  refine ⟨_, step_producer_goto hp rfl, ?_⟩
  refine h.producerSilent { v with free := newBlock :: v.free }
    (hblocks.link rfl rfl hnext rfl rfl ?_ ?_) ?_ ⟨rfl, ?_, hcall⟩ rfl
  · rw [hitems]
    exact if_pos rfl
  · intro c hc
    refine if_neg ?_
    rintro rfl
    have hnodup := hblocks.nodup
    exact (List.nodup_append.mp hnodup).2.2 _ (List.mem_append_right _ hc) _ List.mem_cons_self rfl
  · constructor
    · rfl
    · exact fun a _ => ⟨set_field (b := b) Block.front w.queue rfl a,
        set_field (b := b) Block.localTail w.queue rfl a,
        set_field (b := b) Block.sizeMask w.queue rfl a⟩
    · exact fun a _ hne => ⟨rfl, congrArg Block.next (set_of_ne w.queue hne b)⟩
    · exact fun hne => absurd rfl hne
  · intro hne
    rw [set_tailBlock, set_self]
    exact hfull hne

theorem advancing_proceeds {newTailBlock : Nat} (h : Represents maxSize w s v)
    (hp : w.producer = some (.advancing element newTailBlock)) :
    Proceeds maxBlockSize maxSize w (.producer made) s := by
  have hblocks := h.blocks
  have hat := h.producer
  rw [hp] at hblocks hat
  obtain ⟨hhead, hfull, full, hcall⟩ := hat
  obtain ⟨rest, hfree⟩ := List.head?_eq_some_iff.mp hhead
  have hmem : newTailBlock ∈ v.free := hfree ▸ List.mem_cons_self
  have hitems : v.items newTailBlock = [element] := (hblocks.empty _ hmem).trans (if_pos rfl)
  have hfront : newTailBlock ≠ w.queue.frontBlock := by
    rintro rfl
    exact hblocks.not_free hblocks.front_mem hmem
  refine ⟨_, step_producer_ret hp rfl, ?_⟩
  refine h.enqueued { v with live := v.live ++ [newTailBlock], free := rest } hcall
    (hblocks.advanceTail hfree ?_ hfull rfl rfl rfl ?_) ?_ ?_
  · rw [hitems]
    exact List.cons_ne_nil _ _
  · intro c hc
    refine (if_neg ?_).symm
    rintro rfl
    have hnodup := (List.nodup_append.mp hblocks.ring_nodup).2.1
    rw [hfree] at hnodup
    exact (List.nodup_cons.mp hnodup).1 hc
  · exact ⟨rfl, fun _ _ => ⟨rfl, rfl, rfl⟩, fun _ _ _ => ⟨rfl, rfl⟩, fun _ => hfront⟩
  · show List.flatMap v.items (v.live ++ [newTailBlock]) = _
    rw [List.flatMap_append, List.flatMap_singleton, hitems]
    rfl

/-- The producer is never stuck, and the bounded queue can follow it. -/
theorem producer_proceeds {pc : EnqueuePc α} (h : Represents maxSize w s v)
    (hmax : maxBlockSize < 2 ^ 62) (hp : w.producer = some pc) :
    Proceeds maxBlockSize maxSize w (.producer made) s := by
  cases pc with
  | entered mode element => exact entered_proceeds h hp
  | atTail mode element tailBlock_ => exact atTail_proceeds h hp
  | rereadFront mode element tailBlock_ blockTail nextBlockTail => exact rereadFront_proceeds h hp
  | hasRoom element tailBlock_ blockTail nextBlockTail => exact hasRoom_proceeds h hp
  | constructed element tailBlock_ nextBlockTail => exact constructed_proceeds h hp
  | tailFull mode element tailBlock_ => exact tailFull_proceeds h hp
  | blockAhead element tailBlock_ => exact blockAhead_proceeds h hp
  | roomAhead element tailBlockNext nextBlockTail => exact roomAhead_proceeds h hp
  | constructedAhead element tailBlockNext nextBlockTail => exact constructedAhead_proceeds h hp
  | allocating element tailBlock_ => exact allocating_proceeds h hmax hp
  | linking element tailBlock_ newBlock => exact linking_proceeds h hp
  | advancing element newTailBlock => exact advancing_proceeds h hp

end Producer

end QueueThreads

end LightQ
