/-
# `Queue.Represents` — the two threads of a queue, and the queue they make

`Represents` ties a state of the two threads to a state of the bounded queue
by a `View` of the blocks.  `ProducerAt` and `ConsumerAt` say what each
thread's place in its program promises; `ProducerAt.frame` and
`ConsumerAt.frame` say that the steps of the other thread do not spoil it.

What a place promises is about the block that the thread is in, and about the
bounded queue.  Only in the front block has the consumer emptied a slot
(`Represents.vacated_eq_nil`), and that slot is the one of the element it holds
(`Represents.held_eq`, `Represents.vacated_length`); a dequeue in progress is
called, and has taken what its program holds (`ConsumerAt.called`).  An enqueue
takes effect as it returns, so that between calls no element has landed in a block
that is not the tail block yet (`ProducerAt.landed_nil`).

With all of it the books of the two sides agree: what has been accepted has been
received, or is held, or is in the queue (`Represents.account`).
-/
import LightQ.Queue.BlockRing

namespace LightQ

namespace QueueThreads

open ReaderWriterQueue

variable {α : Type}

/-! ## Where the threads are -/

/-- The slot the consumer has emptied and not given back. -/
def vacated : Option (DequeuePc α) → Nat → List (Option α)
  | some (.moved _ frontBlock_ _), a => if a = frontBlock_ then [none] else []
  | _, _ => []

/-- What the consumer has moved out and not returned. -/
def heldAt : Option (DequeuePc α) → List α
  | some (.moved result _ _) => [result]
  | _ => []

/-- The element the producer has built and not published. -/
def pending : Option (EnqueuePc α) → Nat → List (Option α)
  | some (.constructed element tailBlock_ _), a => if a = tailBlock_ then [some element] else []
  | some (.constructedAhead element tailBlockNext _), a =>
      if a = tailBlockNext then [some element] else []
  | _, _ => []

/-- What a free block holds that is about to be the tail block. -/
def landed : Option (EnqueuePc α) → Nat → List α
  | some (.advancing element newTailBlock), a => if a = newTailBlock then [element] else []
  | _, _ => []

/-- The block that is made and not linked. -/
def reserved : Option (EnqueuePc α) → List Nat
  | some (.linking _ _ newBlock) => [newBlock]
  | _ => []

def inFlight (p : Option (EnqueuePc α)) (c : Option (DequeuePc α)) : InFlight α :=
  ⟨vacated c, pending p, landed p, reserved p⟩

/-- The producer may leave the tail block: it is full, unless the consumer is
in it. -/
def TailFull (q : ReaderWriterQueue α) (v : View α) : Prop :=
  q.tailBlock ≠ q.frontBlock → (v.items q.tailBlock).length = (q.blocks q.tailBlock).sizeMask

/-- The index behind the tail of a block. -/
def nextTail (q : ReaderWriterQueue α) (a : Nat) : Nat :=
  ((q.blocks a).tail + 1) &&& (q.blocks a).sizeMask

/-- The producer has seen room in a block. -/
def SeesRoom (q : ReaderWriterQueue α) (a : Nat) : Prop := nextTail q a ≠ (q.blocks a).localFront

/-- The consumer has seen an element in a block. -/
def SeesElement (q : ReaderWriterQueue α) (a : Nat) : Prop :=
  (q.blocks a).front ≠ (q.blocks a).localTail

def ProducerAt (q : ReaderWriterQueue α) (v : View α) :
    Option (EnqueuePc α) → Fifo.Producer α → Prop
  | none, p => p = .idle
  | some (.entered _ element), p => ∃ full, p = .calling element full
  | some (.atTail _ element tailBlock_), p =>
      tailBlock_ = q.tailBlock ∧ ∃ full, p = .calling element full
  | some (.rereadFront _ element tailBlock_ blockTail nextBlockTail), p =>
      tailBlock_ = q.tailBlock ∧ blockTail = (q.blocks tailBlock_).tail ∧
        nextBlockTail = nextTail q tailBlock_ ∧ ∃ full, p = .calling element full
  | some (.hasRoom element tailBlock_ blockTail nextBlockTail), p =>
      tailBlock_ = q.tailBlock ∧ blockTail = (q.blocks tailBlock_).tail ∧
        nextBlockTail = nextTail q tailBlock_ ∧ SeesRoom q tailBlock_ ∧
        ∃ full, p = .calling element full
  | some (.constructed element tailBlock_ nextBlockTail), p =>
      tailBlock_ = q.tailBlock ∧ nextBlockTail = nextTail q tailBlock_ ∧ SeesRoom q tailBlock_ ∧
        ∃ full, p = .calling element full
  | some (.tailFull _ element tailBlock_), p =>
      tailBlock_ = q.tailBlock ∧ TailFull q v ∧ (v.free = [] → p = .calling element true) ∧
        ∃ full, p = .calling element full
  | some (.blockAhead element tailBlock_), p =>
      tailBlock_ = q.tailBlock ∧ TailFull q v ∧ v.free ≠ [] ∧ ∃ full, p = .calling element full
  | some (.roomAhead element tailBlockNext nextBlockTail), p =>
      v.free.head? = some tailBlockNext ∧ TailFull q v ∧
        nextBlockTail = (q.blocks tailBlockNext).tail ∧ SeesRoom q tailBlockNext ∧
        ∃ full, p = .calling element full
  | some (.constructedAhead element tailBlockNext nextBlockTail), p =>
      v.free.head? = some tailBlockNext ∧ TailFull q v ∧
        nextBlockTail = (q.blocks tailBlockNext).tail ∧ SeesRoom q tailBlockNext ∧
        ∃ full, p = .calling element full
  | some (.allocating element tailBlock_), p =>
      tailBlock_ = q.tailBlock ∧ TailFull q v ∧ p = .calling element true
  | some (.linking element tailBlock_ newBlock), p =>
      tailBlock_ = q.tailBlock ∧ TailFull q v ∧
        (q.blocks newBlock).next = (q.blocks tailBlock_).next ∧ v.items newBlock = [element] ∧
        ∃ full, p = .calling element full
  | some (.advancing element newTailBlock), p =>
      v.free.head? = some newTailBlock ∧ TailFull q v ∧ ∃ full, p = .calling element full

def ConsumerAt (q : ReaderWriterQueue α) (v : View α) :
    Option (DequeuePc α) → Fifo.Consumer α → Prop
  | none, c => c = .idle
  | some .entered, c => ∃ empty, c = .calling empty
  | some (.atFront frontBlock_), c => frontBlock_ = q.frontBlock ∧ ∃ empty, c = .calling empty
  | some (.rereadTail frontBlock_ blockFront), c =>
      frontBlock_ = q.frontBlock ∧ blockFront = (q.blocks frontBlock_).front ∧
        ∃ empty, c = .calling empty
  | some (.nonEmptyFrontBlock frontBlock_ blockFront), c =>
      frontBlock_ = q.frontBlock ∧ blockFront = (q.blocks frontBlock_).front ∧
        SeesElement q frontBlock_ ∧ ∃ empty, c = .calling empty
  | some (.moved result frontBlock_ blockFront), c =>
      frontBlock_ = q.frontBlock ∧
        blockFront = ((q.blocks frontBlock_).front + 1) &&& (q.blocks frontBlock_).sizeMask ∧
        SeesElement q frontBlock_ ∧ c = .done result
  | some (.drained frontBlock_), c =>
      frontBlock_ = q.frontBlock ∧ (frontBlock_ = q.tailBlock → c = .calling true) ∧
        ∃ empty, c = .calling empty
  | some .reread, c => q.frontBlock ≠ q.tailBlock ∧ ∃ empty, c = .calling empty
  | some (.leaving frontBlock_), c =>
      frontBlock_ = q.frontBlock ∧ q.frontBlock ≠ q.tailBlock ∧ v.items q.frontBlock = [] ∧
        ∃ empty, c = .calling empty
  | some (.nextBlock nextBlock), c =>
      nextBlock = (q.blocks q.frontBlock).next ∧ q.frontBlock ≠ q.tailBlock ∧
        v.items q.frontBlock = [] ∧ ∃ empty, c = .calling empty
  | some (.advancing nextBlock nextBlockFront), c =>
      nextBlock = (q.blocks q.frontBlock).next ∧ q.frontBlock ≠ q.tailBlock ∧
        v.items q.frontBlock = [] ∧ nextBlockFront = (q.blocks nextBlock).front ∧
        SeesElement q nextBlock ∧ ∃ empty, c = .calling empty

/-- The two threads and their queue, and the bounded queue they make. -/
structure Represents (maxSize : Nat) (w : World α) (s : Fifo.State α) (v : View α) : Prop where
  blocks : Blocks maxSize w.queue v (inFlight w.producer w.consumer)
  producer : ProducerAt w.queue v w.producer s.producer
  consumer : ConsumerAt w.queue v w.consumer s.consumer
  items : s.items = v.contents
  history : s.history = w.history

/-! ## What the other thread leaves alone -/

/-- What the steps of the producer leave to the consumer. -/
structure ProducerMoves (q q' : ReaderWriterQueue α) (v v' : View α) : Prop where
  frontBlock : q'.frontBlock = q.frontBlock
  fields : ∀ a ∈ v.live, (q'.blocks a).front = (q.blocks a).front ∧
    (q'.blocks a).localTail = (q.blocks a).localTail ∧
    (q'.blocks a).sizeMask = (q.blocks a).sizeMask
  before : ∀ a ∈ v.live, a ≠ q.tailBlock →
    v'.items a = v.items a ∧ (q'.blocks a).next = (q.blocks a).next
  tailBlock : q'.tailBlock ≠ q.tailBlock → q'.tailBlock ≠ q.frontBlock

/-- What the steps of the consumer leave to the producer. -/
structure ConsumerMoves (q q' : ReaderWriterQueue α) (v v' : View α) : Prop where
  tailBlock : q'.tailBlock = q.tailBlock
  fields : ∀ a, (q'.blocks a).tail = (q.blocks a).tail ∧
    (q'.blocks a).localFront = (q.blocks a).localFront ∧
    (q'.blocks a).sizeMask = (q.blocks a).sizeMask ∧ (q'.blocks a).next = (q.blocks a).next
  full : TailFull q v → TailFull q' v'
  free : ∃ more, v'.free = v.free ++ more
  items : ∀ a, a ∉ v.live → v'.items a = v.items a

section Frames

variable {maxSize : Nat} {q q' : ReaderWriterQueue α} {v v' : View α} {f : InFlight α}

theorem ProducerMoves.sees (h : ProducerMoves q q' v v') {a : Nat} (ha : a ∈ v.live) :
    SeesElement q' a ↔ SeesElement q a := by
  obtain ⟨hfront, hlocal, -⟩ := h.fields a ha
  rw [SeesElement, SeesElement, hfront, hlocal]

theorem ConsumerAt.frame {pc : Option (DequeuePc α)} {c : Fifo.Consumer α}
    (hc : ConsumerAt q v pc c) (hblocks : Blocks maxSize q v f) (h : ProducerMoves q q' v v') :
    ConsumerAt q' v' pc c := by
  have hfront := h.frontBlock
  have hmem := hblocks.front_mem
  obtain ⟨hfields, -, hmask⟩ := h.fields _ hmem
  have hbehind : q.frontBlock ≠ q.tailBlock → q.frontBlock ≠ q'.tailBlock := by
    intro hne heq
    by_cases hsame : q'.tailBlock = q.tailBlock
    · exact hne (heq.trans hsame)
    · exact h.tailBlock hsame heq.symm
  cases pc with
  | none => exact hc
  | some pc =>
      cases pc with
      | entered => exact hc
      | atFront frontBlock_ => exact ⟨hc.1.trans hfront.symm, hc.2⟩
      | rereadTail frontBlock_ blockFront =>
          obtain ⟨rfl, hbf, hcall⟩ := hc
          exact ⟨hfront.symm, hbf.trans hfields.symm, hcall⟩
      | nonEmptyFrontBlock frontBlock_ blockFront =>
          obtain ⟨rfl, hbf, hsees, hcall⟩ := hc
          exact ⟨hfront.symm, hbf.trans hfields.symm, (h.sees hmem).mpr hsees, hcall⟩
      | moved result frontBlock_ blockFront =>
          obtain ⟨rfl, hbf, hsees, hdone⟩ := hc
          refine ⟨hfront.symm, ?_, (h.sees hmem).mpr hsees, hdone⟩
          rw [hfields, hmask]
          exact hbf
      | drained frontBlock_ =>
          obtain ⟨rfl, hempty, hcall⟩ := hc
          refine ⟨hfront.symm, ?_, hcall⟩
          intro htail
          by_contra hno
          exact hbehind (fun heq => hno (hempty heq)) htail
      | reread =>
          obtain ⟨hne, hcall⟩ := hc
          exact ⟨hfront ▸ hbehind hne, hcall⟩
      | leaving frontBlock_ =>
          obtain ⟨rfl, hne, hitems, hcall⟩ := hc
          refine ⟨hfront.symm, hfront ▸ hbehind hne, ?_, hcall⟩
          rw [hfront, (h.before _ hmem hne).1]
          exact hitems
      | nextBlock nextBlock =>
          obtain ⟨rfl, hne, hitems, hcall⟩ := hc
          obtain ⟨hsame, hnext⟩ := h.before _ hmem hne
          refine ⟨?_, hfront ▸ hbehind hne, ?_, hcall⟩
          · rw [hfront, hnext]
          · rw [hfront, hsame]
            exact hitems
      | advancing nextBlock nextBlockFront =>
          obtain ⟨rfl, hne, hitems, hbf, hsees, hcall⟩ := hc
          obtain ⟨hsame, hnext⟩ := h.before _ hmem hne
          obtain ⟨l, hl⟩ := hblocks.next_front hne
          have hlive : (q.blocks q.frontBlock).next ∈ v.live :=
            hl ▸ List.mem_cons_of_mem _ List.mem_cons_self
          refine ⟨?_, hfront ▸ hbehind hne, ?_, ?_, (h.sees hlive).mpr hsees, hcall⟩
          · rw [hfront, hnext]
          · rw [hfront, hsame]
            exact hitems
          · rw [(h.fields _ hlive).1]
            exact hbf

theorem ConsumerMoves.next (h : ConsumerMoves q q' v v') (a : Nat) :
    nextTail q' a = nextTail q a := by
  obtain ⟨htail, -, hmask, -⟩ := h.fields a
  rw [nextTail, nextTail, htail, hmask]

theorem ConsumerMoves.room (h : ConsumerMoves q q' v v') (a : Nat) :
    SeesRoom q' a ↔ SeesRoom q a := by
  rw [SeesRoom, SeesRoom, h.next, (h.fields a).2.1]

theorem ConsumerMoves.free_ne_nil (h : ConsumerMoves q q' v v') (hfree : v.free ≠ []) :
    v'.free ≠ [] := by
  obtain ⟨more, hmore⟩ := h.free
  rw [hmore]
  exact List.append_ne_nil_of_left_ne_nil hfree more

theorem ConsumerMoves.head (h : ConsumerMoves q q' v v') {a : Nat} (hfree : v.free.head? = some a) :
    v'.free.head? = some a := by
  obtain ⟨more, hmore⟩ := h.free
  rw [hmore, List.head?_append, hfree]
  rfl

theorem ProducerAt.frame {pc : Option (EnqueuePc α)} {p : Fifo.Producer α}
    (hp : ProducerAt q v pc p) (hblocks : Blocks maxSize q v f)
    (hreserved : f.reserved = reserved pc) (h : ConsumerMoves q q' v v') :
    ProducerAt q' v' pc p := by
  have htail := h.tailBlock
  cases pc with
  | none => exact hp
  | some pc =>
      cases pc with
      | entered mode element => exact hp
      | atTail mode element tailBlock_ => exact ⟨hp.1.trans htail.symm, hp.2⟩
      | rereadFront mode element tailBlock_ blockTail nextBlockTail =>
          obtain ⟨rfl, hbt, hnt, hcall⟩ := hp
          exact ⟨htail.symm, hbt.trans (h.fields _).1.symm, hnt.trans (h.next _).symm, hcall⟩
      | hasRoom element tailBlock_ blockTail nextBlockTail =>
          obtain ⟨rfl, hbt, hnt, hroom, hcall⟩ := hp
          exact ⟨htail.symm, hbt.trans (h.fields _).1.symm, hnt.trans (h.next _).symm,
            (h.room _).mpr hroom, hcall⟩
      | constructed element tailBlock_ nextBlockTail =>
          obtain ⟨rfl, hnt, hroom, hcall⟩ := hp
          exact ⟨htail.symm, hnt.trans (h.next _).symm, (h.room _).mpr hroom, hcall⟩
      | tailFull mode element tailBlock_ =>
          obtain ⟨rfl, hfull, hseen, hcall⟩ := hp
          refine ⟨htail.symm, h.full hfull, ?_, hcall⟩
          intro hfree
          by_contra hno
          exact h.free_ne_nil (fun hnil => hno (hseen hnil)) hfree
      | blockAhead element tailBlock_ =>
          obtain ⟨rfl, hfull, hfree, hcall⟩ := hp
          exact ⟨htail.symm, h.full hfull, h.free_ne_nil hfree, hcall⟩
      | roomAhead element tailBlockNext nextBlockTail =>
          obtain ⟨hhead, hfull, hnt, hroom, hcall⟩ := hp
          exact ⟨h.head hhead, h.full hfull, hnt.trans (h.fields _).1.symm, (h.room _).mpr hroom,
            hcall⟩
      | constructedAhead element tailBlockNext nextBlockTail =>
          obtain ⟨hhead, hfull, hnt, hroom, hcall⟩ := hp
          exact ⟨h.head hhead, h.full hfull, hnt.trans (h.fields _).1.symm, (h.room _).mpr hroom,
            hcall⟩
      | allocating element tailBlock_ =>
          obtain ⟨rfl, hfull, hseen⟩ := hp
          exact ⟨htail.symm, h.full hfull, hseen⟩
      | linking element tailBlock_ newBlock =>
          obtain ⟨rfl, hfull, hnext, hitems, hcall⟩ := hp
          have hnew : newBlock ∉ v.live := by
            have hnodup := hblocks.nodup
            rw [hreserved] at hnodup
            intro hmem
            exact (List.nodup_append.mp hnodup).2.2 newBlock (List.mem_append_left _ hmem)
              newBlock List.mem_cons_self rfl
          refine ⟨htail.symm, h.full hfull, ?_, (h.items _ hnew).trans hitems, hcall⟩
          rw [(h.fields _).2.2.2, (h.fields _).2.2.2]
          exact hnext
      | advancing element newTailBlock =>
          obtain ⟨hhead, hfull, hcall⟩ := hp
          exact ⟨h.head hhead, h.full hfull, hcall⟩

end Frames

/-- The bounded queue can follow the two threads to `w`. -/
def Follows (maxSize : Nat) (s : Fifo.State α) (w : World α) : Prop :=
  ∃ s' v', Fifo.Reaches maxSize s s' ∧ Represents maxSize w s' v'

/-- The step is not stuck, and the bounded queue can follow it. -/
def Proceeds (maxBlockSize maxSize : Nat) (w : World α) (a : Action α) (s : Fifo.State α) : Prop :=
  ∃ w', w.step maxBlockSize a = some w' ∧ Follows maxSize s w'

section Vacated

variable {maxSize : Nat} {w : World α} {s : Fifo.State α} {v : View α}

theorem Represents.vacated_eq_nil (h : Represents maxSize w s v) {a : Nat}
    (ha : a ≠ w.queue.frontBlock) : vacated w.consumer a = [] := by
  have hat := h.consumer
  cases hc : w.consumer with
  | none => rfl
  | some pc =>
      rw [hc] at hat
      cases pc with
      | moved result frontBlock_ blockFront => exact if_neg (hat.1 ▸ ha)
      | _ => rfl

theorem ConsumerAt.called {q : ReaderWriterQueue α} {pc : DequeuePc α} {c : Fifo.Consumer α}
    (h : ConsumerAt q v (some pc) c) :
    (∃ empty, c = .calling empty) ∧ heldAt (some pc) = [] ∨
      ∃ x, c = .done x ∧ heldAt (some pc) = [x] := by
  cases pc with
  | moved result frontBlock_ blockFront => exact Or.inr ⟨result, h.2.2.2, rfl⟩
  | entered => exact Or.inl ⟨h, rfl⟩
  | atFront frontBlock_ => exact Or.inl ⟨h.2, rfl⟩
  | rereadTail frontBlock_ blockFront => exact Or.inl ⟨h.2.2, rfl⟩
  | nonEmptyFrontBlock frontBlock_ blockFront => exact Or.inl ⟨h.2.2.2, rfl⟩
  | drained frontBlock_ => exact Or.inl ⟨h.2.2, rfl⟩
  | reread => exact Or.inl ⟨h.2, rfl⟩
  | leaving frontBlock_ => exact Or.inl ⟨h.2.2.2, rfl⟩
  | nextBlock nextBlock => exact Or.inl ⟨h.2.2.2, rfl⟩
  | advancing nextBlock nextBlockFront => exact Or.inl ⟨h.2.2.2.2.2, rfl⟩

theorem Represents.held_eq (h : Represents maxSize w s v) :
    s.consumer.held = heldAt w.consumer := by
  have hat := h.consumer
  cases hc : w.consumer with
  | none =>
      rw [hc] at hat
      rw [show s.consumer = .idle from hat]
      rfl
  | some pc =>
      rw [hc] at hat
      rcases hat.called with ⟨⟨empty, hcall⟩, hheld⟩ | ⟨x, hdone, hheld⟩
      · rw [hcall, hheld]
        rfl
      · rw [hdone, hheld]
        rfl

theorem Represents.calling_of_some (h : Represents maxSize w s v) {pc : DequeuePc α}
    (hc : w.consumer = some pc) : s.consumer ≠ .idle := by
  have hat := h.consumer
  rw [hc] at hat
  rcases hat.called with ⟨⟨empty, hcall⟩, -⟩ | ⟨x, hdone, -⟩
  · rw [hcall]
    exact nofun
  · rw [hdone]
    exact nofun

theorem Represents.vacated_length (h : Represents maxSize w s v) :
    (vacated w.consumer w.queue.frontBlock).length = s.consumer.held.length := by
  have hat := h.consumer
  rw [h.held_eq]
  cases hc : w.consumer with
  | none => rfl
  | some pc =>
      rw [hc] at hat
      cases pc with
      | moved result frontBlock_ blockFront => rw [vacated, if_pos hat.1.symm]; rfl
      | _ => rfl

theorem ProducerAt.landed_nil {q : ReaderWriterQueue α} {pc : Option (EnqueuePc α)}
    {p : Fifo.Producer α} (h : ProducerAt q v pc p) : p.landed = [] := by
  cases pc with
  | none => rw [show p = .idle from h]; rfl
  | some pc =>
      cases pc with
      | entered mode element => obtain ⟨full, rfl⟩ := h; rfl
      | atTail mode element tailBlock_ => obtain ⟨-, full, rfl⟩ := h; rfl
      | rereadFront mode element tailBlock_ blockTail nextBlockTail =>
          obtain ⟨-, -, -, full, rfl⟩ := h
          rfl
      | hasRoom element tailBlock_ blockTail nextBlockTail =>
          obtain ⟨-, -, -, -, full, rfl⟩ := h
          rfl
      | constructed element tailBlock_ nextBlockTail => obtain ⟨-, -, -, full, rfl⟩ := h; rfl
      | tailFull mode element tailBlock_ => obtain ⟨-, -, -, full, rfl⟩ := h; rfl
      | blockAhead element tailBlock_ => obtain ⟨-, -, -, full, rfl⟩ := h; rfl
      | roomAhead element tailBlockNext nextBlockTail => obtain ⟨-, -, -, -, full, rfl⟩ := h; rfl
      | constructedAhead element tailBlockNext nextBlockTail =>
          obtain ⟨-, -, -, -, full, rfl⟩ := h
          rfl
      | allocating element tailBlock_ => obtain ⟨-, -, rfl⟩ := h; rfl
      | linking element tailBlock_ newBlock => obtain ⟨-, -, -, -, full, rfl⟩ := h; rfl
      | advancing element newTailBlock => obtain ⟨-, -, full, rfl⟩ := h; rfl

/-- What has been accepted has been received, or is held, or is in the
queue. -/
theorem Represents.account (h : Represents maxSize w s v)
    (hreach : Fifo.Reaches maxSize Fifo.start s) :
    (Fifo.tally w.history).received ++ heldAt w.consumer ++ s.items =
      (Fifo.tally w.history).accepted := by
  have hcons := (Fifo.conserved_of_reaches hreach).conserved
  rwa [h.producer.landed_nil, List.append_nil, h.held_eq, h.history] at hcons

end Vacated

end QueueThreads

end LightQ
