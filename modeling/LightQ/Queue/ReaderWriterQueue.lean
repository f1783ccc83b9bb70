/-
# `Queue.ReaderWriterQueue` — the queue of a topic, one memory access at a time

`moodycamel::ReaderWriterQueue` is a ring of blocks, each a circular buffer.
The producer thread owns the tail indices and `tailBlock`, the consumer thread
the front indices and `frontBlock`; each block also holds each thread's copy of
the other's index.  A pointer is an address, 0 is the null pointer, and blocks
are allocated from address 1 on.

`inner_enqueue` and `try_dequeue` run as programs of single steps.  A step
makes at most one access to what the other thread writes or reads; a load of a
variable that only the loading thread writes goes with the step after it,
since nothing can come between.  Every step sees what the steps before it
stored: the fences are taken to do what they are there for.  A step is `none`
where an assertion would fail, an element would be built over another one, or
one would be taken from a slot that has none.

    inner_enqueue   entered → atTail → rereadFront → hasRoom → constructed
                                                   ↘ tailFull → blockAhead → roomAhead →
                                                       constructedAhead → advancing
                                                              ↘ allocating → linking → advancing
    try_dequeue     entered → atFront → rereadTail → nonEmptyFrontBlock → moved
                                                   ↘ drained → reread → leaving → nextBlock →
                                                       advancing → nonEmptyFrontBlock
-/
import LightQ.Lib.Fifo
import LightQ.Lib.LinkedRing
import LightQ.Lib.MachineInt

namespace LightQ

open MachineInt

structure Block (α : Type) where
  front : Nat
  localTail : Nat
  tail : Nat
  localFront : Nat
  next : Nat
  data : Nat → Option α
  sizeMask : Nat

namespace Block

variable {α : Type}

/-- `Block(size, ...)`: empty, and linked to nothing. -/
def make (size : Nat) : Block α := ⟨0, 0, 0, 0, 0, fun _ => none, size - 1⟩

/-- `new (location) T(element)`. -/
def construct (b : Block α) (i : Nat) (element : α) : Option (Block α) :=
  match b.data i with
  | none => some { b with data := Function.update b.data i (some element) }
  | some _ => none

/-- `result = std::move(*element); element->~T()`. -/
def moveOut (b : Block α) (i : Nat) : Option (α × Block α) :=
  match b.data i with
  | some element => some (element, { b with data := Function.update b.data i none })
  | none => none

end Block

structure ReaderWriterQueue (α : Type) where
  blocks : Nat → Block α
  allocated : Nat
  frontBlock : Nat
  tailBlock : Nat
  largestBlockSize : Nat

/-- `AllocationMode`. -/
inductive AllocationMode where
  | canAlloc
  | cannotAlloc
deriving DecidableEq, Repr

/-- Where a program goes on, or what it returns. -/
inductive Next (π ρ : Type) where
  | goto (pc : π)
  | ret (r : ρ)

/-- `inner_enqueue<mode>`, between two steps. -/
inductive EnqueuePc (α : Type) where
  | entered (mode : AllocationMode) (element : α)
  | atTail (mode : AllocationMode) (element : α) (tailBlock_ : Nat)
  | rereadFront (mode : AllocationMode) (element : α)
      (tailBlock_ blockTail nextBlockTail : Nat)
  | hasRoom (element : α) (tailBlock_ blockTail nextBlockTail : Nat)
  | constructed (element : α) (tailBlock_ nextBlockTail : Nat)
  | tailFull (mode : AllocationMode) (element : α) (tailBlock_ : Nat)
  | blockAhead (element : α) (tailBlock_ : Nat)
  | roomAhead (element : α) (tailBlockNext nextBlockTail : Nat)
  | constructedAhead (element : α) (tailBlockNext nextBlockTail : Nat)
  | allocating (element : α) (tailBlock_ : Nat)
  | linking (element : α) (tailBlock_ newBlock : Nat)
  | advancing (element : α) (newTailBlock : Nat)

/-- `try_dequeue`, between two steps. -/
inductive DequeuePc (α : Type) where
  | entered
  | atFront (frontBlock_ : Nat)
  | rereadTail (frontBlock_ blockFront : Nat)
  | nonEmptyFrontBlock (frontBlock_ blockFront : Nat)
  | moved (result : α) (frontBlock_ blockFront : Nat)
  | drained (frontBlock_ : Nat)
  | reread
  | leaving (frontBlock_ : Nat)
  | nextBlock (nextBlock : Nat)
  | advancing (nextBlock nextBlockFront : Nat)

namespace ReaderWriterQueue

variable {α : Type}

def set (q : ReaderWriterQueue α) (a : Nat) (b : Block α) : ReaderWriterQueue α :=
  { q with blocks := Function.update q.blocks a b }

/-- `make_block`, where the allocation succeeds: the block is at the next
address. -/
def makeBlock (q : ReaderWriterQueue α) (capacity : Nat) : ReaderWriterQueue α :=
  { q.set (q.allocated + 1) (Block.make capacity) with allocated := q.allocated + 1 }

/-! ## Construction -/

/-- `ceilToPow2`, on 64-bit words. -/
def ceilToPow2 (x : Nat) : Nat :=
  let x : BitVec 64 := BitVec.ofNat 64 x - 1
  let x := x ||| x >>> 1
  let x := x ||| x >>> 2
  let x := x ||| x >>> 4
  let x := [1, 2, 4].foldl (fun (x : BitVec 64) (i : Nat) => x ||| x >>> (i <<< 3)) x
  (x + 1).toNat

/-- The loop that reserves the initial blocks. -/
def reserve (size : Nat) : Nat → ReaderWriterQueue α → Nat → Nat → ReaderWriterQueue α × Nat
  | 0, q, firstBlock, _ => (q, firstBlock)
  | i + 1, q, firstBlock, lastBlock =>
      let q := q.makeBlock size
      let block := q.allocated
      let first := if firstBlock = 0 then block else firstBlock
      let q := if firstBlock = 0 then q
        else q.set lastBlock { q.blocks lastBlock with next := block }
      let q := q.set block { q.blocks block with next := first }
      reserve size i q first block

/-- `ReaderWriterQueue(maxSize)`, where every allocation succeeds. -/
def create (maxBlockSize maxSize : Nat) : ReaderWriterQueue α :=
  let q : ReaderWriterQueue α := ⟨fun _ => Block.make 0, 0, 0, 0, ceilToPow2 (maxSize + 1)⟩
  let (q, firstBlock) :=
    if q.largestBlockSize > maxBlockSize * 2 then
      let initialBlockCount := (maxSize + maxBlockSize * 2 - 3) / (maxBlockSize - 1)
      let q := { q with largestBlockSize := maxBlockSize }
      reserve maxBlockSize initialBlockCount q 0 0
    else
      let q := q.makeBlock q.largestBlockSize
      let firstBlock := q.allocated
      (q.set firstBlock { q.blocks firstBlock with next := firstBlock }, firstBlock)
  { q with frontBlock := firstBlock, tailBlock := firstBlock }

/-! ## `inner_enqueue` -/

variable (maxBlockSize : Nat)

/-- One step of `inner_enqueue`; `made` is whether `make_block` succeeds. -/
def innerEnqueue (made : Bool) (q : ReaderWriterQueue α) :
    EnqueuePc α → Option (ReaderWriterQueue α × Next (EnqueuePc α) Bool)
  | .entered mode element => some (q, .goto (.atTail mode element q.tailBlock))
  | .atTail mode element tailBlock_ =>
      let b := q.blocks tailBlock_
      let blockFront := b.localFront
      let blockTail := b.tail
      let nextBlockTail := (blockTail + 1) &&& b.sizeMask
      if nextBlockTail ≠ blockFront then
        some (q, .goto (.hasRoom element tailBlock_ blockTail nextBlockTail))
      else
        some (q, .goto (.rereadFront mode element tailBlock_ blockTail nextBlockTail))
  | .rereadFront mode element tailBlock_ blockTail nextBlockTail =>
      let b := q.blocks tailBlock_
      let q := q.set tailBlock_ { b with localFront := b.front }
      if nextBlockTail ≠ b.front then
        some (q, .goto (.hasRoom element tailBlock_ blockTail nextBlockTail))
      else
        some (q, .goto (.tailFull mode element tailBlock_))
  | .hasRoom element tailBlock_ blockTail nextBlockTail =>
      match (q.blocks tailBlock_).construct blockTail element with
      | none => none
      | some b => some (q.set tailBlock_ b, .goto (.constructed element tailBlock_ nextBlockTail))
  | .constructed _ tailBlock_ nextBlockTail =>
      some (q.set tailBlock_ { q.blocks tailBlock_ with tail := nextBlockTail }, .ret true)
  | .tailFull mode element tailBlock_ =>
      if (q.blocks tailBlock_).next ≠ q.frontBlock then
        some (q, .goto (.blockAhead element tailBlock_))
      else
        match mode with
        | .canAlloc => some (q, .goto (.allocating element tailBlock_))
        | .cannotAlloc => some (q, .ret false)
  | .blockAhead element tailBlock_ =>
      let tailBlockNext := (q.blocks tailBlock_).next
      let b := q.blocks tailBlockNext
      -- the assertion `nextBlockFront == nextBlockTail`
      if b.front = b.tail then
        some (q.set tailBlockNext { b with localFront := b.front },
          .goto (.roomAhead element tailBlockNext b.tail))
      else none
  | .roomAhead element tailBlockNext nextBlockTail =>
      match (q.blocks tailBlockNext).construct nextBlockTail element with
      | none => none
      | some b =>
          some (q.set tailBlockNext b, .goto (.constructedAhead element tailBlockNext nextBlockTail))
  | .constructedAhead element tailBlockNext nextBlockTail =>
      let b := q.blocks tailBlockNext
      some (q.set tailBlockNext { b with tail := (nextBlockTail + 1) &&& b.sizeMask },
        .goto (.advancing element tailBlockNext))
  | .allocating element tailBlock_ =>
      let newBlockSize :=
        if q.largestBlockSize ≥ maxBlockSize then q.largestBlockSize else q.largestBlockSize * 2
      if made then
        let q := { q.makeBlock newBlockSize with largestBlockSize := newBlockSize }
        let newBlock := q.allocated
        match (q.blocks newBlock).construct 0 element with
        | none => none
        | some b =>
            let b := { b with tail := 1, localTail := 1, next := (q.blocks tailBlock_).next }
            some (q.set newBlock b, .goto (.linking element tailBlock_ newBlock))
      else some (q, .ret false)
  | .linking element tailBlock_ newBlock =>
      some (q.set tailBlock_ { q.blocks tailBlock_ with next := newBlock },
        .goto (.advancing element newBlock))
  | .advancing _ newTailBlock => some ({ q with tailBlock := newTailBlock }, .ret true)

/-! ## `try_dequeue` -/

/-- One step of `try_dequeue`. -/
def tryDequeue (q : ReaderWriterQueue α) :
    DequeuePc α → Option (ReaderWriterQueue α × Next (DequeuePc α) (Option α))
  | .entered => some (q, .goto (.atFront q.frontBlock))
  | .atFront frontBlock_ =>
      let b := q.blocks frontBlock_
      if b.front ≠ b.localTail then
        some (q, .goto (.nonEmptyFrontBlock frontBlock_ b.front))
      else
        some (q, .goto (.rereadTail frontBlock_ b.front))
  | .rereadTail frontBlock_ blockFront =>
      let b := q.blocks frontBlock_
      let q := q.set frontBlock_ { b with localTail := b.tail }
      if blockFront ≠ b.tail then
        some (q, .goto (.nonEmptyFrontBlock frontBlock_ blockFront))
      else
        some (q, .goto (.drained frontBlock_))
  | .nonEmptyFrontBlock frontBlock_ blockFront =>
      match (q.blocks frontBlock_).moveOut blockFront with
      | none => none
      | some (result, b) =>
          let blockFront := (blockFront + 1) &&& b.sizeMask
          some (q.set frontBlock_ b, .goto (.moved result frontBlock_ blockFront))
  | .moved result frontBlock_ blockFront =>
      some (q.set frontBlock_ { q.blocks frontBlock_ with front := blockFront }, .ret (some result))
  | .drained frontBlock_ =>
      if frontBlock_ ≠ q.tailBlock then some (q, .goto .reread) else some (q, .ret none)
  | .reread =>
      let frontBlock_ := q.frontBlock
      let b := q.blocks frontBlock_
      let q := q.set frontBlock_ { b with localTail := b.tail }
      if b.front ≠ b.tail then
        some (q, .goto (.nonEmptyFrontBlock frontBlock_ b.front))
      else
        some (q, .goto (.leaving frontBlock_))
  | .leaving frontBlock_ => some (q, .goto (.nextBlock (q.blocks frontBlock_).next))
  | .nextBlock nextBlock =>
      let b := q.blocks nextBlock
      -- the assertion `nextBlockFront != nextBlockTail`
      if b.front ≠ b.tail then
        some (q.set nextBlock { b with localTail := b.tail },
          .goto (.advancing nextBlock b.front))
      else none
  | .advancing nextBlock nextBlockFront =>
      some ({ q with frontBlock := nextBlock },
        .goto (.nonEmptyFrontBlock nextBlock nextBlockFront))

end ReaderWriterQueue

/-! ## Both threads -/

namespace QueueThreads

variable {α : Type}

/-- The queue, where its two threads are, and the calls made so far. -/
structure World (α : Type) where
  queue : ReaderWriterQueue α
  producer : Option (EnqueuePc α)
  consumer : Option (DequeuePc α)
  history : List (Fifo.Event α)

/-- A thread calls, or takes the next step of its call. -/
inductive Action (α : Type) where
  | enqueue (mode : AllocationMode) (element : α)
  | producer (made : Bool)
  | dequeue
  | consumer

namespace World

def start (maxBlockSize maxSize : Nat) : World α :=
  ⟨ReaderWriterQueue.create maxBlockSize maxSize, none, none, []⟩

def step (maxBlockSize : Nat) (w : World α) : Action α → Option (World α)
  | .enqueue mode element =>
      match w.producer with
      | none =>
          some { w with
            producer := some (.entered mode element)
            history := w.history ++ [.enqueue element] }
      | some _ => none
  | .producer made =>
      match w.producer with
      | none => none
      | some pc =>
          match w.queue.innerEnqueue maxBlockSize made pc with
          | none => none
          | some (q, .goto pc) => some { w with queue := q, producer := some pc }
          | some (q, .ret ok) =>
              some { w with
                queue := q
                producer := none
                history := w.history ++ [.enqueued ok] }
  | .dequeue =>
      match w.consumer with
      | none =>
          some { w with consumer := some .entered, history := w.history ++ [.dequeue] }
      | some _ => none
  | .consumer =>
      match w.consumer with
      | none => none
      | some pc =>
          match w.queue.tryDequeue pc with
          | none => none
          | some (q, .goto pc) => some { w with queue := q, consumer := some pc }
          | some (q, .ret r) =>
              some { w with
                queue := q
                consumer := none
                history := w.history ++ [.dequeued r] }

end World

end QueueThreads

end LightQ
