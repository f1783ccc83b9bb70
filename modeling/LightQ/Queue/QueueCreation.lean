/-
# `Queue.QueueCreation` — a new queue, and what it promises

The constructor rounds the size asked for up to a power of two, and reserves a
ring of empty blocks that has room for that many elements whatever block the
consumer is in.  From there on `Represents` is kept by every step, so every
run of the two threads is a history of a bounded queue
(`World.linearizable`), and no call is ever stuck (`World.never_stuck`).

What the constructor makes is `create_created`: one block that holds what was
asked for, or a ring that holds it without one of its blocks.  Three facts go into
it.  The size is rounded up to a power of two (`ceilToPow2_eq`, from
`Lib.BitSmear`); the number of blocks is such that without one of them they still
hold what was asked for (`initialBlockCount_room`), a division that rounds up and
one block more for the one the consumer is in; and the loop that reserves them
makes a chain of fresh blocks (`Fresh.grow`, `Fresh.entry`), which the last
assignment closes to a ring that leads round (`Fresh.linked`).

The runs are then an induction with `producer_proceeds` and `consumer_proceeds`:
what they keep is `Represents`, and what they leave behind in the bounded queue is
the history.
-/
import LightQ.Lib.BitSmear
import LightQ.Lib.Runs
import LightQ.Queue.DequeueSteps
import LightQ.Queue.EnqueueSteps

namespace LightQ

open LinkedRing BitSmear

/-- What the constructor asserts of its sizes, far from the end of the
words. -/
structure QueueSizes (maxBlockSize maxSize : Nat) : Prop where
  pow : ∃ e, maxBlockSize = 2 ^ (e + 1)
  small : maxBlockSize < 2 ^ 62
  pos : 0 < maxSize
  fits : maxSize < 2 ^ 62

namespace ReaderWriterQueue

variable {α : Type}

theorem ceilToPow2_eq {x : Nat} (hpos : 0 < x) (hx : x ≤ 2 ^ 63) :
    ceilToPow2 x = 2 ^ Nat.size (x - 1) := by
  have hword : (BitVec.ofNat 64 x - 1).toNat = x - 1 := by
    rw [BitVec.toNat_sub_of_le]
    · rw [BitVec.toNat_ofNat, Nat.mod_eq_of_lt (by omega)]
      rfl
    · rw [BitVec.le_def, BitVec.toNat_ofNat, Nat.mod_eq_of_lt (by omega)]
      exact hpos
  have hstep : ∀ {n : Nat} {y : BitVec 64}, Smeared n (x - 1) y.toNat →
      Smeared (2 * n) (x - 1) (y ||| y >>> n).toNat := by
    intro n y h
    rw [BitVec.toNat_or, BitVec.toNat_ushiftRight]
    exact h.double
  have hone : Smeared 1 (x - 1) (BitVec.ofNat 64 x - 1).toNat := by
    rw [hword]
    exact Smeared.one (x - 1)
  have hall := hstep (hstep (hstep (hstep (hstep (hstep hone)))))
  have hsize : Nat.size (x - 1) < 64 := by
    refine Nat.lt_of_le_of_lt (Nat.size_le.mpr (show x - 1 < 2 ^ 63 by omega)) (by omega)
  have hmask := hall.eq_two_pow_sub_one (Nat.lt_of_lt_of_le
    (show x - 1 < 2 ^ 63 by omega) (Nat.pow_le_pow_right Nat.two_pos (by omega)))
  have hpow : 2 ^ Nat.size (x - 1) < 2 ^ 64 := Nat.pow_lt_pow_right (by omega) hsize
  have hsmear : ∃ y : BitVec 64, ceilToPow2 x = (y + 1).toNat ∧
      y.toNat = 2 ^ Nat.size (x - 1) - 1 := ⟨_, rfl, hmask⟩
  obtain ⟨y, hy, hbits⟩ := hsmear
  rw [hy, BitVec.toNat_add, hbits]
  show (2 ^ Nat.size (x - 1) - 1 + 1) % 2 ^ 64 = _
  rw [Nat.sub_add_cancel (Nat.two_pow_pos _), Nat.mod_eq_of_lt hpow]

/-- A ring of `n` new blocks, at the addresses from 1 on. -/
structure Fresh (q : ReaderWriterQueue α) (size n : Nat) : Prop where
  pos : 0 < n
  allocated : q.allocated = n
  block : ∀ a, 0 < a → a < n → q.blocks a = { Block.make size with next := a + 1 }
  last : q.blocks n = { Block.make size with next := 1 }

theorem Fresh.grow {q : ReaderWriterQueue α} {size n : Nat} (h : Fresh q size n) :
    Fresh (((q.makeBlock size).set n { (q.makeBlock size).blocks n with next := n + 1 }).set (n + 1)
      { ((q.makeBlock size).set n { (q.makeBlock size).blocks n with next := n + 1 }).blocks (n + 1)
        with next := 1 }) size (n + 1) := by
  have hmade : (q.makeBlock size).blocks (n + 1) = Block.make size := by
    show Function.update q.blocks (q.allocated + 1) _ _ = _
    rw [h.allocated, Function.update_self]
  have hkept : ∀ a, a ≠ n + 1 → (q.makeBlock size).blocks a = q.blocks a := by
    intro a ha
    show Function.update q.blocks (q.allocated + 1) _ _ = _
    rw [h.allocated, Function.update_of_ne ha]
  refine ⟨Nat.succ_pos n, congrArg (· + 1) h.allocated, ?_, ?_⟩
  · intro a ha hlt
    rw [set_of_ne _ (Nat.ne_of_lt hlt)]
    by_cases hn : a = n
    · subst hn
      rw [set_self, hkept a (Nat.ne_of_lt hlt), h.last]
    · rw [set_of_ne _ hn, hkept a (Nat.ne_of_lt hlt)]
      exact h.block a ha (by omega)
  · rw [set_self, set_of_ne _ (Nat.succ_ne_self n), hmade]

theorem Fresh.reserve {size i n : Nat} {q : ReaderWriterQueue α} (h : Fresh q size n) :
    (ReaderWriterQueue.reserve size i q 1 n).2 = 1 ∧
      Fresh (ReaderWriterQueue.reserve size i q 1 n).1 size (n + i) ∧
      (ReaderWriterQueue.reserve size i q 1 n).1.largestBlockSize = q.largestBlockSize := by
  induction i generalizing q n with
  | zero => exact ⟨rfl, h, rfl⟩
  | succ i ih =>
      obtain ⟨hfirst, hfresh, hlargest⟩ := ih h.grow
      have hallocated : (q.makeBlock size).allocated = n + 1 := congrArg (· + 1) h.allocated
      rw [ReaderWriterQueue.reserve]
      simp only [hallocated, if_neg Nat.one_ne_zero]
      rw [Nat.add_assoc, Nat.add_comm 1 i] at hfresh
      exact ⟨hfirst, hfresh, hlargest⟩

theorem fresh_one {size : Nat} {q : ReaderWriterQueue α} (h : q.allocated = 0) :
    Fresh ((q.makeBlock size).set 1 { (q.makeBlock size).blocks 1 with next := 1 }) size 1 := by
  refine ⟨Nat.one_pos, congrArg (· + 1) h, ?_, ?_⟩
  · intro a ha hlt
    omega
  · rw [set_self]
    show ({ Function.update q.blocks (q.allocated + 1) _ 1 with next := 1 } : Block α) = _
    rw [h, Function.update_self]

theorem Fresh.entry {size n a b : Nat} {q : ReaderWriterQueue α} (h : Fresh q size n) :
    Fresh { q with frontBlock := a, tailBlock := b } size n :=
  ⟨h.pos, h.allocated, h.block, h.last⟩

/-- A queue of `n` new blocks that begins at the first. -/
structure Created (q : ReaderWriterQueue α) (size n : Nat) : Prop where
  fresh : Fresh q size n
  frontBlock : q.frontBlock = 1
  tailBlock : q.tailBlock = 1
  largestBlockSize : q.largestBlockSize = size

theorem initialBlockCount_room {size maxSize : Nat} (hsize : 2 ≤ size) (hpos : 0 < maxSize) :
    2 ≤ (maxSize + size * 2 - 3) / (size - 1) ∧
      maxSize ≤ ((maxSize + size * 2 - 3) / (size - 1) - 1) * (size - 1) := by
  have hmask : 0 < size - 1 := by omega
  have htwo : 2 ≤ (maxSize + size * 2 - 3) / (size - 1) := by
    rw [Nat.le_div_iff_mul_le hmask]
    omega
  refine ⟨htwo, ?_⟩
  have hrem := Nat.mod_lt (maxSize + size * 2 - 3) hmask
  have hdiv := Nat.div_add_mod (maxSize + size * 2 - 3) (size - 1)
  rw [Nat.sub_mul, Nat.one_mul, Nat.mul_comm]
  omega

/-- What the constructor makes: one block that holds what was asked for, or a
ring that holds it without one of its blocks. -/
theorem create_created {maxBlockSize maxSize : Nat} (hs : QueueSizes maxBlockSize maxSize) :
    ∃ e n, Created (create maxBlockSize maxSize : ReaderWriterQueue α) (2 ^ (e + 1)) n ∧
      2 ^ (e + 1) ≤ 2 ^ 63 ∧
      (if n = 1 then maxSize < 2 ^ (e + 1) else maxSize ≤ (n - 1) * (2 ^ (e + 1) - 1)) := by
  obtain ⟨⟨e, rfl⟩, hsmall, hpos, hfits⟩ := hs
  have hceil := ceilToPow2_eq (x := maxSize + 1) (Nat.succ_pos _) (by omega)
  rw [Nat.add_sub_cancel] at hceil
  by_cases hlarge : ceilToPow2 (maxSize + 1) > 2 ^ (e + 1) * 2
  · have hsize : 2 ≤ 2 ^ (e + 1) := by
      have hpow := Nat.two_pow_pos e
      rw [Nat.pow_succ]
      omega
    obtain ⟨htwo, hroom⟩ := initialBlockCount_room hsize hpos
    obtain ⟨c, hc⟩ : ∃ c, (maxSize + 2 ^ (e + 1) * 2 - 3) / (2 ^ (e + 1) - 1) = c + 1 :=
      ⟨_, (Nat.sub_add_cancel (by omega)).symm⟩
    rw [hc] at htwo hroom
    let q : ReaderWriterQueue α := ⟨fun _ => Block.make 0, 0, 0, 0, 2 ^ (e + 1)⟩
    have hone : Fresh ((q.makeBlock (2 ^ (e + 1))).set 1
        { (q.makeBlock (2 ^ (e + 1))).blocks 1 with next := 1 }) (2 ^ (e + 1)) 1 := fresh_one rfl
    have hcreate : (create (2 ^ (e + 1)) maxSize : ReaderWriterQueue α) =
        { (reserve (2 ^ (e + 1)) (c + 1) q 0 0).1 with
          frontBlock := (reserve (2 ^ (e + 1)) (c + 1) q 0 0).2
          tailBlock := (reserve (2 ^ (e + 1)) (c + 1) q 0 0).2 } := by
      simp only [create, if_pos hlarge, hc]
      rfl
    obtain ⟨hfirst, hfresh, hlargest⟩ := hone.reserve (i := c)
    rw [Nat.add_comm 1 c] at hfresh
    refine ⟨e, c + 1, ?_, by omega, ?_⟩
    · rw [hcreate]
      exact ⟨hfresh.entry, hfirst, hfirst, hlargest⟩
    · rw [if_neg (by omega)]
      exact hroom
  · have hsize : 0 < Nat.size maxSize := Nat.size_pos.mpr hpos
    obtain ⟨e', he'⟩ : ∃ e', Nat.size maxSize = e' + 1 := ⟨_, (Nat.sub_add_cancel hsize).symm⟩
    rw [he'] at hceil
    rw [hceil] at hlarge
    have hword : Nat.size maxSize ≤ 63 := Nat.size_le.mpr (by omega)
    refine ⟨e', 1, ?_, Nat.pow_le_pow_right Nat.two_pos (he' ▸ hword), ?_⟩
    · rw [create]
      simp only [hceil, if_neg hlarge]
      exact ⟨(fresh_one rfl).entry, rfl, rfl, rfl⟩
    · rw [if_pos rfl, ← he']
      exact Nat.lt_size_self maxSize

theorem Fresh.linked {size n : Nat} {q : ReaderWriterQueue α} (h : Fresh q size n) :
    ∀ i a, a + i = n → 0 < a →
      Linked (fun a => (q.blocks a).next) (List.range' a (i + 1)) 1 := by
  intro i
  induction i with
  | zero =>
      rintro a rfl _
      refine ⟨?_, trivial⟩
      show (q.blocks a).next = 1
      rw [show q.blocks a = _ from h.last]
  | succ i ih =>
      intro a ha hpos
      refine ⟨?_, ih (a + 1) (by omega) (Nat.succ_pos a)⟩
      show (q.blocks a).next = a + 1
      rw [h.block a hpos (by omega)]

theorem Fresh.block_eq {size n a : Nat} {q : ReaderWriterQueue α} (h : Fresh q size n) (hpos : 0 < a)
    (hle : a ≤ n) : ∃ z, q.blocks a = { Block.make size with next := z } := by
  rcases Nat.lt_or_eq_of_le hle with hlt | rfl
  · exact ⟨a + 1, h.block a hpos hlt⟩
  · exact ⟨1, h.last⟩

end ReaderWriterQueue

namespace QueueThreads

open ReaderWriterQueue

variable {α : Type}

/-- The first block is live, the others are free, and all are empty. -/
def emptyView (n : Nat) : View α := ⟨[1], List.range' 2 (n - 1), fun _ => []⟩

theorem emptyView_ring {n : Nat} (hn : 0 < n) : (emptyView n : View α).ring = List.range' 1 n := by
  obtain ⟨m, rfl⟩ := Nat.exists_eq_succ_of_ne_zero (Nat.ne_of_gt hn)
  rfl

theorem blocks_created {size n e maxSize : Nat} {q : ReaderWriterQueue α} (h : Created q size n)
    (hsize : size = 2 ^ (e + 1)) (hbound : size ≤ 2 ^ 63)
    (hroom : if n = 1 then maxSize < size else maxSize ≤ (n - 1) * (size - 1)) :
    Blocks maxSize q (emptyView n) (inFlight none none) := by
  have hn := h.fresh.pos
  have hring : (emptyView n : View α).ring = List.range' 1 n := emptyView_ring hn
  have hblock : ∀ a ∈ List.range' 1 n, ∃ z, q.blocks a = { Block.make size with next := z } := by
    intro a ha
    have hrange := List.mem_range'_1.mp ha
    exact h.fresh.block_eq (by omega) (by omega)
  have hmasks : (List.range' 1 n).map (fun a => (q.blocks a).sizeMask) =
      List.replicate n (size - 1) := by
    refine List.eq_replicate_iff.mpr ⟨by simp, ?_⟩
    intro m hm
    obtain ⟨a, ha, rfl⟩ := List.mem_map.mp hm
    obtain ⟨z, hz⟩ := hblock a ha
    rw [hz]
    rfl
  constructor
  · rw [hring, show (inFlight none none : InFlight α).reserved = [] from rfl, List.append_nil]
    exact List.nodup_range'
  · rw [hring, h.frontBlock]
    obtain ⟨m, rfl⟩ := Nat.exists_eq_succ_of_ne_zero (Nat.ne_of_gt hn)
    exact h.fresh.linked m 1 (Nat.add_comm 1 m) Nat.one_pos
  · rw [h.frontBlock]
    rfl
  · rw [h.tailBlock]
    rfl
  · intro a ha
    rw [hring] at ha
    obtain ⟨z, hz⟩ := hblock a ((List.mem_append.mp ha).resolve_right List.not_mem_nil)
    rw [hz]
    exact Block.make_layout hsize
  · intro a ha hne
    exact absurd (List.mem_singleton.mp ha) (h.frontBlock ▸ hne)
  · intro a ha hne
    exact absurd (List.mem_singleton.mp ha) (h.frontBlock ▸ hne)
  · exact fun _ _ => rfl
  · intro a ha
    rw [hring] at ha
    have hrange := List.mem_range'_1.mp ((List.mem_append.mp ha).resolve_right List.not_mem_nil)
    rw [h.fresh.allocated]
    omega
  · rw [hring, hmasks]
    by_cases hone : n = 1
    · subst hone
      rw [if_pos rfl] at hroom
      exact Or.inr ⟨size - 1, rfl, by omega⟩
    · rw [if_neg hone] at hroom
      refine Or.inl ?_
      intro m hm
      rw [List.eq_of_mem_replicate hm, List.sum_replicate_nat]
      obtain ⟨k, rfl⟩ := Nat.exists_eq_succ_of_ne_zero (Nat.ne_of_gt hn)
      rw [Nat.succ_sub_one] at hroom
      rw [Nat.succ_mul]
      omega
  · exact ⟨e, h.largestBlockSize.trans hsize⟩
  · refine ⟨h.largestBlockSize ▸ hbound, ?_⟩
    intro a ha
    rw [hring] at ha
    obtain ⟨z, hz⟩ := hblock a ((List.mem_append.mp ha).resolve_right List.not_mem_nil)
    rw [hz]
    show size - 1 < 2 ^ 63
    omega
  · intro hone
    rw [hring, List.length_range'] at hone
    rw [if_pos hone] at hroom
    exact ⟨h.largestBlockSize ▸ hroom, fun a ha => absurd ha List.not_mem_nil⟩

variable {maxBlockSize maxSize : Nat}

theorem represents_start (hs : QueueSizes maxBlockSize maxSize) :
    ∃ v, Represents maxSize (World.start maxBlockSize maxSize : World α) Fifo.start v := by
  obtain ⟨e, n, hcreated, hbound, hroom⟩ := create_created (α := α) hs
  exact ⟨emptyView n, blocks_created hcreated rfl hbound hroom, rfl, rfl, rfl, rfl⟩

/-! ## Every run -/

/-- Some bounded queue has come as far as the two threads. -/
def Reached (maxSize : Nat) (w : World α) : Prop := Follows maxSize Fifo.start w

theorem Reached.step {w w' : World α} {a : Action α} (h : Reached maxSize w)
    (hmax : maxBlockSize < 2 ^ 62) (hstep : w.step maxBlockSize a = some w') : Reached maxSize w' := by
  obtain ⟨s, v, hreach, hrep⟩ := h
  have hproceeds : Proceeds maxBlockSize maxSize w a s := by
    cases a with
    | enqueue mode element =>
        cases hp : w.producer with
        | none => exact enqueue_proceeds hrep hp
        | some pc => simp only [World.step, hp, reduceCtorEq] at hstep
    | producer made =>
        cases hp : w.producer with
        | none => simp only [World.step, hp, reduceCtorEq] at hstep
        | some pc => exact producer_proceeds hrep hmax hp
    | dequeue =>
        cases hc : w.consumer with
        | none => exact dequeue_proceeds hrep hc
        | some pc => simp only [World.step, hc, reduceCtorEq] at hstep
    | consumer =>
        cases hc : w.consumer with
        | none => simp only [World.step, hc, reduceCtorEq] at hstep
        | some pc => exact consumer_proceeds hrep hc
  obtain ⟨w'', hw'', s', v', hreach', hrep'⟩ := hproceeds
  obtain rfl := Option.some.inj (hstep.symm.trans hw'')
  exact ⟨s', v', hreach.trans hreach', hrep'⟩

theorem reached_run (hs : QueueSizes maxBlockSize maxSize) {actions : List (Action α)} {w : World α}
    (hrun : Runs.run (World.step maxBlockSize) (World.start maxBlockSize maxSize) actions = some w) :
    Reached maxSize w := by
  obtain ⟨v, hstart⟩ := represents_start (α := α) hs
  refine Runs.run_invariant (P := fun _ _ => True) (fun hreached _ hstep => hreached.step hs.small hstep)
    ⟨Fifo.start, v, Relation.ReflTransGen.refl, hstart⟩ (Runs.along_of_forall fun _ _ => trivial)
    hrun

namespace World

/-- Whatever the two threads do, and however their steps interleave, their
calls have the history of a bounded queue. -/
theorem linearizable (hs : QueueSizes maxBlockSize maxSize) {actions : List (Action α)}
    {w : World α}
    (hrun : Runs.run (World.step maxBlockSize) (World.start maxBlockSize maxSize) actions = some w) :
    Fifo.Histories maxSize w.history := by
  obtain ⟨s, v, hreach, hrep⟩ := reached_run hs hrun
  exact ⟨s, hreach, hrep.history⟩

/-- Two elements go into a queue made for one, of which the second is refused,
and the other is taken out. -/
def crossing : List (Action Nat) :=
  [.enqueue .cannotAlloc 7, .producer true, .producer true, .dequeue, .producer true, .consumer,
    .producer true, .enqueue .cannotAlloc 8, .consumer, .producer true, .producer true, .consumer,
    .producer true, .producer true, .consumer]

theorem queueSizes_two : QueueSizes 2 1 :=
  ⟨⟨0, rfl⟩, by decide, Nat.one_pos, by decide⟩

theorem linearizable_crossing :
    ∃ w, Runs.run (World.step 2) (World.start 2 1) crossing = some w ∧
      Fifo.Histories 1 w.history := by
  obtain ⟨w, hw⟩ := Option.isSome_iff_exists.mp
    (show (Runs.run (World.step 2) (World.start 2 1) crossing).isSome by decide)
  exact ⟨w, hw, linearizable queueSizes_two hw⟩

/-- No call gets stuck: no assertion fails, no element is built over another,
and none is taken from an empty slot. -/
theorem never_stuck (hs : QueueSizes maxBlockSize maxSize) {actions : List (Action α)}
    {w : World α}
    (hrun : Runs.run (World.step maxBlockSize) (World.start maxBlockSize maxSize) actions = some w) :
    (w.producer.isSome → ∀ made, (w.step maxBlockSize (.producer made)).isSome) ∧
      (w.consumer.isSome → (w.step maxBlockSize .consumer).isSome) := by
  obtain ⟨s, v, -, hrep⟩ := reached_run hs hrun
  constructor
  · intro hp made
    obtain ⟨pc, hpc⟩ := Option.isSome_iff_exists.mp hp
    obtain ⟨w', hw', -⟩ : Proceeds maxBlockSize maxSize w (.producer made) s :=
      producer_proceeds hrep hs.small hpc
    exact Option.isSome_iff_exists.mpr ⟨w', hw'⟩
  · intro hc
    obtain ⟨pc, hpc⟩ := Option.isSome_iff_exists.mp hc
    obtain ⟨w', hw', -⟩ : Proceeds maxBlockSize maxSize w .consumer s := consumer_proceeds hrep hpc
    exact Option.isSome_iff_exists.mpr ⟨w', hw'⟩

theorem never_stuck_crossing :
    ∃ w, Runs.run (World.step 2) (World.start 2 1) crossing = some w ∧
      (w.producer.isSome → ∀ made, (w.step 2 (.producer made)).isSome) ∧
      (w.consumer.isSome → (w.step 2 .consumer).isSome) := by
  obtain ⟨w, hw⟩ := Option.isSome_iff_exists.mp
    (show (Runs.run (World.step 2) (World.start 2 1) crossing).isSome by decide)
  exact ⟨w, hw, never_stuck queueSizes_two hw⟩

end World

end QueueThreads

end LightQ
