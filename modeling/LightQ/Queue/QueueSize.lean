/-
# `Queue.QueueSize` — what `size_approx` says of a quiet queue

`size_approx` goes once round the ring and adds up what the indices of each
block are apart.  Between calls that is the number of elements accepted and
not received.

In a block the masked difference of the indices is the number of elements between
them (`Block.Layout.distance`): the tail may be below the front by then, and the
difference is taken in 64 bits before the mask.  The ring is visited once by
`LinkedRing.loop_eq`, the free blocks add nothing, and what the live blocks hold
is the queue (`Represents.sizeApprox`).

With a call in progress the sum may be anything in between: the blocks are not
looked at in one instant.
-/
import LightQ.Lib.MachineInt
import LightQ.Queue.QueueCreation

namespace LightQ

open MachineInt LinkedRing RingBuffer

namespace ReaderWriterQueue

variable {α : Type}

/-- The turn of the loop of `size_approx` for one block. -/
def addSize (q : ReaderWriterQueue α) (result a : Nat) : Nat :=
  let b := q.blocks a
  let blockFront := b.front
  let blockTail := b.tail
  result + (subU64 blockTail blockFront &&& b.sizeMask)

/-- `size_approx`; `none` if the loop does not come back to the front block. -/
def sizeApprox (q : ReaderWriterQueue α) : Option Nat :=
  let frontBlock_ := q.frontBlock
  loop (fun a => (q.blocks a).next) frontBlock_ q.addSize (q.allocated + 1) 0 frontBlock_

end ReaderWriterQueue

theorem Block.Layout.distance {α : Type} {b : Block α} {cells : List (Option α)} {count : Nat}
    (h : b.Layout cells count) (hmask : b.sizeMask < 2 ^ 63) :
    subU64 b.tail b.front &&& b.sizeMask = count := by
  rw [h.mask]
  obtain ⟨⟨e, he⟩, low, lag, seen, htracks, -⟩ := h
  have hspare := htracks.spare
  have hpos : 0 < b.sizeMask + 1 := Nat.succ_pos _
  have hfront : b.front < b.sizeMask + 1 := htracks.front_eq ▸ Nat.mod_lt _ hpos
  have htail : b.tail = (b.front + count) % (b.sizeMask + 1) := by
    rw [htracks.tail_eq, htracks.front_eq, Nat.mod_add_mod]
  have hcount : count < b.sizeMask + 1 := by omega
  have hdvd : b.sizeMask + 1 ∣ 2 ^ 64 := by
    rw [he]
    refine Nat.pow_dvd_pow 2 ?_
    by_contra hlarge
    have hpow : 2 ^ 64 ≤ 2 ^ (e + 1) := Nat.pow_le_pow_right Nat.two_pos (by omega)
    omega
  rcases Nat.lt_or_ge (b.front + count) (b.sizeMask + 1) with hlt | hge
  · rw [Nat.mod_eq_of_lt hlt] at htail
    rw [htail, subU64_of_le (Nat.le_add_right _ _), Nat.add_sub_cancel_left, Nat.mod_eq_of_lt hcount]
  · have hwrapped : b.tail = b.front + count - (b.sizeMask + 1) := by
      rw [htail, Nat.mod_eq_sub_mod hge, Nat.mod_eq_of_lt (by omega)]
    obtain ⟨k, hk⟩ := hdvd
    obtain ⟨j, rfl⟩ : ∃ j, k = j + 1 := by
      cases k with
      | zero => exact absurd hk (by omega)
      | succ j => exact ⟨j, rfl⟩
    have hsub : subU64 b.tail b.front = count + (b.sizeMask + 1) * j := by
      have hwrap : subU64 b.tail b.front = b.tail + 2 ^ 64 - b.front := if_neg (by omega)
      rw [Nat.mul_succ] at hk
      omega
    rw [hsub, Nat.add_mul_mod_self_left, Nat.mod_eq_of_lt hcount]

namespace QueueThreads

open ReaderWriterQueue

variable {α : Type} {maxBlockSize maxSize : Nat} {w : World α} {s : Fifo.State α} {v : View α}

theorem foldl_addSize {q : ReaderWriterQueue α} {f : Nat → Nat} {l : List Nat}
    (h : ∀ a ∈ l, subU64 (q.blocks a).tail (q.blocks a).front &&& (q.blocks a).sizeMask = f a)
    (n : Nat) : l.foldl q.addSize n = n + (l.map f).sum := by
  induction l generalizing n with
  | nil => rfl
  | cons a l ih =>
      have hturn : q.addSize n a = n + f a := congrArg (n + ·) (h a List.mem_cons_self)
      rw [List.foldl_cons, hturn, ih (fun b hb => h b (List.mem_cons_of_mem a hb)), List.map_cons,
        List.sum_cons, Nat.add_assoc]

/-- With no call in progress, `size_approx` is exact. -/
theorem Represents.sizeApprox (h : Represents maxSize w s v) (hp : w.producer = none)
    (hc : w.consumer = none) : w.queue.sizeApprox = some v.contents.length := by
  have hblocks := h.blocks
  rw [hp, hc] at hblocks
  obtain ⟨l, hl⟩ := hblocks.live_split
  have hring : v.ring = w.queue.frontBlock :: (l ++ v.free) := by rw [View.ring, hl]; rfl
  have hnodup := hblocks.ring_nodup
  have hlinked := hblocks.linked
  rw [hring] at hnodup hlinked
  have hlength : v.ring.length ≤ w.queue.allocated + 1 := by
    have hsub : v.ring ⊆ List.range (w.queue.allocated + 1) := by
      intro a ha
      have hknown := hblocks.known a (List.mem_append_left _ ha)
      exact List.mem_range.mpr (Nat.lt_succ_of_le hknown)
    have hle := List.Nodup.length_le_of_subset hblocks.ring_nodup hsub
    rwa [List.length_range] at hle
  have hdistance : ∀ a ∈ v.ring, subU64 (w.queue.blocks a).tail (w.queue.blocks a).front &&&
      (w.queue.blocks a).sizeMask = (v.items a).length := by
    intro a ha
    have hmem : a ∈ v.ring ++ (inFlight none none : InFlight α).reserved :=
      List.mem_append_left _ ha
    rw [(hblocks.layout a hmem).distance (hblocks.bounded.2 a hmem)]
    exact Nat.zero_add _
  have hloop : w.queue.sizeApprox = some (v.ring.foldl w.queue.addSize 0) := by
    rw [hring] at hlength ⊢
    exact loop_eq hlinked (List.nodup_cons.mp hnodup).1 hlength
  have hfree : (v.free.map fun a => (v.items a).length).sum = 0 := by
    have hzero : (v.free.map fun a => (v.items a).length) = List.replicate v.free.length 0 := by
      refine List.eq_replicate_iff.mpr ⟨List.length_map _, ?_⟩
      intro n hn
      obtain ⟨a, ha, rfl⟩ := List.mem_map.mp hn
      rw [hblocks.empty a ha]
      rfl
    rw [hzero, List.sum_replicate_nat, Nat.mul_zero]
  rw [hloop, foldl_addSize hdistance, Nat.zero_add, View.ring, List.map_append, List.sum_append,
    hfree, Nat.add_zero, View.contents, List.length_flatMap]

/-- Between calls, in every run, `size_approx` is the number of elements
accepted and not received. -/
theorem World.sizeApprox_exact (hs : QueueSizes maxBlockSize maxSize) {actions : List (Action α)}
    (hrun : Runs.run (World.step maxBlockSize) (World.start maxBlockSize maxSize) actions = some w)
    (hp : w.producer = none) (hc : w.consumer = none) :
    ∃ left, (Fifo.tally w.history).received ++ left = (Fifo.tally w.history).accepted ∧
      w.queue.sizeApprox = some left.length := by
  obtain ⟨s, v, hreach, hrep⟩ := reached_run hs hrun
  have haccount := hrep.account hreach
  rw [hc, show heldAt (none : Option (DequeuePc α)) = [] from rfl, List.append_nil,
    hrep.items] at haccount
  exact ⟨v.contents, haccount, hrep.sizeApprox hp hc⟩

theorem World.sizeApprox_exact_crossing :
    ∃ w, Runs.run (World.step 2) (World.start 2 1) (World.crossing ++ [.consumer]) =
        some w ∧
      ∃ left, (Fifo.tally w.history).received ++ left = (Fifo.tally w.history).accepted ∧
        w.queue.sizeApprox = some left.length := by
  obtain ⟨w, hw, hidle⟩ := Option.map_eq_some_iff.mp
    (show (Runs.run (World.step 2) (World.start 2 1) (World.crossing ++ [.consumer])).map
      (fun w => (w.producer.isNone, w.consumer.isNone)) = some (true, true) by decide)
  obtain ⟨hp, hc⟩ := Prod.mk.inj hidle
  exact ⟨w, hw, World.sizeApprox_exact World.queueSizes_two hw (Option.isNone_iff_eq_none.mp hp)
    (Option.isNone_iff_eq_none.mp hc)⟩

end QueueThreads

end LightQ
