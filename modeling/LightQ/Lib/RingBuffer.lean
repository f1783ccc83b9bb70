/-
# `Lib.RingBuffer` — circular buffers read by one thread and written by another

A circular buffer of `size` slots keeps position `k` of an unbounded sequence
in slot `k % size`.  `Window size slot base cells` says that the slots from
position `base` on show `cells`, and that every other slot is vacant.

The reader owns the front index, the writer the tail index, and each keeps a
copy of the other's that may be out of date:

    localFront     front          localTail         tail
      low         low + lag    low + lag + seen   low + lag + count

`Tracks` says that the four indices are these positions, and that the writer
leaves one slot free even by its own copy.  The comparisons of indices are
then comparisons of counts: two positions less than a revolution apart share a
slot only if they are equal (`index_inj`), a full revolution is the same slot
(`index_succ_base`), and stepping an index is stepping the position
(`succ_index`; where the size is a power of two, the remainder is a mask,
`and_mask`).

There is one lemma for each thing the two threads do.  The writer reads the
front again (`Tracks.refresh_front`) and moves the tail (`Tracks.publish`); the
reader reads the tail again (`Tracks.refresh_tail`) and moves the front
(`Tracks.release`), by which a vacated first cell is left behind
(`Window.advance`).  The slot behind the last cell is vacant (`Window.vacant`),
and the next tail meets the writer's copy of the front only when no slot is
spare by that copy (`Tracks.next_eq_localFront`).
-/
import Mathlib.Data.List.GetD
import Mathlib.Data.Nat.ModEq
import Mathlib.Logic.Function.Basic

namespace RingBuffer

/-- The slots from position `base` on show `cells`; the others are vacant. -/
structure Window {α : Type*} (size : Nat) (slot : Nat → Option α) (base : Nat)
    (cells : List (Option α)) : Prop where
  fits : cells.length ≤ size
  shows : ∀ k, k < size → slot ((base + k) % size) = cells.getD k none

/-- The four indices of a buffer, as positions. -/
structure Tracks (size localFront front localTail tail low lag seen count : Nat) : Prop where
  localFront_eq : localFront = low % size
  front_eq : front = (low + lag) % size
  localTail_eq : localTail = (low + lag + seen) % size
  tail_eq : tail = (low + lag + count) % size
  seen_le : seen ≤ count
  spare : lag + count < size

/-! ## Indices -/

section Index

variable {size base a b : Nat}

/-- Distinct positions within one revolution have distinct slots. -/
theorem index_inj (ha : a < size) (hb : b < size) :
    (base + a) % size = (base + b) % size ↔ a = b := by
  constructor
  · intro h
    have hmod : a ≡ b [MOD size] := Nat.ModEq.add_left_cancel' base h
    exact Nat.ModEq.eq_of_lt_of_lt hmod ha hb
  · rintro rfl
    rfl

theorem index_base (ha : a < size) : (base + a) % size = base % size ↔ a = 0 := by
  have h : (base + a) % size = (base + 0) % size ↔ a = 0 := index_inj ha (Nat.zero_lt_of_lt ha)
  rwa [Nat.add_zero] at h

theorem index_succ_base (ha : a < size) :
    (base + a + 1) % size = base % size ↔ a + 1 = size := by
  constructor
  · intro h
    by_contra hne
    have hlt : a + 1 < size := Nat.lt_of_le_of_ne ha hne
    exact absurd ((index_base hlt).mp h) (Nat.succ_ne_zero a)
  · intro h
    rw [Nat.add_assoc, h, Nat.add_mod_right]

theorem succ_index (k : Nat) : (k % size + 1) % size = (k + 1) % size := Nat.mod_add_mod k size 1

theorem and_mask {mask e : Nat} (hmask : mask + 1 = 2 ^ e) (k : Nat) : k &&& mask = k % (mask + 1) := by
  obtain rfl : mask = 2 ^ e - 1 := by omega
  rw [Nat.and_two_pow_sub_one_eq_mod, hmask]

end Index

/-! ## Cells -/

section Cells

variable {α : Type*} {size base : Nat} {slot : Nat → Option α} {cells : List (Option α)}

theorem Window.empty : Window size (fun _ => (none : Option α)) base [] := by
  refine ⟨Nat.zero_le size, ?_⟩
  intro k _
  rfl

theorem Window.vacant (h : Window size slot base cells) (hroom : cells.length < size) :
    slot ((base + cells.length) % size) = none := by
  rw [h.shows _ hroom, List.getD_eq_default _ _ (Nat.le_refl _)]

theorem Window.put (h : Window size slot base cells) (hroom : cells.length < size) (c : Option α) :
    Window size (Function.update slot ((base + cells.length) % size) c) base (cells ++ [c]) := by
  have hfits : (cells ++ [c]).length ≤ size := by
    rw [List.length_append]
    exact hroom
  refine ⟨hfits, ?_⟩
  intro k hk
  by_cases hlast : k = cells.length
  · subst hlast
    rw [Function.update_self, List.getD_append_right _ _ _ _ (Nat.le_refl _), Nat.sub_self]
    rfl
  · have hother : (base + k) % size ≠ (base + cells.length) % size := by
      intro heq
      exact hlast ((index_inj hk hroom).mp heq)
    rw [Function.update_of_ne hother, h.shows k hk]
    rcases Nat.lt_or_gt_of_ne hlast with hlt | hgt
    · rw [List.getD_append _ _ _ _ hlt]
    · rw [List.getD_eq_default _ _ (Nat.le_of_lt hgt), List.getD_eq_default]
      rw [List.length_append]
      exact hgt

theorem Window.head {c : Option α} (h : Window size slot base (c :: cells)) :
    slot (base % size) = c := by
  have hpos : 0 < size := Nat.lt_of_lt_of_le (Nat.succ_pos _) h.fits
  exact h.shows 0 hpos

theorem Window.set_head {c : Option α} (h : Window size slot base (c :: cells)) (c' : Option α) :
    Window size (Function.update slot (base % size) c') base (c' :: cells) := by
  refine ⟨h.fits, ?_⟩
  intro k hk
  cases k with
  | zero => rw [Nat.add_zero, Function.update_self]; rfl
  | succ k =>
      have hother : (base + (k + 1)) % size ≠ base % size := by
        intro heq
        exact absurd ((index_base hk).mp heq) (Nat.succ_ne_zero k)
      rw [Function.update_of_ne hother, h.shows (k + 1) hk]
      rfl

theorem Window.advance (h : Window size slot base (none :: cells)) :
    Window size slot (base + 1) cells := by
  have hfits : cells.length + 1 ≤ size := h.fits
  refine ⟨Nat.le_of_succ_le hfits, ?_⟩
  intro k hk
  rw [Nat.add_assoc, Nat.add_comm 1 k]
  by_cases hlast : k + 1 = size
  · have hbase : (base + (k + 1)) % size = base % size := by rw [hlast, Nat.add_mod_right]
    rw [hbase, h.head, List.getD_eq_default]
    omega
  · rw [h.shows (k + 1) (by omega)]
    rfl

end Cells

/-! ## Counts -/

section Counts

variable {size localFront front localTail tail low lag seen count : Nat}

theorem Tracks.start (hsize : 0 < size) : Tracks size 0 0 0 0 0 0 0 0 :=
  ⟨(Nat.zero_mod _).symm, (Nat.zero_mod _).symm, (Nat.zero_mod _).symm, (Nat.zero_mod _).symm,
    Nat.le_refl 0, hsize⟩

theorem Tracks.front_eq_tail (h : Tracks size localFront front localTail tail low lag seen count) :
    front = tail ↔ count = 0 := by
  have hspare := h.spare
  rw [h.front_eq, h.tail_eq, eq_comm]
  exact index_base (by omega)

theorem Tracks.front_eq_localTail
    (h : Tracks size localFront front localTail tail low lag seen count) :
    front = localTail ↔ seen = 0 := by
  have hspare := h.spare
  have hseen := h.seen_le
  rw [h.front_eq, h.localTail_eq, eq_comm]
  exact index_base (by omega)

/-- The next tail meets the writer's copy of the front only when no slot is
spare by that copy. -/
theorem Tracks.next_eq_localFront
    (h : Tracks size localFront front localTail tail low lag seen count) :
    (tail + 1) % size = localFront ↔ lag + count + 1 = size := by
  rw [h.tail_eq, h.localFront_eq, succ_index, Nat.add_assoc low lag count]
  exact index_succ_base h.spare

theorem Tracks.next_eq_front (h : Tracks size localFront front localTail tail low lag seen count) :
    (tail + 1) % size = front ↔ count + 1 = size := by
  have hspare := h.spare
  rw [h.tail_eq, h.front_eq, succ_index]
  exact index_succ_base (by omega)

theorem Tracks.refresh_front
    (h : Tracks size localFront front localTail tail low lag seen count) :
    Tracks size front front localTail tail (low + lag) 0 seen count := by
  have hspare := h.spare
  exact ⟨h.front_eq, h.front_eq, h.localTail_eq, h.tail_eq, h.seen_le, by omega⟩

theorem Tracks.refresh_tail
    (h : Tracks size localFront front localTail tail low lag seen count) :
    Tracks size localFront front tail tail low lag count count :=
  ⟨h.localFront_eq, h.front_eq, h.tail_eq, h.tail_eq, Nat.le_refl count, h.spare⟩

theorem Tracks.publish (h : Tracks size localFront front localTail tail low lag seen count)
    (hroom : (tail + 1) % size ≠ localFront) :
    Tracks size localFront front localTail ((tail + 1) % size) low lag seen (count + 1) := by
  have hspare := h.spare
  have hne : lag + count + 1 ≠ size := fun heq => hroom (h.next_eq_localFront.mpr heq)
  refine ⟨h.localFront_eq, h.front_eq, h.localTail_eq, ?_, Nat.le_succ_of_le h.seen_le, by omega⟩
  rw [h.tail_eq, succ_index]
  rfl

theorem Tracks.release (h : Tracks size localFront front localTail tail low lag seen count)
    (hseen : front ≠ localTail) :
    Tracks size localFront ((front + 1) % size) localTail tail low (lag + 1) (seen - 1)
      (count - 1) := by
  have hspare := h.spare
  have hle := h.seen_le
  have hpos : seen ≠ 0 := fun hzero => hseen (h.front_eq_localTail.mpr hzero)
  refine ⟨h.localFront_eq, ?_, ?_, ?_, by omega, by omega⟩
  · rw [h.front_eq, succ_index]
    rfl
  · have hposition : low + (lag + 1) + (seen - 1) = low + lag + seen := by omega
    rw [hposition, h.localTail_eq]
  · have hposition : low + (lag + 1) + (count - 1) = low + lag + count := by omega
    rw [hposition, h.tail_eq]

end Counts

end RingBuffer
