/-
# `Lib.Overlay` — writing a block into a sequence at a position

`overlay d old pos new` is `old` with `new` laid over it from `pos` on:
what was there before is replaced, the sequence grows when the block ends
past its end, and a gap below `pos` is filled with `d`.  This is the
meaning of a positional file write, and of a store into a buffer.

The result is put together from three parts, `below`, the block and what is
left of the old sequence; inside the sequence there is nothing to pad
(`below_of_le`).  From this come the few facts that callers use: how long the
result is (`length_overlay`), what ends at `pos + new.length`
(`take_overlay_of_ne_nil`), that nothing below the position changes
(`take_overlay_of_le`), and what a block laid over the start looks like
(`overlay_zero`).

The law that matters is `overlay_append`: a block written in pieces, each
where the one before it ended, is the block written at once.  A loop of short
writes has the effect of one write because of it.
-/
import Mathlib.Data.List.Basic

namespace Overlay

variable {α : Type*}

/-- The part of the result below `pos`: `old`, cut or padded to that
length. -/
def below (d : α) (old : List α) (pos : Nat) : List α :=
  old.take pos ++ List.replicate (pos - old.length) d

/-- `old` with `new` laid over it from `pos` on.  An empty block changes
nothing, not even when `pos` is past the end. -/
def overlay (d : α) (old : List α) (pos : Nat) : List α → List α
  | [] => old
  | b :: bs => below d old pos ++ (b :: bs) ++ old.drop (pos + (bs.length + 1))

variable {d : α} {old new : List α} {pos : Nat}

@[simp] theorem length_below : (below d old pos).length = pos := by
  simp only [below, List.length_append, List.length_take, List.length_replicate]
  omega

theorem below_of_le (h : pos ≤ old.length) : below d old pos = old.take pos := by
  simp [below, Nat.sub_eq_zero_of_le h]

@[simp] theorem overlay_nil : overlay d old pos [] = old := rfl

theorem overlay_of_ne_nil (h : new ≠ []) :
    overlay d old pos new = below d old pos ++ new ++ old.drop (pos + new.length) := by
  cases new with
  | nil => exact absurd rfl h
  | cons b bs => rfl

theorem length_overlay (h : new ≠ []) :
    (overlay d old pos new).length = max old.length (pos + new.length) := by
  rw [overlay_of_ne_nil h]
  simp only [List.length_append, length_below, List.length_drop]
  omega

theorem take_overlay_of_ne_nil (h : new ≠ []) :
    (overlay d old pos new).take (pos + new.length) = below d old pos ++ new := by
  rw [overlay_of_ne_nil h]
  exact List.take_left' (by simp)

theorem take_overlay (h : pos ≤ old.length) :
    (overlay d old pos new).take (pos + new.length) = old.take pos ++ new := by
  cases new with
  | nil => simp
  | cons b bs => rw [take_overlay_of_ne_nil (List.cons_ne_nil b bs), below_of_le h]

theorem take_overlay_of_le {k : Nat} (hk : k ≤ pos) (h : k ≤ old.length) :
    (overlay d old pos new).take k = old.take k := by
  cases new with
  | nil => rfl
  | cons b bs =>
      have hbelow : (below d old pos).take k = old.take k := by
        rw [below, List.take_append_of_le_length (by rw [List.length_take]; omega),
          List.take_take, Nat.min_eq_left hk]
      rw [overlay_of_ne_nil (List.cons_ne_nil b bs), List.append_assoc,
        List.take_append_of_le_length (by rw [length_below]; exact hk), hbelow]

theorem overlay_zero : overlay d old 0 new = new ++ old.drop new.length := by
  cases new with
  | nil => rfl
  | cons b bs => simp [overlay_of_ne_nil (List.cons_ne_nil b bs), below]

/-- Writing in two pieces, the second where the first one ended, is writing
at once. -/
theorem overlay_append (a b : List α) :
    overlay d (overlay d old pos a) (pos + a.length) b = overlay d old pos (a ++ b) := by
  by_cases ha : a = []
  · subst ha; rfl
  by_cases hb : b = []
  · subst hb; simp
  have hab : a ++ b ≠ [] := fun h => ha (List.append_eq_nil_iff.mp h).1
  have hlen : (overlay d old pos a).length = max old.length (pos + a.length) :=
    length_overlay ha
  have hbelow : below d (overlay d old pos a) (pos + a.length)
      = below d old pos ++ a := by
    rw [below_of_le (by omega), overlay_of_ne_nil ha]
    exact List.take_left' (by simp)
  have hdrop : (overlay d old pos a).drop (pos + a.length + b.length)
      = old.drop (pos + (a ++ b).length) := by
    rw [overlay_of_ne_nil ha, List.drop_append, List.drop_eq_nil_of_le (by simp),
      List.nil_append, List.drop_drop]
    simp only [List.length_append, length_below]
    congr 1
    omega
  rw [overlay_of_ne_nil hb, overlay_of_ne_nil hab, hbelow, hdrop]
  simp only [List.append_assoc]

end Overlay
