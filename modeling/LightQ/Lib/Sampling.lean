/-
# `Lib.Sampling` — every `k`-th element of a stream

The elements of a stream are counted from `n + 1`, and those whose number is a
multiple of `k` are looked at.  `length_everyNth` says how many these are, from
the number in front of the stream and its length alone: as many as there are
multiples of `k` between the two.

The number in front is carried along, so that the induction goes over the
stream with `n` general: the first element is looked at
(`everyNth_cons_of_dvd`) or passed over (`everyNth_cons_of_not_dvd`), and the
rest is a stream that is counted from `n + 2`.
-/
import Mathlib.Data.List.Basic
import Mathlib.Tactic.Common

namespace Sampling

variable {α : Type*} (k n : Nat)

/-- The elements whose number is a multiple of `k`; the first is number `n + 1`. -/
def everyNth (l : List α) : List α :=
  ((l.zipIdx (n + 1)).filter fun x => x.2 % k = 0).map Prod.fst

@[simp] theorem everyNth_nil : everyNth k n ([] : List α) = [] := rfl

variable {k n}

theorem everyNth_cons_of_dvd {a : α} {l : List α} (h : (n + 1) % k = 0) :
    everyNth k n (a :: l) = a :: everyNth k (n + 1) l := by
  rw [everyNth, List.zipIdx_cons, List.filter_cons_of_pos (by simpa using h)]
  rfl

theorem everyNth_cons_of_not_dvd {a : α} {l : List α} (h : ¬ (n + 1) % k = 0) :
    everyNth k n (a :: l) = everyNth k (n + 1) l := by
  rw [everyNth, List.zipIdx_cons, List.filter_cons_of_neg (by simpa using h)]
  rfl

theorem length_everyNth (l : List α) :
    (everyNth k n l).length = (n + l.length) / k - n / k := by
  induction l generalizing n with
  | nil => simp
  | cons a l ih =>
      have hmono : (n + 1) / k ≤ (n + 1 + l.length) / k :=
        Nat.div_le_div_right (Nat.le_add_right _ _)
      have hnumber : n + (a :: l).length = n + 1 + l.length := by
        rw [List.length_cons]
        omega
      have hsucc : (n + 1) / k = n / k + if k ∣ n + 1 then 1 else 0 := Nat.succ_div
      rw [hnumber]
      by_cases h : (n + 1) % k = 0
      · rw [if_pos (Nat.dvd_of_mod_eq_zero h)] at hsucc
        rw [everyNth_cons_of_dvd h, List.length_cons, ih]
        omega
      · rw [if_neg fun hdvd => h (Nat.mod_eq_zero_of_dvd hdvd)] at hsucc
        rw [everyNth_cons_of_not_dvd h, ih]
        omega

end Sampling
