/-
# `Lib.BitSmear` — rounding up to a power of two with shifts

`x ||| x >>> 1`, then `>>> 2`, `>>> 4` and so on copies the highest set bit of
`x` into every lower place.  `Smeared n x y` says that bit `i` of `y` is set
exactly if one of the bits `i` to `i + n - 1` of `x` is.

  * `Smeared.one`: before the first shift, every number is smeared over one
    place of itself;
  * `Smeared.double`: shifting by `n` and or-ing doubles `n`, since the bits
    `i` to `i + 2 * n - 1` are those seen from `i` and those seen from
    `i + n`;
  * `Smeared.eq_two_pow_sub_one`: once `n` covers the word nothing but the
    highest bit matters, and `y` is `2 ^ Nat.size x - 1`.

The statements are about natural numbers and their bits (`Nat.testBit`); the
width of a machine word enters only where a caller knows that its number is
below `2 ^ n`.
-/
import Mathlib.Algebra.Group.Nat.Defs
import Mathlib.Data.Nat.Size

namespace BitSmear

variable {n x y : Nat}

/-- Bit `i` of `y` is set if a bit of `x` from `i` on, less than `n` up, is. -/
def Smeared (n x y : Nat) : Prop :=
  ∀ i, y.testBit i = true ↔ ∃ j, i ≤ j ∧ j < i + n ∧ x.testBit j = true

theorem Smeared.one (x : Nat) : Smeared 1 x x := by
  intro i
  constructor
  · intro h
    exact ⟨i, Nat.le_refl i, Nat.lt_succ_self i, h⟩
  · rintro ⟨j, hle, hlt, h⟩
    obtain rfl : j = i := by omega
    exact h

theorem Smeared.double (h : Smeared n x y) : Smeared (2 * n) x (y ||| y >>> n) := by
  intro i
  rw [Nat.testBit_or, Nat.testBit_shiftRight, Bool.or_eq_true, h i, h (n + i)]
  constructor
  · rintro (⟨j, hle, hlt, hj⟩ | ⟨j, hle, hlt, hj⟩)
    · exact ⟨j, hle, by omega, hj⟩
    · exact ⟨j, by omega, by omega, hj⟩
  · rintro ⟨j, hle, hlt, hj⟩
    by_cases hnear : j < i + n
    · exact Or.inl ⟨j, hle, hnear, hj⟩
    · exact Or.inr ⟨j, by omega, by omega, hj⟩

/-- Smeared over the whole word, a number is the next power of two less one. -/
theorem Smeared.eq_two_pow_sub_one (h : Smeared n x y) (hx : x < 2 ^ n) :
    y = 2 ^ Nat.size x - 1 := by
  refine Nat.eq_of_testBit_eq ?_
  intro i
  rw [Nat.testBit_two_pow_sub_one, Bool.eq_iff_iff, h i, decide_eq_true_iff, Nat.lt_size]
  constructor
  · rintro ⟨j, hle, -, hj⟩
    exact Nat.le_trans (Nat.pow_le_pow_right Nat.two_pos hle) (Nat.ge_two_pow_of_testBit hj)
  · intro hge
    obtain ⟨j, hj, hbit⟩ := Nat.exists_ge_and_testBit_of_ge_two_pow hge
    rcases Nat.lt_or_ge j (i + n) with hnear | hfar
    · exact ⟨j, hj, hnear, hbit⟩
    · have hpow : 2 ^ n ≤ 2 ^ j := Nat.pow_le_pow_right Nat.two_pos (by omega)
      have hzero := Nat.testBit_lt_two_pow (Nat.lt_of_lt_of_le hx hpow)
      rw [hbit] at hzero
      exact absurd hzero (Bool.noConfusion)

end BitSmear
