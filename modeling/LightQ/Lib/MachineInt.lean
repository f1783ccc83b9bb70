/-
# `Lib.MachineInt` — the C integer conversions

Integers are `Nat` and `Int`; what a C program does when it moves a value
into a narrower or differently signed type is a function here, applied
where the program's types apply it.  Unsigned types keep the residue in
`[0, 2^w)`, signed ones the residue in `[-2^(w-1), 2^(w-1))`.

The lemmas say when a conversion changes nothing, which is what a proof
about a run inside the type's range asks for, and what it yields just
outside:

  * a signed conversion keeps what fits (`bmod_of_fits`, where `w` is the
    width less one), and no conversion to `int` makes a nonnegative value
    larger (`i32_le`);
  * a `uint32_t` from `2^31` on and a `uint64_t` from `2^63` on turn negative
    (`i32_of_ge`, `i64_of_ge`), so that a `uint64_t` read as a signed value is
    positive exactly inside the signed range (`i64_pos_iff`);
  * a nonnegative value passes through `uint32_t` and through `size_t`
    (`u32OfInt_of_nonneg`, `u64OfInt_of_nonneg`), and `-1` becomes the largest
    `size_t` (`u64OfInt_neg_one`).
-/
import Mathlib.Algebra.Order.Ring.Int

namespace MachineInt

/-- Conversion of an unsigned value to `uint32_t`. -/
def u32 (n : Nat) : Nat := n % 2 ^ 32

/-- Conversion of a signed value to `uint32_t`. -/
def u32OfInt (z : Int) : Nat := (z % 2 ^ 32).toNat

/-- Conversion of a signed value to `uint64_t` (`size_t`). -/
def u64OfInt (z : Int) : Nat := (z % 2 ^ 64).toNat

/-- Conversion to `int`. -/
def i32 (z : Int) : Int := z.bmod (2 ^ 32)

/-- Conversion to `int64_t` (`ssize_t`). -/
def i64 (z : Int) : Int := z.bmod (2 ^ 64)

/-- Subtraction of `uint64_t` values: it wraps below zero. -/
def subU64 (a b : Nat) : Nat := if b ≤ a then a - b else a + 2 ^ 64 - b

theorem u32_lt (n : Nat) : u32 n < 2 ^ 32 := Nat.mod_lt _ (by decide)

@[simp] theorem u32_of_lt {n : Nat} (h : n < 2 ^ 32) : u32 n = n := Nat.mod_eq_of_lt h

theorem u32_le (n : Nat) : u32 n ≤ n := Nat.mod_le n _

@[simp] theorem subU64_of_le {a b : Nat} (h : b ≤ a) : subU64 a b = a - b := if_pos h

theorem bmod_of_fits {z : Int} {w : Nat} (h₀ : 0 ≤ z) (h₁ : z < 2 ^ w) :
    z.bmod (2 ^ (w + 1)) = z := by
  have hw : ((2 ^ (w + 1) : Nat) : Int) = 2 * 2 ^ w := by
    rw [Nat.pow_succ]; push_cast; exact Int.mul_comm _ _
  apply Int.bmod_eq_of_le_mul_two
  · rw [hw]; omega
  · rw [hw]; omega

theorem i32_of_lt {z : Int} (h₀ : 0 ≤ z) (h₁ : z < 2 ^ 31) : i32 z = z :=
  bmod_of_fits (w := 31) h₀ h₁

theorem i64_of_lt {z : Int} (h₀ : 0 ≤ z) (h₁ : z < 2 ^ 63) : i64 z = z :=
  bmod_of_fits (w := 63) h₀ h₁

theorem i32_lt (z : Int) : i32 z < 2 ^ 31 := by
  have h := Int.bmod_lt (x := z) (m := 2 ^ 32) (by decide)
  simpa [i32] using h

theorem i32_le {z : Int} (h : 0 ≤ z) : i32 z ≤ z := by
  have hcast : ((2 ^ 32 : Nat) : Int) = 4294967296 := rfl
  have hmod : z % 4294967296 ≤ z := by omega
  rw [i32, Int.bmod, hcast]
  split
  · exact hmod
  · omega

theorem i32_of_ge {n : Nat} (h₀ : 2 ^ 31 ≤ n) (h₁ : n < 2 ^ 32) :
    i32 n = (n : Int) - 2 ^ 32 := by
  have hcast : ((2 ^ 32 : Nat) : Int) = 4294967296 := rfl
  have hmod : (n : Int) % 4294967296 = n := Int.emod_eq_of_lt (by omega) (by omega)
  rw [i32, Int.bmod, hcast, hmod]
  exact if_neg (by omega)

theorem i64_of_ge {n : Nat} (h₀ : 2 ^ 63 ≤ n) (h₁ : n < 2 ^ 64) :
    i64 n = (n : Int) - 2 ^ 64 := by
  have hcast : ((2 ^ 64 : Nat) : Int) = 18446744073709551616 := rfl
  have hmod : (n : Int) % 18446744073709551616 = n := Int.emod_eq_of_lt (by omega) (by omega)
  rw [i64, Int.bmod, hcast, hmod]
  exact if_neg (by omega)

theorem i64_pos_iff {n : Nat} (h : n < 2 ^ 64) : 0 < i64 n ↔ 0 < n ∧ n < 2 ^ 63 := by
  by_cases hn : n < 2 ^ 63
  · rw [i64_of_lt (by omega) (by omega)]; omega
  · rw [i64_of_ge (by omega) h]; omega

theorem u32OfInt_of_nonneg {n : Nat} (h : n < 2 ^ 32) : u32OfInt (n : Int) = n := by
  have : ((n : Int) % 2 ^ 32) = n := Int.emod_eq_of_lt (by omega) (by exact_mod_cast h)
  rw [u32OfInt, this, Int.toNat_natCast]

theorem u64OfInt_of_nonneg {n : Nat} (h : n < 2 ^ 64) : u64OfInt (n : Int) = n := by
  have : ((n : Int) % 2 ^ 64) = n := Int.emod_eq_of_lt (by omega) (by exact_mod_cast h)
  rw [u64OfInt, this, Int.toNat_natCast]

/-- `-1` is the largest `size_t`. -/
theorem u64OfInt_neg_one : u64OfInt (-1) = 2 ^ 64 - 1 := by decide

end MachineInt
