/-
# `Lib.Utf16` — characters as sixteen-bit units

A character below `0x10000` is one unit; any other is a high and a low
surrogate, with ten bits of it in each.  The units of characters are the
single units and the pairs, and no others (`encode_single`, `encode_join`,
`encode_cases`): a unit outside the surrogates is a character of its own, a
high and a low one in this order are the character they are joined to, and
that is all there is.

A writer that works through text unit by unit and a reader that joins two
units where the first is a high surrogate therefore agree on where characters
begin, which is what a text format with `\u` escapes asks for.
-/
import Mathlib.Data.List.Basic

namespace Utf16

/-- The units of a character. -/
def encode (c : Char) : List UInt16 :=
  if c.toNat < 0x10000 then [UInt16.ofNat c.toNat]
  else [UInt16.ofNat (0xd800 + (c.toNat - 0x10000) / 0x400),
    UInt16.ofNat (0xdc00 + (c.toNat - 0x10000) % 0x400)]

/-- A unit that is a character by itself. -/
def Single (u : UInt16) : Prop := u.toNat < 0xd800 ∨ 0xdfff < u.toNat

/-- A high surrogate, and a low one. -/
def Pair (u v : UInt16) : Prop :=
  (0xd800 ≤ u.toNat ∧ u.toNat < 0xdc00) ∧ 0xdc00 ≤ v.toNat ∧ v.toNat ≤ 0xdfff

/-- The code point of a pair. -/
def join (u v : UInt16) : Nat := 0x10000 + (u.toNat - 0xd800) * 0x400 + (v.toNat - 0xdc00)

theorem join_eq (u v : UInt16) :
    join u v = 0x10000 + (u.toNat - 0xd800) * 0x400 + (v.toNat - 0xdc00) := rfl

theorem toNat_small (u : UInt16) : u.toNat < 0x10000 := by
  have := u.toNat_lt
  omega

theorem toNat_ofNat {n : Nat} (h : n.isValidChar) : (Char.ofNat n).toNat = n := by
  rw [Char.ofNat, dif_pos h]
  rfl

theorem single_valid {u : UInt16} (h : Single u) : u.toNat.isValidChar := by
  have hlt := u.toNat_lt
  rcases h with hlow | hhigh
  · exact Or.inl hlow
  · exact Or.inr ⟨hhigh, by omega⟩

theorem join_valid {u v : UInt16} (h : Pair u v) : (join u v).isValidChar := by
  obtain ⟨⟨hu, hu'⟩, hv, hv'⟩ := h
  have hjoin := join_eq u v
  exact Or.inr ⟨by omega, by omega⟩

theorem encode_single {u : UInt16} (h : Single u) : encode (Char.ofNat u.toNat) = [u] := by
  have hlt : u.toNat < 0x10000 := toNat_small u
  simp only [encode, toNat_ofNat (single_valid h), hlt, if_true, UInt16.ofNat_toNat]

theorem encode_join {u v : UInt16} (h : Pair u v) : encode (Char.ofNat (join u v)) = [u, v] := by
  have hvalid := join_valid h
  obtain ⟨⟨hu, hu'⟩, hv, hv'⟩ := h
  have hjoin := join_eq u v
  have hhigh : 0xd800 + (join u v - 0x10000) / 0x400 = u.toNat := by omega
  have hlow : 0xdc00 + (join u v - 0x10000) % 0x400 = v.toNat := by omega
  have hlarge : ¬ join u v < 0x10000 := by omega
  simp only [encode, toNat_ofNat hvalid, hlarge, if_false, hhigh, hlow, UInt16.ofNat_toNat]

/-- The units of a character are a single one or a pair. -/
theorem encode_cases (c : Char) :
    (∃ u, Single u ∧ u.toNat = c.toNat ∧ encode c = [u]) ∨
      ∃ u v, Pair u v ∧ join u v = c.toNat ∧ encode c = [u, v] := by
  have hvalid : c.toNat.isValidChar := c.valid
  by_cases hsmall : c.toNat < 0x10000
  · have hunit : (UInt16.ofNat c.toNat).toNat = c.toNat := by
      rw [UInt16.toNat_ofNat']
      exact Nat.mod_eq_of_lt hsmall
    have hsingle : Single (UInt16.ofNat c.toNat) := by
      rw [Single, hunit]
      exact hvalid.imp_right And.left
    exact Or.inl ⟨_, hsingle, hunit, if_pos hsmall⟩
  · have hbits : c.toNat - 0x10000 < 0x100000 := by
      rcases hvalid with hlow | ⟨-, hhigh⟩ <;> omega
    have hhigh : (UInt16.ofNat (0xd800 + (c.toNat - 0x10000) / 0x400)).toNat =
        0xd800 + (c.toNat - 0x10000) / 0x400 := by
      rw [UInt16.toNat_ofNat']
      exact Nat.mod_eq_of_lt (by omega)
    have hlow : (UInt16.ofNat (0xdc00 + (c.toNat - 0x10000) % 0x400)).toNat =
        0xdc00 + (c.toNat - 0x10000) % 0x400 := by
      rw [UInt16.toNat_ofNat']
      exact Nat.mod_eq_of_lt (by omega)
    have hpair : Pair (UInt16.ofNat (0xd800 + (c.toNat - 0x10000) / 0x400))
        (UInt16.ofNat (0xdc00 + (c.toNat - 0x10000) % 0x400)) := by
      rw [Pair, hhigh, hlow]
      omega
    have hjoin := join_eq (UInt16.ofNat (0xd800 + (c.toNat - 0x10000) / 0x400))
      (UInt16.ofNat (0xdc00 + (c.toNat - 0x10000) % 0x400))
    rw [hhigh, hlow] at hjoin
    exact Or.inr ⟨_, _, hpair, by omega, if_neg hsmall⟩

end Utf16
