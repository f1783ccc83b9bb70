/-
# `Lib.Labels` — labels drawn from a counter

Things are labelled by a counter that only moves up: `Labels lo hi f` says
that the labels given so far lie between two values of the counter and that no
label was given twice.

A single thing has one label (`Labels.single`); labels of the parts of one
thing are labels for pairs of a thing and a part (`Labels.within`).  Labels
drawn later lie behind the earlier ones, so that both together are labels
again: `Labels.extend`.
Whatever is numbered by a counter of a process (a port, a topic id, a file)
gets its distinctness from these three, and the invariant of the process has
to carry no more than `Labels` with the counter as its upper end.
-/
import Mathlib.Data.List.Basic

variable {κ : Type*} {f g : κ → Option Nat} {lo mid hi n : Nat}

/-- Labels from `lo` on and below `hi`, no two of them the same. -/
structure Labels (lo hi : Nat) (f : κ → Option Nat) : Prop where
  range : ∀ {k n}, f k = some n → lo ≤ n ∧ n < hi
  inj : ∀ {k k' n}, f k = some n → f k' = some n → k = k'

namespace Labels

theorem empty (lo hi : Nat) : Labels lo hi fun _ : κ => none where
  range h := nomatch h
  inj h := nomatch h

theorem single [DecidableEq κ] (k : κ) (n : Nat) :
    Labels n (n + 1) fun k' => if k' = k then some n else none where
  range h := by
    obtain ⟨-, heq⟩ := Option.ite_none_right_eq_some.mp h
    obtain rfl := Option.some.inj heq
    exact ⟨Nat.le_refl _, Nat.lt_succ_self _⟩
  inj h h' := (Option.ite_none_right_eq_some.mp h).1.trans (Option.ite_none_right_eq_some.mp h').1.symm

/-- A label that is there stays; the others come from behind. -/
theorem extend (hf : Labels lo mid f) (hg : Labels mid hi g) (hle : lo ≤ mid) (hle' : mid ≤ hi) :
    Labels lo hi fun k => (f k).or (g k) := by
  have hcases : ∀ {k n}, (f k).or (g k) = some n → f k = some n ∨ g k = some n := by
    intro k n h
    rcases Option.or_eq_some_iff.mp h with h | ⟨-, h⟩
    · exact Or.inl h
    · exact Or.inr h
  constructor
  · intro k n h
    rcases hcases h with h | h
    · obtain ⟨h₁, h₂⟩ := hf.range h
      exact ⟨h₁, Nat.lt_of_lt_of_le h₂ hle'⟩
    · obtain ⟨h₁, h₂⟩ := hg.range h
      exact ⟨Nat.le_trans hle h₁, h₂⟩
  · intro k k' n h h'
    rcases hcases h with h | h
    · rcases hcases h' with h' | h'
      · exact hf.inj h h'
      · exact absurd (hf.range h).2 (Nat.not_lt.mpr (hg.range h').1)
    · rcases hcases h' with h' | h'
      · exact absurd (hf.range h').2 (Nat.not_lt.mpr (hg.range h).1)
      · exact hg.inj h h'

theorem within {ι : Type*} [DecidableEq ι] (hf : Labels lo hi f) (i : ι) :
    Labels lo hi fun k : ι × κ => if k.1 = i then f k.2 else none where
  range h := hf.range (Option.ite_none_right_eq_some.mp h).2
  inj h h' := by
    obtain ⟨hi, h⟩ := Option.ite_none_right_eq_some.mp h
    obtain ⟨hi', h'⟩ := Option.ite_none_right_eq_some.mp h'
    exact Prod.ext (hi.trans hi'.symm) (hf.inj h h')

end Labels
