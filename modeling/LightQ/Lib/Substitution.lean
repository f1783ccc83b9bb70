/-
# `Lib.Substitution` — scanning for a pattern, and replacing it

A scan from left to right takes the first place where the pattern lies, and
goes on behind it.  What it leaves between these places are the pieces: the
text is the pieces with the pattern between them (`Scan.intercalate`), and it
is replaced by putting something else there (`List.intercalate`).

A nonempty pattern has exactly one scan (`Scan.unique`).  Where the pattern
lies it lies first somewhere (`exists_first`), and that place is settled by what
is in front of its end alone: if the pattern lies nowhere before, it lies first
there (`first_of_clear`), and a place further to the left would be one in the
front part (`First.tail`).  Every turn takes a pattern away from the text, so
that a scan has no more turns than the text has room for (`Scan.length_le`).

Occurrences may overlap in the text; the scan takes the first of them and does
not come back for the others.
-/
import Mathlib.Data.List.Basic

namespace Substitution

variable {α : Type*} {pat pre post s : List α} {pieces : List (List α)}

/-- In `pre ++ pat ++ post` the pattern lies nowhere further to the left. -/
def First (pat pre post : List α) : Prop :=
  ∀ front back, pre ++ pat ++ post = front ++ pat ++ back → pre.length ≤ front.length

/-- A scan and its pieces. -/
inductive Scan (pat : List α) : List α → List (List α) → Prop where
  | clear {s : List α} : ¬ pat <:+: s → Scan pat s [s]
  | found {pre post : List α} {pieces : List (List α)} : First pat pre post →
      Scan pat post pieces → Scan pat (pre ++ pat ++ post) (pre :: pieces)

/-! ## The first place -/

theorem First.tail {a : α} (h : First pat (a :: pre) post) : First pat pre post := by
  intro front back heq
  have hle := h (a :: front) back (congrArg (List.cons a) heq)
  exact Nat.le_of_succ_le_succ hle

theorem First.not_prefix {a : α} (h : First pat (a :: pre) post) :
    ¬ pat <+: a :: (pre ++ pat ++ post) := by
  rintro ⟨back, heq⟩
  exact Nat.not_succ_le_zero _ (h [] back heq.symm)

theorem first_nil (pat post : List α) : First pat [] post := fun _ _ _ => Nat.zero_le _

theorem first_of_clear (h : ¬ pat <:+: (pre ++ pat).dropLast) (post : List α) :
    First pat pre post := by
  intro front back heq
  by_contra hlt
  have hpre : front ++ pat <+: pre ++ pat := by
    refine List.prefix_of_prefix_length_le ⟨back, heq.symm⟩ ⟨post, rfl⟩ ?_
    rw [List.length_append, List.length_append]
    omega
  have hlast : front ++ pat <+: (pre ++ pat).dropLast := by
    refine List.prefix_of_prefix_length_le hpre (List.dropLast_prefix _) ?_
    rw [List.length_dropLast, List.length_append, List.length_append]
    omega
  exact h ((List.suffix_append front pat).isInfix.trans hlast.isInfix)

theorem exists_first (h : pat <:+: s) : ∃ pre post, s = pre ++ pat ++ post ∧ First pat pre post := by
  induction s with
  | nil =>
      obtain rfl := List.infix_nil.mp h
      exact ⟨[], [], rfl, first_nil _ _⟩
  | cons a s ih =>
      by_cases hpre : pat <+: a :: s
      · obtain ⟨post, heq⟩ := hpre
        exact ⟨[], post, heq.symm, first_nil _ _⟩
      · obtain ⟨pre, post, rfl, hfirst⟩ := ih ((List.infix_cons_iff.mp h).resolve_left hpre)
        refine ⟨a :: pre, post, rfl, ?_⟩
        intro front back heq
        cases front with
        | nil => exact absurd ⟨back, heq.symm⟩ hpre
        | cons b front =>
            obtain ⟨-, hrest⟩ := List.cons.inj heq
            exact Nat.succ_le_succ (hfirst front back hrest)

/-! ## The scan -/

theorem Scan.intercalate (h : Scan pat s pieces) : pat.intercalate pieces = s := by
  induction h with
  | clear _ => exact List.intercalate_singleton
  | @found pre post pieces _ hscan ih =>
      cases pieces with
      | nil => cases hscan
      | cons piece pieces => rw [List.intercalate_cons_cons, ih]

theorem Scan.exists_cons (h : Scan pat s pieces) : ∃ piece rest, pieces = piece :: rest := by
  cases h with
  | clear _ => exact ⟨_, _, rfl⟩
  | found _ _ => exact ⟨_, _, rfl⟩

theorem Scan.length_le (hpat : pat ≠ []) (h : Scan pat s pieces) : pieces.length ≤ s.length + 1 := by
  induction h with
  | clear _ => exact Nat.le_add_left 1 _
  | found _ _ ih =>
      have hpos := List.length_pos_iff.mpr hpat
      simp only [List.length_cons, List.length_append]
      omega

theorem exists_scan (hpat : pat ≠ []) (s : List α) : ∃ pieces, Scan pat s pieces := by
  induction hlen : s.length using Nat.strongRecOn generalizing s with
  | ind n ih =>
      by_cases h : pat <:+: s
      · obtain ⟨pre, post, rfl, hfirst⟩ := exists_first h
        have hpos := List.length_pos_iff.mpr hpat
        have hless : post.length < n := by
          rw [← hlen, List.length_append, List.length_append]
          omega
        obtain ⟨pieces, hscan⟩ := ih post.length hless post rfl
        exact ⟨pre :: pieces, .found hfirst hscan⟩
      · exact ⟨[s], .clear h⟩

/-- There is one scan. -/
theorem Scan.unique {pieces' : List (List α)} (h : Scan pat s pieces) (h' : Scan pat s pieces') :
    pieces = pieces' := by
  induction h generalizing pieces' with
  | clear hno =>
      cases h' with
      | clear _ => rfl
      | @found pre post _ _ _ => exact absurd ⟨pre, post, rfl⟩ hno
  | @found pre post pieces hfirst _ ih =>
      generalize hs : pre ++ pat ++ post = s at h'
      cases h' with
      | clear hno => exact absurd ⟨pre, post, hs⟩ hno
      | @found pre' post' pieces' hfirst' hscan' =>
          -- neither of the two places is to the right of the other
          have hlen := Nat.le_antisymm (hfirst pre' post' hs) (hfirst' pre post hs.symm)
          rw [List.append_assoc, List.append_assoc] at hs
          obtain ⟨rfl, hrest⟩ := List.append_inj hs hlen
          obtain rfl := List.append_cancel_left hrest
          rw [ih hscan']

end Substitution
