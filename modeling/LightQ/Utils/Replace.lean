/-
# `Utils.Replace` — what `utils::replace` does to a string (`utils.h`)

The string is edited while it is searched.  In front of `start_pos` is what has
been dealt with, the text that was put in included; behind it lies what is left
of the string as it was.  So the loop is a scan of the old string
(`Lib.Substitution`), and what is put in is not looked at again: `find` from a
position on looks at what is behind it (`find_behind`).

`replace_substitutes` says of any string, any nonempty text to look for and
anything to put in its place that the loop ends, tells whether it has found
something, and has put the new text between the pieces of the scan.  The induction
is on the scan of what is behind `start_pos` (`replaceLoop_scan`), so that the loop
has as many turns as the scan has places.

The empty text lies everywhere, also behind the end of what was put in, and a loop
that looks for it never ends; the broker does not look for it.
-/
import LightQ.Lib.Substitution
import LightQ.Admin.Utils

namespace LightQ

namespace Utils

open Substitution

variable {pat pre post rest new : Bytes} {pieces : List Bytes}

theorem findAt_clear (h : ¬ pat <:+: rest) (i : Nat) : findAt pat i rest = none := by
  induction rest generalizing i with
  | nil =>
      have hne : pat ≠ [] := fun hnil => h (hnil ▸ List.nil_infix)
      rw [findAt, if_neg hne]
  | cons b rest ih =>
      rw [List.infix_cons_iff, not_or] at h
      have hno : ¬ pat.isPrefixOf (b :: rest) = true :=
        fun hpre => h.1 (List.isPrefixOf_iff_prefix.mp hpre)
      rw [findAt, if_neg hno]
      exact ih h.2 (i + 1)

theorem findAt_first (h : First pat pre post) (i : Nat) :
    findAt pat i (pre ++ pat ++ post) = some (i + pre.length) := by
  induction pre generalizing i with
  | nil =>
      cases hs : pat ++ post with
      | nil =>
          obtain ⟨rfl, rfl⟩ := List.append_eq_nil_iff.mp hs
          rfl
      | cons b s =>
          have hyes : pat.isPrefixOf (b :: s) = true :=
            List.isPrefixOf_iff_prefix.mpr ⟨post, hs⟩
          rw [List.nil_append, hs, findAt, if_pos hyes]
          rfl
  | cons a pre ih =>
      have hno : ¬ pat.isPrefixOf (a :: (pre ++ pat ++ post)) = true :=
        fun hpre => h.not_prefix (List.isPrefixOf_iff_prefix.mp hpre)
      rw [List.cons_append, List.cons_append, findAt, if_neg hno, ih h.tail (i + 1),
        List.length_cons, Nat.succ_add_eq_add_succ]

theorem find_behind (done rest pat : Bytes) :
    find (done ++ rest) pat done.length = findAt pat done.length rest := by
  have hle : done.length ≤ (done ++ rest).length := by
    rw [List.length_append]
    exact Nat.le_add_right _ _
  rw [find, if_pos hle, List.drop_left]

/-- The loop puts the new text between the pieces of a scan.  The induction is on
the scan of what is behind `startPos`. -/
theorem replaceLoop_scan (h : Scan pat rest pieces) (new : Bytes) {fuel : Nat}
    (hfuel : pieces.length ≤ fuel) (done : Bytes) :
    replaceLoop pat new fuel (done ++ rest) done.length = some (done ++ new.intercalate pieces) := by
  induction h generalizing done fuel with
  | clear hno =>
      obtain ⟨fuel, rfl⟩ := Nat.exists_eq_add_one.mpr hfuel
      rw [replaceLoop, find_behind, findAt_clear hno, List.intercalate_singleton]
  | @found pre post pieces hfirst hscan ih =>
      obtain ⟨fuel, rfl⟩ := Nat.exists_eq_add_one.mpr (Nat.lt_of_lt_of_le (Nat.succ_pos _) hfuel)
      rw [replaceLoop, find_behind, findAt_first hfirst]
      have hedit : (done ++ (pre ++ pat ++ post)).take (done.length + pre.length) ++ new
          ++ (done ++ (pre ++ pat ++ post)).drop (done.length + pre.length + pat.length)
            = (done ++ pre ++ new) ++ post := by
        have hfront : done ++ (pre ++ pat ++ post) = (done ++ pre) ++ (pat ++ post) := by
          simp only [List.append_assoc]
        rw [hfront, ← List.length_append, List.take_left, ← List.drop_drop, List.drop_left,
          List.drop_left]
      have hpos : done.length + pre.length + new.length = (done ++ pre ++ new).length := by
        simp only [List.length_append]
      obtain ⟨piece, more, rfl⟩ := hscan.exists_cons
      dsimp only
      rw [hedit, hpos, ih (Nat.le_of_succ_le_succ hfuel), List.intercalate_cons_cons]
      simp only [List.append_assoc]

/-- Any string, any nonempty text to look for and anything to put in its place: `replace`
ends, tells whether it has found something, and has put the new text in the place
of what a scan of the string from left to right comes upon. -/
theorem replace_substitutes {pat : Bytes} (hpat : pat ≠ []) (str new : Bytes) :
    ∃ pieces, Scan pat str pieces ∧ (∀ pieces', Scan pat str pieces' → pieces' = pieces) ∧
      str = pat.intercalate pieces ∧
      replace str pat new = some (decide (pat <:+: str), new.intercalate pieces) := by
  obtain ⟨pieces, hscan⟩ := exists_scan hpat str
  have hstart : find str pat 0 = findAt pat 0 str := find_behind [] str pat
  have hfuel := hscan.length_le hpat
  refine ⟨pieces, hscan, fun pieces' hscan' => hscan'.unique hscan, hscan.intercalate.symm, ?_⟩
  rw [replace, hstart]
  cases hscan with
  | clear hno =>
      rw [findAt_clear hno, decide_eq_false hno, List.intercalate_singleton]
  | @found pre post pieces hfirst hscan =>
      have hoccurs : pat <:+: pre ++ pat ++ post := ⟨pre, post, rfl⟩
      -- the loop searches again, from the place that has been found
      have hagain : Scan pat (pat ++ post) ([] :: pieces) := .found (first_nil pat post) hscan
      have hloop := replaceLoop_scan hagain new hfuel pre
      rw [← List.append_assoc] at hloop
      obtain ⟨piece, more, rfl⟩ := hscan.exists_cons
      rw [findAt_first hfirst, decide_eq_true hoccurs, Nat.zero_add]
      dsimp only
      rw [hloop, List.intercalate_cons_cons, List.intercalate_cons_cons, List.nil_append,
        ← List.append_assoc]
      rfl

/-- Overlapping places are not replaced twice, and the text put in, which has one,
stays. -/
theorem replace_substitutes_overlapping :
    ∃ pieces, Scan (ascii "aa") (ascii "aaa") pieces ∧
      (∀ pieces', Scan (ascii "aa") (ascii "aaa") pieces' → pieces' = pieces) ∧
      ascii "aaa" = (ascii "aa").intercalate pieces ∧
      replace (ascii "aaa") (ascii "aa") (ascii "baab")
        = some (decide (ascii "aa" <:+: ascii "aaa"), (ascii "baab").intercalate pieces) :=
  replace_substitutes (by decide) (ascii "aaa") (ascii "baab")

end Utils

end LightQ
