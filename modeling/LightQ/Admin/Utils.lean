/-
# `Admin.Utils` — editing strings (`utils.h`)

`utils::replace`, which the broker applies to the URIs it hands out.  The
string is edited while it is searched; `start_pos` is behind the text put in,
and what is left behind it gets shorter with every turn, by at least
`from.length()`.  With an empty `from` it does not, and the loop need not end:
the model has fuel for one turn more than the string is long, and
`replace_ends` is that this is enough otherwise.

The broker replaces the star of a bind URI, a byte that occurs once
(`replace_once`).  What the function does to any string is in `Utils.Replace`.
-/
import LightQ.Storage.FileDetails

namespace LightQ

namespace Utils

/-- The first place at or behind `i` where `pat` lies, in the rest of a
string from `i` on. -/
def findAt (pat : Bytes) : Nat → Bytes → Option Nat
  | i, [] => if pat = [] then some i else none
  | i, b :: s => if pat.isPrefixOf (b :: s) then some i else findAt pat (i + 1) s

/-- `str.find(pat, pos)`. -/
def find (str pat : Bytes) (pos : Nat) : Option Nat :=
  if pos ≤ str.length then findAt pat pos (str.drop pos) else none

/-- The loop of `replace`. -/
def replaceLoop (pat new : Bytes) : Nat → Bytes → Nat → Option Bytes
  | 0, _, _ => none
  | fuel + 1, str, startPos =>
      match find str pat startPos with
      | none => some str
      | some pos =>
          replaceLoop pat new fuel (str.take pos ++ new ++ str.drop (pos + pat.length))
            (pos + new.length)

/-- `replace`: its value, and the string after it. -/
def replace (str pat new : Bytes) : Option (Bool × Bytes) :=
  match find str pat 0 with
  | none => some (false, str)
  | some startPos => (replaceLoop pat new (str.length + 1) str startPos).map (fun s => (true, s))

theorem findAt_le {pat s : Bytes} {i j : Nat} (h : findAt pat i s = some j) :
    i ≤ j ∧ j + pat.length ≤ i + s.length := by
  induction s generalizing i with
  | nil =>
      simp only [findAt] at h
      split at h
      · next hpat =>
          cases h
          subst hpat
          exact ⟨Nat.le_refl _, Nat.le_refl _⟩
      · cases h
  | cons b s ih =>
      simp only [findAt] at h
      split at h
      · next hpre =>
          cases h
          have hlen := (List.isPrefixOf_iff_prefix.mp hpre).length_le
          exact ⟨Nat.le_refl _, Nat.add_le_add_left hlen _⟩
      · obtain ⟨hle, hend⟩ := ih h
        refine ⟨Nat.le_of_succ_le hle, Nat.le_trans hend ?_⟩
        exact Nat.le_of_eq (Nat.succ_add_eq_add_succ i s.length)

theorem find_le {str pat : Bytes} {pos j : Nat} (h : find str pat pos = some j) :
    pos ≤ j ∧ j + pat.length ≤ str.length := by
  simp only [find] at h
  split at h
  · next hpos =>
      obtain ⟨hle, hend⟩ := findAt_le h
      rw [List.length_drop] at hend
      exact ⟨hle, by omega⟩
  · cases h

/-- The induction is on the fuel; what is left behind `startPos` bounds the
turns. -/
theorem replaceLoop_ends {pat : Bytes} (hpat : pat ≠ []) (new : Bytes) {fuel : Nat} {str : Bytes}
    {startPos : Nat} (hpos : startPos ≤ str.length) (hfuel : str.length < startPos + fuel) :
    ∃ s, replaceLoop pat new fuel str startPos = some s := by
  induction fuel generalizing str startPos with
  | zero => exact absurd hfuel (Nat.not_lt.mpr hpos)
  | succ fuel ih =>
      simp only [replaceLoop]
      split
      · exact ⟨str, rfl⟩
      · next pos hfind =>
          obtain ⟨hle, hend⟩ := find_le hfind
          have hlen : 0 < pat.length := List.length_pos_iff.mpr hpat
          have hstr : (str.take pos ++ new ++ str.drop (pos + pat.length)).length
              = pos + new.length + (str.length - (pos + pat.length)) := by
            simp only [List.length_append, List.length_take, List.length_drop]
            omega
          apply ih
          · rw [hstr]
            exact Nat.le_add_right _ _
          · rw [hstr]
            omega

/-- `replace` ends when there is something to look for. -/
theorem replace_ends {pat : Bytes} (hpat : pat ≠ []) (str new : Bytes) :
    ∃ r, replace str pat new = some r := by
  unfold replace
  split
  · exact ⟨(false, str), rfl⟩
  · next startPos hfind =>
      obtain ⟨-, hend⟩ := find_le hfind
      obtain ⟨s, hs⟩ := replaceLoop_ends hpat new (Nat.le_of_add_right_le hend)
        (Nat.lt_of_lt_of_le (Nat.lt_succ_self _) (Nat.le_add_left _ _))
      exact ⟨(true, s), by rw [hs]; rfl⟩

/-! ## A single byte -/

section Byte

variable {b : UInt8} {pre post new : Bytes}

theorem findAt_of_not_mem (h : b ∉ post) (i : Nat) : findAt [b] i post = none := by
  induction post generalizing i with
  | nil => rfl
  | cons c post ih =>
      have hne : b ≠ c := List.ne_of_not_mem_cons h
      have hrest := List.not_mem_of_not_mem_cons h
      have hno : ¬ List.isPrefixOf [b] (c :: post) = true := by
        simpa using hne
      rw [findAt, if_neg hno]
      exact ih hrest (i + 1)

theorem findAt_append (h : b ∉ pre) (i : Nat) :
    findAt [b] i (pre ++ b :: post) = some (i + pre.length) := by
  induction pre generalizing i with
  | nil =>
      have hyes : List.isPrefixOf [b] (b :: post) = true := by simp
      rw [List.nil_append, findAt, if_pos hyes]
      rfl
  | cons c pre ih =>
      have hne : b ≠ c := List.ne_of_not_mem_cons h
      have hrest := List.not_mem_of_not_mem_cons h
      have hno : ¬ List.isPrefixOf [b] (c :: (pre ++ b :: post)) = true := by
        simpa using hne
      rw [List.cons_append, findAt, if_neg hno, ih hrest (i + 1), List.length_cons,
        Nat.succ_add_eq_add_succ]

theorem replace_once (hpre : b ∉ pre) (hpost : b ∉ post) :
    replace (pre ++ b :: post) [b] new = some (true, pre ++ new ++ post) := by
  have hfirst : find (pre ++ b :: post) [b] 0 = some pre.length := by
    rw [find, if_pos (Nat.zero_le _), List.drop_zero, findAt_append hpre, Nat.zero_add]
  have hagain : find (pre ++ b :: post) [b] pre.length = some pre.length := by
    have hstart : findAt [b] pre.length ([] ++ b :: post) = some pre.length :=
      findAt_append List.not_mem_nil _
    rw [find, if_pos (by rw [List.length_append]; exact Nat.le_add_right _ _), List.drop_left]
    exact hstart
  have hedit : (pre ++ b :: post).take pre.length ++ new ++
      (pre ++ b :: post).drop (pre.length + [b].length) = pre ++ new ++ post := by
    rw [List.take_left, ← List.drop_drop, List.drop_left]
    rfl
  have hlast : find (pre ++ new ++ post) [b] (pre.length + new.length) = none := by
    have hle : (pre ++ new).length ≤ (pre ++ new ++ post).length := by
      simp only [List.length_append]
      omega
    rw [find, ← List.length_append, if_pos hle, List.drop_left]
    exact findAt_of_not_mem hpost _
  have hfuel : (pre ++ b :: post).length = pre.length + post.length + 1 := by
    rw [List.length_append, List.length_cons]
    rfl
  rw [replace, hfirst]
  simp only [hfuel, replaceLoop, hagain, hedit, hlast, Option.map_some]

end Byte

example : replace (ascii "tcp://*:5001") (ascii "*") (ascii "127.0.0.1")
    = some (true, ascii "tcp://127.0.0.1:5001") := by decide

end Utils

end LightQ
