/-
# `Lib.PosixPath` — resolving a path

A path is a list over some alphabet with a separator; between separators
stand its components.  Resolving an absolute path walks from the root: an
empty component and `.` stay where they are, `..` goes up (at the root it
stays there), any other component goes down.  Symbolic links are left out.

The law that matters is `resolve_file`: a file whose name is put together
from a directory, a name and a suffix is where the directory part of the
name leads to, under the rest of the name.  Two facts about the components
prepare it.  A suffix without separators belongs to the last component
(`splitOn_append_suffix`), and a component of more than two characters is
neither `.` nor `..`, so that it is entered (`enter_of_length`).

To compare files there are `inside_iff`, a file is below a directory exactly
when the directory it is in is that one or below it, and `append_sep_inj`:
equal names have the same text behind their last separator, and in front of
it.
-/
import Mathlib.Data.List.Basic

namespace PosixPath

variable {α : Type*}

/-- `path` is below `dir`. -/
def Inside (dir path : List (List α)) : Prop := ∃ rest, rest ≠ [] ∧ path = dir ++ rest

theorem inside_iff {dir dir' : List (List α)} {c : List α} :
    Inside dir (dir' ++ [c]) ↔ dir <+: dir' := by
  constructor
  · rintro ⟨rest, hne, h⟩
    rw [← List.dropLast_append_getLast hne, ← List.append_assoc] at h
    exact ⟨_, (List.append_inj' h rfl).1.symm⟩
  · rintro ⟨rest, rfl⟩
    exact ⟨rest ++ [c], by simp, by rw [List.append_assoc]⟩

theorem append_sep_inj {sep : α} {a b a' b' : List α} (hb : sep ∉ b) (hb' : sep ∉ b')
    (h : a ++ sep :: b = a' ++ sep :: b') : a = a' ∧ b = b' := by
  rcases List.append_eq_append_iff.mp h with ⟨c, hc, hrest⟩ | ⟨c, hc, hrest⟩
  · cases c with
    | nil =>
        rw [List.append_nil] at hc
        exact ⟨hc.symm, (List.cons.inj hrest).2⟩
    | cons x c =>
        rw [(List.cons.inj hrest).2] at hb
        exact absurd (List.mem_append_right c List.mem_cons_self) hb
  · cases c with
    | nil =>
        rw [List.append_nil] at hc
        exact ⟨hc, (List.cons.inj hrest).2.symm⟩
    | cons x c =>
        rw [(List.cons.inj hrest).2] at hb'
        exact absurd (List.mem_append_right c List.mem_cons_self) hb'

/-! ## Resolving -/

variable [DecidableEq α] (sep dot : α)

/-- One component, from a directory on. -/
def enter (dir : List (List α)) (c : List α) : List (List α) :=
  if c = [] ∨ c = [dot] then dir
  else if c = [dot, dot] then dir.dropLast
  else dir ++ [c]

/-- Several components, from a directory on. -/
def walk (dir : List (List α)) (cs : List (List α)) : List (List α) := cs.foldl (enter dot) dir

/-- Where an absolute path leads to. -/
def resolve (path : List α) : List (List α) := walk dot [] (path.splitOn sep)

/-- The components in front of the last one. -/
def parent (name : List α) : List (List α) := (name.splitOn sep).dropLast

/-- The last component. -/
def base (name : List α) : List α := (name.splitOn sep).getLast (List.splitOn_ne_nil sep name)

variable {sep dot} {dir : List (List α)} {cs ds : List (List α)} {c name suffix : List α}

theorem enter_of_length (h : 2 < c.length) : enter dot dir c = dir ++ [c] := by
  have hstay : ¬ (c = [] ∨ c = [dot]) := by
    rintro (rfl | rfl)
    · exact absurd h (by simp)
    · exact absurd h (by simp)
  have hup : c ≠ [dot, dot] := by
    rintro rfl
    exact absurd h (by simp)
  rw [enter, if_neg hstay, if_neg hup]

theorem walk_append : walk dot dir (cs ++ ds) = walk dot (walk dot dir cs) ds := List.foldl_append

theorem splitOn_eq (name : List α) : name.splitOn sep = parent sep name ++ [base sep name] :=
  (List.dropLast_append_getLast _).symm

theorem splitOn_append_suffix (hsuffix : sep ∉ suffix) (h : name.splitOn sep = cs ++ [c]) :
    (name ++ suffix).splitOn sep = cs ++ [c ++ suffix] := by
  induction name generalizing cs c with
  | nil =>
      obtain ⟨rfl, rfl⟩ : cs = [] ∧ c = [] := by
        cases cs with
        | nil => exact ⟨rfl, (List.cons.inj h).1.symm⟩
        | cons d ds => exact absurd (List.cons.inj h).2 (by simp)
      exact List.splitOn_eq_singleton hsuffix
  | cons x name ih =>
      obtain ⟨ds, d, hname⟩ : ∃ ds d, name.splitOn sep = ds ++ [d] := ⟨_, _, splitOn_eq name⟩
      rw [List.cons_append, List.splitOn_cons_eq_if_modifyHead, ih hname]
      rw [List.splitOn_cons_eq_if_modifyHead, hname] at h
      by_cases hx : (x == sep) = true
      · rw [if_pos hx] at h ⊢
        have hends : ([] :: ds) ++ [d] = cs ++ [c] := h
        obtain ⟨rfl, hd⟩ := List.append_inj' hends rfl
        obtain ⟨rfl, -⟩ := List.cons.inj hd
        rfl
      · rw [if_neg hx] at h ⊢
        cases ds with
        | nil =>
            have hends : [] ++ [x :: d] = cs ++ [c] := h
            obtain ⟨rfl, hd⟩ := List.append_inj' hends rfl
            obtain ⟨rfl, -⟩ := List.cons.inj hd
            rfl
        | cons e es =>
            have hends : ((x :: e) :: es) ++ [d] = cs ++ [c] := h
            obtain ⟨rfl, hd⟩ := List.append_inj' hends rfl
            obtain ⟨rfl, -⟩ := List.cons.inj hd
            rfl

/-- The name of a file below a directory, with a suffix at its end. -/
theorem resolve_file (path : List α) (hsuffix : sep ∉ suffix) (hlen : 2 < suffix.length) :
    resolve sep dot (path ++ sep :: (name ++ suffix))
      = walk dot (resolve sep dot path) (parent sep name) ++ [base sep name ++ suffix] := by
  have hplain : 2 < (base sep name ++ suffix).length := by
    rw [List.length_append]
    exact Nat.lt_add_left _ hlen
  rw [resolve, List.splitOn_append_cons_self, walk_append,
    splitOn_append_suffix hsuffix (splitOn_eq name), walk_append]
  exact enter_of_length hplain

end PosixPath
