/-
# `Lib.PublishedLog` — a log in cells, read while it is written

A writer appends items to the last of a list of cells and adds new cells behind
it.  With every cell goes a published total: how many items the log has up to
the end of the cell.  The writer appends first and publishes later, so that the
total of the last cell lags behind; that of an earlier one is exact (`Ledger`,
and `ledger_snoc` takes the last cell apart from the others).

What the writer does is one of two things, and both are `Grows`: the last cell
gets more items, or another total (`Grows.last`), or a new cell is put behind
it (`Grows.push`).  What comes before a cell stays there (`Grows.before_eq`),
and the log gets no shorter (`Grows.length_items_le`).

A reader looks for the cell that holds an offset of the log by comparing the
offset with one total after the other, and the writer goes on between any two
of these looks.  `Scans` is what the reader knows in front of a cell, `Holds`
what it knows once a total exceeds the offset.  It goes past a cell whose total
does not (`Ledger.skip`) and stops at one whose total does (`Ledger.found`).
Both survive whatever the writer does, `Scans` as long as the reader is not
behind the last cell; and what the cell then has at the offset is what the log
has there (`Holds.slice`).
-/
import LightQ.Lib.FrameLog

namespace PublishedLog

/-- Some items, and the total published with them. -/
structure Cell (α : Type*) where
  items : List α
  published : Nat

variable {α : Type*} {cells cells' : List (Cell α)} {offset i : Nat} {c : Cell α}

/-- The log. -/
def items (cells : List (Cell α)) : List α := (cells.map Cell.items).flatten

/-- How many items come before a cell. -/
def before (cells : List (Cell α)) (i : Nat) : Nat := (items (cells.take i)).length

theorem before_succ (h : cells[i]? = some c) :
    before cells (i + 1) = before cells i + c.items.length := by
  rw [before, before, List.take_add_one, h, Option.toList_some, items, List.map_append,
    List.flatten_append, List.length_append]
  simp [items]

theorem getElem?_append_of_some (h : cells[i]? = some c) (more : List (Cell α)) :
    (cells ++ more)[i]? = some c := by
  rw [List.getElem?_append_left (List.getElem?_eq_some_iff.mp h).1, h]

/-- Totals are exact but for the last, and that is not too large. -/
structure Ledger (cells : List (Cell α)) : Prop where
  settled : ∀ {i : Nat} {c : Cell α}, cells[i]? = some c → i + 1 < cells.length →
    c.published = before cells (i + 1)
  bounded : ∀ {i : Nat} {c : Cell α}, cells[i]? = some c → c.published ≤ before cells (i + 1)

theorem before_append (hi : i ≤ cells.length) (more : List (Cell α)) :
    before (cells ++ more) i = before cells i := by
  rw [before, before, List.take_append_of_le_length hi]

theorem ledger_snoc {pre : List (Cell α)}
    (hpre : ∀ {i : Nat} {c : Cell α}, pre[i]? = some c → c.published = before pre (i + 1))
    (hlast : c.published ≤ (items pre).length + c.items.length) : Ledger (pre ++ [c]) := by
  have hsettled : ∀ {i : Nat} {d : Cell α}, (pre ++ [c])[i]? = some d → i < pre.length →
      d.published = before (pre ++ [c]) (i + 1) := by
    intro i d hd hi
    rw [List.getElem?_append_left hi] at hd
    rw [before_append hi, hpre hd]
  refine ⟨fun hd hnext => hsettled hd (by simpa using hnext), fun {i d} hd => ?_⟩
  rcases Nat.lt_or_ge i pre.length with hi | hi
  · exact Nat.le_of_eq (hsettled hd hi)
  · have hlt := (List.getElem?_eq_some_iff.mp hd).1
    rw [List.length_append, List.length_singleton] at hlt
    obtain rfl : i = pre.length := by omega
    obtain rfl : c = d := by simpa using hd
    rw [before_succ hd, before_append (Nat.le_refl _), before, List.take_length]
    exact hlast

/-- The writer goes on: cells keep their items, the last one may get more, and
there may be new ones behind it. -/
structure Grows (cells cells' : List (Cell α)) : Prop where
  length_le : cells.length ≤ cells'.length
  prefixed : ∀ {i : Nat} {c : Cell α}, cells[i]? = some c →
    ∃ c' : Cell α, cells'[i]? = some c' ∧ c.items <+: c'.items
  settled : ∀ {i : Nat} {c : Cell α}, cells[i]? = some c → i + 1 < cells.length →
    ∃ c' : Cell α, cells'[i]? = some c' ∧ c'.items = c.items

theorem Grows.refl (cells : List (Cell α)) : Grows cells cells where
  length_le := Nat.le_refl _
  prefixed := fun h => ⟨_, h, List.prefix_rfl⟩
  settled := fun h _ => ⟨_, h, rfl⟩

theorem Grows.last {pre : List (Cell α)} {c c' : Cell α} (h : c.items <+: c'.items) :
    Grows (pre ++ [c]) (pre ++ [c']) where
  length_le := by simp
  prefixed := by
    intro i d hd
    rcases Nat.lt_trichotomy i pre.length with hlt | rfl | hgt
    · rw [List.getElem?_append_left hlt] at hd ⊢
      exact ⟨d, hd, List.prefix_rfl⟩
    · simp only [List.getElem?_concat_length, Option.some.injEq] at hd ⊢
      exact ⟨c', rfl, hd ▸ h⟩
    · rw [List.getElem?_eq_none (by simp; omega)] at hd
      cases hd
  settled := by
    intro i d hd hi
    rw [List.length_append, List.length_singleton] at hi
    have hlt : i < pre.length := by omega
    rw [List.getElem?_append_left hlt] at hd ⊢
    exact ⟨d, hd, rfl⟩

theorem Grows.push (cells : List (Cell α)) (c : Cell α) : Grows cells (cells ++ [c]) where
  length_le := by simp
  prefixed := fun h => ⟨_, getElem?_append_of_some h _, List.prefix_rfl⟩
  settled := fun h _ => ⟨_, getElem?_append_of_some h _, rfl⟩

theorem Grows.before_eq (h : Grows cells cells') (hi : i < cells.length) :
    before cells' i = before cells i := by
  induction i with
  | zero => rfl
  | succ i ih =>
      obtain ⟨c, hc⟩ : ∃ c, cells[i]? = some c := ⟨_, List.getElem?_eq_getElem (by omega)⟩
      obtain ⟨c', hc', hsame⟩ := h.settled hc hi
      rw [before_succ hc', before_succ hc, ih (by omega), hsame]

theorem Grows.length_items_le (h : Grows cells cells') :
    (items cells).length ≤ (items cells').length := by
  have hbefore : ∀ i, i ≤ cells.length → before cells i ≤ before cells' i := by
    intro i
    induction i with
    | zero => exact fun _ => Nat.le_refl 0
    | succ i ih =>
        intro hi
        obtain ⟨c, hc⟩ : ∃ c, cells[i]? = some c := ⟨_, List.getElem?_eq_getElem hi⟩
        obtain ⟨c', hc', hprefix⟩ := h.prefixed hc
        rw [before_succ hc, before_succ hc']
        exact Nat.add_le_add (ih (Nat.le_of_succ_le hi)) hprefix.length_le
  have hall := hbefore cells.length (Nat.le_refl _)
  rw [before, List.take_length] at hall
  refine Nat.le_trans hall ?_
  have hsplit : items cells' = items (cells'.take cells.length) ++ items (cells'.drop cells.length) := by
    rw [items, items, items, ← List.flatten_append, ← List.map_append, List.take_append_drop]
  rw [before, hsplit, List.length_append]
  exact Nat.le_add_right _ _

/-! ## The reader -/

/-- In front of cell `i`: if there is one, the offset is not before it. -/
def Scans (cells : List (Cell α)) (offset i : Nat) : Prop :=
  i < cells.length → before cells i ≤ offset

/-- The offset lies in cell `i`. -/
structure Holds (cells : List (Cell α)) (offset i : Nat) : Prop where
  lt_length : i < cells.length
  le : before cells i ≤ offset
  lt : offset < before cells (i + 1)

theorem scans_zero (cells : List (Cell α)) (offset : Nat) : Scans cells offset 0 :=
  fun _ => Nat.zero_le _

theorem Ledger.skip (h : Ledger cells) (hc : cells[i]? = some c) (hle : c.published ≤ offset) :
    Scans cells offset (i + 1) := by
  intro hnext
  rw [← h.settled hc hnext]
  exact hle

theorem Ledger.found (h : Ledger cells) (hscan : Scans cells offset i) (hc : cells[i]? = some c)
    (hlt : offset < c.published) : Holds cells offset i where
  lt_length := (List.getElem?_eq_some_iff.mp hc).1
  le := hscan (List.getElem?_eq_some_iff.mp hc).1
  lt := Nat.lt_of_lt_of_le hlt (h.bounded hc)

theorem Scans.grows (h : Scans cells offset i) (hgrows : Grows cells cells')
    (hi : i < cells.length ∨ cells'.length = cells.length) : Scans cells' offset i := by
  intro hlt
  have hlt' : i < cells.length := hi.elim id fun heq => heq ▸ hlt
  rw [hgrows.before_eq hlt']
  exact h hlt'

theorem Holds.grows (h : Holds cells offset i) (hgrows : Grows cells cells') :
    Holds cells' offset i := by
  obtain ⟨c, hc⟩ : ∃ c, cells[i]? = some c := ⟨_, List.getElem?_eq_getElem h.lt_length⟩
  obtain ⟨c', hc', hprefix⟩ := hgrows.prefixed hc
  have hbefore := hgrows.before_eq h.lt_length
  refine ⟨Nat.lt_of_lt_of_le h.lt_length hgrows.length_le, hbefore ▸ h.le, ?_⟩
  have hlt := h.lt
  rw [before_succ hc] at hlt
  rw [before_succ hc', hbefore]
  have hlen := hprefix.length_le
  omega

/-- What the cell has at the offset is what the log has there. -/
theorem Holds.slice (h : Holds cells offset i) (hc : cells[i]? = some c) {n : Nat}
    (hn : offset - before cells i + n ≤ c.items.length) :
    (c.items.drop (offset - before cells i)).take n = ((items cells).drop offset).take n := by
  obtain ⟨hlt, hget⟩ := List.getElem?_eq_some_iff.mp hc
  have hsplit : cells.map Cell.items =
      (cells.take i).map Cell.items ++ c.items :: (cells.drop (i + 1)).map Cell.items := by
    rw [← List.map_cons, ← List.map_append, ← hget, ← List.drop_eq_getElem_cons hlt,
      List.take_append_drop]
  have hle := h.le
  rw [items, hsplit]
  refine (FrameLog.slice_segment (show ((cells.take i).map Cell.items).flatten.length ≤ offset
    from h.le) ?_).symm
  show offset + n ≤ before cells i + c.items.length
  omega

end PublishedLog
