/-
# `Lib.OrderedMap` — maps as lists in the order of their keys

The elements of a `std::map`, in the order its iterators visit them.
`assign` is `m[key] = v`, `insert` leaves an element that is there alone, and
`find` looks a key up.  `find_assign` says all of what an assignment does to
later lookups; it does not depend on the order.

A map made by assignments is `Ordered`.  A key behind all others goes to the
end (`assign_last`), and so to assign the entries of an ordered map one after
the other, as one who reads them in this order does, gives the map again
(`assignAll_ordered`).  That is what a reader of a written-out map needs: the
order in which the entries were written is the order in which they are met.

Of the comparison of keys the lemmas ask no more than they use, that it is
transitive or that it is asymmetric; strings compared byte by byte have both.
-/
import Mathlib.Data.List.Basic

namespace OrderedMap

variable {κ α : Type*} [DecidableEq κ]

/-- `find`. -/
def find (key : κ) : List (κ × α) → Option α
  | [] => none
  | (k, w) :: m => if key = k then some w else find key m

variable [LT κ] [DecidableLT κ]

/-- `operator[]` and an assignment to what it returns. -/
def assign (key : κ) (v : α) : List (κ × α) → List (κ × α)
  | [] => [(key, v)]
  | (k, w) :: m =>
      if key = k then (key, v) :: m
      else if key < k then (key, v) :: (k, w) :: m
      else (k, w) :: assign key v m

/-- `insert`: an element that is there stays. -/
def insert (key : κ) (v : α) (m : List (κ × α)) : List (κ × α) :=
  match find key m with
  | some _ => m
  | none => assign key v m

theorem find_assign (key k : κ) (v : α) (m : List (κ × α)) :
    find k (assign key v m) = if k = key then some v else find k m := by
  induction m with
  | nil => simp only [assign, find]
  | cons entry m ih =>
      obtain ⟨k', w⟩ := entry
      simp only [assign]
      split
      · next hkey =>
          subst hkey
          simp only [find]
          split
          · rfl
          · rfl
      · next hkey =>
          split
          · simp only [find]
          · simp only [find, ih]
            split
            · next hk => rw [if_neg (fun h => hkey (h.symm.trans hk))]
            · rfl

theorem find_assign_self (key : κ) (v : α) (m : List (κ × α)) :
    find key (assign key v m) = some v := by
  rw [find_assign, if_pos rfl]

theorem find_assign_of_ne {key k : κ} (h : k ≠ key) (v : α) (m : List (κ × α)) :
    find k (assign key v m) = find k m := by
  rw [find_assign, if_neg h]

theorem insert_of_none {key : κ} {m : List (κ × α)} (h : find key m = none) (v : α) :
    insert key v m = assign key v m := by
  rw [insert, h]

section Assignments

omit [LT κ] [DecidableLT κ] in
theorem find_eq_none {key : κ} {m : List (κ × α)} (h : key ∉ m.map Prod.fst) :
    find key m = none := by
  induction m with
  | nil => rfl
  | cons entry m ih =>
      obtain ⟨k, w⟩ := entry
      have hne : key ≠ k := fun hk => h (hk ▸ List.mem_cons_self)
      rw [find, if_neg hne]
      exact ih fun hmem => h (List.mem_cons_of_mem _ hmem)

/-- `m[key] = v` for each entry in turn. -/
def assignAll (m entries : List (κ × α)) : List (κ × α) :=
  entries.foldl (fun m e => assign e.1 e.2 m) m

theorem find_assignAll {entries : List (κ × α)} (hkeys : (entries.map Prod.fst).Nodup) (key : κ)
    (m : List (κ × α)) :
    find key (assignAll m entries) = (find key entries).or (find key m) := by
  induction entries generalizing m with
  | nil => rfl
  | cons entry entries ih =>
      obtain ⟨k, v⟩ := entry
      obtain ⟨hnew, hkeys⟩ := List.nodup_cons.mp hkeys
      have hrest : find key (assignAll m ((k, v) :: entries)) =
          (find key entries).or (find key (assign k v m)) := ih hkeys (assign k v m)
      rw [hrest, find_assign]
      by_cases hk : key = k
      · have hnone : find key entries = none := find_eq_none (hk ▸ hnew)
        rw [hnone, find, if_pos hk, if_pos hk]
        rfl
      · rw [find, if_neg hk, if_neg hk]

end Assignments

/-! ## The order -/

/-- Each key comes before those behind it. -/
def Ordered (m : List (κ × α)) : Prop := m.Pairwise fun a b => a.1 < b.1

section Order

theorem mem_assign {key : κ} {v : α} {m : List (κ × α)} {e : κ × α} (h : e ∈ assign key v m) :
    e = (key, v) ∨ e ∈ m := by
  induction m with
  | nil => exact Or.inl (List.mem_singleton.mp h)
  | cons entry m ih =>
      obtain ⟨k, w⟩ := entry
      simp only [assign] at h
      split at h
      · exact (List.mem_cons.mp h).imp_right (List.mem_cons_of_mem _)
      · split at h
        · exact List.mem_cons.mp h
        · rcases List.mem_cons.mp h with rfl | h
          · exact Or.inr List.mem_cons_self
          · exact (ih h).imp_right (List.mem_cons_of_mem _)

theorem ordered_assign [Trans (α := κ) (· < ·) (· < ·) (· < ·)]
    [Std.Trichotomous (α := κ) (· < ·)] {m : List (κ × α)} (h : Ordered m) (key : κ) (v : α) :
    Ordered (assign key v m) := by
  induction m with
  | nil => exact List.pairwise_singleton _ _
  | cons entry m ih =>
      obtain ⟨k, w⟩ := entry
      obtain ⟨hfirst, hrest⟩ := List.pairwise_cons.mp h
      simp only [assign]
      split
      · next hkey =>
          subst hkey
          exact List.pairwise_cons.mpr ⟨hfirst, hrest⟩
      · next hne =>
          split
          · next hlt =>
              refine List.pairwise_cons.mpr ⟨fun e he => ?_, h⟩
              rcases List.mem_cons.mp he with rfl | he
              · exact hlt
              · exact Trans.trans hlt (hfirst e he)
          · next hge =>
              refine List.pairwise_cons.mpr ⟨fun e he => ?_, ih hrest⟩
              rcases mem_assign he with rfl | he
              · by_contra hnot
                exact hne (Std.Trichotomous.trichotomous key k hge hnot)
              · exact hfirst e he

theorem ordered_assignAll [Trans (α := κ) (· < ·) (· < ·) (· < ·)]
    [Std.Trichotomous (α := κ) (· < ·)] {m : List (κ × α)} (h : Ordered m)
    (entries : List (κ × α)) : Ordered (assignAll m entries) := by
  induction entries generalizing m with
  | nil => exact h
  | cons entry entries ih => exact ih (ordered_assign h entry.1 entry.2)

theorem assign_last [Std.Asymm (α := κ) (· < ·)] {key : κ} {m : List (κ × α)}
    (h : ∀ e ∈ m, e.1 < key) (v : α) : assign key v m = m ++ [(key, v)] := by
  induction m with
  | nil => rfl
  | cons entry m ih =>
      obtain ⟨k, w⟩ := entry
      have hlt : k < key := h (k, w) List.mem_cons_self
      have hnot : ¬ key < k := Std.Asymm.asymm k key hlt
      have hne : key ≠ k := by
        rintro rfl
        exact hnot hlt
      rw [assign, if_neg hne, if_neg hnot, ih fun e he => h e (List.mem_cons_of_mem _ he)]
      rfl

/-- Entries in their order make up the map themselves. -/
theorem assignAll_ordered [Std.Asymm (α := κ) (· < ·)] {m entries : List (κ × α)}
    (h : Ordered (m ++ entries)) : assignAll m entries = m ++ entries := by
  induction entries generalizing m with
  | nil => exact (List.append_nil m).symm
  | cons entry entries ih =>
      obtain ⟨k, v⟩ := entry
      have hbefore : ∀ e ∈ m, e.1 < k := fun e he =>
        (List.pairwise_append.mp h).2.2 e he (k, v) List.mem_cons_self
      have hsplit : m ++ (k, v) :: entries = (m ++ [(k, v)]) ++ entries := by
        rw [List.append_assoc, List.singleton_append]
      calc assignAll m ((k, v) :: entries)
          = assignAll (m ++ [(k, v)]) entries := by rw [← assign_last hbefore]; rfl
        _ = (m ++ [(k, v)]) ++ entries := ih (hsplit ▸ h)
        _ = m ++ (k, v) :: entries := hsplit.symm

end Order

section Values

variable {β : Type*} (f : α → β)

omit [LT κ] [DecidableLT κ] in
theorem find_map (key : κ) (m : List (κ × α)) :
    find key (m.map fun e => (e.1, f e.2)) = (find key m).map f := by
  induction m with
  | nil => rfl
  | cons entry m ih =>
      simp only [List.map_cons, find, ih]
      split
      · rfl
      · rfl

omit [DecidableEq κ] [DecidableLT κ] in
theorem Ordered.map {m : List (κ × α)} (h : Ordered m) :
    Ordered (m.map fun e => (e.1, f e.2)) :=
  List.pairwise_map.mpr h

end Values

end OrderedMap
