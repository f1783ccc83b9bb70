/-
# `Lib.QuotaLog` — a log that is cut into bins by a quota

Frames are put into bins, one after the other: a frame belongs into the bin whose
index is the size of all that is in front of it, divided by the quota.  `Placed`
says of a whole log that every frame is where it belongs.

As long as no frame is larger than the quota the quotient moves on by at most one
bin a frame (`Placed.next_index`), so that a frame goes to the last bin
(`Placed.extend`) or to a new one behind it (`Placed.snoc`), and both keep the log
placed.  A bin then holds less than the quota and its last frame
(`Placed.bin_size`).

Where frames start is `starts`: a frame starts behind the ones in front of it
(`exists_of_mem_starts`), can be cut out of the whole at its offset
(`slice_of_mem_starts`), and the frames of a bin are frames of the log
(`starts_of_bin`).  `Placed.locate` puts this together: from the offset of a frame
come the bin it is in, by a division, and its offset there.
-/
import Mathlib.Data.List.Basic

namespace QuotaLog

variable {α : Type*} {quota i o k : Nat} {fs gs : List (List α)} {b : List (List α)}
  {bs cs : List (List (List α))} {p : Nat × List α}

/-! ## Where frames start -/

/-- The frames with their offsets, the first one at `o`. -/
def starts : Nat → List (List α) → List (Nat × List α)
  | _, [] => []
  | o, f :: fs => (o, f) :: starts (o + f.length) fs

theorem starts_append : starts o (fs ++ gs) = starts o fs ++ starts (o + fs.flatten.length) gs := by
  induction fs generalizing o with
  | nil => rfl
  | cons f fs ih =>
      rw [List.cons_append, starts, starts, ih, List.flatten_cons, List.length_append,
        Nat.add_assoc, List.cons_append]

theorem exists_of_mem_starts (h : p ∈ starts o fs) :
    ∃ pre post, fs = pre ++ p.2 :: post ∧ p.1 = o + pre.flatten.length := by
  induction fs generalizing o with
  | nil => cases h
  | cons f fs ih =>
      rcases List.mem_cons.mp h with rfl | hrest
      · exact ⟨[], fs, rfl, rfl⟩
      · obtain ⟨pre, post, rfl, hstart⟩ := ih hrest
        refine ⟨f :: pre, post, rfl, ?_⟩
        rw [hstart, List.flatten_cons, List.length_append, Nat.add_assoc]

theorem slice_of_mem_starts (h : p ∈ starts o fs) :
    o ≤ p.1 ∧ p.1 - o + p.2.length ≤ fs.flatten.length ∧
      (fs.flatten.drop (p.1 - o)).take p.2.length = p.2 := by
  obtain ⟨pre, post, rfl, hstart⟩ := exists_of_mem_starts h
  have hpos : p.1 - o = pre.flatten.length := by omega
  rw [hpos, List.flatten_append, List.flatten_cons, List.drop_left' rfl, List.take_left' rfl,
    List.length_append, List.length_append]
  exact ⟨by omega, by omega, rfl⟩

/-! ## Bins -/

/-- How many elements there are in the bins. -/
def size (bs : List (List (List α))) : Nat := bs.flatten.flatten.length

theorem size_append : size (bs ++ cs) = size bs + size cs := by
  rw [size, List.flatten_append, List.flatten_append, List.length_append, ← size, ← size]

theorem size_cons : size (b :: bs) = b.flatten.length + size bs := by
  rw [size, List.flatten_cons, List.flatten_append, List.length_append, ← size]

theorem size_singleton : size [b] = b.flatten.length := by
  rw [size, List.flatten_singleton]

/-- From the bin with index `i` on, which begins at the offset `o`: no bin is empty, and
every frame is in the bin that it belongs into. -/
def Placed (quota : Nat) : Nat → Nat → List (List (List α)) → Prop
  | _, _, [] => True
  | i, o, b :: bs =>
      b ≠ [] ∧ (∀ p ∈ starts o b, p.1 / quota = i) ∧
        Placed quota (i + 1) (o + b.flatten.length) bs

theorem placed_append :
    Placed quota i o (bs ++ cs) ↔
      Placed quota i o bs ∧ Placed quota (i + bs.length) (o + size bs) cs := by
  induction bs generalizing i o with
  | nil => exact ⟨fun h => ⟨trivial, h⟩, And.right⟩
  | cons b bs ih =>
      rw [List.cons_append, Placed, Placed, ih, size_cons, List.length_cons, Nat.add_assoc,
        Nat.add_assoc, Nat.add_comm 1 bs.length, and_assoc, and_assoc]

theorem placed_singleton :
    Placed quota i o [b] ↔ b ≠ [] ∧ ∀ p ∈ starts o b, p.1 / quota = i := by
  rw [Placed, Placed, and_true]

/-- The bin of a frame, and its offset there. -/
theorem Placed.locate (h : Placed quota i o bs) (hp : p ∈ starts o bs.flatten) :
    ∃ k b, bs[k]? = some b ∧ p.1 / quota = i + k ∧ p ∈ starts (o + size (bs.take k)) b := by
  induction bs generalizing i o with
  | nil => cases hp
  | cons b bs ih =>
      rw [List.flatten_cons, starts_append] at hp
      rcases List.mem_append.mp hp with hhere | hrest
      · exact ⟨0, b, rfl, h.2.1 p hhere, hhere⟩
      · obtain ⟨k, c, hc, hindex, hmem⟩ := ih h.2.2 hrest
        refine ⟨k + 1, c, hc, by rw [hindex]; omega, ?_⟩
        rw [List.take_succ_cons, size_cons, ← Nat.add_assoc]
        exact hmem

theorem split_at_bin (hb : bs[k]? = some b) :
    bs = bs.take k ++ b :: bs.drop (k + 1) ∧ (bs.take k).length = k := by
  obtain ⟨hk, rfl⟩ := List.getElem?_eq_some_iff.mp hb
  rw [← List.drop_eq_getElem_cons hk, List.take_append_drop, List.length_take]
  exact ⟨rfl, Nat.min_eq_left (Nat.le_of_lt hk)⟩

theorem starts_of_bin (hb : bs[k]? = some b) (hp : p ∈ starts (o + size (bs.take k)) b) :
    p ∈ starts o bs.flatten := by
  obtain ⟨hsplit, -⟩ := split_at_bin hb
  have hflatten : bs.flatten = (bs.take k).flatten ++ (b ++ (bs.drop (k + 1)).flatten) := by
    rw [← List.flatten_cons, ← List.flatten_append, ← hsplit]
  rw [hflatten, starts_append, starts_append]
  exact List.mem_append_right _ (List.mem_append_left _ hp)

theorem Placed.bin (h : Placed quota i o bs) (hb : bs[k]? = some b) :
    b ≠ [] ∧ ∀ p ∈ starts (o + size (bs.take k)) b, p.1 / quota = i + k := by
  obtain ⟨hsplit, hlen⟩ := split_at_bin hb
  rw [hsplit] at h
  obtain ⟨hne, hindex, -⟩ := (placed_append.mp h).2
  rw [hlen] at hindex
  exact ⟨hne, hindex⟩

section Quota

variable (hquota : 0 < quota)
include hquota

theorem Placed.bin_size (h : Placed quota i o bs) (hb : bs[k]? = some b) :
    ∃ p ∈ starts (o + size (bs.take k)) b, p.1 / quota = i + k ∧
      b.flatten.length < quota + p.2.length := by
  obtain ⟨hne, hindex⟩ := h.bin hb
  generalize o + size (bs.take k) = base at hindex ⊢
  obtain hnil | ⟨pre, f, rfl⟩ := List.eq_nil_or_concat' b
  · exact absurd hnil hne
  · have hlast : (base + pre.flatten.length, f) ∈ starts base (pre ++ [f]) := by
      rw [starts_append]
      exact List.mem_append_right _ List.mem_cons_self
    have hfirst : base / quota = i + k := by
      cases pre with
      | nil => exact hindex _ List.mem_cons_self
      | cons g pre => exact hindex (base, g) List.mem_cons_self
    have hq : (base + pre.flatten.length) / quota = i + k := hindex _ hlast
    -- the first and the last frame of the bin have the same quotient
    have hlow := Nat.div_mul_le_self base quota
    have hhigh := Nat.lt_div_mul_add (a := base + pre.flatten.length) hquota
    rw [hfirst] at hlow
    rw [hq] at hhigh
    refine ⟨_, hlast, hq, ?_⟩
    show _ < quota + f.length
    rw [List.flatten_append, List.flatten_singleton, List.length_append]
    omega

/-- The next frame belongs into the last bin, or into a new one behind it. -/
theorem Placed.next_index (h : Placed quota i o (bs ++ [b])) (hsmall : ∀ f ∈ b, f.length ≤ quota) :
    (o + size (bs ++ [b])) / quota = i + bs.length ∨
      (o + size (bs ++ [b])) / quota = i + bs.length + 1 := by
  obtain ⟨hne, hindex⟩ := placed_singleton.mp (placed_append.mp h).2
  obtain hnil | ⟨pre, f, rfl⟩ := List.eq_nil_or_concat' b
  · exact absurd hnil hne
  · have hlast := hindex (o + size bs + pre.flatten.length, f) (by
      rw [starts_append]
      exact List.mem_append_right _ List.mem_cons_self)
    have hf := hsmall f (List.mem_append_right _ List.mem_cons_self)
    have hsize : o + size (bs ++ [pre ++ [f]])
        = o + size bs + pre.flatten.length + f.length := by
      rw [size_append, size_singleton, List.flatten_append, List.flatten_singleton,
        List.length_append]
      omega
    rw [hsize]
    simp only at hlast
    generalize o + size bs + pre.flatten.length = start at hlast
    have hlow : start / quota ≤ (start + f.length) / quota :=
      Nat.div_le_div_right (Nat.le_add_right _ _)
    have hhigh : (start + f.length) / quota ≤ (start + quota) / quota :=
      Nat.div_le_div_right (Nat.add_le_add_left hf _)
    rw [Nat.add_div_right _ hquota] at hhigh
    omega

end Quota

/-! ## One more frame -/

theorem Placed.snoc (h : Placed quota i o bs) (hindex : (o + size bs) / quota = i + bs.length)
    (f : List α) : Placed quota i o (bs ++ [[f]]) := by
  refine placed_append.mpr ⟨h, placed_singleton.mpr ⟨List.cons_ne_nil _ _, ?_⟩⟩
  intro p hp
  obtain rfl := List.mem_singleton.mp hp
  exact hindex

theorem Placed.extend (h : Placed quota i o (bs ++ [b]))
    (hindex : (o + size (bs ++ [b])) / quota = i + bs.length) (f : List α) :
    Placed quota i o (bs ++ [b ++ [f]]) := by
  obtain ⟨hpre, hlast⟩ := placed_append.mp h
  obtain ⟨-, hb⟩ := placed_singleton.mp hlast
  refine placed_append.mpr ⟨hpre, placed_singleton.mpr ⟨List.concat_ne_nil _ _, ?_⟩⟩
  intro p hp
  rw [starts_append] at hp
  rcases List.mem_append.mp hp with hold | hnew
  · exact hb p hold
  · obtain rfl := List.mem_singleton.mp hnew
    rw [size_append, size_singleton, ← Nat.add_assoc] at hindex
    exact hindex

end QuotaLog
