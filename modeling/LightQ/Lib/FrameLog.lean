/-
# `Lib.FrameLog` — an append-only log of frames and a reader's cursor

The abstract object behind a durable queue: a list of nonempty frames that
only grows at its end, and a cursor that knows nothing but an offset into
the concatenation of the frames.  A reader asks for the frame that starts
at its offset and moves by its length.

`Log.drain` is the point of the module: however appends and reads were
interleaved, what was read is a leading part of what was appended, and as
many further reads as frames are missing bring the two together, in order,
and leave the reader at the end of the log; further reads change nothing.

  * `frameAt` looks a frame up.  It finds the next one at the end of a leading
    part (`frameAt_flatten`), none at the end of the log (`frameAt_end`), and
    what it finds is a frame of the log behind frames of that total length
    (`exists_of_frameAt`).  Past its end a leading part of the log does not
    matter (`frameAt_append_of_le`), before its end nothing else does
    (`frameAt_append_of_lt`).
  * `OnBoundary` says where frames start and end: in front of a boundary lie
    whole frames (`onBoundary_iff`), behind a frame the next boundary lies
    (`onBoundary_next`), and inside a frame there is none
    (`not_onBoundary_of_inside`).  What a log begins with is whole frames, and
    perhaps a part of the next (`exists_cut`).
  * `tag` is a log dealt out to receivers; `filter_tag` is what one of them
    gets of it, and `tag_zip_replicate` whole frames for one.

The last lemma is about a sequence cut into segments, as a log cut into files
is: a slice that stays in its segment is a slice of the whole
(`slice_segment`).
-/
import Mathlib.Data.List.Basic
import Mathlib.Logic.Function.Iterate

namespace FrameLog

variable {α : Type*}

/-- The frame that starts at offset `o`, if one does. -/
def frameAt : List (List α) → Nat → Option (List α)
  | [], _ => none
  | f :: fs, o =>
      if o = 0 then some f
      else if f.length ≤ o then frameAt fs (o - f.length)
      else none

/-- Frames are nonempty: an empty one would start where the next one does. -/
def Nonempties (fs : List (List α)) : Prop := ∀ f ∈ fs, f ≠ []

theorem Nonempties.append {fs gs : List (List α)} (hf : Nonempties fs) (hg : Nonempties gs) :
    Nonempties (fs ++ gs) := by
  intro f hmem
  rcases List.mem_append.mp hmem with h | h
  · exact hf f h
  · exact hg f h

/-- At the end of a leading part the next frame starts. -/
theorem frameAt_flatten {pre : List (List α)} (hpre : Nonempties pre) (f : List α)
    (post : List (List α)) : frameAt (pre ++ f :: post) pre.flatten.length = some f := by
  induction pre with
  | nil => rfl
  | cons g pre ih =>
      have hg : 0 < g.length := List.length_pos_iff.mpr (hpre g List.mem_cons_self)
      have hrest := ih (fun x hx => hpre x (List.mem_cons_of_mem _ hx))
      have hne : g.length + pre.flatten.length ≠ 0 := by omega
      simp only [List.cons_append, List.flatten_cons, List.length_append, frameAt, if_neg hne,
        if_pos (Nat.le_add_right _ _), Nat.add_sub_cancel_left]
      exact hrest

/-- At the end of the log none does. -/
theorem frameAt_end {fs : List (List α)} (hfs : Nonempties fs) :
    frameAt fs fs.flatten.length = none := by
  induction fs with
  | nil => rfl
  | cons g fs ih =>
      have hg : 0 < g.length := List.length_pos_iff.mpr (hfs g List.mem_cons_self)
      have hne : g.length + fs.flatten.length ≠ 0 := by omega
      simp only [List.flatten_cons, List.length_append, frameAt, if_neg hne,
        if_pos (Nat.le_add_right _ _), Nat.add_sub_cancel_left]
      exact ih (fun x hx => hfs x (List.mem_cons_of_mem _ hx))

theorem exists_of_frameAt {fs : List (List α)} {o : Nat} {f : List α}
    (h : frameAt fs o = some f) :
    ∃ pre post, fs = pre ++ f :: post ∧ pre.flatten.length = o := by
  induction fs generalizing o with
  | nil => exact absurd h (by simp [frameAt])
  | cons g fs ih =>
      rw [frameAt] at h
      split at h
      · rename_i ho
        obtain rfl := Option.some.inj h
        exact ⟨[], fs, rfl, ho.symm⟩
      · split at h
        · rename_i hle
          obtain ⟨pre, post, rfl, hlen⟩ := ih h
          refine ⟨g :: pre, post, rfl, ?_⟩
          rw [List.flatten_cons, List.length_append, hlen]
          omega
        · exact absurd h (by simp)

theorem frameAt_append_of_le {fs : List (List α)} (gs : List (List α)) (hfs : Nonempties fs) {o : Nat}
    (h : fs.flatten.length ≤ o) :
    frameAt (fs ++ gs) o = frameAt gs (o - fs.flatten.length) := by
  induction fs generalizing o with
  | nil => rfl
  | cons f fs ih =>
      have hf : 0 < f.length := List.length_pos_iff.mpr (hfs f List.mem_cons_self)
      rw [List.flatten_cons, List.length_append] at h ⊢
      rw [List.cons_append, frameAt, if_neg (by omega), if_pos (by omega),
        ih (fun x hx => hfs x (List.mem_cons_of_mem _ hx)) (by omega), Nat.sub_sub]

theorem frameAt_append_of_lt {fs gs : List (List α)} {o : Nat} (h : o < fs.flatten.length) :
    frameAt (fs ++ gs) o = frameAt fs o := by
  induction fs generalizing o with
  | nil => exact absurd h (Nat.not_lt_zero _)
  | cons f fs ih =>
      rw [List.flatten_cons, List.length_append] at h
      rw [List.cons_append, frameAt, frameAt]
      split
      · rfl
      · split
        · exact ih (by omega)
        · rfl

/-! ## Boundaries -/

/-- A frame starts at the offset, or the log ends there. -/
def OnBoundary (fs : List (List α)) (o : Nat) : Prop :=
  (∃ f, frameAt fs o = some f) ∨ o = fs.flatten.length

theorem onBoundary_iff {fs : List (List α)} (hfs : Nonempties fs) {o : Nat} :
    OnBoundary fs o ↔ ∃ pre, pre <+: fs ∧ pre.flatten.length = o := by
  constructor
  · rintro (⟨f, hat⟩ | rfl)
    · obtain ⟨pre, post, rfl, hlen⟩ := exists_of_frameAt hat
      exact ⟨pre, List.prefix_append _ _, hlen⟩
    · exact ⟨fs, List.prefix_rfl, rfl⟩
  · rintro ⟨pre, ⟨post, rfl⟩, rfl⟩
    cases post with
    | nil => exact Or.inr (by rw [List.append_nil])
    | cons f post =>
        exact Or.inl ⟨f, frameAt_flatten (fun x hx => hfs x (List.mem_append_left _ hx)) f post⟩

theorem onBoundary_zero (fs : List (List α)) : OnBoundary fs 0 := by
  cases fs with
  | nil => exact Or.inr rfl
  | cons f fs => exact Or.inl ⟨f, rfl⟩

section Boundary

variable {fs : List (List α)} {f : List α} {o b : Nat}

theorem OnBoundary.append (h : OnBoundary fs o) {gs : List (List α)}
    (hfs : Nonempties (fs ++ gs)) : OnBoundary (fs ++ gs) o := by
  have hleft : Nonempties fs := fun x hx => hfs x (List.mem_append_left _ hx)
  obtain ⟨pre, hpre, hlen⟩ := (onBoundary_iff hleft).mp h
  exact (onBoundary_iff hfs).mpr ⟨pre, hpre.trans (List.prefix_append _ _), hlen⟩

theorem OnBoundary.le (h : OnBoundary fs o) (hfs : Nonempties fs) : o ≤ fs.flatten.length := by
  obtain ⟨pre, ⟨post, rfl⟩, rfl⟩ := (onBoundary_iff hfs).mp h
  rw [List.flatten_append, List.length_append]
  exact Nat.le_add_right _ _

theorem onBoundary_next (hfs : Nonempties fs) (hat : frameAt fs o = some f) :
    OnBoundary fs (o + f.length) := by
  obtain ⟨pre, post, rfl, rfl⟩ := exists_of_frameAt hat
  refine (onBoundary_iff hfs).mpr ⟨pre ++ [f], ⟨post, by simp⟩, ?_⟩
  simp

theorem not_onBoundary_of_inside (hfs : Nonempties fs) (hat : frameAt fs o = some f) (hlo : o < b)
    (hhi : b < o + f.length) : ¬ OnBoundary fs b := by
  intro hb
  obtain ⟨pre, post, rfl, rfl⟩ := exists_of_frameAt hat
  obtain ⟨pre', hpre', rfl⟩ := (onBoundary_iff hfs).mp hb
  rcases List.prefix_or_prefix_of_prefix hpre' (List.prefix_append pre (f :: post)) with
    ⟨tail, rfl⟩ | ⟨tail, rfl⟩
  · rw [List.flatten_append, List.length_append] at hlo
    omega
  · have htail : tail <+: f :: post := (List.prefix_append_right_inj _).mp hpre'
    rw [List.flatten_append, List.length_append] at hlo hhi
    cases tail with
    | nil => simp at hlo
    | cons g tail =>
        obtain ⟨rfl, -⟩ := List.cons_prefix_cons.mp htail
        rw [List.flatten_cons, List.length_append] at hhi
        omega

end Boundary

theorem exists_cut {fs : List (List α)} {bs : List α} (hbs : bs <+: fs.flatten) :
    ∃ pre post part, fs = pre ++ post ∧ bs = pre.flatten ++ part ∧
      (part = [] ∨ ∃ f post', post = f :: post' ∧ part <+: f ∧ part.length < f.length) := by
  induction fs generalizing bs with
  | nil => exact ⟨[], [], [], rfl, List.prefix_nil.mp hbs, Or.inl rfl⟩
  | cons f fs ih =>
      rw [List.flatten_cons] at hbs
      rcases Nat.lt_or_ge bs.length f.length with hshort | hlong
      · refine ⟨[], f :: fs, bs, rfl, rfl, Or.inr ⟨f, fs, rfl, ?_, hshort⟩⟩
        exact List.prefix_of_prefix_length_le hbs (List.prefix_append _ _) (Nat.le_of_lt hshort)
      · obtain ⟨rest, rfl⟩ := List.prefix_of_prefix_length_le (List.prefix_append _ _) hbs hlong
        obtain ⟨pre, post, part, rfl, rfl, hpart⟩ := ih ((List.prefix_append_right_inj _).mp hbs)
        exact ⟨f :: pre, post, part, rfl, by rw [List.flatten_cons, List.append_assoc], hpart⟩

/-! ## A stream dealt out to receivers -/

section Tag

variable {ι κ : Type*}

/-- What the pieces of `l` say, every element marked with who it is for. -/
def tag (key : ι → κ) (val : ι → List α) (l : List ι) : List (κ × α) :=
  l.flatMap fun i => (val i).map fun a => (key i, a)

variable {key : ι → κ} {val : ι → List α}

theorem tag_append (l l' : List ι) : tag key val (l ++ l') = tag key val l ++ tag key val l' :=
  List.flatMap_append

theorem tag_singleton (i : ι) : tag key val [i] = (val i).map fun a => (key i, a) :=
  List.flatMap_singleton _ _

theorem filter_tag [DecidableEq κ] (k : κ) (l : List ι) :
    ((tag key val l).filter fun p => p.1 = k).map Prod.snd
      = (l.filter fun i => key i = k).flatMap val := by
  induction l with
  | nil => rfl
  | cons i l ih =>
      have hcons : tag key val (i :: l) = ((val i).map fun a => (key i, a)) ++ tag key val l := rfl
      rw [hcons, List.filter_append, List.map_append, ih, List.filter_map]
      by_cases hi : key i = k
      · simp [hi, Function.comp_def]
      · simp [hi, Function.comp_def]

theorem tag_zip_replicate (k : κ) (fs : List (List α)) :
    tag Prod.snd Prod.fst (fs.zip (List.replicate fs.length k)) = fs.flatten.map fun a => (k, a) := by
  induction fs with
  | nil => rfl
  | cons f fs ih =>
      rw [List.length_cons, List.replicate_succ, List.zip_cons_cons, List.flatten_cons,
        List.map_append, ← ih]
      rfl

end Tag

/-! ## The log and its reader -/

/-- A log together with one reader: the frames appended so far, the
reader's offset and the frames it has read. -/
structure Log (α : Type*) where
  frames : List (List α)
  offset : Nat
  got : List (List α)

namespace Log

/-- The empty log, read from its start. -/
def empty : Log α := ⟨[], 0, []⟩

/-- A frame is appended. -/
def append (l : Log α) (f : List α) : Log α := { l with frames := l.frames ++ [f] }

/-- The reader asks for the frame at its offset. -/
def next (l : Log α) : Log α :=
  match frameAt l.frames l.offset with
  | some f => { l with offset := l.offset + f.length, got := l.got ++ [f] }
  | none => l

@[simp] theorem next_frames (l : Log α) : l.next.frames = l.frames := by
  rw [next]
  split <;> rfl

/-- The reader stands behind what it has read, and what it has read is
where the log begins. -/
structure Consistent (l : Log α) : Prop where
  nonempty : Nonempties l.frames
  got_prefix : l.got <+: l.frames
  offset_eq : l.offset = l.got.flatten.length

theorem consistent_empty : (empty : Log α).Consistent :=
  ⟨fun _ h => absurd h List.not_mem_nil, List.nil_prefix, rfl⟩

theorem Consistent.append {l : Log α} (h : l.Consistent) {f : List α} (hf : f ≠ []) :
    (l.append f).Consistent where
  nonempty := h.nonempty.append (fun _ hx => List.mem_singleton.mp hx ▸ hf)
  got_prefix := h.got_prefix.trans (List.prefix_append _ _)
  offset_eq := h.offset_eq

theorem frameAt_of_rest {l : Log α} (h : l.Consistent) {f : List α} {rest : List (List α)}
    (hl : l.frames = l.got ++ f :: rest) : frameAt l.frames l.offset = some f := by
  have hpre : Nonempties l.got := fun x hx => h.nonempty x (h.got_prefix.subset hx)
  rw [hl, h.offset_eq]
  exact frameAt_flatten hpre f rest

theorem next_of_rest {l : Log α} (h : l.Consistent) {f : List α} {rest : List (List α)}
    (hl : l.frames = l.got ++ f :: rest) :
    l.next = { l with offset := l.offset + f.length, got := l.got ++ [f] } := by
  rw [next, frameAt_of_rest h hl]

theorem next_of_done {l : Log α} (h : l.Consistent) (hl : l.frames = l.got) : l.next = l := by
  have hat : frameAt l.frames l.offset = none := by
    rw [h.offset_eq, ← hl]
    exact frameAt_end h.nonempty
  rw [next, hat]

theorem Consistent.next {l : Log α} (h : l.Consistent) : l.next.Consistent := by
  obtain ⟨rest, hrest⟩ := h.got_prefix
  cases rest with
  | nil => rwa [next_of_done h (by simpa using hrest.symm)]
  | cons f rest =>
      rw [next_of_rest h hrest.symm]
      refine ⟨h.nonempty, ⟨rest, by simpa using hrest⟩, ?_⟩
      simp [h.offset_eq]

/-- As many reads as frames are missing read them all, in order, and leave
the reader at the end of the log; further reads change nothing. -/
theorem drain {l : Log α} (h : l.Consistent) {k : Nat}
    (hk : l.frames.length - l.got.length ≤ k) :
    (Log.next^[k] l).got = l.frames ∧ (Log.next^[k] l).offset = l.frames.flatten.length := by
  induction k generalizing l with
  | zero =>
      have hgot : l.got = l.frames := h.got_prefix.eq_of_length_le (by omega)
      exact ⟨hgot, by rw [← hgot]; exact h.offset_eq⟩
  | succ k ih =>
      rw [Function.iterate_succ_apply]
      obtain ⟨rest, hrest⟩ := h.got_prefix
      cases rest with
      | nil =>
          have hdone : l.frames = l.got := by simpa using hrest.symm
          rw [next_of_done h hdone]
          exact ih h (by rw [hdone]; omega)
      | cons f rest =>
          have hstep := next_of_rest h hrest.symm
          have := ih h.next (by rw [hstep]; simp only [List.length_append, List.length_singleton]; omega)
          rw [hstep] at this ⊢
          exact this

end Log

/-! ## A sequence cut into segments -/

/-- A slice that stays in its segment is a slice of the whole. -/
theorem slice_segment {pre : List (List α)} {seg : List α} {post : List (List α)} {o n : Nat}
    (ho : pre.flatten.length ≤ o) (hn : o + n ≤ pre.flatten.length + seg.length) :
    ((pre ++ seg :: post).flatten.drop o).take n
      = (seg.drop (o - pre.flatten.length)).take n := by
  have hsplit : (pre ++ seg :: post).flatten = pre.flatten ++ (seg ++ post.flatten) := by simp
  rw [hsplit, List.drop_append, List.drop_eq_nil_of_le ho, List.nil_append, List.drop_append,
    List.take_append_of_le_length (by rw [List.length_drop]; omega)]

end FrameLog
