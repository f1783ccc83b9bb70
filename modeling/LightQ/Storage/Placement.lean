/-
# `Storage.Placement` — which file a frame is in

The file for a frame is chosen before it is written, from the quotient of the running
total and `max_file_size_`.  `rotation_places` says what comes of it in a run of calls
that succeed: a frame that starts at the offset `o` of the log is appended to the file
with the index `o / max_file_size_`, in one piece (`SizedByOffset`), and it is there in
that file as long as the files are different ones (`RotatesByOffset`).  When the name has
a zero byte every index is the same file, and the second file's frames are written over
those of the first (`reopened_not_placed`).

The index is an `unsigned`, the quotient is not.  They are the same because every file
stays open: `open` returns a descriptor that no open file has, and there are less than
2^31 of them that are not negative.  So there are not more files than descriptors
(`Holds.length_le`, `Holds.open_another`), and since with something in every file the
totals go up (`Totals.increasing`, `Holds.bytes_pos`), the quotient is the index of the
last file or the next one, and it is not truncated (`Holds.fdToUse`).

`Holds` is the invariant.  It has the frames in bins as `Lib.QuotaLog` has them, one bin
for each file, and the quotient of the total is that of the size of the bins
(`Holds.size_div`).  A call that succeeds has put its frame behind the last one
(`TiledTo.append`), either in the last file (`Holds.stays`) or in another
(`Holds.moves`), and by the quotient that is where it belongs (`Holds.step`).  What the
runs conclude is read off the bins: the file of a bin and where it begins
(`Holds.bin_file`), the file of a frame (`Holds.frame_file`), and that a file holds less
than the limit and one of its frames (`Holds.bounded`).
-/
import LightQ.Lib.QuotaLog
import LightQ.Storage.CurrentFile
import LightQ.Storage.LogInvariant

namespace LightQ

open MachineInt ConnectionFile QuotaLog

namespace ConnectionFile

/-- What a call appends at `position`. -/
def Call.frame (host : ByteOrder) (c : Call) (position : Nat) : Bytes :=
  stored host c.msg c.writeMsgSize c.includeOffset position

/-- The length of that. -/
def Call.length (c : Call) : Nat := storedLength c.msg c.writeMsgSize c.includeOffset

/-- A message that is not empty, and a frame that fits in an `int` and in a file. -/
structure Call.Fits (maxFileSize : Nat) (c : Call) : Prop where
  msg_ne : c.msg ≠ []
  length_lt : c.length < 2 ^ 31
  length_le : c.length ≤ maxFileSize

theorem Call.length_pos {c : Call} (h : c.msg ≠ []) : 0 < c.length := by
  have hpos := List.length_pos_iff.mpr h
  rw [length, storedLength]
  omega

theorem Call.Fits.frame_bounds {maxFileSize : Nat} {c : Call} (h : c.Fits maxFileSize)
    (host : ByteOrder) (position : Nat) :
    0 < (c.frame host position).length ∧ (c.frame host position).length ≤ maxFileSize := by
  rw [frame, length_stored]
  exact ⟨length_pos h.msg_ne, h.length_le⟩

/-- The total that the file in front of the one at position `i` carries. -/
def totalBefore (s : ConnectionFile) : Nat → Nat
  | 0 => 0
  | i + 1 => (s.fileFds[i]?.map FileDetails.bytesWrittenAcrossAllFiles).getD 0

end ConnectionFile

/-- A call, and what `open` returns if it creates a file: the descriptor, and the content
it finds there. -/
structure Placing where
  call : Call
  fd : Nat
  found : Bytes
deriving DecidableEq, Repr

/-- A log, the descriptors of its files, and the frames it has been given, each with the
size of the log in front of it. -/
structure PlacedLog where
  conn : ConnectionFile
  fds : List Nat
  frames : List (Nat × Bytes)

namespace PlacedLog

def start (directory topic : Bytes) (maxFileSize : Nat) : PlacedLog :=
  ⟨ConnectionFile.create directory topic maxFileSize, [], []⟩

/-- A call that succeeds: it returns the length of what it was to append.  One that breaks
off may return a positive value too, but not this one (`writeMsgWith_short`).  A new file
has a descriptor that none of the others has; none of them is closed. -/
def step (host : ByteOrder) (t : PlacedLog) (w : Placing) : Option PlacedLog := do
  let a ← t.conn.writeAny host w.call (some w.found)
  if a.value = w.call.length ∧ (t.conn.creates = true → w.fd < 2 ^ 31 ∧ w.fd ∉ t.fds) then
    some
      { conn := a.conn
        fds := if t.conn.creates then t.fds ++ [w.fd] else t.fds
        frames := t.frames ++
          [(t.conn.totalBytesWriten, w.call.frame host (t.conn.appendPosition (some w.found)))] }
  else none

/-- Which file rotation appends a frame to, and how large files become. -/
structure SizedByOffset (maxFileSize : Nat) (t : PlacedLog) : Prop where
  /-- A frame goes where its offset says, in one piece. -/
  placed : ∀ o fr, (o, fr) ∈ t.frames → ∃ f,
    t.conn.fileFds[o / maxFileSize]? = some f ∧
      f.fileName = FileDetails.newfile t.conn.directory t.conn.topic (o / maxFileSize) ∧
      t.conn.totalBefore (o / maxFileSize) ≤ o ∧
      o - t.conn.totalBefore (o / maxFileSize) + fr.length ≤ f.offset
  increasing : (t.conn.fileFds.map FileDetails.bytesWrittenAcrossAllFiles).Pairwise (· < ·)
  last_total : ∀ f, t.conn.fileFds.getLast? = some f →
    f.bytesWrittenAcrossAllFiles = t.conn.totalBytesWriten
  /-- Every file, rotated out or not, holds less than the limit and one of its frames. -/
  bounded : ∀ (i : Nat) (f : FileDetails), t.conn.fileFds[i]? = some f →
    ∃ o fr, (o, fr) ∈ t.frames ∧ o / maxFileSize = i ∧ f.offset < maxFileSize + fr.length

/-- A frame is there, too. -/
structure RotatesByOffset (maxFileSize : Nat) (t : PlacedLog) : Prop
    extends SizedByOffset maxFileSize t where
  stored : ∀ o fr f, (o, fr) ∈ t.frames → t.conn.fileFds[o / maxFileSize]? = some f →
    (f.content.drop (o - t.conn.totalBefore (o / maxFileSize))).take fr.length = fr

end PlacedLog

/-! ## The segments as bins -/

section Bins

variable {segs : List Segment} {x : Segment} {base k : Nat}

/-- The frames of the log, file by file. -/
def bins (segs : List Segment) : List (List Bytes) := segs.map Segment.frames

theorem flatten_bins (segs : List Segment) : (bins segs).flatten = logFrames segs := by
  rw [bins, logFrames, List.flatMap_def]

theorem size_bins (segs : List Segment) : size (bins segs) = (logBytes segs).length := by
  rw [size, flatten_bins, flatten_logFrames]

theorem bins_booked (s : ConnectionFile) (segs : List Segment) (x : Segment) (fr : Bytes) :
    bins (s.booked segs x fr) = bins segs ++ [x.frames ++ [fr]] := by
  rw [bins, ConnectionFile.booked, List.map_append, ConnectionFile.seen]
  split
  · rw [List.map_map]
    rfl
  · rfl

theorem Totals.at (h : Totals base segs) (hx : segs[k]? = some x) :
    x.file.bytesWrittenAcrossAllFiles = base + (logBytes (segs.take (k + 1))).length := by
  induction segs generalizing base k with
  | nil => cases hx
  | cons y ys ih =>
      rw [List.take_succ_cons, logBytes_cons, List.length_append, ← Nat.add_assoc]
      cases k with
      | zero =>
          obtain rfl := Option.some.inj hx
          exact h.1
      | succ k => exact ih h.2 hx

theorem Totals.increasing (h : Totals base segs) (hpos : ∀ x ∈ segs, 0 < x.bytes.length) :
    (segs.map fun x => x.file.bytesWrittenAcrossAllFiles).Pairwise (· < ·) ∧
      ∀ x ∈ segs, base < x.file.bytesWrittenAcrossAllFiles := by
  induction segs generalizing base with
  | nil => exact ⟨List.Pairwise.nil, fun x hx => by cases hx⟩
  | cons y ys ih =>
      obtain ⟨hy, hys⟩ := h
      obtain ⟨hrest, hlater⟩ := ih hys fun x hx => hpos x (List.mem_cons_of_mem _ hx)
      have hylt := hpos y List.mem_cons_self
      constructor
      · refine List.pairwise_cons.mpr ⟨?_, hrest⟩
        intro total htotal
        obtain ⟨x, hx, rfl⟩ := List.mem_map.mp htotal
        exact hy.trans_lt (hlater x hx)
      · intro x hx
        rcases List.mem_cons.mp hx with rfl | hx
        · omega
        · exact Nat.lt_of_le_of_lt (Nat.le_add_right _ _) (hlater x hx)

theorem Tiled.totalBefore {s : ConnectionFile} (h : Tiled s segs) (hk : k < segs.length) :
    s.totalBefore k = (logBytes (segs.take k)).length := by
  cases k with
  | zero => rfl
  | succ k =>
      have hx : segs[k]? = some segs[k] := List.getElem?_eq_getElem (Nat.lt_of_succ_lt hk)
      rw [ConnectionFile.totalBefore, h.files, List.getElem?_map, hx, Option.map_some,
        Option.map_some, Option.getD_some, h.totals.at hx, Nat.zero_add]

end Bins

namespace ConnectionFile

section Append

variable {host : ByteOrder} {s s' : ConnectionFile} {pre : List Segment} {x : Segment} {c : Call}
  {content : Bytes} {a : Appended}

theorem TiledTo.append (h : TiledTo s' pre x) (hne : c.msg ≠ []) (hlen : c.length < 2 ^ 31)
    (hset : s.setCurrentFile (some content) = some (true, s'))
    (hwrite : s.writeAny host c (some content) = some a) (hvalue : a.value = c.length) :
    Tiled a.conn (s'.booked pre x (c.frame host (s.appendPosition (some content)))) ∧
      a.conn.maxFileSize = s'.maxFileSize := by
  rw [writeAny_of_set c hset, h.current_file] at hwrite
  obtain rfl := Option.some.inj hwrite
  rw [book_value] at hvalue
  obtain ⟨rest, hstored⟩ := x.file.writeMsgWith_stored host hne hlen hvalue
  have hlength : (c.frame host x.file.offset).length = c.length := length_stored _ _ _ _ _
  have hfr : c.frame host x.file.offset ≠ [] := by
    intro hnil
    rw [hnil] at hlength
    exact (Call.length_pos hne).ne hlength
  obtain ⟨-, -, htiled⟩ := h.book hfr (hlength ▸ hlen) rest
  rw [appendPosition_of_set hset h.current_file]
  have hbooked : s'.book (x.file.writeMsgWith host c.msg (u32 c.msg.length) c.writeMsgSize
      c.includeOffset c.sched) = s'.book ⟨(c.frame host x.file.offset).length,
        x.file.appendFrame (c.frame host x.file.offset), rest⟩ := by
    rw [hstored, hlength]
    rfl
  refine ⟨?_, book_maxFileSize⟩
  show Tiled (s'.book _).conn _
  rw [hbooked]
  exact htiled

end Append

end ConnectionFile

namespace PlacedLog

/-- The log `t` consists of the segments `segs`, and every frame is in the segment of its
offset. -/
structure Holds (maxFileSize : Nat) (t : PlacedLog) (segs : List Segment) : Prop where
  tiled : Tiled t.conn segs
  indexed : t.conn.Indexed
  fixed : t.conn.maxFileSize = maxFileSize
  open_files : t.fds.length = segs.length ∧ t.fds.Nodup ∧ ∀ fd ∈ t.fds, fd < 2 ^ 31
  frames : t.frames = starts 0 (logFrames segs)
  small : ∀ fr ∈ logFrames segs, 0 < fr.length ∧ fr.length ≤ maxFileSize
  placed : Placed maxFileSize 0 0 (bins segs)

theorem holds_start (directory topic : Bytes) {maxFileSize : Nat} (hM : 0 < maxFileSize) :
    Holds maxFileSize (start directory topic maxFileSize) [] where
  tiled := tiled_create directory topic hM
  indexed := indexed_create directory topic hM
  fixed := rfl
  open_files := ⟨rfl, List.nodup_nil, fun fd hfd => by cases hfd⟩
  frames := rfl
  small := fun fr hfr => by cases hfr
  placed := trivial

section Step

variable {host : ByteOrder} {maxFileSize : Nat} {t t' : PlacedLog} {w : Placing}
  {segs pre : List Segment} {x : Segment}

theorem Holds.length_le (h : Holds maxFileSize t segs) : segs.length ≤ 2 ^ 31 := by
  obtain ⟨hlen, hnodup, hlt⟩ := h.open_files
  have hsub : t.fds ⊆ List.range (2 ^ 31) := fun fd hfd => List.mem_range.mpr (hlt fd hfd)
  have hle := (hnodup.subperm hsub).length_le
  rwa [List.length_range, hlen] at hle

/-- The quotient is the index of the last file or the next one, and it is not truncated. -/
theorem Holds.fdToUse (h : Holds maxFileSize t (pre ++ [x])) :
    t.conn.fdToUse = t.conn.totalBytesWriten / maxFileSize ∧
      (t.conn.fdToUse = pre.length ∨ t.conn.fdToUse = pre.length + 1) := by
  have hbins : bins (pre ++ [x]) = bins pre ++ [x.frames] := List.map_append
  have hM : 0 < maxFileSize := h.fixed ▸ h.tiled.max_pos
  have hplaced := h.placed
  rw [hbins] at hplaced
  have hnext := hplaced.next_index hM fun fr hfr =>
    (h.small fr (by
      rw [logFrames_append]
      exact List.mem_append_right _ (by simpa using hfr))).2
  rw [← hbins, size_bins, ← h.tiled.total_eq, bins, List.length_map, Nat.zero_add,
    Nat.zero_add] at hnext
  have hlen := h.length_le
  rw [List.length_append, List.length_singleton] at hlen
  have hsame : t.conn.fdToUse = t.conn.totalBytesWriten / maxFileSize := by
    rw [ConnectionFile.fdToUse, h.fixed]
    exact u32_of_lt (by omega)
  rw [hsame]
  exact ⟨rfl, hnext⟩

theorem Holds.size_div (h : Holds maxFileSize t segs) :
    (0 + size (bins segs)) / maxFileSize = t.conn.totalBytesWriten / maxFileSize := by
  rw [Nat.zero_add, size_bins, h.tiled.total_eq]

theorem Holds.stays (h : Holds maxFileSize t (pre ++ [x]))
    (hstay : t.conn.fdToUse ≤ t.conn.currentFdIndex) :
    t.conn.creates = false ∧ t.conn.totalBytesWriten / maxFileSize = pre.length := by
  have hcur := h.tiled.last_current.1
  obtain ⟨hdiv, huse⟩ := h.fdToUse
  have hfiles : t.conn.fileFds.length ≠ 0 := by
    rw [h.tiled.files]
    simp
  exact ⟨by simp [creates, hfiles, hstay], by omega⟩

theorem Holds.moves (h : Holds maxFileSize t segs)
    (hrot : segs = [] ∨ t.conn.currentFdIndex < t.conn.fdToUse) :
    t.conn.creates = true ∧ t.conn.totalBytesWriten / maxFileSize = segs.length := by
  rcases List.eq_nil_or_concat' segs with rfl | ⟨pre, x, rfl⟩
  · refine ⟨by simp [creates, h.tiled.files], ?_⟩
    rw [h.tiled.total_eq]
    exact Nat.zero_div maxFileSize
  · have hlt := hrot.resolve_left (by simp)
    have hcur := h.tiled.last_current.1
    obtain ⟨hdiv, huse⟩ := h.fdToUse
    refine ⟨by simp [creates, hlt], ?_⟩
    rw [List.length_append, List.length_singleton]
    omega

theorem Holds.next_index (h : Holds maxFileSize t segs) :
    t.conn.fdToUse ≤ t.conn.currentFdIndex + 1 := by
  rcases List.eq_nil_or_concat' segs with rfl | ⟨pre, x, rfl⟩
  · have hzero : t.conn.totalBytesWriten / t.conn.maxFileSize = 0 := by
      rw [h.tiled.total_eq]
      exact Nat.zero_div _
    rw [ConnectionFile.fdToUse, hzero]
    exact Nat.zero_le _
  · have hcur := h.tiled.last_current.1
    have huse := h.fdToUse.2
    omega

theorem Holds.hasFile (h : Holds maxFileSize t segs) (w : Placing) :
    t.conn.HasFile ⟨w.call, some w.found⟩ := by
  have hnext := h.next_index
  by_cases hnil : t.conn.fileFds = []
  · exact Or.inl ⟨hnil, Or.inl rfl⟩
  · rcases Nat.lt_or_ge t.conn.currentFdIndex t.conn.fdToUse with hrot | hstay
    · exact Or.inr ⟨hnil, Or.inr ⟨by omega, rfl⟩⟩
    · exact Or.inr ⟨hnil, Or.inl hstay⟩

theorem Holds.indexed_after (h : Holds maxFileSize t segs) {a : Appended}
    (hwrite : t.conn.writeAny host w.call (some w.found) = some a) : a.conn.Indexed := by
  obtain ⟨-, s₁, hafter, hs₁⟩ := h.indexed.findsFile (h.hasFile w) host
  rw [after, hwrite] at hafter
  obtain rfl := Option.some.inj hafter
  exact hs₁

theorem Holds.appended (h : Holds maxFileSize t segs) {fr : Bytes} {conn s : ConnectionFile}
    {fds : List Nat} (htiled : Tiled conn (s.booked pre x fr))
    (hindexed : conn.Indexed) (hfixed : conn.maxFileSize = maxFileSize)
    (hfds : fds.length = pre.length + 1 ∧ fds.Nodup ∧ ∀ fd ∈ fds, fd < 2 ^ 31)
    (hsegs : logFrames (pre ++ [x]) = logFrames segs)
    (hsmall : 0 < fr.length ∧ fr.length ≤ maxFileSize)
    (hplaced : Placed maxFileSize 0 0 (bins pre ++ [x.frames ++ [fr]])) :
    Holds maxFileSize ⟨conn, fds, t.frames ++ [(t.conn.totalBytesWriten, fr)]⟩
      (s.booked pre x fr) := by
  have hframes : logFrames (s.booked pre x fr) = logFrames segs ++ [fr] := by
    rw [← hsegs, logFrames_booked]
  refine ⟨htiled, hindexed, hfixed, ?_, ?_, ?_, ?_⟩
  · rw [length_booked]
    exact hfds
  · rw [hframes, starts_append, ← h.frames, flatten_logFrames, Nat.zero_add, ← h.tiled.total_eq]
    rfl
  · intro fr' hfr'
    rw [hframes] at hfr'
    rcases List.mem_append.mp hfr' with hold | hnew
    · exact h.small fr' hold
    · obtain rfl := List.mem_singleton.mp hnew
      exact hsmall
  · rw [bins_booked]
    exact hplaced

theorem Holds.open_another (h : Holds maxFileSize t segs) {fd : Nat} (hlt : fd < 2 ^ 31)
    (hfresh : fd ∉ t.fds) :
    (t.fds ++ [fd]).length = segs.length + 1 ∧ (t.fds ++ [fd]).Nodup ∧
      ∀ fd' ∈ t.fds ++ [fd], fd' < 2 ^ 31 := by
  obtain ⟨hlen, hnodup, hfds⟩ := h.open_files
  refine ⟨by rw [List.length_append, List.length_singleton, hlen], ?_, ?_⟩
  · refine List.nodup_append.mpr ⟨hnodup, List.nodup_singleton fd, ?_⟩
    rintro fd₁ hfd₁ fd₂ hfd₂ rfl
    obtain rfl := List.mem_singleton.mp hfd₂
    exact hfresh hfd₁
  · intro fd' hfd'
    rcases List.mem_append.mp hfd' with hold | hnew
    · exact hfds fd' hold
    · obtain rfl := List.mem_singleton.mp hnew
      exact hlt

/-- A call that succeeds puts its frame where it belongs. -/
theorem Holds.step (h : Holds maxFileSize t segs) (hfits : w.call.Fits maxFileSize)
    (hstep : t.step host w = some t') : ∃ segs', Holds maxFileSize t' segs' := by
  obtain ⟨a, hwrite, hstep⟩ := Option.bind_eq_some_iff.mp hstep
  split at hstep
  case isFalse => cases hstep
  rename_i hok
  obtain rfl := Option.some.inj hstep
  obtain ⟨hvalue, hopen⟩ := hok
  have hindexed := h.indexed_after hwrite
  have hdiv := h.size_div
  have hplaced := h.placed
  obtain ⟨s', hset, hmax, ⟨pre, x, rfl, rfl, hstay, hlast⟩ | ⟨-, hrot, x, hx, -, hnew⟩⟩ :=
    h.tiled.target w.found h.next_index
  · -- the last file stays the current one
    obtain ⟨htiled, hsame⟩ :=
      hlast.append hfits.msg_ne hfits.length_lt hset hwrite hvalue
    obtain ⟨hcreates, hquotient⟩ := h.stays hstay
    have hfds := h.open_files
    rw [List.length_append, List.length_singleton] at hfds
    simp only [bins, List.map_append, List.map_cons, List.map_nil] at hplaced hdiv
    rw [hquotient] at hdiv
    refine ⟨_, h.appended htiled hindexed (hsame.trans h.fixed) ?_ rfl (hfits.frame_bounds host _) ?_⟩
    · rw [hcreates]
      exact hfds
    · refine hplaced.extend (hdiv.trans ?_) _
      rw [List.length_map, Nat.zero_add]
  · -- a new one is created
    obtain ⟨htiled, hsame⟩ :=
      hnew.append hfits.msg_ne hfits.length_lt hset hwrite hvalue
    obtain ⟨hcreates, hquotient⟩ := h.moves hrot
    obtain ⟨hlt, hfresh⟩ := hopen hcreates
    rw [hquotient] at hdiv
    refine ⟨_, h.appended htiled hindexed ((hsame.trans hmax).trans h.fixed) ?_ ?_
      (hfits.frame_bounds host _) ?_⟩
    · rw [hcreates]
      exact h.open_another hlt hfresh
    · simp [hx]
    · rw [hx]
      refine hplaced.snoc (hdiv.trans ?_) _
      rw [bins, List.length_map, Nat.zero_add]

/-! ## What it means for the files -/

theorem Holds.bytes_pos (h : Holds maxFileSize t segs) (hx : x ∈ segs) : 0 < x.bytes.length := by
  obtain ⟨k, hk⟩ := List.mem_iff_getElem?.mp hx
  have hb : (bins segs)[k]? = some x.frames := by rw [bins, List.getElem?_map, hk]; rfl
  obtain ⟨fr, frs, hframes⟩ := List.exists_cons_of_ne_nil (h.placed.bin hb).1
  have hfr : fr ∈ logFrames segs :=
    List.mem_flatMap.mpr ⟨x, hx, by rw [hframes]; exact List.mem_cons_self⟩
  have hpos := (h.small fr hfr).1
  rw [Segment.bytes, hframes, List.flatten_cons, List.length_append]
  omega

theorem Holds.bin_file (h : Holds maxFileSize t segs) {k : Nat} {b : List Bytes}
    (hb : (bins segs)[k]? = some b) :
    ∃ x ∈ segs, x.frames = b ∧ t.conn.fileFds[k]? = some x.file ∧
      0 + size ((bins segs).take k) = t.conn.totalBefore k := by
  rw [bins, List.getElem?_map] at hb
  obtain ⟨x, hx, hframes⟩ := Option.map_eq_some_iff.mp hb
  refine ⟨x, List.mem_of_getElem? hx, hframes, by rw [h.tiled.files, List.getElem?_map, hx]; rfl, ?_⟩
  rw [Nat.zero_add, bins, ← List.map_take, ← bins, size_bins,
    h.tiled.totalBefore (List.getElem?_eq_some_iff.mp hx).1]

/-- A frame goes to the file of its offset, and is in it if that is no other's. -/
theorem Holds.frame_file (h : Holds maxFileSize t segs) {o : Nat} {fr : Bytes}
    (hfr : (o, fr) ∈ t.frames) :
    ∃ f, t.conn.fileFds[o / maxFileSize]? = some f ∧
      f.fileName = FileDetails.newfile t.conn.directory t.conn.topic (o / maxFileSize) ∧
      t.conn.totalBefore (o / maxFileSize) ≤ o ∧
      o - t.conn.totalBefore (o / maxFileSize) + fr.length ≤ f.offset ∧
      (t.conn.Distinct →
        (f.content.drop (o - t.conn.totalBefore (o / maxFileSize))).take fr.length = fr) := by
  rw [h.frames, ← flatten_bins] at hfr
  obtain ⟨k, b, hb, hindex, hmem⟩ := h.placed.locate hfr
  obtain ⟨x, hx, rfl, hfile, hbefore⟩ := h.bin_file hb
  rw [hbefore] at hmem
  rw [Nat.zero_add] at hindex
  obtain ⟨hle, hfit, hslice⟩ := slice_of_mem_starts hmem
  rw [show o / maxFileSize = k from hindex]
  refine ⟨x.file, hfile, h.indexed.named k x.file hfile, hle, ?_, fun hdistinct => ?_⟩
  · rw [x.offset_eq]
    exact hfit
  · rw [(h.tiled.intact hdistinct x hx).drop_content hfit]
    exact hslice

theorem Holds.last_total (h : Holds maxFileSize t segs) {f : FileDetails}
    (hf : t.conn.fileFds.getLast? = some f) :
    f.bytesWrittenAcrossAllFiles = t.conn.totalBytesWriten := by
  rcases List.eq_nil_or_concat' segs with rfl | ⟨pre, x, rfl⟩
  · rw [h.tiled.files] at hf
    cases hf
  · rw [h.tiled.files, List.map_append, List.map_singleton, List.getLast?_concat] at hf
    obtain rfl := Option.some.inj hf
    exact h.tiled.last_total

theorem Holds.bounded (h : Holds maxFileSize t segs) {i : Nat} {f : FileDetails}
    (hf : t.conn.fileFds[i]? = some f) :
    ∃ o fr, (o, fr) ∈ t.frames ∧ o / maxFileSize = i ∧ f.offset < maxFileSize + fr.length := by
  rw [h.tiled.files, List.getElem?_map] at hf
  obtain ⟨x, hx, rfl⟩ := Option.map_eq_some_iff.mp hf
  have hb : (bins segs)[i]? = some x.frames := by rw [bins, List.getElem?_map, hx]; rfl
  obtain ⟨p, hp, hindex, hsize⟩ := h.placed.bin_size (h.fixed ▸ h.tiled.max_pos) hb
  rw [Nat.zero_add] at hindex
  refine ⟨p.1, p.2, ?_, hindex, by rw [x.offset_eq]; exact hsize⟩
  rw [h.frames, ← flatten_bins]
  exact starts_of_bin hb hp

theorem Holds.sizedByOffset (h : Holds maxFileSize t segs) : t.SizedByOffset maxFileSize where
  placed := by
    intro o fr hfr
    obtain ⟨f, hf, hname, hle, hfit, -⟩ := h.frame_file hfr
    exact ⟨f, hf, hname, hle, hfit⟩
  increasing := by
    rw [h.tiled.files, List.map_map]
    exact (h.tiled.totals.increasing fun x hx => h.bytes_pos hx).1
  last_total := fun _ hf => h.last_total hf
  bounded := fun _ _ hf => h.bounded hf

theorem Holds.rotatesByOffset (h : Holds maxFileSize t segs) (hdistinct : t.conn.Distinct) :
    t.RotatesByOffset maxFileSize where
  toSizedByOffset := h.sizedByOffset
  stored := by
    intro o fr f hfr hf
    obtain ⟨f', hf', -, -, -, hstored⟩ := h.frame_file hfr
    obtain rfl := Option.some.inj (hf.symm.trans hf')
    exact hstored hdistinct

end Step

/-- In every run of successful calls, every frame is placed by its offset. -/
theorem rotation_places (host : ByteOrder) (directory topic : Bytes) {maxFileSize : Nat}
    (hM : 0 < maxFileSize) {calls : List Placing} (hcalls : ∀ w ∈ calls, w.call.Fits maxFileSize)
    {t : PlacedLog}
    (hrun : Runs.run (step host) (start directory topic maxFileSize) calls = some t) :
    t.SizedByOffset maxFileSize ∧ (t.conn.Distinct → t.RotatesByOffset maxFileSize) := by
  obtain ⟨segs, h⟩ := Runs.run_invariant (I := fun t => ∃ segs, Holds maxFileSize t segs)
    (P := fun _ w => w.call.Fits maxFileSize) (fun ⟨_, h⟩ hfits hstep => h.step hfits hstep)
    ⟨[], holds_start directory topic hM⟩ (Runs.along_of_forall hcalls) hrun
  exact ⟨h.sizedByOffset, h.rotatesByOffset⟩

/-- Three frames of six bytes in files of ten: the last one is at the offset 12, and in the
second file. -/
def threeCalls : List Placing :=
  [⟨⟨.string, ascii "ab", true, false, []⟩, 3, []⟩, ⟨⟨.pointer, ascii "cd", true, false, []⟩, 3, []⟩,
    ⟨⟨.string, ascii "ef", true, false, []⟩, 4, []⟩]

theorem threeCalls_fit : ∀ w ∈ threeCalls, w.call.Fits 10 := by
  intro w hw
  simp only [threeCalls, List.mem_cons, List.not_mem_nil, or_false] at hw
  rcases hw with rfl | rfl | rfl
  all_goals exact ⟨by decide, by decide, by decide⟩

theorem rotation_places_three :
    ∃ t, Runs.run (step .little) (start (ascii "/tmp") (ascii "t") 10) threeCalls = some t ∧
      t.frames.map Prod.fst = [0, 6, 12] ∧ t.fds = [3, 4] ∧ t.RotatesByOffset 10 := by
  refine ⟨_, rfl, by decide, by decide, ?_⟩
  exact (rotation_places .little (ascii "/tmp") (ascii "t") (by decide : 0 < 10) threeCalls_fit
    rfl).2 (by decide)

/-- With a zero byte behind the topic's name the third frame is written over the
first one. -/
theorem reopened_not_placed :
    ¬ ∀ (host : ByteOrder) (directory topic : Bytes) (maxFileSize : Nat) (calls : List Placing)
        (t : PlacedLog), 0 < maxFileSize → (∀ w ∈ calls, w.call.Fits maxFileSize) →
        Runs.run (step host) (start directory topic maxFileSize) calls = some t →
        t.RotatesByOffset maxFileSize := by
  intro h
  have hplaces := h .little (ascii "/tmp") [116, 0] 10 threeCalls _ (by decide) threeCalls_fit rfl
  have hfirst := hplaces.stored 0 ([2, 0, 0, 0] ++ ascii "ab") _ (by decide) rfl
  exact absurd hfirst (by decide)

end PlacedLog

end LightQ
