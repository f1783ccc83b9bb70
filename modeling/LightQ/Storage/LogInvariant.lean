/-
# `Storage.LogInvariant` — the rotated files as one log

Every file of a `connection_file` holds a run of whole frames in front of
its append position; `Segment` is such a file with its frames.  The running
totals the files carry (`Totals`) turn an offset into the log into a file
and an offset into that file, and the rotation index stays so close to the
size of the log that `set_current_file` never skips a file (`quota`).

`LogInvariant` is the one statement of all this.  `LogInvariant.write` says
that an append that gets through keeps it and adds its frame to the log, and
`LogInvariant.read_frame` that a read then finds every frame.

It is built in layers, each with its own lemma about an append:

  * `FilesOf`: the files are those of the segments, and as long as they are
    different ones each holds what its segment says (`intact`); otherwise they
    all show what the one file holds (`shared`, and `FilesOf.create` for a new
    one).  What is read later is known of different files only, while
    everything else, the counters, the positions and the rotation, is known of
    all logs;
  * `Tiled`: the totals, and where the current file is.  `Tiled.target` is
    `set_current_file` on a log whose size is at most one file ahead of the
    index: the last file stays the current one, or a new one is created;
  * `LogFiles`: the pieces are frames, of any length (`LogFiles.write`, if
    there is a file for the append; `LogFiles.write_skipped`, if the index has
    run past the vector);
  * `LogInvariant`: no frame is larger than a file, so that the quotient is at
    most one more than the index (`LogInvariant.next_index`) and there is
    always a file (`LogInvariant.ready`).

Reading goes through the segments in order.  The search ends in the file that
holds the frame (`readFrom_segment`) or passes every file over
(`readFrom_end`).  A frame is returned if it fits into the buffer
(`LogFiles.read_frame`); of one that does not the header comes back, four less
than what the frame takes (`LogFiles.read_oversize`); and at the end of the log
there is nothing (`LogFiles.read_end`).
-/
import LightQ.Lib.FrameLog
import LightQ.Storage.Rotation
import LightQ.Storage.ReadMsg

namespace LightQ

open MachineInt Overlay FrameLog

/-! ## Segments -/

/-- A file, and the frames that were appended to it. -/
structure Segment where
  file : FileDetails
  frames : List Bytes
  offset_flatten : file.offset = frames.flatten.length

namespace Segment

/-- The bytes of the segment's frames. -/
def bytes (x : Segment) : Bytes := x.frames.flatten

theorem offset_eq (x : Segment) : x.file.offset = x.bytes.length := x.offset_flatten

/-- The file holds the frames, and nothing else, in front of its append
position. -/
def Intact (x : Segment) : Prop := x.file.content.take x.file.offset = x.bytes

theorem Intact.drop_content {x : Segment} (h : x.Intact) {o n : Nat} (hn : o + n ≤ x.bytes.length) :
    (x.file.content.drop o).take n = (x.bytes.drop o).take n := by
  rw [← h, List.drop_take, List.take_take, x.offset_eq]
  congr 1
  omega

/-- A file nothing has been appended to. -/
def fresh (f : FileDetails) (h : f.offset = 0) : Segment := ⟨f, [], h⟩

theorem fresh_intact {f : FileDetails} (h : f.offset = 0) : (fresh f h).Intact := by
  show f.content.take f.offset = []
  rw [h, List.take_zero]

/-- The segment after a frame, with the running total that is booked. -/
def extend (x : Segment) (fr : Bytes) (total : Nat) : Segment where
  file := { x.file.appendFrame fr with bytesWrittenAcrossAllFiles := total }
  frames := x.frames ++ [fr]
  offset_flatten := by
    show x.file.offset + fr.length = _
    rw [x.offset_flatten, List.flatten_append, List.flatten_singleton, List.length_append]

@[simp] theorem bytes_extend (x : Segment) (fr : Bytes) (total : Nat) :
    (x.extend fr total).bytes = x.bytes ++ fr := by
  simp [bytes, extend]

theorem Intact.extend {x : Segment} (h : x.Intact) (hle : x.file.offset ≤ x.file.content.length)
    (fr : Bytes) (total : Nat) : (x.extend fr total).Intact := by
  show (overlay 0 x.file.content x.file.offset fr).take (x.file.offset + fr.length) = _
  rw [take_overlay hle, h, bytes_extend]

theorem length_extend (x : Segment) (fr : Bytes) (total : Nat) :
    x.file.content.length ≤ (x.extend fr total).file.content.length ∧
      (x.file.offset ≤ x.file.content.length →
        (x.extend fr total).file.offset ≤ (x.extend fr total).file.content.length) := by
  show x.file.content.length ≤ (overlay 0 x.file.content x.file.offset fr).length ∧
    (_ → x.file.offset + fr.length ≤ (overlay 0 x.file.content x.file.offset fr).length)
  cases fr with
  | nil => exact ⟨Nat.le_refl _, id⟩
  | cons b bs =>
      rw [length_overlay (List.cons_ne_nil b bs)]
      exact ⟨Nat.le_max_left _ _, fun _ => Nat.le_max_right _ _⟩

/-- The segment when its file is another name for one that holds `content`. -/
def showing (x : Segment) (content : Bytes) : Segment :=
  { x with file := { x.file with content := content } }

end Segment

/-- The frames of the log. -/
def logFrames (segs : List Segment) : List Bytes := segs.flatMap Segment.frames

/-- The bytes of the log: what its files hold, one after the other. -/
def logBytes (segs : List Segment) : Bytes := (segs.map Segment.bytes).flatten

@[simp] theorem logFrames_nil : logFrames [] = [] := rfl

@[simp] theorem logFrames_append (xs ys : List Segment) :
    logFrames (xs ++ ys) = logFrames xs ++ logFrames ys := List.flatMap_append

@[simp] theorem logFrames_cons (x : Segment) (xs : List Segment) :
    logFrames (x :: xs) = x.frames ++ logFrames xs := List.flatMap_cons

@[simp] theorem logBytes_nil : logBytes [] = [] := rfl

@[simp] theorem logBytes_cons (x : Segment) (xs : List Segment) :
    logBytes (x :: xs) = x.bytes ++ logBytes xs := rfl

@[simp] theorem logBytes_append (xs ys : List Segment) :
    logBytes (xs ++ ys) = logBytes xs ++ logBytes ys := by
  simp [logBytes]

theorem flatten_logFrames (segs : List Segment) : (logFrames segs).flatten = logBytes segs := by
  induction segs with
  | nil => rfl
  | cons x xs ih => rw [logFrames_cons, List.flatten_append, ih, logBytes_cons, Segment.bytes]

/-- Every file carries the size of the log up to its end; `base` is the size
in front of the first one. -/
def Totals : Nat → List Segment → Prop
  | _, [] => True
  | base, x :: xs =>
      x.file.bytesWrittenAcrossAllFiles = base + x.bytes.length ∧
        Totals (base + x.bytes.length) xs

theorem totals_append {base : Nat} {xs ys : List Segment} :
    Totals base (xs ++ ys) ↔ Totals base xs ∧ Totals (base + (logBytes xs).length) ys := by
  induction xs generalizing base with
  | nil => simp [Totals]
  | cons x xs ih =>
      rw [List.cons_append, Totals, Totals, ih, logBytes_cons, List.length_append,
        Nat.add_assoc, and_assoc]

/-! ## Frames -/

/-- A frame whose header says how long the rest of it is. -/
def WellFramed (host : ByteOrder) (fr : Bytes) : Prop :=
  ∃ n, 0 < n ∧ fr.length = 4 + n ∧ host.ofBytes (fr.take 4) = n

theorem WellFramed.ne_nil {host : ByteOrder} {fr : Bytes} (h : WellFramed host fr) : fr ≠ [] := by
  obtain ⟨n, -, hlen, -⟩ := h
  rintro rfl
  exact absurd hlen (by rw [List.length_nil]; omega)

theorem wellFramed_frame {host : ByteOrder} {payload : Bytes} {includeOffset : Bool}
    {position : Nat} (hne : payload ≠ [])
    (hlen : payload.length + trailerLength includeOffset < 2 ^ 32) :
    WellFramed host (frame host payload includeOffset position) := by
  have hpos : 0 < payload.length := List.length_pos_iff.mpr hne
  refine ⟨payload.length + trailerLength includeOffset, by omega, ?_, ?_⟩
  · rw [length_frame, frameLength, Nat.add_assoc]
  · rw [frame, List.append_assoc, List.take_left' (ByteOrder.length_toBytes _ _ _)]
    exact ByteOrder.ofBytes_toBytes host hlen

/-! ## The files -/

/-- The files of `s` are those of the segments.  They hold the frames unless two
of them are the same file; then they all hold what was written to the last. -/
structure FilesOf (s : ConnectionFile) (segs : List Segment) : Prop where
  files : s.fileFds = segs.map Segment.file
  inside : ∀ x ∈ segs, x.file.offset ≤ x.file.content.length
  shared : s.OneFile → ∀ x ∈ segs, ∀ y ∈ segs, x.file.content = y.file.content
  intact : s.Distinct → ∀ x ∈ segs, x.Intact

/-- The segments of `s` when one of its files holds `content`. -/
def ConnectionFile.seen (s : ConnectionFile) (content : Bytes) (segs : List Segment) :
    List Segment :=
  if s.OneFile then segs.map (·.showing content) else segs

/-- The segments behind an append of `fr` to the last of them. -/
def ConnectionFile.booked (s : ConnectionFile) (pre : List Segment) (x : Segment) (fr : Bytes) :
    List Segment :=
  s.seen (x.file.appendFrame fr).content pre ++ [x.extend fr (s.totalBytesWriten + fr.length)]

section Seen

variable {s s' : ConnectionFile} {content : Bytes} {segs pre : List Segment} {x : Segment}

@[simp] theorem logFrames_seen : logFrames (s.seen content segs) = logFrames segs := by
  rw [ConnectionFile.seen]
  split
  · exact List.flatMap_map _ _ _
  · rfl

@[simp] theorem logBytes_seen : logBytes (s.seen content segs) = logBytes segs := by
  rw [← flatten_logFrames, logFrames_seen, flatten_logFrames]

@[simp] theorem length_seen : (s.seen content segs).length = segs.length := by
  rw [ConnectionFile.seen]
  split
  · exact List.length_map _
  · rfl

theorem seen_of_distinct (h : s.OneFile → segs = []) : s.seen content segs = segs := by
  rw [ConnectionFile.seen]
  split
  · next hone => rw [h hone, List.map_nil]
  · rfl

theorem totals_map_showing {base : Nat} :
    Totals base (segs.map (·.showing content)) ↔ Totals base segs := by
  induction segs generalizing base with
  | nil => exact Iff.rfl
  | cons x xs ih => exact and_congr Iff.rfl ih

theorem totals_seen {base : Nat} : Totals base (s.seen content segs) ↔ Totals base segs := by
  rw [ConnectionFile.seen]
  split
  · exact totals_map_showing
  · rfl

theorem map_file_seen : (s.seen content segs).map Segment.file
    = if s.OneFile then (segs.map Segment.file).map fun f => { f with content := content }
      else segs.map Segment.file := by
  rw [ConnectionFile.seen]
  split
  · rw [List.map_map, List.map_map]
    rfl
  · rfl

theorem FilesOf.nil (hfiles : s.fileFds = []) : FilesOf s [] where
  files := hfiles
  inside := fun _ h => absurd h List.not_mem_nil
  shared := fun _ _ h => absurd h List.not_mem_nil
  intact := fun _ _ h => absurd h List.not_mem_nil

/-- A file that is created shows what the others hold if it is the same. -/
theorem FilesOf.create {f : FileDetails} {opened : Bytes} (h : FilesOf s segs)
    (hdirectory : s'.directory = s.directory) (htopic : s'.topic = s.topic)
    (hfiles : s'.fileFds = s.fileFds ++ [f]) (hoffset : f.offset = 0)
    (hfound : s.found (some opened) = some f.content) :
    FilesOf s' (segs ++ [Segment.fresh f hoffset]) := by
  have hname : s'.OneFile ↔ s.OneFile := by
    rw [ConnectionFile.OneFile, ConnectionFile.OneFile, hdirectory, htopic]
  refine ⟨?_, ?_, ?_, ?_⟩
  · rw [hfiles, h.files, List.map_append]
    rfl
  · intro x hx
    rcases List.mem_append.mp hx with hold | hnew
    · exact h.inside x hold
    · obtain rfl := List.mem_singleton.mp hnew
      show f.offset ≤ f.content.length
      rw [hoffset]
      exact Nat.zero_le _
  · intro hone
    have hsame : ∀ x ∈ segs, x.file.content = f.content := by
      intro x hx
      cases segs with
      | nil => exact absurd hx List.not_mem_nil
      | cons y ys =>
          rw [ConnectionFile.found, h.files, List.map_cons] at hfound
          simp only [if_pos (hname.mp hone), Option.map_some, Option.some.injEq] at hfound
          rw [← hfound]
          exact h.shared (hname.mp hone) x hx y List.mem_cons_self
    have hall : ∀ x ∈ segs ++ [Segment.fresh f hoffset], x.file.content = f.content := by
      intro x hx
      rcases List.mem_append.mp hx with hold | hnew
      · exact hsame x hold
      · rw [List.mem_singleton.mp hnew]
        rfl
    intro x hx y hy
    rw [hall x hx, hall y hy]
  · intro hdistinct x hx
    rcases List.mem_append.mp hx with hold | hnew
    · refine h.intact (fun hone => ?_) x hold
      have hlen := hdistinct (hname.mpr hone)
      rw [hfiles, List.length_append] at hlen
      omega
    · rw [List.mem_singleton.mp hnew]
      exact Segment.fresh_intact hoffset

@[simp] theorem logFrames_booked {fr : Bytes} :
    logFrames (s.booked pre x fr) = logFrames (pre ++ [x]) ++ [fr] := by
  simp [ConnectionFile.booked, Segment.extend]

@[simp] theorem logBytes_booked {fr : Bytes} :
    logBytes (s.booked pre x fr) = logBytes (pre ++ [x]) ++ fr := by
  simp [ConnectionFile.booked]

theorem length_booked {fr : Bytes} : (s.booked pre x fr).length = pre.length + 1 := by
  simp [ConnectionFile.booked]

theorem FilesOf.extend {fr : Bytes} (h : FilesOf s (pre ++ [x]))
    (hdirectory : s'.directory = s.directory) (htopic : s'.topic = s.topic)
    (hfiles : s'.fileFds = (s.booked pre x fr).map Segment.file) :
    FilesOf s' (s.booked pre x fr) := by
  have hname : s'.OneFile ↔ s.OneFile := by
    rw [ConnectionFile.OneFile, ConnectionFile.OneFile, hdirectory, htopic]
  have hlast : x ∈ pre ++ [x] := List.mem_append_right _ List.mem_cons_self
  obtain ⟨hlonger, hinside⟩ := x.length_extend fr (s.totalBytesWriten + fr.length)
  refine ⟨hfiles, ?_, ?_, ?_⟩
  · intro y hy
    rcases List.mem_append.mp hy with hold | hnew
    · rw [ConnectionFile.seen] at hold
      split at hold
      · next hone =>
          obtain ⟨z, hz, rfl⟩ := List.mem_map.mp hold
          have hz' : z ∈ pre ++ [x] := List.mem_append_left _ hz
          have hle := h.inside z hz'
          rw [h.shared hone z hz' x hlast] at hle
          exact Nat.le_trans hle hlonger
      · exact h.inside y (List.mem_append_left _ hold)
    · rw [List.mem_singleton.mp hnew]
      exact hinside (h.inside x hlast)
  · intro hone
    have hall : ∀ y ∈ s.booked pre x fr, y.file.content = (x.file.appendFrame fr).content := by
      intro y hy
      rcases List.mem_append.mp hy with hold | hnew
      · rw [ConnectionFile.seen, if_pos (hname.mp hone)] at hold
        obtain ⟨z, -, rfl⟩ := List.mem_map.mp hold
        rfl
      · rw [List.mem_singleton.mp hnew]
        rfl
    intro y hy z hz
    rw [hall y hy, hall z hz]
  · intro hdistinct
    have hpre : s.OneFile → pre = [] := by
      intro hone
      have hlen := hdistinct (hname.mpr hone)
      rw [hfiles, List.length_map, length_booked] at hlen
      exact List.length_eq_zero_iff.mp (by omega)
    have hold : s.Distinct := by
      intro hone
      rw [h.files, hpre hone]
      exact Nat.le_refl 1
    rw [ConnectionFile.booked, seen_of_distinct hpre]
    intro y hy
    rcases List.mem_append.mp hy with hy | hy
    · exact h.intact hold y (List.mem_append_left _ hy)
    · rw [List.mem_singleton.mp hy]
      exact (h.intact hold x hlast).extend (h.inside x hlast) fr _

end Seen

/-! ## The invariant -/

/-- The log `s` consists of the segments `segs`. -/
structure LogInvariant (host : ByteOrder) (s : ConnectionFile) (segs : List Segment) : Prop
    extends FilesOf s segs where
  totals : Totals 0 segs
  total_eq : s.totalBytesWriten = (logBytes segs).length
  framed : ∀ fr ∈ logFrames segs, WellFramed host fr
  current : (segs = [] ∧ s.currentFdIndex = 0) ∨ segs.length = s.currentFdIndex + 1
  current_lt : s.currentFdIndex < 2 ^ 32
  max_pos : 0 < s.maxFileSize
  quota : s.totalBytesWriten / s.maxFileSize ≤ s.currentFdIndex + 1 ∨
    s.currentFdIndex = 2 ^ 32 - 1

theorem LogInvariant.nonempties {host : ByteOrder} {s : ConnectionFile} {segs : List Segment}
    (h : LogInvariant host s segs) : Nonempties (logFrames segs) :=
  fun fr hfr => (h.framed fr hfr).ne_nil

theorem logInvariant_create (host : ByteOrder) (directory topic : Bytes) {maxFileSize : Nat}
    (hM : 0 < maxFileSize) :
    LogInvariant host (ConnectionFile.create directory topic maxFileSize) [] where
  toFilesOf := .nil rfl
  totals := trivial
  total_eq := rfl
  framed := fun _ h => absurd h List.not_mem_nil
  current := Or.inl ⟨rfl, rfl⟩
  current_lt := by show 0 < 2 ^ 32; decide
  max_pos := hM
  quota := Or.inl (by show 0 / maxFileSize ≤ 0 + 1; rw [Nat.zero_div]; exact Nat.zero_le _)

/-- What the invariant says about the files themselves.  It does not mention
how large a file may become, and so holds behind a frame of any length. -/
structure LogFiles (host : ByteOrder) (s : ConnectionFile) (segs : List Segment) : Prop
    extends FilesOf s segs where
  totals : Totals 0 segs
  total_eq : s.totalBytesWriten = (logBytes segs).length
  framed : ∀ fr ∈ logFrames segs, WellFramed host fr
  current : (segs = [] ∧ s.currentFdIndex = 0) ∨ segs.length = s.currentFdIndex + 1
  max_pos : 0 < s.maxFileSize

theorem LogInvariant.logFiles {host : ByteOrder} {s : ConnectionFile} {segs : List Segment}
    (h : LogInvariant host s segs) : LogFiles host s segs :=
  ⟨h.toFilesOf, h.totals, h.total_eq, h.framed, h.current, h.max_pos⟩

/-- The files of the log are the segments, whatever the pieces in them look like. -/
structure Tiled (s : ConnectionFile) (segs : List Segment) : Prop extends FilesOf s segs where
  totals : Totals 0 segs
  total_eq : s.totalBytesWriten = (logBytes segs).length
  current : (segs = [] ∧ s.currentFdIndex = 0) ∨ segs.length = s.currentFdIndex + 1
  max_pos : 0 < s.maxFileSize

theorem LogFiles.tiled {host : ByteOrder} {s : ConnectionFile} {segs : List Segment}
    (h : LogFiles host s segs) : Tiled s segs :=
  ⟨h.toFilesOf, h.totals, h.total_eq, h.current, h.max_pos⟩

theorem Tiled.logFiles {host : ByteOrder} {s : ConnectionFile} {segs : List Segment}
    (h : Tiled s segs) (hframed : ∀ fr ∈ logFrames segs, WellFramed host fr) :
    LogFiles host s segs :=
  ⟨h.toFilesOf, h.totals, h.total_eq, hframed, h.current, h.max_pos⟩

theorem tiled_create (directory topic : Bytes) {maxFileSize : Nat} (hM : 0 < maxFileSize) :
    Tiled (ConnectionFile.create directory topic maxFileSize) [] :=
  ⟨.nil rfl, trivial, rfl, Or.inl ⟨rfl, rfl⟩, hM⟩

theorem LogFiles.nonempties {host : ByteOrder} {s : ConnectionFile} {segs : List Segment}
    (h : LogFiles host s segs) : Nonempties (logFrames segs) :=
  fun fr hfr => (h.framed fr hfr).ne_nil

namespace ConnectionFile

/-- The log after `set_current_file`, when the current file is the segment
`x`: all of the invariant but the total of that file, which the next booking
sets.  The quota is that of the log after one more frame. -/
structure Ready (host : ByteOrder) (s : ConnectionFile) (pre : List Segment) (x : Segment) :
    Prop extends FilesOf s (pre ++ [x]) where
  totals : Totals 0 pre
  total_eq : s.totalBytesWriten = (logBytes (pre ++ [x])).length
  framed : ∀ fr ∈ logFrames (pre ++ [x]), WellFramed host fr
  current : pre.length = s.currentFdIndex
  current_lt : s.currentFdIndex < 2 ^ 32
  max_pos : 0 < s.maxFileSize
  quota : s.totalBytesWriten / s.maxFileSize ≤ s.currentFdIndex ∨
    s.currentFdIndex = 2 ^ 32 - 1

/-- The same without the quota, as `LogFiles` is the invariant without it. -/
structure Prepared (host : ByteOrder) (s : ConnectionFile) (pre : List Segment) (x : Segment) :
    Prop extends FilesOf s (pre ++ [x]) where
  totals : Totals 0 pre
  total_eq : s.totalBytesWriten = (logBytes (pre ++ [x])).length
  framed : ∀ fr ∈ logFrames (pre ++ [x]), WellFramed host fr
  current : pre.length = s.currentFdIndex
  max_pos : 0 < s.maxFileSize

/-- The same as `Tiled`, before the total of the last file is booked. -/
structure TiledTo (s : ConnectionFile) (pre : List Segment) (x : Segment) : Prop
    extends FilesOf s (pre ++ [x]) where
  totals : Totals 0 pre
  total_eq : s.totalBytesWriten = (logBytes (pre ++ [x])).length
  current : pre.length = s.currentFdIndex
  max_pos : 0 < s.maxFileSize

section Write

variable {host : ByteOrder} {s s' : ConnectionFile} {segs pre : List Segment} {x : Segment}

theorem Prepared.tiledTo (h : Prepared host s pre x) : TiledTo s pre x :=
  ⟨h.toFilesOf, h.totals, h.total_eq, h.current, h.max_pos⟩

theorem TiledTo.prepared (h : TiledTo s pre x)
    (hframed : ∀ fr ∈ logFrames (pre ++ [x]), WellFramed host fr) : Prepared host s pre x :=
  ⟨h.toFilesOf, h.totals, h.total_eq, hframed, h.current, h.max_pos⟩

theorem Ready.prepared (h : Ready host s pre x) : Prepared host s pre x :=
  ⟨h.toFilesOf, h.totals, h.total_eq, h.framed, h.current, h.max_pos⟩

theorem TiledTo.current_file (h : TiledTo s pre x) :
    s.fileFds[s.currentFdIndex]? = some x.file := by
  rw [h.files, ← h.current, List.map_append, List.getElem?_append_right (by simp)]
  simp

theorem TiledTo.book {fr : Bytes} (h : TiledTo s pre x) (hne : fr ≠ [])
    (hlen : fr.length < 2 ^ 31) (sched : List PwriteResult) :
    (s.book ⟨fr.length, x.file.appendFrame fr, sched⟩).value = fr.length ∧
      (s.book ⟨fr.length, x.file.appendFrame fr, sched⟩).conn.currentFdIndex = s.currentFdIndex ∧
      Tiled (s.book ⟨fr.length, x.file.appendFrame fr, sched⟩).conn
        (s.booked pre x fr) := by
  have hpos : 0 < fr.length := List.length_pos_iff.mpr hne
  have hval : i32 (fr.length : Int) = fr.length := i32_of_lt (by omega) (by omega)
  have hbook := book_of_pos (s := s) (w := ⟨fr.length, x.file.appendFrame fr, sched⟩)
    (by rw [hval]; omega)
  rw [hbook]
  simp only [hval, Int.toNat_natCast, true_and]
  have htotal : s.totalBytesWriten = (logBytes pre).length + x.bytes.length := by
    rw [h.total_eq, logBytes_append, List.length_append]
    simp
  refine ⟨h.toFilesOf.extend rfl rfl ?_, ?_, ?_, ?_, h.max_pos⟩
  · show (s.showing (x.file.appendFrame fr).content).set s.currentFdIndex _ = _
    have hshown : s.showing (x.file.appendFrame fr).content
        = (s.seen (x.file.appendFrame fr).content (pre ++ [x])).map Segment.file := by
      rw [map_file_seen, ← h.files]
      rfl
    have hsplit : s.seen (x.file.appendFrame fr).content (pre ++ [x])
        = s.seen (x.file.appendFrame fr).content pre
          ++ s.seen (x.file.appendFrame fr).content [x] := by
      rw [ConnectionFile.seen, ConnectionFile.seen, ConnectionFile.seen]
      split
      · exact List.map_append
      · rfl
    rw [hshown, hsplit, ← h.current, List.map_append, booked, List.map_append,
      List.set_append_right _ _ (by simp)]
    rw [List.length_map, length_seen, Nat.sub_self]
    rw [ConnectionFile.seen, ConnectionFile.seen]
    split
    · rfl
    · rfl
  · refine totals_append.mpr ⟨totals_seen.mpr h.totals, ?_, trivial⟩
    show s.totalBytesWriten + fr.length = _
    rw [Segment.bytes_extend, List.length_append, htotal, logBytes_seen]
    omega
  · show s.totalBytesWriten + fr.length = _
    rw [h.total_eq, logBytes_booked, List.length_append]
  · refine Or.inr ?_
    rw [length_booked, h.current]

theorem Prepared.book {fr : Bytes} (h : Prepared host s pre x) (hfr : WellFramed host fr)
    (hlen : fr.length < 2 ^ 31) (sched : List PwriteResult) :
    (s.book ⟨fr.length, x.file.appendFrame fr, sched⟩).value = fr.length ∧
      (s.book ⟨fr.length, x.file.appendFrame fr, sched⟩).conn.currentFdIndex = s.currentFdIndex ∧
      LogFiles host (s.book ⟨fr.length, x.file.appendFrame fr, sched⟩).conn
        (s.booked pre x fr) := by
  obtain ⟨hvalue, hidx, htiled⟩ := h.tiledTo.book hfr.ne_nil hlen sched
  refine ⟨hvalue, hidx, htiled.logFiles ?_⟩
  intro fr' hmem
  rw [logFrames_booked, List.mem_append, List.mem_singleton] at hmem
  rcases hmem with hold | rfl
  · exact h.framed fr' hold
  · exact hfr

theorem Ready.book {fr : Bytes} (h : Ready host s pre x) (hfr : WellFramed host fr)
    (hmax : fr.length ≤ s.maxFileSize) (hlen : fr.length < 2 ^ 31) (sched : List PwriteResult) :
    LogInvariant host (s.book ⟨fr.length, x.file.appendFrame fr, sched⟩).conn
      (s.booked pre x fr) := by
  obtain ⟨-, hidx, hlog⟩ := h.prepared.book hfr hlen sched
  have hsame : (s.book ⟨fr.length, x.file.appendFrame fr, sched⟩).conn.maxFileSize
      = s.maxFileSize := book_maxFileSize
  have htotal : (s.book ⟨fr.length, x.file.appendFrame fr, sched⟩).conn.totalBytesWriten
      = s.totalBytesWriten + fr.length := by
    rw [hlog.total_eq, h.total_eq, logBytes_booked, List.length_append]
  refine ⟨hlog.toFilesOf, hlog.totals, hlog.total_eq, hlog.framed, hlog.current, ?_, hlog.max_pos, ?_⟩
  · rw [hidx]
    exact h.current_lt
  · rw [htotal, hsame, hidx]
    rcases h.quota with hle | hlast
    · left
      have hdiv : (s.totalBytesWriten + fr.length) / s.maxFileSize
          ≤ (s.totalBytesWriten + s.maxFileSize) / s.maxFileSize :=
        Nat.div_le_div_right (by omega)
      rw [Nat.add_div_right _ h.max_pos] at hdiv
      exact Nat.le_trans hdiv (Nat.succ_le_succ hle)
    · exact Or.inr hlast

theorem Prepared.write (h : Prepared host s' pre x) (overload : Overload) {msg content : Bytes}
    {includeOffset : Bool} {sched : List PwriteResult}
    (hset : s.setCurrentFile (some content) = some (true, s')) (hne : msg ≠ [])
    (hlen : frameLength msg includeOffset < 2 ^ 31) (hno : PwriteResult.error ∉ sched) :
    ∃ fr rest, fr = frame host msg includeOffset (s.appendPosition (some content)) ∧
      WellFramed host fr ∧ fr.length < 2 ^ 31 ∧
      s.write host overload msg includeOffset (some content) sched
        = some (s'.book ⟨fr.length, x.file.appendFrame fr, rest⟩) := by
  have hpos : 0 < msg.length := List.length_pos_iff.mpr hne
  have hlen' : 4 + msg.length + trailerLength includeOffset < 2 ^ 31 := hlen
  have hn : u32 msg.length = msg.length := u32_of_lt (by omega)
  obtain ⟨rest, hrest⟩ := completesAll_of_no_error (pieces msg.length includeOffset) hno
  have hok := FileDetails.writeMsgWith_ok x.file host hpos (Nat.le_refl _) (by omega) hrest
  rw [List.take_length] at hok
  have hvalue : (4 + (msg.length : Int) + trailerLength includeOffset)
      = (frame host msg includeOffset x.file.offset).length := by
    rw [length_frame, frameLength]
    push_cast
    rfl
  refine ⟨frame host msg includeOffset x.file.offset, rest, ?_, ?_, ?_, ?_⟩
  · rw [appendPosition_of_set hset h.tiledTo.current_file]
  · exact wellFramed_frame hne (by omega)
  · rw [length_frame]
    exact hlen
  · rw [write_of_set hset, h.tiledTo.current_file, Option.map_some, hn, hok, hvalue]

end Write

end ConnectionFile

/-! ## Appending -/

section Append

open ConnectionFile

variable {host : ByteOrder} {s : ConnectionFile} {segs pre : List Segment} {x : Segment}

theorem Tiled.last_total (h : Tiled s (pre ++ [x])) :
    x.file.bytesWrittenAcrossAllFiles = s.totalBytesWriten := by
  obtain ⟨-, hlast, -⟩ := totals_append.mp h.totals
  rw [hlast, h.total_eq, logBytes_append, List.length_append]
  simp

theorem Tiled.last_current (h : Tiled s (pre ++ [x])) :
    pre.length = s.currentFdIndex ∧ s.fileFds[s.currentFdIndex]? = some x.file := by
  have hpre : pre.length = s.currentFdIndex := by
    rcases h.current with ⟨hnil, -⟩ | hlen
    · exact absurd hnil (by simp)
    · simpa using hlen
  refine ⟨hpre, ?_⟩
  rw [h.files, ← hpre, List.map_append, List.getElem?_append_right (by simp)]
  simp

theorem Tiled.modify_last (h : Tiled s (pre ++ [x])) :
    s.fileFds.modify s.currentFdIndex
      (fun f => { f with bytesWrittenAcrossAllFiles := s.totalBytesWriten }) = s.fileFds := by
  have hcur := h.last_current.2
  have hsame : { x.file with bytesWrittenAcrossAllFiles := s.totalBytesWriten } = x.file := by
    rw [← h.last_total]
  obtain ⟨hlt, hget⟩ := List.getElem?_eq_some_iff.mp hcur
  rw [List.modify_eq_set_getElem?, hcur]
  show s.fileFds.set s.currentFdIndex
    { x.file with bytesWrittenAcrossAllFiles := s.totalBytesWriten } = s.fileFds
  rw [hsame, ← hget]
  exact List.set_getElem_self hlt

theorem Tiled.fresh {s' : ConnectionFile} (h : Tiled s segs) (index : Nat)
    (content : Bytes) (hdirectory : s'.directory = s.directory) (htopic : s'.topic = s.topic)
    (hfiles : s'.fileFds = s.fileFds ++ s.created index (s.found (some content)))
    (htotal : s'.totalBytesWriten = s.totalBytesWriten) (hmax : s'.maxFileSize = s.maxFileSize)
    (hidx : segs.length = s'.currentFdIndex) :
    ∃ x : Segment, x.frames = [] ∧ x.file.bytesWrittenAcrossAllFiles = 0 ∧
      TiledTo s' segs x := by
  obtain ⟨content', hfound⟩ := s.found_some content
  let info : FileDetails := ⟨content', 0, FileDetails.newfile s.directory s.topic index, 0, 0⟩
  refine ⟨Segment.fresh info rfl, rfl, rfl,
    h.toFilesOf.create hdirectory htopic ?_ rfl hfound, h.totals, ?_, hidx, ?_⟩
  · rw [hfiles, hfound]
    rfl
  · rw [htotal, h.total_eq, logBytes_append]
    simp [Segment.fresh, Segment.bytes]
  · rw [hmax]
    exact h.max_pos

theorem Tiled.target (h : Tiled s segs) (content : Bytes)
    (hnext : s.fdToUse ≤ s.currentFdIndex + 1) :
    ∃ s', s.setCurrentFile (some content) = some (true, s') ∧ s'.maxFileSize = s.maxFileSize ∧
      ((∃ pre x, segs = pre ++ [x] ∧ s' = s ∧ s.fdToUse ≤ s.currentFdIndex ∧ TiledTo s pre x) ∨
        (s'.currentFdIndex = s.fdToUse ∧ (segs = [] ∨ s.currentFdIndex < s.fdToUse) ∧
          ∃ x : Segment, x.frames = [] ∧ x.file.bytesWrittenAcrossAllFiles = 0 ∧
            TiledTo s' segs x)) := by
  rcases List.eq_nil_or_concat' segs with rfl | ⟨pre, x, rfl⟩
  · -- the first file is created
    have hidx : s.currentFdIndex = 0 := by
      rcases h.current with ⟨-, hidx⟩ | hlen
      · exact hidx
      · exact absurd hlen (by simp)
    have htotal : s.totalBytesWriten = 0 := h.total_eq
    have huse : s.currentFdIndex = s.fdToUse := by
      rw [hidx, fdToUse, htotal, Nat.zero_div]
      rfl
    refine ⟨_, setCurrentFile_of_no_file h.files, rfl,
      Or.inr ⟨huse, Or.inl rfl, h.fresh s.currentFdIndex content rfl rfl ?_ rfl rfl hidx.symm⟩⟩
    rw [found, h.files]
    rfl
  · obtain ⟨hpre, hcur⟩ := h.last_current
    have hset := setCurrentFile_of_current (some content)
      (Nat.pos_iff_ne_zero.mp h.max_pos) hcur
    rcases Nat.lt_or_ge s.currentFdIndex s.fdToUse with hrot | hstay
    · -- the next one is created behind the last
      have hidx : (s.rotated (some content)).currentFdIndex = s.fdToUse := by
        rw [rotated_of_lt hrot]
      refine ⟨_, hset, rotated_maxFileSize,
        Or.inr ⟨hidx, Or.inr hrot,
          h.fresh s.fdToUse content ?_ ?_ ?_ rotated_totalBytesWriten rotated_maxFileSize ?_⟩⟩
      · rw [rotated_of_lt hrot]
      · rw [rotated_of_lt hrot]
      · rw [rotated_of_lt hrot, h.modify_last]
      · rw [hidx, List.length_append, List.length_singleton, hpre]
        omega
    · rw [rotated_of_le hstay] at hset
      exact ⟨s, hset, rfl, Or.inl ⟨pre, x, rfl, rfl, hstay, h.toFilesOf, (totals_append.mp h.totals).1,
        h.total_eq, hpre, h.max_pos⟩⟩

theorem LogFiles.prepared (h : LogFiles host s segs) (content : Bytes)
    (hnext : s.fdToUse ≤ s.currentFdIndex + 1) :
    ∃ s', s.setCurrentFile (some content) = some (true, s') ∧ s'.maxFileSize = s.maxFileSize ∧
      ((∃ pre x, segs = pre ++ [x] ∧ s' = s ∧ s.fdToUse ≤ s.currentFdIndex ∧
          Prepared host s pre x) ∨
        (s'.currentFdIndex = s.fdToUse ∧ (segs = [] ∨ s.currentFdIndex < s.fdToUse) ∧
          ∃ x : Segment, x.frames = [] ∧ x.file.bytesWrittenAcrossAllFiles = 0 ∧
            Prepared host s' segs x)) := by
  obtain ⟨s', hset, hmax, ⟨pre, x, rfl, hs', hstay, hlast⟩ | ⟨hidx, hrot, x, hx, hzero, hnew⟩⟩ :=
    h.tiled.target content hnext
  · exact ⟨s', hset, hmax, Or.inl ⟨pre, x, rfl, hs', hstay, hlast.prepared h.framed⟩⟩
  · refine ⟨s', hset, hmax, Or.inr ⟨hidx, hrot, x, hx, hzero, hnew.prepared ?_⟩⟩
    intro fr hfr
    rw [logFrames_append] at hfr
    exact h.framed fr (by simpa [hx] using hfr)

theorem LogFiles.write_skipped (h : LogFiles host s segs) (overload : Overload) {msg : Bytes}
    {includeOffset : Bool} (content : Bytes) {sched : List PwriteResult}
    (hskip : s.currentFdIndex + 1 < s.fdToUse) :
    s.write host overload msg includeOffset (some content) sched = none := by
  rcases List.eq_nil_or_concat' segs with rfl | ⟨pre, x, rfl⟩
  · have htotal : s.totalBytesWriten = 0 := h.total_eq
    have huse : s.fdToUse = 0 := by
      rw [fdToUse, htotal, Nat.zero_div]
      rfl
    omega
  · obtain ⟨hpre, hcur⟩ := h.tiled.last_current
    have hrot : s.currentFdIndex < s.fdToUse := by omega
    have hlen : (s.rotated (some content)).fileFds.length = s.currentFdIndex + 2 := by
      obtain ⟨content', hfound⟩ := s.found_some content
      rw [rotated_of_lt hrot, h.tiled.modify_last, hfound]
      simp only [List.length_append, h.files, List.length_map, List.length_singleton, hpre]
      rfl
    have hidx : (s.rotated (some content)).currentFdIndex = s.fdToUse := by rw [rotated_of_lt hrot]
    rw [write_of_current (Nat.pos_iff_ne_zero.mp h.max_pos) hcur, target,
      List.getElem?_eq_none (by omega)]
    rfl

theorem LogFiles.write_target (h : LogFiles host s segs) (overload : Overload) {msg : Bytes}
    {includeOffset : Bool} {content : Bytes} {sched : List PwriteResult} {a : Appended}
    (hwrite : s.write host overload msg includeOffset (some content) sched = some a) :
    ∃ s' pre x, s.setCurrentFile (some content) = some (true, s') ∧ Prepared host s' pre x ∧
      (segs = pre ++ [x] ∨ (segs = pre ∧ x.frames = [])) := by
  have hnext : s.fdToUse ≤ s.currentFdIndex + 1 := by
    by_contra hskip
    rw [h.write_skipped overload content (Nat.not_le.mp hskip)] at hwrite
    cases hwrite
  obtain ⟨s', hset, -, ⟨pre, x, rfl, rfl, -, hprep⟩ | ⟨-, -, x, hx, -, hprep⟩⟩ :=
    h.prepared content hnext
  · exact ⟨s', pre, x, hset, hprep, Or.inl rfl⟩
  · exact ⟨s', segs, x, hset, hprep, Or.inr ⟨rfl, hx⟩⟩

theorem ConnectionFile.Prepared.append {s' : ConnectionFile} (hprep : Prepared host s' pre x)
    (overload : Overload) {msg content : Bytes} {includeOffset : Bool}
    {sched : List PwriteResult} {a : Appended}
    (hset : s.setCurrentFile (some content) = some (true, s')) (hne : msg ≠ [])
    (hlen : frameLength msg includeOffset < 2 ^ 31) (hno : PwriteResult.error ∉ sched)
    (hwrite : s.write host overload msg includeOffset (some content) sched = some a) :
    ∃ fr, fr = frame host msg includeOffset (s.appendPosition (some content)) ∧ fr ≠ [] ∧
      a.value = fr.length ∧
      LogFiles host a.conn (s'.booked pre x fr) := by
  obtain ⟨fr, rest, hfr, hwell, hshort, hbooked⟩ := hprep.write overload hset hne hlen hno
  obtain ⟨hval, -, hlog⟩ := hprep.book hwell hshort rest
  obtain rfl := Option.some.inj (hbooked.symm.trans hwrite)
  exact ⟨fr, hfr, hwell.ne_nil, hval, hlog⟩

theorem LogFiles.write (h : LogFiles host s segs) (overload : Overload) {msg : Bytes}
    {includeOffset : Bool} (content : Bytes) {sched : List PwriteResult} {a : Appended}
    (hne : msg ≠ []) (hlen : frameLength msg includeOffset < 2 ^ 31)
    (hno : PwriteResult.error ∉ sched)
    (hwrite : s.write host overload msg includeOffset (some content) sched = some a) :
    ∃ segs', LogFiles host a.conn segs' ∧ a.value = frameLength msg includeOffset ∧
      logFrames segs' = logFrames segs
        ++ [frame host msg includeOffset (s.appendPosition (some content))] := by
  obtain ⟨s', pre, x, hset, hprep, hsegs⟩ := h.write_target overload hwrite
  obtain ⟨fr, hfr, -, hval, hlog⟩ :=
    hprep.append overload hset hne hlen hno hwrite
  have hframes : logFrames (pre ++ [x]) = logFrames segs := by
    rcases hsegs with rfl | ⟨rfl, hx⟩
    · rfl
    · simp [hx]
  refine ⟨_, hlog, ?_, ?_⟩
  · rw [hval, hfr, length_frame]
  · rw [← hfr, ← hframes, logFrames_booked]

theorem LogInvariant.next_index (h : LogInvariant host s segs) :
    s.fdToUse ≤ s.currentFdIndex + 1 :=
  fdToUse_le (h.quota.imp_right fun hlast => by omega)

theorem LogInvariant.ready (h : LogInvariant host s segs) (content : Bytes) :
    ∃ s', s.setCurrentFile (some content) = some (true, s') ∧ s'.maxFileSize = s.maxFileSize ∧
      ((∃ pre x, segs = pre ++ [x] ∧ s' = s ∧ Ready host s pre x) ∨
        ∃ x : Segment, x.frames = [] ∧ x.file.bytesWrittenAcrossAllFiles = 0 ∧
          Ready host s' segs x) := by
  obtain ⟨s', hset, hmax, ⟨pre, x, rfl, rfl, hstay, hprep⟩ | ⟨hidx, hrot, x, hx, hzero, hprep⟩⟩ :=
    h.logFiles.prepared content h.next_index
  · refine ⟨s', hset, rfl, Or.inl ⟨pre, x, rfl, rfl, hprep.toFilesOf, hprep.totals, hprep.total_eq,
      hprep.framed, hprep.current, h.current_lt, hprep.max_pos, ?_⟩⟩
    rcases Nat.lt_or_ge (s'.totalBytesWriten / s'.maxFileSize) (2 ^ 32) with hlt | hge
    · left
      rwa [fdToUse, u32_of_lt hlt] at hstay
    · have hcur := h.current_lt
      rcases h.quota with hq | hq
      · right; omega
      · exact Or.inr hq
  · refine ⟨s', hset, hmax, Or.inr ⟨x, hx, hzero, hprep.toFilesOf, hprep.totals, hprep.total_eq,
      hprep.framed, hprep.current, by rw [hidx]; exact u32_lt _, hprep.max_pos, Or.inl ?_⟩⟩
    have hsize : s'.totalBytesWriten = s.totalBytesWriten := by
      rw [hprep.total_eq, h.total_eq, logBytes_append]
      simp [Segment.bytes, hx]
    rw [hsize, hmax, hidx]
    rcases hrot with rfl | hrot
    · rw [h.total_eq]
      simp
    · have hnext := h.next_index
      have hlt : s.fdToUse < 2 ^ 32 := u32_lt _
      rcases h.quota with hq | hq
      · omega
      · omega

theorem ConnectionFile.Ready.write {s' : ConnectionFile} (h : Ready host s' pre x)
    (overload : Overload) {msg content : Bytes} {includeOffset : Bool} {sched : List PwriteResult}
    (hset : s.setCurrentFile (some content) = some (true, s')) (hne : msg ≠ [])
    (hlen : frameLength msg includeOffset < 2 ^ 31)
    (hmax : frameLength msg includeOffset ≤ s'.maxFileSize) (hno : PwriteResult.error ∉ sched) :
    ∃ a segs', s.write host overload msg includeOffset (some content) sched = some a ∧
      a.value = frameLength msg includeOffset ∧ LogInvariant host a.conn segs' ∧
      logFrames segs' = logFrames (pre ++ [x])
        ++ [frame host msg includeOffset (s.appendPosition (some content))] ∧
      a.conn.maxFileSize = s'.maxFileSize := by
  obtain ⟨fr, rest, hfr, hwell, hshort, hbooked⟩ := h.prepared.write overload hset hne hlen hno
  obtain ⟨hval, -, -⟩ := h.prepared.book hwell hshort rest
  have hlog := h.book hwell (by rw [hfr, length_frame]; exact hmax) hshort rest
  refine ⟨_, _, hbooked, ?_, hlog, ?_, book_maxFileSize⟩
  · rw [hval, hfr, length_frame]
  · rw [← hfr, logFrames_booked]

/-- An append whose writes all get through keeps the invariant and adds its
frame to the log. -/
theorem LogInvariant.write (h : LogInvariant host s segs) (overload : Overload) {msg : Bytes}
    {includeOffset : Bool} (content : Bytes) {sched : List PwriteResult} (hne : msg ≠ [])
    (hlen : frameLength msg includeOffset < 2 ^ 31)
    (hmax : frameLength msg includeOffset ≤ s.maxFileSize)
    (hno : PwriteResult.error ∉ sched) :
    ∃ a segs', s.write host overload msg includeOffset (some content) sched = some a ∧
      a.value = frameLength msg includeOffset ∧ LogInvariant host a.conn segs' ∧
      logFrames segs' = logFrames segs
        ++ [frame host msg includeOffset (s.appendPosition (some content))] ∧
      a.conn.maxFileSize = s.maxFileSize := by
  obtain ⟨s', hset, hsame, ⟨pre, x, rfl, rfl, hready⟩ | ⟨x, hx, -, hready⟩⟩ := h.ready content
  · exact hready.write overload hset hne hlen hmax hno
  · have hframes : logFrames (segs ++ [x]) = logFrames segs := by simp [hx]
    rw [← hframes, ← hsame]
    exact hready.write overload hset hne hlen (by rw [hsame]; exact hmax) hno

end Append

/-! ## Reading -/

section Read

open ConnectionFile

variable {host : ByteOrder} {s : ConnectionFile} {segs : List Segment}

theorem Segment.frame_at {x : Segment} {k : Nat} {fr : Bytes} (hx : x.Intact)
    (hle : x.file.offset ≤ x.file.content.length) (hfr : WellFramed host fr)
    (hat : frameAt x.frames k = some fr) :
    ∃ n, 0 < n ∧ fr.length = 4 + n ∧ x.file.headerAt host k false = n ∧
      k + 4 + n ≤ x.file.content.length ∧ (x.file.content.drop k).take fr.length = fr := by
  obtain ⟨pre, post, hframes, hk⟩ := exists_of_frameAt hat
  obtain ⟨n, hpos, hlen, hhead⟩ := hfr
  have hbytes : x.bytes = pre.flatten ++ (fr ++ post.flatten) := by
    rw [Segment.bytes, hframes]
    simp
  have hend : k + fr.length ≤ x.bytes.length := by
    rw [hbytes]
    simp only [List.length_append, hk]
    omega
  have hslice : (x.file.content.drop k).take fr.length = fr := by
    rw [hx.drop_content hend, hbytes, List.drop_left' hk, List.take_left' rfl]
  have hfour : (x.file.content.drop k).take 4 = fr.take 4 := by
    rw [← hslice, List.take_take, Nat.min_eq_left (by omega)]
  refine ⟨n, hpos, hlen, ?_, ?_, hslice⟩
  · rw [FileDetails.headerAt_eq, hfour]
    exact hhead
  · rw [x.offset_eq] at hle
    omega

theorem Segment.read_frame {x : Segment} {k : Nat} {fr : Bytes} (buffer : Bytes)
    {sizeOfBuffer : Nat} (hx : x.Intact) (hle : x.file.offset ≤ x.file.content.length)
    (hfr : WellFramed host fr) (hat : frameAt x.frames k = some fr)
    (hfit : fr.length ≤ 4 + sizeOfBuffer) :
    (x.file.readMsg host buffer sizeOfBuffer k false []).value = fr.length ∧
      (x.file.readMsg host buffer sizeOfBuffer k false []).buffer.take fr.length = fr := by
  obtain ⟨n, hpos, hlen, hheader, hin, hslice⟩ := x.frame_at hx hle hfr hat
  obtain ⟨hvalue, -, htake⟩ := FileDetails.readMsg_ok buffer hheader hpos
    (by omega : n ≤ sizeOfBuffer) hin
  rw [hlen]
  refine ⟨hvalue, ?_⟩
  rw [htake, ← hlen, hslice]

theorem Segment.read_oversize {x : Segment} {k : Nat} {fr : Bytes} (buffer : Bytes)
    {sizeOfBuffer : Nat} (hx : x.Intact) (hle : x.file.offset ≤ x.file.content.length)
    (hfr : WellFramed host fr) (hat : frameAt x.frames k = some fr)
    (hbig : 4 + sizeOfBuffer < fr.length) :
    (x.file.readMsg host buffer sizeOfBuffer k false []).value = fr.length - 4 := by
  obtain ⟨n, hpos, hlen, hheader, hin, -⟩ := x.frame_at hx hle hfr hat
  rw [FileDetails.readMsg_oversize buffer hheader hpos (by omega) (by omega), hlen]
  push_cast
  omega

theorem offsetInFile_of_le {base o : Nat} {prev : Option Nat} (hprev : prev.getD 0 = base)
    (hbase : base ≤ o) : offsetInFile prev o = o - base := by
  cases prev with
  | none =>
      obtain rfl : base = 0 := hprev.symm
      rfl
  | some p =>
      obtain rfl : base = p := hprev.symm
      exact subU64_of_le hbase

theorem readFrom_segment {base o : Nat} {fr : Bytes} (host : ByteOrder) (prev : Option Nat)
    (htotals : Totals base segs) (hne : Nonempties (logFrames segs))
    (hprev : prev.getD 0 = base) (hbase : base ≤ o)
    (hat : frameAt (logFrames segs) (o - base) = some fr) :
    ∃ x ∈ segs, ∃ k, frameAt (Segment.frames x) k = some fr ∧ ∀ buffer sizeOfBuffer,
      0 < (x.file.readMsg host buffer sizeOfBuffer k false []).value →
      readFrom host o false sizeOfBuffer (segs.map Segment.file) prev o buffer []
        = x.file.readMsg host buffer sizeOfBuffer k false [] := by
  induction segs generalizing base prev with
  | nil => exact absurd hat (by simp [frameAt])
  | cons x xs ih =>
      obtain ⟨hx, hxs⟩ := htotals
      rw [logFrames_cons] at hat hne
      have hne_x : Nonempties x.frames := fun f hf => hne f (List.mem_append_left _ hf)
      have hne_xs : Nonempties (logFrames xs) := fun f hf => hne f (List.mem_append_right _ hf)
      rcases Nat.lt_or_ge o (base + x.bytes.length) with hin | hpast
      · -- the offset lies in this file
        rw [frameAt_append_of_lt (show o - base < x.frames.flatten.length by
          rw [← Segment.bytes]; omega)] at hat
        refine ⟨x, List.mem_cons_self, o - base, hat, ?_⟩
        intro buffer sizeOfBuffer hpos
        rw [List.map_cons, readFrom, if_neg (by rw [hx]; omega)]
        simp only [offsetInFile_of_le hprev hbase]
        exact if_pos hpos
      · have hrest := frameAt_append_of_le (logFrames xs) hne_x
          (show x.frames.flatten.length ≤ o - base by rw [← Segment.bytes]; omega)
        rw [hrest, ← Segment.bytes, Nat.sub_sub] at hat
        obtain ⟨y, hy, k, hat', hread⟩ :=
          ih (some x.file.bytesWrittenAcrossAllFiles) hxs hne_xs hx hpast hat
        refine ⟨y, List.mem_cons_of_mem _ hy, k, hat', ?_⟩
        intro buffer sizeOfBuffer hpos
        rw [List.map_cons, readFrom, if_pos (by rw [hx]; exact hpast)]
        exact hread buffer sizeOfBuffer hpos

theorem readFrom_end {base o : Nat} {prev : Option Nat} {buffer : Bytes} {sizeOfBuffer : Nat}
    {sched : List PreadResult} (htotals : Totals base segs)
    (ho : base + (logBytes segs).length ≤ o) :
    (readFrom host o false sizeOfBuffer (segs.map Segment.file) prev o buffer sched).value = -1 := by
  induction segs generalizing base prev with
  | nil => rfl
  | cons x xs ih =>
      obtain ⟨hx, hxs⟩ := htotals
      rw [logBytes_cons, List.length_append] at ho
      rw [List.map_cons, readFrom, if_pos (by rw [hx]; omega)]
      exact ih hxs (by omega)

theorem LogFiles.read_segment (h : LogFiles host s segs) {o : Nat} {fr : Bytes}
    (hat : frameAt (logFrames segs) o = some fr) :
    WellFramed host fr ∧ ∃ x ∈ segs, ∃ k, frameAt (Segment.frames x) k = some fr ∧
      ∀ buffer sizeOfBuffer,
      0 < (x.file.readMsg host buffer sizeOfBuffer k false []).value →
      s.read host buffer sizeOfBuffer o false []
        = x.file.readMsg host buffer sizeOfBuffer k false [] := by
  obtain ⟨pre, post, hframes, -⟩ := exists_of_frameAt hat
  have hne : s.fileFds.length ≠ 0 := by
    rintro hlen
    rw [h.files, List.length_map, List.length_eq_zero_iff] at hlen
    subst hlen
    exact absurd hat (by simp [frameAt])
  obtain ⟨x, hx, k, hat', hread⟩ := readFrom_segment host none h.totals h.nonempties
    rfl (Nat.zero_le o) hat
  refine ⟨h.framed fr (by rw [hframes]; simp), x, hx, k, hat', ?_⟩
  intro buffer sizeOfBuffer hpos
  rw [ConnectionFile.read, if_neg hne, h.files]
  exact hread buffer sizeOfBuffer hpos

/-- It returns the frame, if that fits. -/
theorem LogFiles.read_frame (h : LogFiles host s segs) (hdistinct : s.Distinct) {o : Nat}
    {fr : Bytes} (buffer : Bytes) {sizeOfBuffer : Nat} (hat : frameAt (logFrames segs) o = some fr)
    (hfit : fr.length ≤ 4 + sizeOfBuffer) :
    (s.read host buffer sizeOfBuffer o false []).value = fr.length ∧
      (s.read host buffer sizeOfBuffer o false []).buffer.take fr.length = fr := by
  obtain ⟨hfr, x, hx, k, hat', hread⟩ := h.read_segment hat
  obtain ⟨hvalue, htake⟩ := Segment.read_frame buffer (h.intact hdistinct x hx) (h.inside x hx)
    hfr hat' hfit
  have hpos : 0 < fr.length := List.length_pos_iff.mpr hfr.ne_nil
  rw [hread buffer sizeOfBuffer (by rw [hvalue]; omega)]
  exact ⟨hvalue, htake⟩

/-- Of a frame that does not fit it returns the header: four less than what
the frame takes. -/
theorem LogFiles.read_oversize (h : LogFiles host s segs) (hdistinct : s.Distinct) {o : Nat}
    {fr : Bytes} (buffer : Bytes) {sizeOfBuffer : Nat} (hat : frameAt (logFrames segs) o = some fr)
    (hbig : 4 + sizeOfBuffer < fr.length) :
    (s.read host buffer sizeOfBuffer o false []).value = fr.length - 4 := by
  obtain ⟨hfr, x, hx, k, hat', hread⟩ := h.read_segment hat
  have hvalue := Segment.read_oversize buffer (h.intact hdistinct x hx) (h.inside x hx) hfr hat' hbig
  rw [hread buffer sizeOfBuffer (by rw [hvalue]; omega), hvalue]

/-- A read at the end of the log returns nothing. -/
theorem LogFiles.read_end (h : LogFiles host s segs) {o : Nat} (buffer : Bytes)
    (sizeOfBuffer : Nat) (sched : List PreadResult) (ho : s.totalBytesWriten ≤ o) :
    (s.read host buffer sizeOfBuffer o false sched).value ≤ 0 := by
  rw [ConnectionFile.read]
  split
  · exact Int.le_refl 0
  · rw [h.files, readFrom_end h.totals (by rw [Nat.zero_add, ← h.total_eq]; exact ho)]
    decide

end Read

end LightQ
