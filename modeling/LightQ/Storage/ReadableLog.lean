/-
# `Storage.ReadableLog` — the log as another thread finds it

`send_file` compares an offset with one running total after the other and then
looks at `offset_` of one file, while `write_to_file` goes on between any two of
these.  The files are the cells of a `PublishedLog`: what a file has in front of
`offset_`, and its running total.

`BeingWritten` is the log at any moment of any number of appends.  It is
`Readable` throughout (`BeingWritten.readable`), between two appends
(`OpenLog.readable`) and in the middle of one (`Appending.readable`), and every
step of the writer is a `Grows` of the cells (`BeingWritten.enter` for the start
of an append, `BeingWritten.step` for the others).

Booked segments are cells with exact totals (`totals_exact`), so that the files
are such cells and a last one that is being written (`readable_snoc`).  Bytes
that have been written but not yet counted are not part of a cell
(`FileDetails.cell_pwriteAt`); a counted piece is an addition to the last one
(`Segment.Intact.cell_pwrite`).

A file that is created goes behind the others as an empty cell.  If a zero byte
in the name makes all files one there is no second cell to speak of, and the
lemmas are about logs of different files: a file among several of these is the
last (`ConnectionFile.Ready.only_file`), and the one that is written is one of
those there were (`Appending.distinct`).
-/
import LightQ.Lib.PublishedLog
import LightQ.Storage.AppendSteps

namespace LightQ

open MachineInt Overlay PublishedLog ConnectionFile

/-- What the file has of the log, and the total that goes with it. -/
def FileDetails.cell (f : FileDetails) : Cell UInt8 :=
  ⟨f.content.take f.offset, f.bytesWrittenAcrossAllFiles⟩

namespace ConnectionFile

/-- The files as cells of a log. -/
def cells (s : ConnectionFile) : List (Cell UInt8) := s.fileFds.map FileDetails.cell

theorem log_eq_items (s : ConnectionFile) : s.log = items s.cells := by
  rw [log, items, cells, List.map_map]
  rfl

@[simp] theorem length_cells (s : ConnectionFile) : s.cells.length = s.fileFds.length :=
  List.length_map _

theorem cells_get {s : ConnectionFile} {i : Nat} {f : FileDetails} (h : s.fileFds[i]? = some f) :
    s.cells[i]? = some f.cell := by
  rw [cells, List.getElem?_map, h, Option.map_some]

/-- What a thread that reads the files relies on: the totals, and that no
`offset_` is behind the end of its file.  `pending` is what the append that is
being made will still add to them. -/
structure Readable (s : ConnectionFile) (pending stream : Bytes) : Prop where
  ledger : Ledger s.cells
  items_eq : items s.cells ++ pending = stream
  inside : ∀ f ∈ s.fileFds, f.offset ≤ f.content.length

end ConnectionFile

/-- The log at any moment: appends have put `frames` into it, the last of them
perhaps not completely. -/
inductive BeingWritten (host : ByteOrder) (maxFileSize : Nat) (frames : List Bytes) :
    Writer → ConnectionFile → Prop where
  | settled {s : ConnectionFile} {segs : List Segment} (h : OpenLog host s segs)
      (hmax : s.maxFileSize = maxFileSize) (hframes : logFrames segs = frames) :
      BeingWritten host maxFileSize frames .idle s
  | appending {s t : ConnectionFile} {pre : List Segment} {x : Segment} {fr : Bytes} {w : Writer}
      (h : Ready host s pre x) (hmax : s.maxFileSize = maxFileSize)
      (hbooked : x.file.bytesWrittenAcrossAllFiles ≤ (logBytes (pre ++ [x])).length)
      (hframed : WellFramed host fr) (hlen : fr.length ≤ maxFileSize)
      (hat : Appending s x.file fr w t) (hframes : logFrames (pre ++ [x]) ++ [fr] = frames) :
      BeingWritten host maxFileSize frames w t

section Cells

variable {pre segs : List Segment} {x : Segment} {done : Bytes} {i : Nat}

theorem Segment.Intact.cell_file (h : x.Intact) :
    x.file.cell = ⟨x.bytes, x.file.bytesWrittenAcrossAllFiles⟩ := by
  rw [FileDetails.cell, h]

/-- The segments as cells. -/
def segmentCells (segs : List Segment) : List (Cell UInt8) :=
  segs.map fun x => x.file.cell

theorem items_segmentCells (h : ∀ x ∈ segs, x.Intact) :
    items (segmentCells segs) = logBytes segs := by
  rw [items, segmentCells, logBytes, List.map_map]
  congr 1
  refine List.map_congr_left fun x hx => ?_
  show x.file.cell.items = x.bytes
  rw [(h x hx).cell_file]

theorem totals_exact (h : Totals 0 segs) (hintact : ∀ x ∈ segs, x.Intact) {c : Cell UInt8}
    (hc : (segmentCells segs)[i]? = some c) : c.published = before (segmentCells segs) (i + 1) := by
  rw [segmentCells, List.getElem?_map] at hc
  obtain ⟨y, hy, rfl⟩ := Option.map_eq_some_iff.mp hc
  obtain ⟨hlt, hget⟩ := List.getElem?_eq_some_iff.mp hy
  have hsplit : segs = segs.take i ++ y :: segs.drop (i + 1) := by
    rw [← hget, ← List.drop_eq_getElem_cons hlt, List.take_append_drop]
  have hbefore : before (segmentCells segs) (i + 1) = (logBytes (segs.take (i + 1))).length := by
    have htake : ∀ x ∈ segs.take (i + 1), x.Intact := fun x hx => hintact x (List.mem_of_mem_take hx)
    rw [before, segmentCells, ← List.map_take, ← items_segmentCells htake]
    rfl
  rw [hsplit] at h
  obtain ⟨-, htotal, -⟩ := totals_append.mp h
  rw [hbefore, List.take_add_one, hy, Option.toList_some, logBytes_append, List.length_append]
  show y.file.bytesWrittenAcrossAllFiles = _
  rw [htotal, Nat.zero_add]
  simp

theorem Segment.Intact.cell_pwrite (h : x.Intact) (hle : x.file.offset ≤ x.file.content.length)
    (done : Bytes) :
    (x.file.pwrite done).cell = ⟨x.bytes ++ done, x.file.bytesWrittenAcrossAllFiles⟩ := by
  show (⟨(overlay 0 x.file.content x.file.offset done).take (x.file.offset + done.length), _⟩ :
    Cell UInt8) = _
  rw [take_overlay hle, h]
  rfl

theorem FileDetails.inside_pwrite {f : FileDetails} (h : f.offset ≤ f.content.length)
    (done : Bytes) : (f.pwrite done).offset ≤ (f.pwrite done).content.length := by
  cases done with
  | nil => exact h
  | cons b bs =>
      rw [FileDetails.pwrite_offset, FileDetails.pwrite_content,
        length_overlay (List.cons_ne_nil b bs)]
      exact Nat.le_max_right _ _

theorem FileDetails.cell_pwriteAt {f : FileDetails} (h : f.offset ≤ f.content.length)
    (chunk : Bytes) : (f.pwriteAt chunk).cell = f.cell := by
  show (⟨(overlay 0 f.content f.offset chunk).take f.offset, _⟩ : Cell UInt8) = _
  rw [take_overlay_of_le (Nat.le_refl _) h]
  rfl

theorem FileDetails.inside_pwriteAt {f : FileDetails} (h : f.offset ≤ f.content.length)
    (chunk : Bytes) : (f.pwriteAt chunk).offset ≤ (f.pwriteAt chunk).content.length := by
  cases chunk with
  | nil => exact h
  | cons b bs =>
      show f.offset ≤ (overlay 0 f.content f.offset (b :: bs)).length
      rw [length_overlay (List.cons_ne_nil b bs)]
      omega

end Cells

/-! ## Every moment -/

section Moments

variable {host : ByteOrder} {maxFileSize : Nat} {frames : List Bytes} {s t : ConnectionFile}
  {segs pre : List Segment} {x : Segment} {fr : Bytes} {w : Writer} {r : PwriteResult}

theorem ConnectionFile.Ready.current_eq (h : Ready host s pre x) : s.current = some x.file :=
  h.prepared.tiledTo.current_file

theorem ConnectionFile.Ready.only_file (h : Ready host s pre x) (hdistinct : s.Distinct)
    (hone : s.OneFile) : pre = [] := by
  have hlen := hdistinct hone
  rw [h.files, List.length_map, List.length_append, List.length_singleton] at hlen
  exact List.length_eq_zero_iff.mp (by omega)

theorem ConnectionFile.Ready.shared_current (h : Ready host s pre x) : s.Shared x.file := by
  intro hone g hg
  rw [h.files] at hg
  obtain ⟨y, hy, rfl⟩ := List.mem_map.mp hg
  exact h.shared hone y hy x (List.mem_append_right pre (List.mem_singleton_self x))

theorem ConnectionFile.Ready.setCurrent_fileFds (h : Ready host s pre x) (hdistinct : s.Distinct)
    (g : FileDetails) : (s.setCurrent g).fileFds = pre.map Segment.file ++ [g] := by
  have hset : (s.fileFds.set s.currentFdIndex g) = pre.map Segment.file ++ [g] := by
    rw [h.files, ← h.current, List.map_append, List.set_append_right _ _ (by simp)]
    simp
  show (s.showing g.content).set s.currentFdIndex g = _
  by_cases hone : s.OneFile
  · obtain rfl := h.only_file hdistinct hone
    rw [showing, if_pos hone, h.files, ← h.current]
    rfl
  · rw [showing, if_neg hone, hset]

theorem ConnectionFile.Ready.last_intact (h : Ready host s pre x) (hdistinct : s.Distinct) :
    x.Intact :=
  h.intact hdistinct x (List.mem_append_right pre (List.mem_singleton_self x))

theorem ConnectionFile.Ready.last_inside (h : Ready host s pre x) :
    x.file.offset ≤ x.file.content.length :=
  h.inside x (List.mem_append_right pre (List.mem_singleton_self x))

theorem readable_snoc {p : Nat} {bytes : Bytes} {g : FileDetails} (pending : Bytes)
    (htotals : Totals 0 pre) (hintact : ∀ y ∈ pre, y.Intact)
    (hpre : ∀ y ∈ pre, y.file.offset ≤ y.file.content.length)
    (hfiles : t.fileFds = pre.map Segment.file ++ [g]) (hg : g.cell = ⟨bytes, p⟩)
    (hp : p ≤ (logBytes pre).length + bytes.length) (hinside : g.offset ≤ g.content.length) :
    t.cells = segmentCells pre ++ [⟨bytes, p⟩] ∧
      Readable t pending (logBytes pre ++ (bytes ++ pending)) := by
  have hcells : t.cells = segmentCells pre ++ [⟨bytes, p⟩] := by
    rw [cells, hfiles, List.map_append, List.map_map, List.map_singleton, hg]
    rfl
  refine ⟨hcells, ?_, ?_, ?_⟩
  · rw [hcells]
    refine ledger_snoc (fun hc => totals_exact htotals hintact hc) ?_
    rw [items_segmentCells hintact]
    exact hp
  · rw [hcells, items, List.map_append, List.flatten_append]
    show items (segmentCells pre) ++ [bytes].flatten ++ pending = _
    rw [items_segmentCells hintact, List.flatten_singleton, List.append_assoc]
  · intro f hf
    rw [hfiles] at hf
    rcases List.mem_append.mp hf with hold | hlast
    · obtain ⟨y, hy, rfl⟩ := List.mem_map.mp hold
      exact hpre y hy
    · obtain rfl := List.mem_singleton.mp hlast
      exact hinside

theorem OpenLog.readable (h : OpenLog host s segs) (hdistinct : s.Distinct) :
    Readable s [] (logBytes segs) := by
  cases h with
  | appended h =>
      rcases List.eq_nil_or_concat segs with rfl | ⟨pre, x, hsegs⟩
      · have hnil : s.fileFds = [] := h.files
        have hcells : s.cells = [] := by rw [cells, hnil]; rfl
        refine ⟨?_, by rw [hcells]; rfl, fun f hf => absurd (hnil ▸ hf) List.not_mem_nil⟩
        rw [hcells]
        exact ⟨fun hc => absurd hc (by simp), fun hc => absurd hc (by simp)⟩
      · rw [List.concat_eq_append] at hsegs
        subst hsegs
        obtain ⟨hpre, hlast, -⟩ := totals_append.mp h.totals
        rw [Nat.zero_add] at hlast
        have hmem : ∀ y ∈ pre, y ∈ pre ++ [x] := fun y hy => List.mem_append_left [x] hy
        have hx : x ∈ pre ++ [x] := List.mem_append_right pre (List.mem_singleton_self x)
        have hread := (readable_snoc [] hpre (fun y hy => h.intact hdistinct y (hmem y hy))
          (fun y hy => h.inside y (hmem y hy)) (h.files.trans List.map_append)
          (h.intact hdistinct x hx).cell_file (Nat.le_of_eq hlast) (h.inside x hx)).2
        rw [logBytes_append, logBytes_cons, logBytes_nil]
        exact hread
  | created x hframes htotal h =>
      have hmem : ∀ y ∈ segs, y ∈ segs ++ [x] := fun y hy => List.mem_append_left [x] hy
      have hread := (readable_snoc [] h.totals (fun y hy => h.intact hdistinct y (hmem y hy))
        (fun y hy => h.inside y (hmem y hy)) (h.files.trans List.map_append)
        (h.last_intact hdistinct).cell_file (by rw [htotal]; exact Nat.zero_le _)
        h.last_inside).2
      rw [Segment.bytes, hframes, List.append_nil] at hread
      simpa using hread

theorem Appending.readable (hat : Appending s x.file fr w t) (h : Ready host s pre x)
    (hdistinct : s.Distinct)
    (hbooked : x.file.bytesWrittenAcrossAllFiles ≤ (logBytes (pre ++ [x])).length) :
    ∃ done, fr = done ++ w.pending ∧
      t.cells = segmentCells pre ++ [⟨x.bytes ++ done, x.file.bytesWrittenAcrossAllFiles⟩] ∧
      Readable t w.pending (logBytes (pre ++ [x]) ++ fr) := by
  have hbytes : (logBytes (pre ++ [x])).length = (logBytes pre).length + x.bytes.length := by
    rw [logBytes_append, List.length_append, logBytes_cons, logBytes_nil, List.append_nil]
  have hintact := h.last_intact hdistinct
  -- each of the four cases has a file that holds `done` behind the segment
  have hview : ∀ (done : Bytes) (g : FileDetails), fr = done ++ w.pending →
      t.fileFds = pre.map Segment.file ++ [g] →
      g.cell = ⟨x.bytes ++ done, x.file.bytesWrittenAcrossAllFiles⟩ →
      g.offset ≤ g.content.length →
      t.cells = segmentCells pre ++ [⟨x.bytes ++ done, x.file.bytesWrittenAcrossAllFiles⟩] ∧
        Readable t w.pending (logBytes (pre ++ [x]) ++ fr) := by
    intro done g hsplit hfiles hcell hinside
    have hmem : ∀ y ∈ pre, y ∈ pre ++ [x] := fun y hy => List.mem_append_left [x] hy
    obtain ⟨hcells, hread⟩ := readable_snoc w.pending h.totals
      (fun y hy => h.intact hdistinct y (hmem y hy)) (fun y hy => h.inside y (hmem y hy)) hfiles hcell
      (by rw [List.length_append]; omega) hinside
    refine ⟨hcells, ?_⟩
    rw [hsplit, logBytes_append, logBytes_cons, logBytes_nil, List.append_nil]
    simpa only [List.append_assoc] using hread
  cases hat with
  | pwrite done hsplit hcount =>
      exact ⟨done, hsplit, hview done _ hsplit (h.setCurrent_fileFds hdistinct _)
        (hintact.cell_pwrite h.last_inside done)
        (FileDetails.inside_pwrite h.last_inside done)⟩
  | @advance loop remaining chunk n done hsplit hcount =>
      refine ⟨done, hsplit, hview done _ hsplit (h.setCurrent_fileFds hdistinct _) ?_
        (FileDetails.inside_pwriteAt (FileDetails.inside_pwrite h.last_inside done) chunk)⟩
      rw [FileDetails.cell_pwriteAt (FileDetails.inside_pwrite h.last_inside done) chunk,
        hintact.cell_pwrite h.last_inside]
  | count =>
      have hsplit : fr = fr ++ Writer.pending (.count fr.length) := (List.append_nil fr).symm
      exact ⟨fr, hsplit, hview fr _ hsplit (h.setCurrent_fileFds hdistinct _)
        (hintact.cell_pwrite h.last_inside fr)
        (FileDetails.inside_pwrite h.last_inside fr)⟩
  | publish =>
      have hsplit : fr = fr ++ Writer.pending .publish := (List.append_nil fr).symm
      exact ⟨fr, hsplit, hview fr _ hsplit (h.setCurrent_fileFds hdistinct _)
        (hintact.cell_pwrite h.last_inside fr)
        (FileDetails.inside_pwrite h.last_inside fr)⟩

theorem Appending.distinct (hat : Appending s x.file fr w t) (hdistinct : t.Distinct) :
    s.Distinct := by
  cases hat with
  | pwrite done _ _ => exact ((s.setCurrent_extends _).1).distinct hdistinct
  | advance done _ _ => exact ((s.setCurrent_extends _).1).distinct hdistinct
  | count => exact ((s.setCurrent_extends _).1).distinct hdistinct
  | publish => exact ((s.setCurrent_extends _).1).distinct hdistinct

/-- At every moment the log can be read. -/
theorem BeingWritten.readable (h : BeingWritten host maxFileSize frames w t)
    (hdistinct : t.Distinct) : Readable t w.pending frames.flatten := by
  cases h with
  | settled h hmax hframes =>
      rw [← hframes, flatten_logFrames]
      exact h.readable hdistinct
  | appending h hmax hbooked hframed hlen hat hframes =>
      obtain ⟨done, -, -, hread⟩ := hat.readable h (hat.distinct hdistinct) hbooked
      rw [← hframes, List.flatten_append, List.flatten_singleton, flatten_logFrames]
      exact hread

/-! ## Every step -/

theorem BeingWritten.enter (h : BeingWritten host maxFileSize frames .idle t)
    {message : Bytes} (content : Bytes) (hne : message ≠ [])
    (hlen : frameLength message false ≤ maxFileSize) (hM : maxFileSize < 2 ^ 31) :
    ∃ t' w', t.setCurrentFile (some content) = some (true, t') ∧
      t.enterWrite host message content = some (t', w') ∧
      BeingWritten host maxFileSize (frames ++ [frame host message false 0]) w' t' ∧
      Grows t.cells t'.cells := by
  have hsize : 4 + message.length ≤ maxFileSize := hlen
  have hframed : WellFramed host (frame host message false 0) :=
    wellFramed_frame hne (show message.length + 0 < 2 ^ 32 by omega)
  -- what follows once the current file is known
  have hstart : ∀ {t' : ConnectionFile} {pre : List Segment} {x : Segment},
      t.setCurrentFile (some content) = some (true, t') → Ready host t' pre x →
      t'.maxFileSize = maxFileSize →
      x.file.bytesWrittenAcrossAllFiles ≤ (logBytes (pre ++ [x])).length →
      logFrames (pre ++ [x]) = frames → Grows t.cells t'.cells →
      ∃ t' w', t.setCurrentFile (some content) = some (true, t') ∧
        t.enterWrite host message content = some (t', w') ∧
        BeingWritten host maxFileSize (frames ++ [frame host message false 0]) w' t' ∧
        Grows t.cells t'.cells := by
    intro t' pre x hset hready hmax hbooked hframes hgrows
    obtain ⟨w, henter, hat, -⟩ := Appending.enter host (by omega : message.length + 4 < 2 ^ 31)
      hset hready.current_eq hready.shared_current
    refine ⟨t', w, hset, henter, .appending hready hmax hbooked hframed ?_ hat ?_, hgrows⟩
    · rw [length_frame]
      exact hlen
    · rw [hframes]
  cases h with
  | appending hready hmax hbooked hframed' hlen' hat hframes => cases hat
  | @settled _ segs hopen hmax hframes =>
      cases hopen with
      | appended hlog =>
          obtain ⟨s', hset, hmax', ⟨pre, x, rfl, rfl, hready⟩ | ⟨x, hx, hzero, hready⟩⟩ :=
            hlog.ready content
          · obtain ⟨-, hlast, -⟩ := totals_append.mp hlog.totals
            refine hstart hset hready hmax ?_ hframes (Grows.refl _)
            rw [hlast, logBytes_append, List.length_append]
            simp
          · refine hstart hset hready (hmax'.trans hmax) (by rw [hzero]; exact Nat.zero_le _) ?_ ?_
            · rw [logFrames_append, logFrames_cons, hx, hframes]
              simp
            · have hcells : s'.cells = t.cells ++ [x.file.cell] := by
                rw [cells, cells, hready.files, hlog.files]
                simp
              rw [hcells]
              exact Grows.push _ _
      | created x hx hzero hready =>
          refine hstart (hready.setCurrentFile content) hready hmax
            (by rw [hzero]; exact Nat.zero_le _) ?_ (Grows.refl _)
          rw [logFrames_append, logFrames_cons, hx, hframes]
          simp

/-- A step of an append whose calls do not fail. -/
theorem BeingWritten.step (h : BeingWritten host maxFileSize frames w t)
    (hdistinct : t.Distinct) (hw : w ≠ .idle) (hr : r ≠ .error) (hM : maxFileSize < 2 ^ 31) :
    ∃ t' w', t.writeStep r w = some (t', w') ∧ BeingWritten host maxFileSize frames w' t' ∧
      Grows t.cells t'.cells ∧ t'.cells.length = t.cells.length := by
  cases h with
  | settled hopen hmax hframes => exact absurd rfl hw
  | @appending s _ pre x fr _ hready hmax hbooked hframed hlen hat hframes =>
      obtain ⟨n, hn, hfr, -⟩ := id hframed
      obtain ⟨t', w', hstep, hnext⟩ := hat.step hready.current_eq (by omega) (by omega) hr
      have hold := hat.distinct hdistinct
      obtain ⟨done, hsplit, hcells, -⟩ := hat.readable hready hold hbooked
      refine ⟨t', w', hstep, ?_⟩
      rcases hnext with hat' | ⟨hw', ht'⟩
      · obtain ⟨done', hsplit', hcells', -⟩ := hat'.readable hready hold hbooked
        have hprefix : done <+: done' := by
          have hle := (ConnectionFile.writeStep_cases hstep).1.length_le
          have hlength := congrArg List.length (hsplit.symm.trans hsplit')
          rw [List.length_append, List.length_append] at hlength
          exact List.prefix_of_prefix_length_le ⟨_, hsplit.symm⟩ ⟨_, hsplit'.symm⟩ (by omega)
        refine ⟨.appending hready hmax hbooked hframed hlen hat' hframes, ?_, ?_⟩
        · rw [hcells, hcells']
          exact Grows.last ((List.prefix_append_right_inj _).mpr hprefix)
        · rw [hcells, hcells', List.length_append, List.length_append]
          rfl
      · rw [hw', ht']
        have hlog := hready.book hframed (hmax ▸ hlen) (by omega) []
        have hcells' : (s.book ⟨fr.length, x.file.appendFrame fr, []⟩).conn.cells =
            segmentCells pre ++ [⟨x.bytes ++ fr, s.totalBytesWriten + fr.length⟩] := by
          have hext : (x.extend fr (s.totalBytesWriten + fr.length)).Intact :=
            (hready.last_intact hold).extend hready.last_inside _ _
          rw [cells, hlog.files, booked, seen_of_distinct (hready.only_file hold), List.map_append,
            List.map_append, List.map_map, List.map_singleton, List.map_singleton, hext.cell_file,
            Segment.bytes_extend]
          rfl
        refine ⟨.settled (.appended hlog) (book_maxFileSize.trans hmax) ?_, ?_, ?_⟩
        · rw [← hframes]
          simp
        · rw [hcells, hcells']
          exact Grows.last ((List.prefix_append_right_inj _).mpr ⟨_, hsplit.symm⟩)
        · rw [hcells, hcells', List.length_append, List.length_append]
          rfl

end Moments

end LightQ
