/-
# `Storage.OpenLog` — the log while files are being created and sent

`set_current_file` creates a file before the first frame is appended to it,
and `send_file` may be called in between: the list of files then ends in one
that holds nothing and whose running total is still 0.  `OpenLog` is the
log in either of these states.

The files of the log, and one more of which nothing is the log's
(`OpenLog.stored`), stay an open log when `set_current_file` is called
(`OpenLog.setCurrentFile`, which changes nothing in the log) and when a frame is
appended (`OpenLog.write`).  Where the files are different ones the log is the
concatenation of its frames (`OpenLog.log_frames`).

`OpenLog.sendFile_cases` says what `send_file` of a `connection_file` does to
every offset: nothing at the end of the log, and before it an error or bytes of
the one file that holds the offset.  `OpenLog.sent_chunk` says that what is sent
is a slice of the log, inside one file, where `file_details::send_file` does
what `TransmitsPrefix` says.  Apple's always does, since it is given the offset
(`FileDetails.transmitsPrefix_apple`); of Linux's it is an assumption about the
calls of a run.
-/
import LightQ.Storage.SendFile

namespace LightQ

open MachineInt FrameLog ConnectionFile

/-- The assumption about `file_details::send_file`: what it sends is where
the range begins that it is asked for. -/
def FileDetails.TransmitsPrefix (platform : Platform) (f : FileDetails) (offset size : Nat)
    (r : SendfileResult) : Prop :=
  0 < (f.sendFile platform offset size r).1 →
    (f.sendFile platform offset size r).2
      <+: (f.content.drop offset).take (f.sendSize offset size)

theorem FileDetails.transmitsPrefix_apple (f : FileDetails) (offset size : Nat)
    (r : SendfileResult) : f.TransmitsPrefix .apple offset size r := by
  intro hsent
  cases r with
  | failed k => exact absurd (sendFile_failed k) (Int.not_le.mpr hsent)
  | sent k =>
      rw [sendFile_sent]
      show (f.content.drop offset).take _ <+: _
      rw [← List.take_take]
      exact List.take_prefix _ _

/-- The log, and the file that `set_current_file` may have created for the
next append. -/
inductive OpenLog (host : ByteOrder) (s : ConnectionFile) (segs : List Segment) : Prop where
  | appended (h : LogInvariant host s segs)
  | created (x : Segment) (hframes : x.frames = [])
      (htotal : x.file.bytesWrittenAcrossAllFiles = 0) (h : Ready host s segs x)

section Open

variable {host : ByteOrder} {s : ConnectionFile} {segs : List Segment}

theorem OpenLog.stored (h : OpenLog host s segs) :
    ∃ more, logBytes more = [] ∧ FilesOf s (segs ++ more) := by
  cases h with
  | appended h => exact ⟨[], rfl, by rw [List.append_nil]; exact h.toFilesOf⟩
  | created x hframes htotal h => exact ⟨[x], by simp [Segment.bytes, hframes], h.toFilesOf⟩

theorem OpenLog.files (h : OpenLog host s segs) :
    ∃ rest : List FileDetails, s.fileFds = segs.map Segment.file ++ rest := by
  obtain ⟨more, -, hstored⟩ := h.stored
  exact ⟨more.map Segment.file, by rw [hstored.files, List.map_append]⟩

theorem OpenLog.totals (h : OpenLog host s segs) : Totals 0 segs := by
  cases h with
  | appended h => exact h.totals
  | created x hframes htotal h => exact h.totals

theorem OpenLog.total_eq (h : OpenLog host s segs) :
    s.totalBytesWriten = (logBytes segs).length := by
  cases h with
  | appended h => exact h.total_eq
  | created x hframes htotal h =>
      rw [h.total_eq, logBytes_append]
      simp [Segment.bytes, hframes]

theorem OpenLog.framed (h : OpenLog host s segs) : ∀ fr ∈ logFrames segs, WellFramed host fr := by
  cases h with
  | appended h => exact h.framed
  | created x hframes htotal h =>
      intro fr hfr
      exact h.framed fr (by rw [logFrames_append]; exact List.mem_append_left _ hfr)

theorem OpenLog.nonempties (h : OpenLog host s segs) : Nonempties (logFrames segs) :=
  fun fr hfr => (h.framed fr hfr).ne_nil

theorem OpenLog.log_frames (h : OpenLog host s segs) (hdistinct : s.Distinct) :
    s.log = (logFrames segs).flatten := by
  obtain ⟨more, hmore, hstored⟩ := h.stored
  rw [hstored.log_eq hdistinct, logBytes_append, hmore, List.append_nil, flatten_logFrames]

theorem OpenLog.length_log (h : OpenLog host s segs) : s.log.length = s.totalBytesWriten := by
  obtain ⟨more, hmore, hstored⟩ := h.stored
  rw [hstored.log_held, length_flatten_held hstored.length_held, logBytes_append, hmore,
    List.append_nil, h.total_eq]

/-! ## Creating a file and appending -/

theorem ConnectionFile.Ready.setCurrentFile {pre : List Segment} {x : Segment}
    (h : Ready host s pre x) (content : Bytes) :
    s.setCurrentFile (some content) = some (true, s) := by
  have hstay : s.fdToUse ≤ s.currentFdIndex := fdToUse_le (h.quota.imp_right fun hlast => by omega)
  rw [setCurrentFile_of_current (some content) (Nat.pos_iff_ne_zero.mp h.max_pos)
    h.prepared.tiledTo.current_file, rotated_of_le hstay]

theorem OpenLog.setCurrentFile (h : OpenLog host s segs) (content : Bytes) :
    ∃ s', s.setCurrentFile (some content) = some (true, s') ∧ OpenLog host s' segs ∧
      s'.maxFileSize = s.maxFileSize := by
  cases h with
  | appended h =>
      obtain ⟨s', hset, hmax, ⟨pre, x, rfl, rfl, -⟩ | ⟨x, hframes, htotal, hready⟩⟩ :=
        h.ready content
      · exact ⟨s', hset, .appended h, rfl⟩
      · exact ⟨s', hset, .created x hframes htotal hready, hmax⟩
  | created x hframes htotal h =>
      exact ⟨s, h.setCurrentFile content, .created x hframes htotal h, rfl⟩

theorem OpenLog.write (h : OpenLog host s segs) (overload : Overload) {msg : Bytes}
    {includeOffset : Bool} (content : Bytes) {sched : List PwriteResult} (hne : msg ≠ [])
    (hlen : frameLength msg includeOffset < 2 ^ 31)
    (hmax : frameLength msg includeOffset ≤ s.maxFileSize)
    (hno : PwriteResult.error ∉ sched) :
    ∃ a segs', s.write host overload msg includeOffset (some content) sched = some a ∧
      a.value = frameLength msg includeOffset ∧ LogInvariant host a.conn segs' ∧
      logFrames segs' = logFrames segs
        ++ [frame host msg includeOffset (s.appendPosition (some content))] ∧
      a.conn.maxFileSize = s.maxFileSize := by
  cases h with
  | appended h => exact h.write overload content hne hlen hmax hno
  | created x hframes htotal h =>
      obtain ⟨a, segs', hwrite, hvalue, hlog, hgrow, hsame⟩ :=
        h.write overload (h.setCurrentFile content) hne hlen hmax hno
      refine ⟨a, segs', hwrite, hvalue, hlog, ?_, hsame⟩
      rw [hgrow, logFrames_append]
      simp [hframes]

/-! ## Sending -/

theorem FileDetails.sendFile_value {platform : Platform} {f : FileDetails} {offset size : Nat}
    {r : SendfileResult} (hpos : 0 < (f.sendFile platform offset size r).1) :
    (f.sendFile platform offset size r).1 = (f.sendFile platform offset size r).2.length ∧
      (f.sendFile platform offset size r).2.length ≤ f.sendSize offset size := by
  cases r with
  | failed k => exact absurd (sendFile_failed k) (Int.not_le.mpr hpos)
  | sent k =>
      rw [sendFile_sent]
      refine ⟨rfl, ?_⟩
      simp only [List.length_take]
      omega

/-- `send_file` does nothing at the end of the log; before it, it reports an
error or sends bytes of the one file that holds the offset. -/
theorem OpenLog.sendFile_cases (h : OpenLog host s segs) (platform : Platform) (offset size : Nat)
    (r : SendfileResult) :
    (s.totalBytesWriten ≤ offset ∧ s.sendFile platform offset size r = (0, [])) ∨
      ∃ pre x post, segs = pre ++ x :: post ∧ (logBytes pre).length ≤ offset ∧
        offset < (logBytes pre).length + x.bytes.length ∧
        locate offset s.fileFds none = some (x.file, offset - (logBytes pre).length) ∧
        let sent := x.file.sendFile platform (offset - (logBytes pre).length) size r
        (sent.1 ≤ 0 ∧ s.sendFile platform offset size r = (-1, sent.2)) ∨
          (0 < sent.1 ∧ s.sendFile platform offset size r = sent) := by
  rcases Nat.lt_or_ge offset s.totalBytesWriten with hoff | hend
  · right
    obtain ⟨rest, hfiles⟩ := h.files
    obtain ⟨pre, x, post, hsplit, hle, hlt, hfind⟩ := locate_segment none rest h.totals rfl
      (Nat.zero_le offset) (by rw [Nat.zero_add, ← h.total_eq]; exact hoff)
    rw [Nat.zero_add] at hle hlt hfind
    rw [← hfiles] at hfind
    refine ⟨pre, x, post, hsplit, hle, hlt, hfind, ?_⟩
    have hsend := sendFile_of_locate platform size hoff hfind r
    intro sent
    rcases Int.lt_or_le 0 sent.1 with hpos | hneg
    · rw [if_pos hpos] at hsend
      exact Or.inr ⟨hpos, hsend⟩
    · rw [if_neg (Int.not_lt.mpr hneg)] at hsend
      exact Or.inl ⟨hneg, hsend⟩
  · exact Or.inl ⟨hend, if_pos hend⟩

/-- A chunk that `file_details::send_file` transmits from a file is a slice of
the log and stays inside it. -/
theorem OpenLog.sent_chunk (h : OpenLog host s segs) {platform : Platform} {offset size : Nat}
    {r : SendfileResult} {pre post : List Segment} {x : Segment} (hsplit : segs = pre ++ x :: post)
    (hle : (logBytes pre).length ≤ offset) (hlt : offset < (logBytes pre).length + x.bytes.length)
    (hpos : 0 < (x.file.sendFile platform (offset - (logBytes pre).length) size r).1)
    (hpre : x.file.TransmitsPrefix platform (offset - (logBytes pre).length) size r) :
    (x.file.sendFile platform (offset - (logBytes pre).length) size r).2
      <+: s.log.drop offset := by
  have hinside : offset - (logBytes pre).length ≤ x.file.offset := by
    rw [x.offset_eq]
    omega
  have hsize := FileDetails.sendSize_le size hinside
  obtain ⟨more, -, hstored⟩ := h.stored
  have hsplit' : segs ++ more = pre ++ x :: (post ++ more) := by
    rw [hsplit, List.append_assoc, List.cons_append]
  refine (hpre hpos).trans ?_
  rw [← slice_log hstored hsplit' hle hlt hsize]
  exact List.take_prefix _ _

end Open

end LightQ
