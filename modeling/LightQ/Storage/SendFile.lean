/-
# `Storage.SendFile` — which bytes of the log reach a socket

`send_file` finds the file that holds an offset of the log, clamps the size
to what that file holds from there on, and calls `sendfile`.  On Apple the
call is given the offset in the file.  On Linux it is given `&size_offset`,
the clamped size once more, so that what is sent starts at the position
that equals the number of bytes asked for.

`sendFile_sends_log_iff` is about every log that appends have built, and about
every offset inside it: the Apple branch sends the log from the offset on, the
Linux branch does where the file repeats itself at the two positions.

Every offset of the log lies in the segment that the search finds, whatever
files follow (`locate_segment`), and both clamps stay inside the file
(`sendSize_le`).  What a call sends is then settled by the outcome of
`sendfile`: up to so many bytes (`sendFile_sent`), or nothing that is taken for
a success (`sendFile_failed`); a call that reports no success has sent nothing
if it fails clean (`sendFile_nothing`), which Apple's need not.  A call that
sends nothing is taken for one that fails (`sendsLog_sent_iff`).

`SendsLog` asks that the bytes that reach the socket are those of the log at the
offset.  A slice of the log that stays in one file is a slice of that file
(`slice_log`), where the files are different ones (`FilesOf.log_eq`), so the
question is whether the file holds the same at the two places, as far as a
call gets (`sent_agrees_iff`, `sendsLog_iff`).
-/
import LightQ.Storage.RoundTrip

namespace LightQ

open MachineInt FrameLog

namespace ConnectionFile

/-- The log: what each file holds in front of its append position, which for
a file that was empty when it was opened is all of it. -/
def log (s : ConnectionFile) : Bytes := (s.fileFds.map fun f => f.content.take f.offset).flatten

/-- The file that an offset of the log lies in, and the offset in that file,
as `send_file` finds them. -/
def locate (offset : Nat) : List FileDetails → Option Nat → Option (FileDetails × Nat)
  | [], _ => none
  | f :: fs, prev =>
      if f.bytesWrittenAcrossAllFiles ≤ offset then
        locate offset fs (some f.bytesWrittenAcrossAllFiles)
      else some (f, offsetInFile prev offset)

/-- What was sent, when the call returns a positive value, is the log from
`offset` on. -/
def SendsLog (s : ConnectionFile) (offset : Nat) (sent : Int × Bytes) : Prop :=
  0 < sent.1 → sent.1 = sent.2.length ∧ sent.2 = (s.log.drop offset).take sent.2.length

theorem sendsLog_of_neg (s : ConnectionFile) (offset : Nat) (bytes : Bytes) :
    s.SendsLog offset (-1, bytes) := by
  intro hneg
  exact absurd (show (0 : Int) < -1 from hneg) (by decide)

theorem sendsLog_sent_iff {s : ConnectionFile} {offset : Nat} {bytes : Bytes} :
    s.SendsLog offset
        (if 0 < (bytes.length : Int) then ((bytes.length : Int), bytes) else (-1, bytes)) ↔
      bytes = (s.log.drop offset).take bytes.length := by
  split
  · next hpos => exact ⟨fun h => (h hpos).2, fun h _ => ⟨rfl, h⟩⟩
  · next hzero =>
      refine iff_of_true (sendsLog_of_neg s offset bytes) ?_
      have hnil : bytes = [] := List.length_eq_zero_iff.mp (by omega)
      rw [hnil]
      rfl

/-- From the position that equals the clamped size, the file repeats what it
holds from the offset on, as far as a call gets. -/
def RepeatsAtSize (f : FileDetails) (offset size : Nat) : Prop :=
  let count := f.sendSize offset size
  let reach := min count (f.content.length - count)
  (f.content.drop count).take reach = (f.content.drop offset).take reach

theorem sendFrom_eq (platform : Platform) (offset size : Nat) (r : SendfileResult)
    (files : List FileDetails) (prev : Option Nat) :
    sendFrom platform offset size r files prev =
      match locate offset files prev with
      | none => (0, [])
      | some (f, o) =>
          if 0 < (f.sendFile platform o size r).1 then f.sendFile platform o size r
          else (-1, (f.sendFile platform o size r).2) := by
  induction files generalizing prev with
  | nil => rfl
  | cons f fs ih =>
      rw [sendFrom, locate]
      split
      · exact ih _
      · rfl

/-- Every offset of the log lies in the segment that the search finds,
whatever files follow. -/
theorem locate_segment {segs : List Segment} {base o : Nat} (prev : Option Nat)
    (rest : List FileDetails)
    (htotals : Totals base segs) (hprev : prev.getD 0 = base) (hbase : base ≤ o)
    (ho : o < base + (logBytes segs).length) :
    ∃ pre x post, segs = pre ++ x :: post ∧
      base + (logBytes pre).length ≤ o ∧
      o < base + (logBytes pre).length + x.bytes.length ∧
      locate o (segs.map Segment.file ++ rest) prev
        = some (x.file, o - (base + (logBytes pre).length)) := by
  induction segs generalizing base prev with
  | nil => exact absurd ho (Nat.not_lt.mpr hbase)
  | cons x xs ih =>
      obtain ⟨hx, hxs⟩ := htotals
      rw [logBytes_cons, List.length_append] at ho
      rw [List.map_cons, List.cons_append, locate]
      rcases Nat.lt_or_ge o (base + x.bytes.length) with hin | hpast
      · refine ⟨[], x, xs, rfl, hbase, hin, ?_⟩
        rw [if_neg (by rw [hx]; exact Nat.not_le.mpr hin), offsetInFile_of_le hprev hbase]
        rfl
      · rw [if_pos (by rw [hx]; exact hpast)]
        obtain ⟨pre, y, post, hsplit, hle, hlt, hfind⟩ :=
          ih (some x.file.bytesWrittenAcrossAllFiles) hxs hx hpast (by omega)
        refine ⟨x :: pre, y, post, by rw [hsplit]; rfl, ?_, ?_, ?_⟩
        · rw [logBytes_cons, List.length_append]; omega
        · rw [logBytes_cons, List.length_append]; omega
        · rw [hfind, logBytes_cons, List.length_append, Nat.add_assoc]

end ConnectionFile

namespace FileDetails

/-- Where `sendfile` is told to start. -/
def sendPosition (platform : Platform) (f : FileDetails) (offset size : Nat) : Nat :=
  match platform with
  | .apple => offset
  | .linux => f.sendSize offset size

section Send

variable {platform : Platform} {f : FileDetails} {offset size : Nat}

theorem sendSize_le (size : Nat) (h : offset ≤ f.offset) :
    f.sendSize offset size ≤ f.offset - offset := by
  rw [sendSize]
  generalize (if maxMsgSize < size then maxMsgSize else size) = limited
  split
  · rw [subU64_of_le h]
  · omega

theorem sendFile_sent (k : Nat) :
    f.sendFile platform offset size (.sent k) =
      ((((f.content.drop (sendPosition platform f offset size)).take
          (min k (f.sendSize offset size))).length : Int),
        (f.content.drop (sendPosition platform f offset size)).take
          (min k (f.sendSize offset size))) := by
  by_cases hsize : f.sendSize offset size = 0
  · simp [sendFile, hsize]
  · cases platform with
    | apple => simp [sendFile, hsize, sendfileApple, sendPosition]
    | linux => simp [sendFile, hsize, sendfileLinux, sendPosition]

theorem sendFile_failed (k : Nat) : (f.sendFile platform offset size (.failed k)).1 ≤ 0 := by
  by_cases hsize : f.sendSize offset size = 0
  · simp [sendFile, hsize]
  · cases platform with
    | apple => simp [sendFile, hsize, sendfileApple]
    | linux => simp [sendFile, hsize, sendfileLinux]

theorem sendFile_nothing {r : SendfileResult} (hclean : r.Clean platform)
    (h : (f.sendFile platform offset size r).1 ≤ 0) :
    (f.sendFile platform offset size r).2 = [] := by
  cases r with
  | sent k =>
      rw [sendFile_sent] at h ⊢
      dsimp only at h ⊢
      exact List.length_eq_zero_iff.mp (by omega)
  | failed k =>
      by_cases hsize : f.sendSize offset size = 0
      · simp [sendFile, hsize]
      · cases platform with
        | apple =>
            obtain rfl : k = 0 := hclean
            simp [sendFile, hsize, sendfileApple]
        | linux => simp [sendFile, hsize, sendfileLinux]

end Send

end FileDetails

/-- What a segment's file holds in front of its append position. -/
def Segment.held (x : Segment) : Bytes := x.file.content.take x.file.offset

section Held

variable {s : ConnectionFile} {segs : List Segment}

theorem FilesOf.length_held (h : FilesOf s segs) :
    ∀ x ∈ segs, x.held.length = x.bytes.length := by
  intro x hx
  rw [Segment.held, List.length_take, Nat.min_eq_left (h.inside x hx), x.offset_eq]

theorem FilesOf.log_held (h : FilesOf s segs) : s.log = (segs.map Segment.held).flatten := by
  rw [ConnectionFile.log, h.files, List.map_map]
  rfl

theorem length_flatten_held (h : ∀ x ∈ segs, x.held.length = x.bytes.length) :
    (segs.map Segment.held).flatten.length = (logBytes segs).length := by
  induction segs with
  | nil => rfl
  | cons x xs ih =>
      rw [List.map_cons, List.flatten_cons, List.length_append, h x List.mem_cons_self,
        ih fun y hy => h y (List.mem_cons_of_mem _ hy), logBytes_cons, List.length_append]

theorem FilesOf.log_eq (h : FilesOf s segs) (hdistinct : s.Distinct) : s.log = logBytes segs := by
  rw [h.log_held, logBytes]
  congr 1
  exact List.map_congr_left fun x hx => h.intact hdistinct x hx

end Held

namespace ConnectionFile

section Segments

variable {host : ByteOrder} {s : ConnectionFile} {segs : List Segment} {platform : Platform}
  {offset size : Nat}

variable (platform size) in
theorem sendFile_of_locate {f : FileDetails} {o : Nat} (hoff : offset < s.totalBytesWriten)
    (hfind : locate offset s.fileFds none = some (f, o)) (r : SendfileResult) :
    s.sendFile platform offset size r =
      if 0 < (f.sendFile platform o size r).1 then f.sendFile platform o size r
      else (-1, (f.sendFile platform o size r).2) := by
  rw [sendFile, if_neg (Nat.not_le.mpr hoff), sendFrom_eq, hfind]

theorem sendFile_nothing {r : SendfileResult} (hclean : r.Clean platform)
    (h : (s.sendFile platform offset size r).1 ≤ 0) :
    (s.sendFile platform offset size r).2 = [] := by
  rw [sendFile] at h ⊢
  split at h
  · next hend => rw [if_pos hend]
  · next hmore =>
      rw [if_neg hmore, sendFrom_eq]
      rw [sendFrom_eq] at h
      cases hfind : locate offset s.fileFds none with
      | none => rfl
      | some d =>
          obtain ⟨f, o⟩ := d
          simp only [hfind] at h ⊢
          split at h
          · next hpos => exact absurd hpos (Int.not_lt.mpr h)
          · next hpos =>
              rw [if_neg hpos]
              exact FileDetails.sendFile_nothing hclean (Int.not_lt.mp hpos)

theorem slice_log {pre post : List Segment} {x : Segment} {n : Nat} (h : FilesOf s segs)
    (hsplit : segs = pre ++ x :: post) (hle : (logBytes pre).length ≤ offset)
    (hlt : offset < (logBytes pre).length + x.bytes.length)
    (hn : n ≤ x.file.offset - (offset - (logBytes pre).length)) :
    (s.log.drop offset).take n
      = (x.file.content.drop (offset - (logBytes pre).length)).take n := by
  have hheld := h.length_held
  rw [hsplit] at hheld
  have hpre : (pre.map Segment.held).flatten.length = (logBytes pre).length :=
    length_flatten_held fun y hy => hheld y (List.mem_append_left _ hy)
  have hx : x.held.length = x.bytes.length :=
    hheld x (List.mem_append_right _ List.mem_cons_self)
  have hoffset : x.file.offset = x.bytes.length := x.offset_eq
  have hseg : ((pre.map Segment.held ++ x.held :: post.map Segment.held).flatten.drop
      offset).take n = (x.held.drop (offset - (pre.map Segment.held).flatten.length)).take n :=
    slice_segment (by rw [hpre]; exact hle) (by rw [hpre, hx]; omega)
  rw [h.log_held, hsplit, List.map_append, List.map_cons, hseg, hpre, Segment.held, List.drop_take,
    List.take_take, Nat.min_eq_left (by omega)]

theorem sent_agrees_iff {xs ys : Bytes} {n : Nat} :
    (∀ k, xs.take (min k n) = ys.take (xs.take (min k n)).length) ↔
      xs.take (min n xs.length) = ys.take (min n xs.length) := by
  constructor
  · intro hall
    have hmost := hall n
    rw [Nat.min_self, List.length_take] at hmost
    rw [← hmost, List.take_eq_take_iff]
    omega
  · intro hmost k
    have hcut := congrArg (List.take (min (min k n) xs.length)) hmost
    rw [List.take_take, List.take_take, Nat.min_eq_left (by omega)] at hcut
    rw [List.length_take, ← hcut, List.take_eq_take_iff]
    omega

/-- The calls that send the log: what the file holds where they start is
what it holds at the offset, as far as a call gets. -/
theorem sendsLog_iff (h : LogInvariant host s segs) (hoff : offset < s.totalBytesWriten)
    (size : Nat) (platform : Platform) :
    ∃ f o, locate offset s.fileFds none = some (f, o) ∧
      ((∀ r, SendsLog s offset (s.sendFile platform offset size r)) ↔
        let position := FileDetails.sendPosition platform f o size
        let reach := min (f.sendSize o size) (f.content.length - position)
        (f.content.drop position).take reach = (f.content.drop o).take reach) := by
  obtain ⟨pre, x, post, hsplit, hle, hlt, hfind⟩ := locate_segment none []
    h.totals rfl (Nat.zero_le _) (by rw [Nat.zero_add, ← h.total_eq]; exact hoff)
  rw [Nat.zero_add] at hle hlt hfind
  rw [List.append_nil, ← h.files] at hfind
  refine ⟨x.file, offset - (logBytes pre).length, hfind, ?_⟩
  generalize ho : offset - (logBytes pre).length = o at hfind ⊢
  have hsize := FileDetails.sendSize_le size (show o ≤ x.file.offset by rw [x.offset_eq]; omega)
  have hslice : ∀ n, n ≤ x.file.sendSize o size →
      (s.log.drop offset).take n = (x.file.content.drop o).take n := by
    intro n hn
    subst ho
    exact slice_log h.toFilesOf hsplit hle hlt (Nat.le_trans hn hsize)
  have hsend := sendFile_of_locate platform size hoff hfind
  generalize hpos : FileDetails.sendPosition platform x.file o size = position
  have hsent : ∀ k, SendsLog s offset (s.sendFile platform offset size (.sent k)) ↔
      (x.file.content.drop position).take (min k (x.file.sendSize o size)) =
        (x.file.content.drop o).take
          ((x.file.content.drop position).take (min k (x.file.sendSize o size))).length := by
    intro k
    rw [hsend, FileDetails.sendFile_sent, hpos, sendsLog_sent_iff, hslice]
    rw [List.length_take]
    omega
  have hfailed : ∀ k, SendsLog s offset (s.sendFile platform offset size (.failed k)) := by
    intro k
    rw [hsend, if_neg (Int.not_lt.mpr (FileDetails.sendFile_failed k))]
    exact sendsLog_of_neg _ _ _
  have hall : (∀ r, SendsLog s offset (s.sendFile platform offset size r)) ↔
      ∀ k, SendsLog s offset (s.sendFile platform offset size (.sent k)) := by
    refine ⟨fun h k => h (.sent k), fun h r => ?_⟩
    cases r with
    | failed k => exact hfailed k
    | sent k => exact h k
  rw [hall, forall_congr' hsent, sent_agrees_iff, List.length_drop]

end Segments

end ConnectionFile

/-- The raw-socket path, on every log that appends have built and at every
offset inside it. -/
theorem Session.sendFile_sends_log_iff {host : ByteOrder} {directory topic : Bytes}
    {maxFileSize bufferSize offset : Nat} {ops : List Op} {t : Session} (size : Nat)
    (platform : Platform) (hM : 0 < maxFileSize)
    (hops : ∀ op ∈ ops, op.Admissible maxFileSize bufferSize)
    (hrun : (start directory topic maxFileSize).run host ops = some t)
    (hoff : offset < t.conn.totalBytesWriten) :
    (∀ r, t.conn.SendsLog offset (t.conn.sendFile platform offset size r)) ↔
      platform = .apple ∨
        ∀ f o, ConnectionFile.locate offset t.conn.fileFds none = some (f, o) →
          ConnectionFile.RepeatsAtSize f o size := by
  obtain ⟨t', segs, frames, hrun', hinv, -, -⟩ :=
    run_invariant (invariant_start host directory topic bufferSize hM) hops
  obtain rfl : t = t' := Option.some.inj (hrun.symm.trans hrun')
  obtain ⟨f, o, hfind, hiff⟩ := ConnectionFile.sendsLog_iff hinv.files hoff size platform
  rw [hiff]
  cases platform with
  | apple => exact iff_of_true rfl (Or.inl rfl)
  | linux =>
      constructor
      · intro hrep
        refine Or.inr ?_
        intro f' o' hfind'
        obtain ⟨rfl, rfl⟩ := Prod.mk.inj (Option.some.inj (hfind.symm.trans hfind'))
        exact hrep
      · rintro (habsurd | hall)
        · exact absurd habsurd (by decide)
        · exact hall f o hfind

/-- Two messages of two bytes each, in one file. -/
def Session.twoMessages : List Op :=
  [.write .string (ascii "ab") false [] [], .write .string (ascii "cd") false [] []]

theorem Session.twoMessages_admissible : ∀ op ∈ twoMessages, op.Admissible 100 64 := by
  intro op hop
  rcases List.mem_cons.mp hop with rfl | hop
  · exact ⟨by decide, by decide, by decide, by decide, by decide⟩
  · obtain rfl := List.mem_singleton.mp hop
    exact ⟨by decide, by decide, by decide, by decide, by decide⟩

theorem Session.sendFile_sends_log_iff_twoMessages :
    ∃ t, (start (ascii "/tmp") (ascii "t") 100).run .little twoMessages = some t ∧
      ((∀ r, t.conn.SendsLog 0 (t.conn.sendFile .apple 0 6 r)) ↔
        Platform.apple = .apple ∨
          ∀ f o, ConnectionFile.locate 0 t.conn.fileFds none = some (f, o) →
            ConnectionFile.RepeatsAtSize f o 6) := by
  have hrun : ((start (ascii "/tmp") (ascii "t") 100).run .little twoMessages).isSome := by decide
  obtain ⟨t, ht⟩ := Option.isSome_iff_exists.mp hrun
  have htotal : (((start (ascii "/tmp") (ascii "t") 100).run .little twoMessages).map
      fun t => t.conn.totalBytesWriten) = some 12 := by decide
  rw [ht] at htotal
  have h₁₂ : t.conn.totalBytesWriten = 12 := Option.some.inj htotal
  exact ⟨t, ht, Session.sendFile_sends_log_iff 6 .apple (by decide) twoMessages_admissible ht
    (by rw [h₁₂]; decide)⟩

/-- On Linux the first frame is asked for and the second one is sent. -/
theorem Session.sendFile_not_sends_log :
    ¬ ∀ (host : ByteOrder) (directory topic : Bytes) (maxFileSize bufferSize offset size : Nat)
        (platform : Platform) (ops : List Op) (t : Session) (r : SendfileResult),
        0 < maxFileSize → (∀ op ∈ ops, op.Admissible maxFileSize bufferSize) →
        (start directory topic maxFileSize).run host ops = some t →
        offset < t.conn.totalBytesWriten →
        t.conn.SendsLog offset (t.conn.sendFile platform offset size r) := by
  intro h
  obtain ⟨t, ht⟩ := Option.isSome_iff_exists.mp (show
    ((start (ascii "/tmp") (ascii "t") 100).run .little twoMessages).isSome by decide)
  have hsent : (((start (ascii "/tmp") (ascii "t") 100).run .little twoMessages).map fun t =>
      (t.conn.totalBytesWriten, t.conn.log, t.conn.sendFile .linux 0 6 (.sent 6)))
      = some (12, [2, 0, 0, 0] ++ ascii "ab" ++ [2, 0, 0, 0] ++ ascii "cd",
          6, [2, 0, 0, 0] ++ ascii "cd") := by decide
  rw [ht] at hsent
  obtain ⟨htotal, hrest⟩ := Prod.mk.inj (Option.some.inj hsent)
  obtain ⟨hlog, hcall⟩ := Prod.mk.inj hrest
  have hsends := h .little (ascii "/tmp") (ascii "t") 100 64 0 6 .linux twoMessages t (.sent 6)
    (by decide) twoMessages_admissible ht (by rw [htotal]; decide)
  rw [hcall] at hsends
  obtain ⟨-, hbytes⟩ := hsends (by decide)
  rw [hlog] at hbytes
  exact absurd hbytes (by decide)

end LightQ
