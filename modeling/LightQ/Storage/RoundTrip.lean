/-
# `Storage.RoundTrip` — what is appended is what is read

A `Session` is a log with one reader, who starts at offset 0 and moves by
the values `read` returns.  `ReadsBack` says of one that the reader has a
leading part of the frames, in order and byte for byte, and that as many
further reads as frames are missing give it all of them and leave it at
`get_total_bytes_writen()`.

`log_round_trip` is about every interleaving of appends and reads, short
`pwrite` calls and rotations included: all of it goes through, and the session
reads back what was appended as long as the log's files are different ones.
They are not when a topic's name has a zero byte and the log has been rotated:
`open` is given the name as a C string, which ends before the index, and every
file is the first one again (`reopened_not_read_back`).

The proof is a simulation: an append is `Log.append` (`Invariant.step_write`),
a read is `Log.next` (`Invariant.step_next`), and what holds of the reader of a
`Log` holds of the reader of the files.  A read finds the frame at the reader's
offset or nothing at the end of the log (`Invariant.read_cases`; a buffer for
the payload is enough), and leaves the log as it is whatever it returns
(`Invariant.step_read`).  Runs then keep the invariant and append one frame for
each message (`run_invariant`), and reads alone are as many steps of the
abstract reader (`run_reads`).

The invariant speaks of the reader in logs of different files only (`reader`);
a log keeps its files (`Extends.distinct`), so that one whose files are
different at the end of a run had different files all along.
-/
import LightQ.Storage.LogInvariant

namespace LightQ

open FrameLog ConnectionFile

/-- One call: an append, of which `content` is what `open` finds if a file is
created, or a read into a buffer. -/
inductive Op where
  | write (overload : Overload) (msg : Bytes) (includeOffset : Bool) (content : Bytes)
      (sched : List PwriteResult)
  | read (buffer : Bytes) (sizeOfBuffer : Nat)
deriving DecidableEq, Repr

/-- The appends and reads the round trip is about.  Every frame fits in a
file and in the reader's buffer, of at least `bufferSize` bytes; a `pwrite`
may write as little as it likes, but does not fail. -/
def Op.Admissible (maxFileSize bufferSize : Nat) : Op → Prop
  | .write _ msg includeOffset _ sched =>
      msg ≠ [] ∧ frameLength msg includeOffset < 2 ^ 31 ∧
        frameLength msg includeOffset ≤ maxFileSize ∧
        frameLength msg includeOffset ≤ bufferSize ∧ PwriteResult.error ∉ sched
  | .read _ sizeOfBuffer => bufferSize ≤ sizeOfBuffer

/-- The messages that a list of calls appends, with their `include_offset`. -/
def messages : List Op → List (Bytes × Bool)
  | [] => []
  | .write _ msg includeOffset _ _ :: ops => (msg, includeOffset) :: messages ops
  | .read _ _ :: ops => messages ops

/-- A log and its reader: the frames appended so far, the reader's offset
and what it has read. -/
structure Session where
  conn : ConnectionFile
  frames : List Bytes
  offset : Nat
  got : List Bytes

namespace Session

def start (directory topic : Bytes) (maxFileSize : Nat) : Session :=
  ⟨ConnectionFile.create directory topic maxFileSize, [], 0, []⟩

def step (host : ByteOrder) (t : Session) : Op → Option Session
  | .write overload msg includeOffset content sched => do
      let a ← t.conn.write host overload msg includeOffset (some content) sched
      let position := t.conn.appendPosition (some content)
      some { t with conn := a.conn, frames := t.frames ++ [frame host msg includeOffset position] }
  | .read buffer sizeOfBuffer =>
      let r := t.conn.read host buffer sizeOfBuffer t.offset false []
      if 0 < r.value then
        some { t with
          offset := t.offset + r.value.toNat
          got := t.got ++ [r.buffer.take r.value.toNat] }
      else some t

def run (host : ByteOrder) (t : Session) (ops : List Op) : Option Session :=
  ops.foldlM (step host) t

/-- The log that the session simulates. -/
def log (t : Session) : Log UInt8 := ⟨t.frames, t.offset, t.got⟩

structure Invariant (host : ByteOrder) (maxFileSize bufferSize : Nat) (t : Session)
    (segs : List Segment) : Prop where
  files : LogInvariant host t.conn segs
  max_eq : t.conn.maxFileSize = maxFileSize
  frames_eq : logFrames segs = t.frames
  fits : ∀ fr ∈ t.frames, fr.length ≤ bufferSize
  reader : t.conn.Distinct → t.log.Consistent

section Steps

variable {host : ByteOrder} {maxFileSize bufferSize : Nat} {t : Session} {segs : List Segment}

theorem invariant_start (host : ByteOrder) (directory topic : Bytes) (bufferSize : Nat)
    (hM : 0 < maxFileSize) :
    Invariant host maxFileSize bufferSize (start directory topic maxFileSize) [] where
  files := logInvariant_create host directory topic hM
  max_eq := rfl
  frames_eq := rfl
  fits := fun _ h => absurd h List.not_mem_nil
  reader := fun _ => Log.consistent_empty

theorem Invariant.total_eq (h : Invariant host maxFileSize bufferSize t segs) :
    t.conn.totalBytesWriten = t.frames.flatten.length := by
  rw [h.files.total_eq, ← flatten_logFrames, h.frames_eq]

/-- An append is one of the abstract log. -/
theorem Invariant.step_write (h : Invariant host maxFileSize bufferSize t segs)
    {overload : Overload} {msg : Bytes} {includeOffset : Bool} {content : Bytes}
    {sched : List PwriteResult}
    (hop : (Op.write overload msg includeOffset content sched).Admissible maxFileSize bufferSize) :
    ∃ t' segs' position,
      t.step host (.write overload msg includeOffset content sched) = some t' ∧
        Invariant host maxFileSize bufferSize t' segs' ∧
        t'.log = t.log.append (frame host msg includeOffset position) := by
  obtain ⟨hne, hlen, hmax, hbuf, hno⟩ := hop
  obtain ⟨a, segs', hwrite, -, hinv, hframes, hsame⟩ :=
    h.files.write overload content hne hlen (by rw [h.max_eq]; exact hmax) hno
  refine ⟨_, segs', t.conn.appendPosition (some content), by rw [step, hwrite]; rfl, ?_, rfl⟩
  constructor
  · exact hinv
  · exact hsame.trans h.max_eq
  · rw [hframes, h.frames_eq]
  · intro fr hfr
    rcases List.mem_append.mp hfr with hold | hnew
    · exact h.fits fr hold
    · obtain rfl := List.mem_singleton.mp hnew
      rwa [length_frame]
  · intro hdistinct
    exact (h.reader ((write_extends hwrite).distinct hdistinct)).append (frame_ne_nil _ _ _ _)

theorem Invariant.read_cases (h : Invariant host maxFileSize bufferSize t segs)
    (hdistinct : t.conn.Distinct) (buffer : Bytes) {sizeOfBuffer : Nat}
    (hsize : bufferSize ≤ 4 + sizeOfBuffer) :
    (t.frames = t.got ∧ (t.conn.read host buffer sizeOfBuffer t.offset false []).value ≤ 0) ∨
      ∃ fr rest, t.frames = t.got ++ fr :: rest ∧ 0 < fr.length ∧
        (t.conn.read host buffer sizeOfBuffer t.offset false []).value = fr.length ∧
        (t.conn.read host buffer sizeOfBuffer t.offset false []).buffer.take fr.length = fr := by
  have hreader := h.reader hdistinct
  obtain ⟨rest, hrest⟩ := hreader.got_prefix
  cases rest with
  | nil =>
      have hlog : t.log.frames = t.log.got := by simpa using hrest.symm
      have hdone : t.frames = t.got := hlog
      have hoff : t.offset = t.got.flatten.length := hreader.offset_eq
      exact Or.inl ⟨hdone, h.files.logFiles.read_end buffer sizeOfBuffer []
        (by rw [h.total_eq, hoff, hdone])⟩
  | cons fr rest =>
      have hsplit : t.frames = t.got ++ fr :: rest := hrest.symm
      have hat : frameAt (logFrames segs) t.offset = some fr := by
        rw [h.frames_eq]
        exact Log.frameAt_of_rest hreader hrest.symm
      have hmem : fr ∈ t.frames := by
        rw [hsplit]
        simp
      obtain ⟨hvalue, htake⟩ := h.files.logFiles.read_frame hdistinct buffer hat
        (Nat.le_trans (h.fits fr hmem) hsize)
      have hpos : 0 < fr.length := List.length_pos_iff.mpr (hreader.nonempty fr hmem)
      exact Or.inr ⟨fr, rest, hsplit, hpos, hvalue, htake⟩

/-- The reader after the frame at its offset. -/
def advance (t : Session) (fr : Bytes) : Session :=
  { t with offset := t.offset + fr.length, got := t.got ++ [fr] }

theorem Invariant.advance {fr : Bytes} {rest : List Bytes}
    (h : Invariant host maxFileSize bufferSize t segs) (hdistinct : t.conn.Distinct)
    (hsplit : t.frames = t.got ++ fr :: rest) :
    (t.advance fr).log = t.log.next ∧
      Invariant host maxFileSize bufferSize (t.advance fr) segs := by
  have hreader := h.reader hdistinct
  have hnext : t.log.next = (t.advance fr).log := Log.next_of_rest hreader hsplit
  refine ⟨hnext.symm, h.files, h.max_eq, h.frames_eq, h.fits, fun _ => ?_⟩
  rw [← hnext]
  exact hreader.next

/-- A read is one of the abstract log. -/
theorem Invariant.step_next (h : Invariant host maxFileSize bufferSize t segs)
    (hdistinct : t.conn.Distinct) (buffer : Bytes) {sizeOfBuffer : Nat}
    (hsize : bufferSize ≤ sizeOfBuffer) :
    ∃ t', t.step host (.read buffer sizeOfBuffer) = some t' ∧ t'.conn = t.conn ∧
      Invariant host maxFileSize bufferSize t' segs ∧ t'.log = t.log.next := by
  rcases h.read_cases hdistinct buffer (Nat.le_trans hsize (Nat.le_add_left _ 4)) with
    ⟨hdone, hvalue⟩ | ⟨fr, rest, hsplit, hpos, hvalue, htake⟩
  · refine ⟨t, ?_, rfl, h, (Log.next_of_done (h.reader hdistinct) hdone).symm⟩
    rw [step]
    exact if_neg (Int.not_lt.mpr hvalue)
  · obtain ⟨hlog, hinv⟩ := h.advance hdistinct hsplit
    refine ⟨t.advance fr, ?_, rfl, hinv, hlog⟩
    rw [step]
    simp only [hvalue, Int.toNat_natCast, htake]
    exact if_pos (by omega)

theorem Invariant.step_read (h : Invariant host maxFileSize bufferSize t segs) (buffer : Bytes)
    {sizeOfBuffer : Nat} (hsize : bufferSize ≤ sizeOfBuffer) :
    ∃ t', t.step host (.read buffer sizeOfBuffer) = some t' ∧ t'.frames = t.frames ∧
      Invariant host maxFileSize bufferSize t' segs := by
  by_cases hdistinct : t.conn.Distinct
  · obtain ⟨t', hstep, -, hinv, hlog⟩ := h.step_next hdistinct buffer hsize
    exact ⟨t', hstep, (congrArg Log.frames hlog).trans (Log.next_frames t.log), hinv⟩
  · rw [step]
    split
    · exact ⟨_, rfl, rfl, h.files, h.max_eq, h.frames_eq, h.fits, fun hno => absurd hno hdistinct⟩
    · exact ⟨t, rfl, rfl, h⟩

theorem run_invariant {ops : List Op} (h : Invariant host maxFileSize bufferSize t segs)
    (hops : ∀ op ∈ ops, op.Admissible maxFileSize bufferSize) :
    ∃ t' segs' frames, t.run host ops = some t' ∧
      Invariant host maxFileSize bufferSize t' segs' ∧ t'.frames = t.frames ++ frames ∧
      List.Forall₂ (fun m fr => ∃ position, fr = frame host m.1 m.2 position)
        (messages ops) frames := by
  induction ops generalizing t segs with
  | nil => exact ⟨t, segs, [], rfl, h, (List.append_nil _).symm, .nil⟩
  | cons op ops ih =>
      have hop := hops op List.mem_cons_self
      have hrest := fun o ho => hops o (List.mem_cons_of_mem _ ho)
      cases op with
      | write overload msg includeOffset content sched =>
          obtain ⟨t₁, segs₁, position, hstep, hinv, hlog⟩ := h.step_write hop
          obtain ⟨t', segs', frames, hrun, hinv', hframes, hall⟩ := ih hinv hrest
          have ht₁ : t₁.frames = t.frames ++ [frame host msg includeOffset position] :=
            congrArg Log.frames hlog
          refine ⟨t', segs', frame host msg includeOffset position :: frames, ?_, hinv', ?_, ?_⟩
          · rw [run, List.foldlM_cons, hstep]
            exact hrun
          · rw [hframes, ht₁, List.append_assoc]
            rfl
          · exact .cons ⟨position, rfl⟩ hall
      | read buffer sizeOfBuffer =>
          obtain ⟨t₁, hstep, ht₁, hinv⟩ := h.step_read buffer hop
          obtain ⟨t', segs', frames, hrun, hinv', hframes, hall⟩ := ih hinv hrest
          refine ⟨t', segs', frames, ?_, hinv', by rw [hframes, ht₁], hall⟩
          rw [run, List.foldlM_cons, hstep]
          exact hrun

theorem run_reads (h : Invariant host maxFileSize bufferSize t segs)
    (hdistinct : t.conn.Distinct) {reads : List (Bytes × Nat)}
    (hreads : ∀ r ∈ reads, bufferSize ≤ r.2) :
    ∃ t', t.run host (reads.map fun r => .read r.1 r.2) = some t' ∧ t'.conn = t.conn ∧
      t'.log = Log.next^[reads.length] t.log := by
  induction reads generalizing t with
  | nil => exact ⟨t, rfl, rfl, rfl⟩
  | cons r reads ih =>
      obtain ⟨t₁, hstep, hconn, hinv, hlog⟩ :=
        h.step_next hdistinct r.1 (hreads r List.mem_cons_self)
      obtain ⟨t', hrun, hconn', hlog'⟩ :=
        ih hinv (by rw [hconn]; exact hdistinct) (fun q hq => hreads q (List.mem_cons_of_mem _ hq))
      refine ⟨t', ?_, hconn'.trans hconn, ?_⟩
      · rw [run, List.map_cons, List.foldlM_cons, hstep]
        exact hrun
      · rw [hlog', hlog, List.length_cons, Function.iterate_succ_apply]

end Steps

/-- The reader has a leading part of what was appended, and reads the rest. -/
def ReadsBack (host : ByteOrder) (bufferSize : Nat) (t : Session) : Prop :=
  t.got <+: t.frames ∧ t.offset = t.got.flatten.length ∧
    ∀ reads : List (Bytes × Nat), (∀ r ∈ reads, bufferSize ≤ r.2) →
      t.frames.length - t.got.length ≤ reads.length →
      ∃ t', t.run host (reads.map fun r => .read r.1 r.2) = some t' ∧
        t'.got = t.frames ∧ t'.offset = t'.conn.totalBytesWriten

/-- The round trip, across every rotation to a file of its own. -/
theorem log_round_trip (host : ByteOrder) (directory topic : Bytes) {maxFileSize bufferSize : Nat}
    (hM : 0 < maxFileSize) {ops : List Op}
    (hops : ∀ op ∈ ops, op.Admissible maxFileSize bufferSize) :
    ∃ t, (start directory topic maxFileSize).run host ops = some t ∧
      List.Forall₂ (fun m fr => ∃ position, fr = frame host m.1 m.2 position)
        (messages ops) t.frames ∧
      (t.conn.Distinct → t.ReadsBack host bufferSize) := by
  have hstart := invariant_start host directory topic bufferSize hM
  obtain ⟨t, segs, frames, hrun, hinv, hframes, hall⟩ := run_invariant hstart hops
  have hall' : t.frames = frames := hframes
  refine ⟨t, hrun, hall' ▸ hall, fun hdistinct => ?_⟩
  have hreader := hinv.reader hdistinct
  refine ⟨hreader.got_prefix, hreader.offset_eq, ?_⟩
  intro reads hreads hmany
  obtain ⟨t', hrun', hconn, hlog⟩ := run_reads hinv hdistinct hreads
  obtain ⟨hgot, hoffset⟩ := Log.drain hreader hmany
  rw [← hlog] at hgot hoffset
  refine ⟨t', hrun', hgot, ?_⟩
  rw [hconn, hinv.total_eq]
  exact hoffset

/-- Two messages in files of at most 12 bytes: the second one goes to a file
of its own. -/
def twoFiles : List Op :=
  [.write .string (ascii "abcdefgh") false [] [.wrote 3], .write .pointer (ascii "x") false [] []]

theorem twoFiles_admissible : ∀ op ∈ twoFiles, op.Admissible 12 16 := by
  intro op hop
  rcases List.mem_cons.mp hop with rfl | hop
  · exact ⟨by decide, by decide, by decide, by decide, by decide⟩
  · obtain rfl := List.mem_singleton.mp hop
    exact ⟨by decide, by decide, by decide, by decide, by decide⟩

theorem log_round_trip_rotated :
    ∃ t, (start (ascii "/tmp") (ascii "t") 12).run .little twoFiles = some t ∧
      List.Forall₂ (fun m fr => ∃ position, fr = frame .little m.1 m.2 position)
        (messages twoFiles) t.frames ∧
      t.ReadsBack .little 16 := by
  obtain ⟨t, hrun, hframes, hback⟩ :=
    log_round_trip .little (ascii "/tmp") (ascii "t") (by decide) twoFiles_admissible
  have hdistinct : ((start (ascii "/tmp") (ascii "t") 12).run .little twoFiles).map
      (fun t => decide t.conn.Distinct) = some true := by decide
  rw [hrun] at hdistinct
  exact ⟨t, hrun, hframes, hback (of_decide_eq_true (Option.some.inj hdistinct))⟩

/-- With a zero byte behind the topic's name the second file is the first one,
and its frame is all that is read. -/
theorem reopened_not_read_back :
    ¬ ∀ (host : ByteOrder) (directory topic : Bytes) (maxFileSize bufferSize : Nat)
        (ops : List Op), 0 < maxFileSize →
        (∀ op ∈ ops, op.Admissible maxFileSize bufferSize) →
        ∃ t, (start directory topic maxFileSize).run host ops = some t ∧
          t.ReadsBack host bufferSize := by
  intro h
  obtain ⟨t, hrun, -, -, hreads⟩ := h .little (ascii "/tmp") [116, 0] 12 16 twoFiles (by decide)
    twoFiles_admissible
  have hwritten : ((start (ascii "/tmp") [116, 0] 12).run .little twoFiles).map
      (fun t => (t.frames, t.got)) = some ([[8, 0, 0, 0] ++ ascii "abcdefgh",
        [1, 0, 0, 0] ++ ascii "x"], []) := by decide
  rw [hrun] at hwritten
  obtain ⟨hframes, hgot⟩ := Prod.mk.inj (Option.some.inj hwritten)
  obtain ⟨t', hrun', hall, -⟩ := hreads [([], 16), ([], 16)]
    (fun r hr => by simp only [List.mem_cons, List.not_mem_nil, or_false, or_self] at hr; rw [hr])
    (by rw [hframes, hgot]; decide)
  have hread : (((start (ascii "/tmp") [116, 0] 12).run .little twoFiles).bind fun t =>
      t.run .little [.read [] 16, .read [] 16]).map (fun t => t.got.head?)
        = some (some ([1, 0, 0, 0] ++ ascii "x")) := by decide
  rw [hrun, Option.bind_some] at hread
  have hrun'' : t.run .little [.read [] 16, .read [] 16] = some t' := hrun'
  rw [hrun'', Option.map_some, hall, hframes] at hread
  exact absurd hread (by decide)

end Session

end LightQ
