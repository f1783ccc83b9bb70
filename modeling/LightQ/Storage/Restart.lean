/-
# `Storage.Restart` — a log that is opened again

Two objects, one after the other, write the log of one directory and topic.
What the first one leaves on disk is what `open` finds for the second one:
`create_file` keeps the content of a file that exists, and sets `offset_`
to 0.  The second object therefore appends where the first one began, and
`frames_survive_restart_iff` says that the earlier log is kept only where
there is none, or where nothing is written after the restart.  The two objects
may have different sizes of a file, and any `pwrite` may write less than it is
asked for.

The disk is a function from the names that `open` is given to contents, so that
a log with a zero byte in its name is no exception: its only file is the one
with index 0, under the name that ends at the zero.

One step of either life of the log is enough.  The first successful call writes
at the start of the file with index 0, whatever that file holds (`step_start`),
and what has been written stays written (`step_written`); so every life of the
log writes the start of that file first (`run_writes_start`), and the second
one's header and payload lie over the first one's.
-/
import LightQ.Lib.Runs
import LightQ.Storage.FileNames
import LightQ.Storage.Rotation

namespace LightQ

open MachineInt ConnectionFile Runs

/-- What a call writes: the bytes of a file from `first` to `last`, `last` not
included.  A file is known by the name that `open` reads. -/
structure Span where
  fileName : Bytes
  first : Nat
  last : Nat
deriving DecidableEq, Repr

/-- The bytes of a span, on a disk that is the contents of its files by
name. -/
def Span.bytes (w : Span) (disk : Bytes → Bytes) : Bytes :=
  ((disk w.fileName).drop w.first).take (w.last - w.first)

/-- Two spans share no byte. -/
def Span.Apart (v w : Span) : Prop :=
  v.fileName = w.fileName → v.last ≤ w.first ∨ w.last ≤ v.first

/-- An object, the disk, and what the object has written. -/
structure Lifetime where
  conn : ConnectionFile
  disk : Bytes → Bytes
  written : List Span

namespace Lifetime

/-- A new object on a disk that may hold anything. -/
def start (directory topic : Bytes) (maxFileSize : Nat) (disk : Bytes → Bytes) : Lifetime :=
  ⟨ConnectionFile.create directory topic maxFileSize, disk, []⟩

/-- A call that succeeds.  `open` finds what is on disk, and what the current
file holds after the call is there too. -/
def step (host : ByteOrder) (t : Lifetime) (c : Call) : Option Lifetime := do
  let found := t.disk (cStr (FileDetails.newfile t.conn.directory t.conn.topic t.conn.nextIndex))
  let w ← t.conn.writeAny host c (some found)
  let f ← w.conn.fileFds[w.conn.currentFdIndex]?
  if 0 < w.value then
    some
      { conn := w.conn
        disk := Function.update t.disk (cStr f.fileName) f.content
        written := t.written ++ [⟨cStr f.fileName, t.conn.appendPosition (some found), f.offset⟩] }
  else none

/-- What `w` stands for is still there: no byte of it has been written, and
it reads as it did on `disk`. -/
def Keeps (t : Lifetime) (disk : Bytes → Bytes) (w : Span) : Prop :=
  (∀ v ∈ t.written, v.Apart w) ∧ w.bytes t.disk = w.bytes disk

section Steps

variable {host : ByteOrder} {directory topic : Bytes} {maxFileSize : Nat} {disk : Bytes → Bytes}
  {t t' : Lifetime} {c : Call} {calls : List Call}

theorem step_start (h : (start directory topic maxFileSize disk).step host c = some t') :
    ∃ last, 0 < last ∧ t'.written = [⟨cStr (FileDetails.newfile directory topic 0), 0, last⟩] := by
  obtain ⟨w, hwrite, h⟩ := Option.bind_eq_some_iff.mp h
  obtain ⟨f, hf, h⟩ := Option.bind_eq_some_iff.mp h
  split at h
  · rename_i hpos
    obtain rfl := Option.some.inj h
    let found := disk (cStr (FileDetails.newfile directory topic 0))
    let g : FileDetails := ⟨found, 0, FileDetails.newfile directory topic 0, 0, 0⟩
    let s : ConnectionFile :=
      { ConnectionFile.create directory topic maxFileSize with fileFds := [g] }
    have hset : (ConnectionFile.create directory topic maxFileSize).setCurrentFile (some found)
        = some (true, s) := setCurrentFile_of_no_file rfl
    have hcur : s.fileFds[s.currentFdIndex]? = some g := rfl
    have hposition : (ConnectionFile.create directory topic maxFileSize).appendPosition
        (some found) = 0 := appendPosition_of_set hset hcur
    obtain rfl : s.book (g.writeMsgWith host c.msg (u32 c.msg.length) c.writeMsgSize
        c.includeOffset c.sched) = w :=
      Option.some.inj ((writeAny_of_set c hset).symm.trans hwrite)
    rw [book_value] at hpos
    rw [book_of_pos hpos] at hf ⊢
    have hfile : ∀ x : FileDetails, ((s.showing (g.writeMsgWith host c.msg (u32 c.msg.length)
        c.writeMsgSize c.includeOffset c.sched).file.content).set 0 x)[0]? = some x := by
      intro x
      rw [List.getElem?_set_self]
      rw [length_showing]
      exact Nat.one_pos
    obtain rfl := Option.some.inj ((hfile _).symm.trans hf)
    refine ⟨_, FileDetails.writeMsgWith_moves_of_pos g host (u32_le _) hpos, ?_⟩
    have hname := FileDetails.writeMsgWith_fileName g host c.msg (u32 c.msg.length)
      c.writeMsgSize c.includeOffset c.sched
    show [(⟨_, (ConnectionFile.create directory topic maxFileSize).appendPosition (some found), _⟩ :
      Span)] = _
    rw [hposition]
    simp only [hname]
    rfl
  · cases h

theorem step_written (h : t.step host c = some t') :
    ∃ span, t'.written = t.written ++ [span] := by
  obtain ⟨w, -, h⟩ := Option.bind_eq_some_iff.mp h
  obtain ⟨f, -, h⟩ := Option.bind_eq_some_iff.mp h
  split at h
  · obtain rfl := Option.some.inj h
    exact ⟨_, rfl⟩
  · cases h

theorem run_written (h : run (step host) t calls = some t') :
    ∃ more, t'.written = t.written ++ more := by
  refine run_invariant (I := fun u => ∃ more, u.written = t.written ++ more) (P := fun _ _ => True)
    ?_ ⟨[], (List.append_nil _).symm⟩ (along_of_forall fun _ _ => trivial) h
  rintro u b u' ⟨more, hmore⟩ - hstep
  obtain ⟨span, hspan⟩ := step_written hstep
  exact ⟨more ++ [span], by rw [hspan, hmore, List.append_assoc]⟩

/-- Every life of the log writes the start of the file with index 0 first. -/
theorem run_writes_start (hcalls : calls ≠ [])
    (hrun : run (step host) (start directory topic maxFileSize disk) calls = some t) :
    ∃ last, 0 < last ∧ ⟨cStr (FileDetails.newfile directory topic 0), 0, last⟩ ∈ t.written := by
  cases calls with
  | nil => exact absurd rfl hcalls
  | cons c calls =>
      rw [run_cons] at hrun
      obtain ⟨t₁, hstep, hrest⟩ := Option.bind_eq_some_iff.mp hrun
      obtain ⟨last, hlast, hfirst⟩ := step_start hstep
      obtain ⟨more, hmore⟩ := run_written hrest
      refine ⟨last, hlast, ?_⟩
      rw [hmore, hfirst]
      exact List.mem_append_left _ List.mem_cons_self

end Steps

/-- What the earlier object has written is kept exactly where it has written
nothing, or where nothing is written after the restart.  The two objects may
have different sizes of a file, and any `pwrite` may write less than it is
asked for. -/
theorem frames_survive_restart_iff (host : ByteOrder) (directory topic : Bytes)
    (maxFileSize newMaxFileSize : Nat) (disk : Bytes → Bytes) {earlier calls : List Call}
    {old new : Lifetime}
    (hold : run (step host) (start directory topic maxFileSize disk) earlier = some old)
    (hnew : run (step host) (start directory topic newMaxFileSize old.disk) calls = some new) :
    (∀ w ∈ old.written, new.Keeps old.disk w) ↔ earlier = [] ∨ calls = [] := by
  constructor
  · intro hkeeps
    by_contra hboth
    obtain ⟨hearlier, hcalls⟩ := not_or.mp hboth
    obtain ⟨last, hlast, hfirst⟩ := run_writes_start hearlier hold
    obtain ⟨last', hlast', hover⟩ := run_writes_start hcalls hnew
    rcases (hkeeps _ hfirst).1 _ hover rfl with hle | hle
    · exact absurd hle (Nat.not_le.mpr hlast')
    · exact absurd hle (Nat.not_le.mpr hlast)
  · rintro (rfl | rfl) w hw
    · obtain rfl := Option.some.inj hold
      exact absurd hw List.not_mem_nil
    · obtain rfl := Option.some.inj hnew
      exact ⟨fun v hv => absurd hv List.not_mem_nil, rfl⟩

/-- One message before the restart and one after it. -/
theorem frames_survive_restart_iff_hello :
    ∃ old new,
      run (step .little) (start (ascii "/tmp") (ascii "t") 100 fun _ => [])
          [⟨.string, ascii "hello", true, false, []⟩] = some old ∧
        run (step .little) (start (ascii "/tmp") (ascii "t") 100 old.disk)
          [⟨.string, ascii "x", true, false, []⟩] = some new ∧
        ((∀ w ∈ old.written, new.Keeps old.disk w) ↔
          [(⟨.string, ascii "hello", true, false, []⟩ : Call)] = [] ∨
            [(⟨.string, ascii "x", true, false, []⟩ : Call)] = []) := by
  refine ⟨_, _, rfl, rfl, frames_survive_restart_iff .little (ascii "/tmp") (ascii "t") 100 100
    (fun _ => []) rfl rfl⟩

/-- The header and the first byte of `hello` are gone. -/
theorem frames_not_kept :
    ∃ old new,
      run (step .little) (start (ascii "/tmp") (ascii "t") 100 fun _ => [])
          [⟨.string, ascii "hello", true, false, []⟩] = some old ∧
        run (step .little) (start (ascii "/tmp") (ascii "t") 100 old.disk)
          [⟨.string, ascii "x", true, false, []⟩] = some new ∧
        ∃ w ∈ old.written, w.bytes old.disk = [5, 0, 0, 0] ++ ascii "hello" ∧
          w.bytes new.disk = [1, 0, 0, 0] ++ ascii "xello" ∧ ¬ new.Keeps old.disk w := by
  refine ⟨_, _, rfl, rfl, ⟨cStr (FileDetails.newfile (ascii "/tmp") (ascii "t") 0), 0, 9⟩, ?_, ?_, ?_, ?_⟩
  · decide
  · decide
  · decide
  · intro h
    exact absurd h.2 (by decide)

end Lifetime

end LightQ
