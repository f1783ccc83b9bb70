/-
# `Storage.FileDetails` — one log file (`file_details.h`)

A translation of `file_details`: the file behind `fd_` is its content, and
every system call takes its outcome from a schedule, the list of what the
successive calls do.  A schedule that is used up stands for calls that do
all they are asked.

Types of the source that are narrower than the values they receive are
kept, as the conversions of `Lib.MachineInt`: `uint32_t size`, the
`unsigned` size of `write_buffer`, the `size_t` that `write_msg` stores a
signed result in.  Offsets and byte totals (`uint64_t`) are `Nat`: no file
reaches `2^63` bytes.  Logging is left out; `LOG_RET(msg, x)` is `return x`.

`create_file` opens `newfile.c_str()`.  A name with a zero byte ends there for
`open`, and what comes behind the zero, the index among it, is not read
(`cStr_append_of_mem`); what `open` then finds is up to the log, which knows
its other files.  The index itself is decimal, and can be read back from its
digits (`decimal_inj`).

`send_file` has two bodies.  Linux is given `&size_offset` for the position,
and its result is what was sent; Apple is given the offset, and reports what
was sent in an argument, on failure too: the bytes that reach the socket are a
result of their own, beside the value.
-/
import Mathlib.Data.List.TakeWhile
import LightQ.Lib.MachineInt
import LightQ.Lib.Overlay
import LightQ.Lib.ByteOrder

namespace LightQ

open MachineInt Overlay

/-- A C++ `std::string` or `char` buffer. -/
abbrev Bytes := List UInt8

/-- The bytes of a string literal. -/
def ascii (s : String) : Bytes := s.toList.map (fun c => UInt8.ofNat c.toNat)

/-- `std::to_string` of an unsigned integer. -/
def decimal (n : Nat) : Bytes := (Nat.toDigits 10 n).map (fun c => UInt8.ofNat c.toNat)

theorem digit_code {c : Char} {n : Nat} (hc : c ∈ Nat.toDigits 10 n) :
    (UInt8.ofNat c.toNat).toNat = c.toNat ∧ 48 ≤ c.toNat ∧ c.toNat ≤ 57 := by
  have hdigit := Nat.isDigit_of_mem_toDigits (by decide) (by decide) hc
  simp only [Char.isDigit, Bool.and_eq_true, decide_eq_true_eq] at hdigit
  have hlow : 48 ≤ c.toNat := hdigit.1
  have hhigh : c.toNat ≤ 57 := hdigit.2
  have hsize : c.toNat < UInt8.size := Nat.lt_of_le_of_lt hhigh (by decide)
  exact ⟨UInt8.toNat_ofNat_of_lt' hsize, hlow, hhigh⟩

theorem digit_of_mem_decimal {b : UInt8} {n : Nat} (h : b ∈ decimal n) :
    48 ≤ b.toNat ∧ b.toNat ≤ 57 := by
  obtain ⟨c, hc, rfl⟩ := List.mem_map.mp h
  obtain ⟨hcode, hrange⟩ := digit_code hc
  rw [hcode]
  exact hrange

theorem decimal_inj {m n : Nat} : decimal m = decimal n ↔ m = n := by
  refine ⟨fun h => ?_, congrArg decimal⟩
  have hread : ∀ k, (decimal k).map (fun b => Char.ofNat b.toNat) = Nat.toDigits 10 k := by
    intro k
    rw [decimal, List.map_map]
    refine (List.map_congr_left fun c hc => ?_).trans (List.map_id _)
    show Char.ofNat (UInt8.ofNat c.toNat).toNat = c
    rw [(digit_code hc).1, Char.ofNat_toNat]
  have hchars := congrArg (List.map fun b => Char.ofNat b.toNat) h
  rw [hread, hread] at hchars
  rw [← Nat.ofDigitChars_ten_toDigits (n := m), hchars, Nat.ofDigitChars_ten_toDigits]

/-- `c_str()`, as a function of C reads it: up to the first zero. -/
def cStr (s : Bytes) : Bytes := s.takeWhile (· ≠ 0)

theorem cStr_of_not_mem {s : Bytes} (h : 0 ∉ s) : cStr s = s := by
  refine List.takeWhile_eq_self_iff.mpr fun b hb => decide_eq_true ?_
  rintro rfl
  exact h hb

/-- What comes behind a zero is not read. -/
theorem cStr_append_of_mem {s : Bytes} (h : 0 ∈ s) (t : Bytes) : cStr (s ++ t) = cStr s := by
  induction s with
  | nil => cases h
  | cons b s ih =>
      by_cases hb : b = 0
      · subst hb
        rfl
      · have hmem : 0 ∈ s := (List.mem_cons.mp h).resolve_left (Ne.symm hb)
        simp only [cStr, List.cons_append, List.takeWhile_cons, ne_eq, hb, not_false_eq_true,
          decide_true, if_true]
        exact congrArg (b :: ·) (ih hmem)

/-- `utils::max_msg_size`. -/
def maxMsgSize : Nat := 1024 * 1024

/-- What one `pwrite` call does: it writes at most `count` bytes of what it
is given and returns their number, or it returns `-1`. -/
inductive PwriteResult where
  | wrote (count : Nat)
  | error
deriving DecidableEq, Repr

/-- What one `pread` call does: it delivers at most `count` of the bytes
that exist and returns their number, or it returns `-1`. -/
inductive PreadResult where
  | got (count : Nat)
  | error
deriving DecidableEq, Repr

/-- What one `sendfile` call does: it sends at most `count` of the bytes it
is asked for, or it fails, on Apple possibly after sending some. -/
inductive SendfileResult where
  | sent (count : Nat)
  | failed (count : Nat)
deriving DecidableEq, Repr

/-- The two branches of `#ifdef __APPLE__`. -/
inductive Platform where
  | apple
  | linux
deriving DecidableEq, Repr

/-- A call that fails has sent nothing before. -/
def SendfileResult.Clean : Platform → SendfileResult → Prop
  | .apple, .failed k => k = 0
  | _, _ => True

/-- `file_details`, with the content of the file behind `fd_`. -/
structure FileDetails where
  content : Bytes
  bytesWrittenAcrossAllFiles : Nat
  fileName : Bytes
  offset : Nat
  writeCounter : Nat
deriving DecidableEq, Repr

/-- The result of a function that writes: its value, the file after it and
the outcomes still to come. -/
structure Written where
  value : Int
  file : FileDetails
  sched : List PwriteResult
deriving DecidableEq, Repr

/-- How a `while (remaning > 0)` loop over `pwrite` ends. -/
structure WriteEnd where
  file : FileDetails
  bytesWritten : Nat
  failed : Bool
  sched : List PwriteResult
deriving DecidableEq, Repr

/-- The result of a function that reads: its value, the caller's buffer
after it and the outcomes still to come. -/
structure Read where
  value : Int
  buffer : Bytes
  sched : List PreadResult
deriving DecidableEq, Repr

/-- How a `while (bytestoRead > 0)` loop over `pread` ends: the bytes it
stored, in order. -/
structure ReadEnd where
  bytes : Bytes
  failed : Bool
  sched : List PreadResult
deriving DecidableEq, Repr

/-- A store into a buffer.  One that reaches past the end of the buffer
makes the list longer. -/
def store (buffer : Bytes) (pos : Nat) (bs : Bytes) : Bytes := overlay 0 buffer pos bs

namespace FileDetails

/-! ## Writing -/

/-- A chunk that `pwrite` accepts at `offset_`, and `offset_ += result`. -/
def pwrite (f : FileDetails) (chunk : Bytes) : FileDetails :=
  { f with content := overlay 0 f.content f.offset chunk, offset := f.offset + chunk.length }

/-- The loop that `write_buffer`, `write_length` and `write_offset` share:
`pwrite` what remains of `buf` at `offset_` until nothing remains or a call
fails. -/
def writeLoop (f : FileDetails) (buf : Bytes) : List PwriteResult → WriteEnd
  | [] => ⟨f.pwrite buf, buf.length, false, []⟩
  | r :: rest =>
      if buf = [] then ⟨f, 0, false, r :: rest⟩
      else match r with
        | .error => ⟨f, 0, true, rest⟩
        | .wrote k =>
            let l := (f.pwrite (buf.take k)).writeLoop (buf.drop k) rest
            { l with bytesWritten := (buf.take k).length + l.bytesWritten }

/-- `write_buffer`: a failure after some bytes is reported as their number. -/
def writeBuffer (f : FileDetails) (buffer : Bytes) (size : Nat) (sched : List PwriteResult) :
    Written :=
  let l := f.writeLoop (buffer.take size) sched
  if l.failed then ⟨if 0 < l.bytesWritten then l.bytesWritten else -1, l.file, l.sched⟩
  else ⟨l.bytesWritten, l.file, l.sched⟩

/-- `write_length`: a failure is `return false`, that is 0. -/
def writeLength (host : ByteOrder) (f : FileDetails) (length : Nat)
    (sched : List PwriteResult) : Written :=
  let l := f.writeLoop (host.toBytes 4 length) sched
  if l.failed then ⟨0, l.file, l.sched⟩ else ⟨l.bytesWritten, l.file, l.sched⟩

/-- `write_offset`: appends the position it is written at. -/
def writeOffset (host : ByteOrder) (f : FileDetails) (sched : List PwriteResult) : Written :=
  let l := f.writeLoop (host.toBytes 8 f.offset) sched
  if l.failed then ⟨0, l.file, l.sched⟩ else ⟨l.bytesWritten, l.file, l.sched⟩

/-- The common body of the two `write_msg`, after the length has become an
unsigned 32-bit value.  `written_buffer` and `offset_written` are unsigned,
so that `<= 0` is `= 0` for them. -/
def writeMsgWith (host : ByteOrder) (f : FileDetails) (msg : Bytes) (msgLen : Nat)
    (includeSize includeOffset : Bool) (sched : List PwriteResult) : Written :=
  let size := u32 (msgLen + if includeOffset then 8 else 0)
  let l := if includeSize then f.writeLength host size sched else ⟨0, f, sched⟩
  if includeSize && l.value ≤ 0 then l
  else
    let b := l.file.writeBuffer msg msgLen l.sched
    let writtenBuffer := u64OfInt b.value
    if writtenBuffer = 0 then ⟨0, b.file, b.sched⟩
    else
      let o := if includeOffset then b.file.writeOffset host b.sched else ⟨0, b.file, b.sched⟩
      let offsetWritten := u32OfInt o.value
      if includeOffset && offsetWritten = 0 then ⟨0, o.file, o.sched⟩
      else
        ⟨i64 (l.value + writtenBuffer + offsetWritten),
          { o.file with writeCounter := u32 (o.file.writeCounter + 1) }, o.sched⟩

/-- `write_msg(const std::string &, ...)`: `msg.length()` is stored in a
`uint32_t` and passed on as an `unsigned`. -/
def writeMsg (host : ByteOrder) (f : FileDetails) (msg : Bytes)
    (includeSize includeOffset : Bool) (sched : List PwriteResult) : Written :=
  f.writeMsgWith host msg (u32 msg.length) includeSize includeOffset sched

/-- `write_msg(const char *, unsigned, ...)`. -/
def writeMsgPtr (host : ByteOrder) (f : FileDetails) (msg : Bytes) (msgLen : Nat)
    (includeSize includeOffset : Bool) (sched : List PwriteResult) : Written :=
  f.writeMsgWith host msg msgLen includeSize includeOffset sched

/-- `newfile` of `create_file`: the name of the file. -/
def newfile (directory filename : Bytes) (index : Nat) : Bytes :=
  directory ++ ascii "/" ++ filename ++ ascii "_" ++ decimal index ++ ascii ".txt"

/-- `create_file` on a fresh `file_details`.  `opened` is what `open` with
`O_RDWR | O_CREAT` finds at `cStr newfile`: the content of the file, empty if it
is new, or nothing when it fails. -/
def createFile (directory filename : Bytes) (index : Nat) (opened : Option Bytes) :
    Option FileDetails :=
  opened.map fun content =>
    { content := content
      bytesWrittenAcrossAllFiles := 0
      fileName := newfile directory filename index
      offset := 0
      writeCounter := 0 }

/-! ## Reading -/

/-- The bytes one `pread` of `count` bytes delivers; none at the end of the
file and on an error, which the callers do not tell apart. -/
def pread (region : Bytes) (count : Nat) : Option PreadResult → Bytes
  | none => region.take count
  | some (.got k) => region.take (min k count)
  | some .error => []

/-- The loop that `read_buffer_length` and `read_buffer` share.  `region` is
the file from the position on that every call of the loop is given: the
position does not move with what was read.  Each turn stores at least one
byte, so `need` turns are enough. -/
def readLoop (region : Bytes) : Nat → Nat → List PreadResult → ReadEnd
  | _, 0, sched => ⟨[], false, sched⟩
  | 0, _ + 1, sched => ⟨[], true, sched⟩
  | turns + 1, need + 1, sched =>
      let chunk := pread region (need + 1) sched.head?
      if chunk = [] then ⟨[], true, sched.tail⟩
      else
        let r := readLoop region turns (need + 1 - chunk.length) sched.tail
        { r with bytes := chunk ++ r.bytes }

/-- `read_buffer_length`. -/
def readBufferLength (host : ByteOrder) (f : FileDetails) (buffer : Bytes) (offset : Nat)
    (ntohlFlag : Bool) (sched : List PreadResult) : Read :=
  let r := readLoop (f.content.drop offset) 4 4 sched
  let buffer := store (store buffer 0 [0]) 0 r.bytes
  if r.failed then ⟨-1, buffer, r.sched⟩
  else
    let length := host.ofBytes (buffer.take 4)
    ⟨if ntohlFlag then host.ntohl length else length, buffer, r.sched⟩

/-- `read_buffer`; the pointer it is given is `pos` bytes into the caller's
buffer. -/
def readBuffer (f : FileDetails) (buffer : Bytes) (pos length offset : Nat)
    (sched : List PreadResult) : Read :=
  let r := readLoop (f.content.drop offset) length length sched
  let buffer := store buffer pos r.bytes
  if r.failed then ⟨-1, buffer, r.sched⟩ else ⟨length, buffer, r.sched⟩

/-- `read_msg`.  On a failed header read the source returns `offset`
(`LOG_RET` returns its second argument; the `return -1` after it is never
reached), on a failed body read and on an oversize header it returns
`size`. -/
def readMsg (host : ByteOrder) (f : FileDetails) (buffer : Bytes) (bufSize offset : Nat)
    (ntohlFlag : Bool) (sched : List PreadResult) : Read :=
  let r := f.readBufferLength host buffer offset ntohlFlag sched
  let size := r.value
  if size = 0 then ⟨size, r.buffer, r.sched⟩
  else if size < 0 then ⟨i64 offset, r.buffer, r.sched⟩
  else if (bufSize : Int) < size then ⟨size, r.buffer, r.sched⟩
  else
    let b := f.readBuffer r.buffer 4 size.toNat (offset + 4) r.sched
    if 0 < b.value then ⟨b.value + 4, b.buffer, b.sched⟩ else ⟨size, b.buffer, b.sched⟩

/-! ## Sending -/

/-- `sendfile(out, in, &pos, count)` of Linux: the value it returns and the
bytes it sends. -/
def sendfileLinux (content : Bytes) (pos count : Nat) : SendfileResult → Int × Bytes
  | .sent k =>
      let bytes := (content.drop pos).take (min k count)
      (bytes.length, bytes)
  | .failed _ => (-1, [])

/-- `sendfile(fd, s, offset, &len, NULL, 0)` of Apple: the value it returns,
what it leaves in `len` and the bytes it sends. -/
def sendfileApple (content : Bytes) (offset len : Nat) : SendfileResult → Int × Nat × Bytes
  | .sent k =>
      let bytes := (content.drop offset).take (min k len)
      (0, bytes.length, bytes)
  | .failed k =>
      let bytes := (content.drop offset).take (min k len)
      (-1, bytes.length, bytes)

/-- The two clamps at the start of `send_file`: the message limit, then what
the file holds from `offset` on. -/
def sendSize (f : FileDetails) (offset size : Nat) : Nat :=
  let size := if maxMsgSize < size then maxMsgSize else size
  if f.offset < size + offset then subU64 f.offset offset else size

/-- `send_file`: the value it returns and the bytes that reach the socket.
The Linux branch passes `&size_offset`, which holds the size, where the
position belongs.  `EAGAIN` is positive, so no failed call matches it. -/
def sendFile (platform : Platform) (f : FileDetails) (offset size : Nat)
    (r : SendfileResult) : Int × Bytes :=
  let size := f.sendSize offset size
  if size = 0 then (0, [])
  else
    let sizeOffset := size
    match platform with
    | .apple =>
        let (result, sizeOffset, bytes) := sendfileApple f.content offset sizeOffset r
        if result = 0 then (sizeOffset, bytes) else (-1, bytes)
    | .linux =>
        let (result, bytes) := sendfileLinux f.content sizeOffset size r
        if 0 ≤ result then (result, bytes) else (-1, bytes)

end FileDetails

end LightQ
