/-
# `Storage.ConnectionFile` — the rotated log of a topic (`connection_file.h`)

`connection_file` keeps one `file_details` per rotated file and a running
total of the bytes written to all of them.  `std::vector` elements are
reached by `[i]?`: an index out of range is undefined behaviour in the
source and `none` here.

The two `write_to_file` differ in what they do when `set_current_file`
fails, and in nothing else; they share the part after it.  `write` is
either of them, on a message whose length the caller has at hand and with
`write_msg_size` true, as `broker_storage` calls both.

Every file is opened by a name that is put together from the directory, the
topic and the index, and is read up to its first zero byte.  So the files of a
log are either different ones or all the same one (`OneFile`), in which case
they share their content: what `open` finds for the next file is what the
others hold (`found`), and what is written through one descriptor every other
one shows (`showing`).  `Distinct` is the condition under which a log is what
its vector of files suggests, at most one file or no zero byte in the name.

The search of `read` and of `send_file` goes through the vector in order and
compares the offset with the running total of each file; `prev` is the total
of the one before, from which the offset inside the file is computed.
-/
import LightQ.Storage.FileDetails

namespace LightQ

open MachineInt Overlay

/-- `connection_file`.  `total_bytes_writen_` and `msg_counter_` are `uint64_t` in the
source; no run counts to `2^64`. -/
structure ConnectionFile where
  directory : Bytes
  topic : Bytes
  fileFds : List FileDetails
  currentFdIndex : Nat
  maxFileSize : Nat
  totalBytesWriten : Nat
  msgCounter : Nat
deriving DecidableEq, Repr

/-- The result of `write_to_file`: its value, the object after it and the
outcomes still to come. -/
structure Appended where
  value : Int
  conn : ConnectionFile
  sched : List PwriteResult
deriving DecidableEq, Repr

namespace ConnectionFile

/-- The constructor, followed by `set_max_file_size`. -/
def create (directory topic : Bytes) (maxFileSize : Nat) : ConnectionFile :=
  { directory := directory
    topic := topic
    fileFds := []
    currentFdIndex := 0
    maxFileSize := maxFileSize
    totalBytesWriten := 0
    msgCounter := 0 }

/-- The `max_file_size_` that the constructor sets. -/
def defaultMaxFileSize : Nat := 2000000000

/-! `open` is given the name of a file as a C string, in which the index comes
behind the directory and the topic. -/

/-- A zero byte hides the index, and all files of the log are the same one. -/
def OneFile (s : ConnectionFile) : Prop := 0 ∈ s.directory ∨ 0 ∈ s.topic

instance (s : ConnectionFile) : Decidable s.OneFile := inferInstanceAs (Decidable (_ ∨ _))

/-- No two files of the log are the same. -/
def Distinct (s : ConnectionFile) : Prop := s.OneFile → s.fileFds.length ≤ 1

instance (s : ConnectionFile) : Decidable s.Distinct := inferInstanceAs (Decidable (_ → _))

/-- What `open` finds for one more file: one of the log that is the same, or
what is on disk. -/
def found (s : ConnectionFile) (opened : Option Bytes) : Option Bytes :=
  match s.fileFds with
  | [] => opened
  | f :: _ => if s.OneFile then opened.map fun _ => f.content else opened

/-- The files of the log when one of them holds `content`. -/
def showing (s : ConnectionFile) (content : Bytes) : List FileDetails :=
  if s.OneFile then s.fileFds.map fun f => { f with content := content } else s.fileFds

/-- `fd_to_use`: the quotient is stored in an `unsigned`. -/
def fdToUse (s : ConnectionFile) : Nat := u32 (s.totalBytesWriten / s.maxFileSize)

/-- `set_current_file`: its value and the object after it.  `opened` is what
is on disk if a file is created.  A failed creation is reported for the
first file only; for a later one the index moves all the same.  With a
`max_file_size_` of zero the source divides by it. -/
def setCurrentFile (s : ConnectionFile) (opened : Option Bytes) :
    Option (Bool × ConnectionFile) :=
  if s.fileFds.length = 0 then
    match FileDetails.createFile s.directory s.topic s.currentFdIndex opened with
    | some info => some (true, { s with fileFds := s.fileFds ++ [info] })
    | none => some (false, s)
  else if s.maxFileSize = 0 then none
  else if s.currentFdIndex < s.fdToUse then do
    let f ← s.fileFds[s.currentFdIndex]?
    let fileFds := s.fileFds.set s.currentFdIndex
      { f with bytesWrittenAcrossAllFiles := s.totalBytesWriten }
    let s := { s with fileFds := fileFds, currentFdIndex := s.fdToUse }
    match FileDetails.createFile s.directory s.topic s.currentFdIndex (s.found opened) with
    | some info => some (true, { s with fileFds := s.fileFds ++ [info] })
    | none => some (true, s)
  else some (true, s)

/-- What `write_to_file` does with the result of `write_msg` on the current
file: it is stored in an `int`, and a positive one is booked. -/
def book (s : ConnectionFile) (w : Written) : Appended :=
  let bytesWritten := i32 w.value
  let fileFds := s.showing w.file.content
  if 0 < bytesWritten then
    let total := s.totalBytesWriten + bytesWritten.toNat
    let f := { w.file with bytesWrittenAcrossAllFiles := total }
    ⟨bytesWritten,
      { s with
        fileFds := fileFds.set s.currentFdIndex f
        totalBytesWriten := total
        msgCounter := s.msgCounter + 1 }, w.sched⟩
  else ⟨bytesWritten, { s with fileFds := fileFds.set s.currentFdIndex w.file }, w.sched⟩

/-- `write_to_file(const std::string &, ...)`. -/
def writeToFile (host : ByteOrder) (s : ConnectionFile) (msg : Bytes)
    (writeMsgSize includeOffset : Bool) (opened : Option Bytes) (sched : List PwriteResult) :
    Option Appended := do
  let (ok, s) ← s.setCurrentFile opened
  if !ok then some ⟨-1, s, sched⟩
  else
    let f ← s.fileFds[s.currentFdIndex]?
    some (s.book (f.writeMsg host msg writeMsgSize includeOffset sched))

/-- `write_to_file(const char *, unsigned, ...)`: the value of
`set_current_file` is not looked at. -/
def writeToFilePtr (host : ByteOrder) (s : ConnectionFile) (msg : Bytes) (msgLen : Nat)
    (writeMsgSize includeOffset : Bool) (opened : Option Bytes) (sched : List PwriteResult) :
    Option Appended := do
  let (_, s) ← s.setCurrentFile opened
  let f ← s.fileFds[s.currentFdIndex]?
  some (s.book (f.writeMsgPtr host msg msgLen writeMsgSize includeOffset sched))

/-- Which of the two `write_to_file` is called. -/
inductive Overload where
  | string
  | pointer
deriving DecidableEq, Repr

/-- Either `write_to_file`, with `write_msg_size` true, as all callers have it.
The length that goes with a pointer is an `unsigned`. -/
def write (host : ByteOrder) (s : ConnectionFile) (overload : Overload) (msg : Bytes)
    (includeOffset : Bool) (opened : Option Bytes) (sched : List PwriteResult) :
    Option Appended :=
  match overload with
  | .string => s.writeToFile host msg true includeOffset opened sched
  | .pointer => s.writeToFilePtr host msg (u32 msg.length) true includeOffset opened sched

/-! ## Reading -/

/-- An offset, less the running total of the file before, if there is one. -/
def offsetInFile (prev : Option Nat) (offset : Nat) : Nat :=
  match prev with
  | some p => subU64 offset p
  | none => offset

/-- The loop of `read` over the files from index `i` on.  `prev` is the
running total of file `i - 1`, which exists for `i > 0`; `offsetCurrent` is
`offset_currentfile`.  A file whose read does not give a positive value is
passed over like one that ends before `offset`. -/
def readFrom (host : ByteOrder) (offset : Nat) (ntohl : Bool) (sizeOfBuffer : Nat) :
    List FileDetails → Option Nat → Nat → Bytes → List PreadResult → Read
  | [], _, _, buffer, sched => ⟨-1, buffer, sched⟩
  | f :: fs, prev, offsetCurrent, buffer, sched =>
      if f.bytesWrittenAcrossAllFiles ≤ offset then
        readFrom host offset ntohl sizeOfBuffer fs (some f.bytesWrittenAcrossAllFiles)
          offsetCurrent buffer sched
      else
        let offsetCurrent := offsetInFile prev offsetCurrent
        let r := f.readMsg host buffer sizeOfBuffer offsetCurrent ntohl sched
        if 0 < r.value then r
        else
          readFrom host offset ntohl sizeOfBuffer fs (some f.bytesWrittenAcrossAllFiles)
            offsetCurrent r.buffer r.sched

/-- `read`. -/
def read (host : ByteOrder) (s : ConnectionFile) (buffer : Bytes) (sizeOfBuffer offset : Nat)
    (ntohl : Bool) (sched : List PreadResult) : Read :=
  if s.fileFds.length = 0 then ⟨0, buffer, sched⟩
  else readFrom host offset ntohl sizeOfBuffer s.fileFds none offset buffer sched

/-! ## Sending -/

/-- The loop of `send_file` over the files: the first one that reaches past
`offset` is the one that is sent from, whatever comes of it. -/
def sendFrom (platform : Platform) (offset size : Nat) (r : SendfileResult) :
    List FileDetails → Option Nat → Int × Bytes
  | [], _ => (0, [])
  | f :: fs, prev =>
      if f.bytesWrittenAcrossAllFiles ≤ offset then
        sendFrom platform offset size r fs (some f.bytesWrittenAcrossAllFiles)
      else
        let offsetCurrent := offsetInFile prev offset
        let (bytesRead, bytes) := f.sendFile platform offsetCurrent size r
        if 0 < bytesRead then (bytesRead, bytes) else (-1, bytes)

/-- `send_file`: the value it returns and the bytes that reach the socket. -/
def sendFile (platform : Platform) (s : ConnectionFile) (offset size : Nat)
    (r : SendfileResult) : Int × Bytes :=
  if s.totalBytesWriten ≤ offset then (0, [])
  else sendFrom platform offset size r s.fileFds none

end ConnectionFile

end LightQ
