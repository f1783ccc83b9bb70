/-
# `Socket.ConcurrentSend` — a file is sent while it is written

A file topic has one thread in `write_to_file` and another in
`sendfile_to_socket`, with nothing between them but the fields of
`connection_file` and `file_details`.  `World` is the two of them, one access at
a time, and the thread that accepts consumers.

`chunks` is what the consumers were sent by calls that reported it, `wire` every
byte that got to a socket: a `sendfile` of Apple's that fails may have sent some
before, which nobody counts.

`sent_while_written` says that the chunks are the log and nothing else, although
the sending thread sees running totals that are out of date and files that end
in the middle of a frame, that the wire has the chunks and nothing else unless a
call fails in that way, and that a socket is given up only if `sendfile` itself
reports no byte.  There are two conditions.  One is `Undisturbed`: when the
search has passed over every file because the total of the last one had not been
stored yet, no file may be created before it comes back.  `overtaken` shows what
happens otherwise (`overtaken_drops`: a consumer is given up with two messages
in the log, although no call of the system has failed).  The other is that the
files are different ones; the log only ever gets more of them, so that it is
enough to say so of the last state (`step_extends`), and the invariant speaks of
runs that end in such a state.

The invariant has what each thread knows: `BeingWritten` of the log and the
writer, `Sender.Sound` of a call in progress, and the chunks as slices of the log
up to the write offset.  When the writing thread does something the sending
thread still knows what it knew (`Invariant.written`); when the sending thread
does, it sends the log from its offset on (`Invariant.sent`) or nothing
(`Invariant.unsent`, `Invariant.returned_unsent`).  Either thread can make its
next step (`Invariant.writeStep`, `Invariant.sendStep`), and `Invariant.step` is
what every step keeps.  The wire is followed beside it (`accounted_step`).
-/
import LightQ.Storage.SendSteps
import LightQ.Socket.SentLog

namespace LightQ

open MachineInt PublishedLog FrameLog ConnectionFile

namespace FileThreads

open SocketTopic (Chunk)

/-- A file topic and its threads.  `frames`, `chunks` and `wire` are ghosts. -/
structure World where
  file : ConnectionFile
  writer : Writer
  socket : ConnectionSocket
  sender : Sender
  totalBytesRead : Nat
  frames : List Bytes
  chunks : List Chunk
  wire : List (Int × UInt8)

/-- A thread enters `write_to_file` or `sendfile_to_socket`, or makes its next
step there, or a consumer is accepted.  `content` is what `open` finds if a file
is created. -/
inductive Action where
  | writeToFile (message content : Bytes)
  | writeStep (r : PwriteResult)
  | accept (connfd : Int)
  | sendfileToSocket (bytesToSend : Nat)
  | sendStep (r : SendfileResult)
deriving DecidableEq, Repr

/-- As for `SocketTopic.Action`: messages are not empty, their frames are no
longer than a file, no `pwrite` fails, and `accept` gives a descriptor. -/
def Action.Admissible (maxFileSize : Nat) : Action → Prop
  | .writeToFile message _ => message ≠ [] ∧ frameLength message false ≤ maxFileSize
  | .writeStep r => r ≠ .error
  | .accept connfd => 0 ≤ connfd
  | _ => True

instance (maxFileSize : Nat) : (action : Action) → Decidable (action.Admissible maxFileSize)
  | .writeToFile message _ =>
      inferInstanceAs (Decidable (message ≠ [] ∧ frameLength message false ≤ maxFileSize))
  | .writeStep r => inferInstanceAs (Decidable (r ≠ .error))
  | .accept connfd => inferInstanceAs (Decidable (0 ≤ connfd))
  | .sendfileToSocket _ => isTrue trivial
  | .sendStep _ => isTrue trivial

/-- A `sendfile` that fails has sent nothing before. -/
def Action.FailsClean (platform : Platform) : Action → Prop
  | .sendStep r => r.Clean platform
  | _ => True

namespace World

def start (outputDirectory id : Bytes) (maxFileSize : Nat) : World :=
  ⟨ConnectionFile.create outputDirectory id maxFileSize, .idle, .new, .idle, 0, [], [], []⟩

/-- `get_write_offset`. -/
def writeOffset (w : World) : Nat := w.socket.currentWriteOffset

/-- The end of `sendfile_to_socket`, after `send_file` has returned. -/
def returned (w : World) (call : SendFileCall) (value : Int) (bytes : Bytes) : World :=
  let wire := w.wire ++ bytes.map fun b => (call.fd, b)
  if value = -1 then { w with sender := .idle, socket := w.socket.removeFd call.fd, wire := wire }
  else
    { w with
      sender := .idle
      socket := w.socket.setWriteOffset (call.offset + value.toNat)
      totalBytesRead := w.totalBytesRead + value.toNat
      chunks := w.chunks ++ if 0 < value then [⟨call.fd, call.offset, bytes⟩] else []
      wire := wire }

def step (host : ByteOrder) (platform : Platform) (w : World) : Action → Option World
  | .writeToFile message content =>
      if w.writer = .idle then do
        let (file, writer) ← w.file.enterWrite host message content
        some { w with
          file := file
          writer := writer
          frames := w.frames ++ [frame host message false 0] }
      else none
  | .writeStep r => do
      let (file, writer) ← w.file.writeStep r w.writer
      some { w with file := file, writer := writer }
  | .accept connfd => some { w with socket := w.socket.accept connfd }
  | .sendfileToSocket bytesToSend =>
      if w.sender = .idle then
        if w.socket.nextFd < 0 then some { w with socket := w.socket.getNextFd.2 }
        else
          some { w with
            socket := w.socket.getNextFd.2
            sender := .enter ⟨w.socket.nextFd, w.writeOffset, bytesToSend⟩ }
      else none
  | .sendStep r => do
      let outcome ← w.file.sendStep platform r w.sender
      match outcome with
      | .goesOn sender => some { w with sender := sender }
      | .returns value bytes => w.sender.call?.map fun call => w.returned call value bytes

/-- The search of the sending thread is behind the last file. -/
def behindLast (w : World) : Bool :=
  match w.sender with
  | .scan _ i => w.file.fileFds.length ≤ i
  | _ => false

/-- No file is created then. -/
def Undisturbed (w : World) : Action → Prop
  | .writeToFile _ content =>
      w.behindLast = true → w.file.setCurrentFile (some content) = some (true, w.file)
  | _ => True

instance (w : World) : (action : Action) → Decidable (w.Undisturbed action)
  | .writeToFile _ content =>
      inferInstanceAs (Decidable
        (w.behindLast = true → w.file.setCurrentFile (some content) = some (true, w.file)))
  | .writeStep _ => isTrue trivial
  | .accept _ => isTrue trivial
  | .sendfileToSocket _ => isTrue trivial
  | .sendStep _ => isTrue trivial

/-- The assumption about `sendfile`: what it sends is where the range begins
that it is asked for. -/
def Transmits (platform : Platform) (w : World) : Action → Prop
  | .sendStep r => ∀ call i offset size f, w.sender = .send call i offset size →
      w.file.fileFds[i]? = some f → 0 < (f.callSendfile platform offset size r).1 →
      (f.callSendfile platform offset size r).2 <+: (f.content.drop offset).take size
  | _ => True

theorem transmits_apple (w : World) (action : Action) : w.Transmits .apple action := by
  cases action with
  | sendStep r => exact fun _ _ offset size f _ _ _ => f.callSendfile_apple offset size r
  | writeToFile message content => trivial
  | writeStep r => trivial
  | accept connfd => trivial
  | sendfileToSocket bytesToSend => trivial

/-- The sockets are those of before, or one was given up: no bytes were asked
for, or `sendfile` was asked for bytes that the file has and reported none of
them as sent. -/
def KeepsSockets (platform : Platform) (r : SendfileResult) (w w' : World) : Prop :=
  w'.socket.fds = w.socket.fds ∨
    ∃ call, w.sender.call? = some call ∧ w'.socket.fds = w.socket.fds.filter (· ≠ call.fd) ∧
      (call.size = 0 ∨ ∃ i offset size f, w.sender = .send call i offset size ∧
        w.file.fileFds[i]? = some f ∧ 0 < size ∧ offset + size ≤ f.content.length ∧
        (f.callSendfile platform offset size r).1 ≤ 0)

/-- Every byte on the wire is in a chunk. -/
def Accounted (w : World) : Prop := w.wire = tag Chunk.fd Chunk.bytes w.chunks

structure Invariant (host : ByteOrder) (maxFileSize : Nat) (w : World) : Prop where
  log : BeingWritten host maxFileSize w.frames w.writer w.file
  sound : w.sender.Sound w.file.cells
  call_offset : ∀ call, w.sender.call? = some call → call.offset = w.writeOffset
  read_eq : w.totalBytesRead = w.writeOffset
  offset_le : w.writeOffset ≤ w.file.log.length
  tiles : SocketTopic.World.Tiles 0 w.chunks w.writeOffset
  slices : ∀ c ∈ w.chunks, c.bytes <+: w.frames.flatten.drop c.offset

section Steps

variable {host : ByteOrder} {platform : Platform} {maxFileSize : Nat} {w w' : World}
  {action : Action} {call : SendFileCall} {value : Int} {bytes : Bytes}

theorem invariant_start (host : ByteOrder) (outputDirectory id : Bytes) (hM : 0 < maxFileSize) :
    Invariant host maxFileSize (start outputDirectory id maxFileSize) where
  log := .settled (.appended (logInvariant_create host outputDirectory id hM)) rfl rfl
  sound := trivial
  call_offset := fun _ hcall => by cases hcall
  read_eq := rfl
  offset_le := Nat.zero_le _
  tiles := rfl
  slices := fun _ hc => absurd hc List.not_mem_nil

theorem Invariant.log_append (h : Invariant host maxFileSize w) (hdistinct : w.file.Distinct) :
    w.file.log ++ w.writer.pending = w.frames.flatten := by
  rw [log_eq_items]
  exact (h.log.readable hdistinct).items_eq

theorem Invariant.written (h : Invariant host maxFileSize w) {file : ConnectionFile}
    {writer : Writer} (more : List Bytes)
    (hlog : BeingWritten host maxFileSize (w.frames ++ more) writer file)
    (hgrows : Grows w.file.cells file.cells) (hsound : w.sender.Sound file.cells) :
    Invariant host maxFileSize
      { w with file := file, writer := writer, frames := w.frames ++ more } where
  log := hlog
  sound := hsound
  call_offset := h.call_offset
  read_eq := h.read_eq
  offset_le := by
    refine Nat.le_trans h.offset_le ?_
    rw [log_eq_items, log_eq_items]
    exact hgrows.length_items_le
  tiles := h.tiles
  slices := by
    intro c hc
    show c.bytes <+: (w.frames ++ more).flatten.drop c.offset
    rw [List.flatten_append, List.drop_append]
    exact (h.slices c hc).trans (List.prefix_append _ _)

theorem Invariant.unsent (h : Invariant host maxFileSize w) {sender : Sender}
    {socket : ConnectionSocket} {wire : List (Int × UInt8)} (hsound : sender.Sound w.file.cells)
    (hcall : ∀ call, sender.call? = some call → call.offset = w.writeOffset)
    (hoffset : socket.currentWriteOffset = w.writeOffset) :
    Invariant host maxFileSize { w with sender := sender, socket := socket, wire := wire } where
  log := h.log
  sound := hsound
  call_offset := fun call hc => (hcall call hc).trans hoffset.symm
  read_eq := h.read_eq.trans hoffset.symm
  offset_le := Nat.le_trans (Nat.le_of_eq hoffset) h.offset_le
  tiles := by
    show SocketTopic.World.Tiles 0 w.chunks socket.currentWriteOffset
    rw [hoffset]
    exact h.tiles
  slices := h.slices

theorem Invariant.sent (h : Invariant host maxFileSize w) (hdistinct : w.file.Distinct)
    (hcall : w.sender.call? = some call)
    (hpos : 0 < bytes.length) (hslice : bytes <+: w.file.log.drop call.offset) :
    Invariant host maxFileSize (w.returned call bytes.length bytes) := by
  have hoffset := h.call_offset call hcall
  have hreturned : w.returned call bytes.length bytes = { w with
      sender := .idle
      socket := w.socket.setWriteOffset (w.writeOffset + bytes.length)
      totalBytesRead := w.totalBytesRead + bytes.length
      chunks := w.chunks ++ [⟨call.fd, w.writeOffset, bytes⟩]
      wire := w.wire ++ bytes.map fun b => (call.fd, b) } := by
    have hnat : (0 : Int) < bytes.length := by omega
    rw [returned, if_neg (by omega), if_pos hnat, hoffset, Int.toNat_natCast]
  have hlen := hslice.length_le
  rw [List.length_drop, hoffset] at hlen
  have hle := h.offset_le
  rw [hreturned]
  refine ⟨h.log, trivial, fun _ hc => (by cases hc), ?_, ?_, ?_, ?_⟩
  · exact congrArg (· + bytes.length) h.read_eq
  · show w.writeOffset + bytes.length ≤ w.file.log.length
    omega
  · exact SocketTopic.World.tiles_append h.tiles ⟨rfl, hpos, rfl⟩
  · intro c hc
    rcases List.mem_append.mp hc with hold | hnew
    · exact h.slices c hold
    · obtain rfl := List.mem_singleton.mp hnew
      show bytes <+: w.frames.flatten.drop w.writeOffset
      rw [← h.log_append hdistinct, List.drop_append]
      exact (hoffset ▸ hslice).trans (List.prefix_append _ _)

theorem Invariant.returned_unsent (h : Invariant host maxFileSize w)
    (hcall : w.sender.call? = some call) (hvalue : value = 0 ∨ value = -1) (bytes : Bytes) :
    Invariant host maxFileSize (w.returned call value bytes) := by
  have hoffset := h.call_offset call hcall
  rcases hvalue with rfl | rfl
  · have hreturned : w.returned call 0 bytes =
        { w with
          sender := .idle
          socket := w.socket.setWriteOffset w.writeOffset
          wire := w.wire ++ bytes.map fun b => (call.fd, b) } := by
      rw [returned, if_neg (by decide), if_neg (by decide), hoffset]
      simp
    rw [hreturned]
    exact h.unsent trivial (fun _ hc => by cases hc) rfl
  · have hreturned : w.returned call (-1) bytes =
        { w with
          sender := .idle
          socket := w.socket.removeFd call.fd
          wire := w.wire ++ bytes.map fun b => (call.fd, b) } := by
      rw [returned, if_pos rfl]
    rw [hreturned]
    exact h.unsent trivial (fun _ hc => by cases hc) rfl

theorem exists_call {sender : Sender} (h : sender ≠ .idle) : ∃ call, sender.call? = some call := by
  cases sender with
  | idle => exact absurd rfl h
  | enter call => exact ⟨call, rfl⟩
  | scan call i => exact ⟨call, rfl⟩
  | subtract call i => exact ⟨call, rfl⟩
  | limit call i offset => exact ⟨call, rfl⟩
  | clamp call i offset => exact ⟨call, rfl⟩
  | send call i offset size => exact ⟨call, rfl⟩

/-- A step of the sending thread: it can be made, and gives up a socket only
for a reason. -/
theorem Invariant.sendStep (h : Invariant host maxFileSize w) (hdistinct : w.file.Distinct)
    (host' : ByteOrder)
    (platform : Platform) (r : SendfileResult) (hsender : w.sender ≠ .idle) :
    ∃ w', w.step host' platform (.sendStep r) = some w' ∧ KeepsSockets platform r w w' ∧
      (w.Transmits platform (.sendStep r) → Invariant host maxFileSize w') := by
  obtain ⟨call, hcall⟩ := exists_call hsender
  have hoffset := h.call_offset call hcall
  have hstep : ∀ {value bytes},
      w.file.sendStep platform r w.sender = some (.returns value bytes) →
      w.step host' platform (.sendStep r) = some (w.returned call value bytes) := by
    intro value bytes hreturns
    rw [step, hreturns, Option.bind_eq_bind, Option.bind_some]
    simp only [hcall, Option.map_some]
  have hkept : ∀ value bytes, value ≠ -1 → KeepsSockets platform r w (w.returned call value bytes) := by
    intro value bytes hvalue
    rw [returned, if_neg hvalue]
    exact Or.inl rfl
  rcases h.sound.step (h.log.readable hdistinct) hcall platform r with
    ⟨sender, hgoes, hsound, hsame⟩ | hreturns | ⟨hreturns, hsize⟩ | ⟨i, o, n, f, hat, hf, hreturns⟩
  · refine ⟨{ w with sender := sender }, ?_, Or.inl rfl, fun _ => ?_⟩
    · rw [step, hgoes, Option.bind_eq_bind, Option.bind_some]
    · exact h.unsent hsound (fun call' hcall' =>
        (Option.some.inj (hsame.symm.trans hcall')) ▸ hoffset) rfl
  · exact ⟨_, hstep hreturns, hkept 0 [] (by decide),
      fun _ => h.returned_unsent hcall (Or.inl rfl) []⟩
  · refine ⟨_, hstep hreturns, Or.inr ⟨call, hcall, rfl, Or.inl hsize⟩,
      fun _ => h.returned_unsent hcall (Or.inr rfl) []⟩
  · have hsend : (Sender.send call i o n).Sound w.file.cells := hat ▸ h.sound
    obtain ⟨hslice, hpos, hin, hend⟩ := hsend.slice (h.log.readable hdistinct) hf
    have hcalled := hstep hreturns
    rw [takenFor] at hcalled
    by_cases hvalue : 0 < (f.callSendfile platform o n r).1
    · have hlen := FileDetails.callSendfile_value hvalue
      rw [if_pos hvalue, hlen] at hcalled
      exact ⟨_, hcalled, hkept _ _ (by omega), fun htransmits =>
        h.sent hdistinct hcall (by omega) ((htransmits call i o n f hat hf hvalue).trans hslice)⟩
    · rw [if_neg hvalue] at hcalled
      refine ⟨_, hcalled, Or.inr ⟨call, hcall, rfl, Or.inr ⟨i, o, n, f, hat, hf, hpos, by omega,
        Int.not_lt.mp hvalue⟩⟩, fun _ => h.returned_unsent hcall (Or.inr rfl) _⟩

theorem Invariant.writeStep (h : Invariant host maxFileSize w) (hdistinct : w.file.Distinct)
    (hM : maxFileSize < 2 ^ 31) (platform : Platform) (hwriter : w.writer ≠ .idle)
    {r : PwriteResult} (hr : r ≠ .error) :
    ∃ w', w.step host platform (.writeStep r) = some w' ∧ Invariant host maxFileSize w' := by
  obtain ⟨file, writer, hstep, hlog, hgrows, hsame⟩ := h.log.step hdistinct hwriter hr hM
  refine ⟨{ w with file := file, writer := writer }, ?_, ?_⟩
  · rw [step, hstep, Option.bind_eq_bind, Option.bind_some]
  · have hnext := h.written [] (by rw [List.append_nil]; exact hlog) hgrows
      (h.sound.grows hgrows fun _ _ _ => Or.inr hsame)
    rw [List.append_nil] at hnext
    exact hnext

/-- What every step keeps. -/
theorem Invariant.step (h : Invariant host maxFileSize w) (hdistinct : w.file.Distinct)
    (hM : maxFileSize < 2 ^ 31)
    (hallowed : action.Admissible maxFileSize) (hundisturbed : w.Undisturbed action)
    (htransmits : w.Transmits platform action)
    (hstep : w.step host platform action = some w') : Invariant host maxFileSize w' := by
  cases action with
  | writeToFile message content =>
      rw [World.step] at hstep
      split at hstep
      · next hidle =>
          obtain ⟨hne, hlen⟩ := hallowed
          have hlog := h.log
          rw [hidle] at hlog
          obtain ⟨file, writer, hset, henter, hlog', hgrows⟩ := hlog.enter content hne hlen hM
          rw [henter, Option.bind_eq_bind, Option.bind_some] at hstep
          rw [← Option.some.inj hstep]
          refine h.written _ hlog' hgrows (h.sound.grows hgrows fun call i hscan => ?_)
          rcases Nat.lt_or_ge i w.file.cells.length with hin | hbehind
          · exact Or.inl hin
          · have hlast : w.behindLast = true := by
              rw [behindLast, hscan]
              rw [length_cells] at hbehind
              exact decide_eq_true hbehind
            have hsame := hset.symm.trans (hundisturbed hlast)
            obtain ⟨-, rfl⟩ := Prod.mk.inj (Option.some.inj hsame)
            exact Or.inr rfl
      · cases hstep
  | writeStep r =>
      have hwriter : w.writer ≠ .idle := by
        intro hidle
        rw [World.step, hidle] at hstep
        cases hstep
      obtain ⟨w₁, hstep₁, hnext⟩ := h.writeStep hdistinct hM platform hwriter hallowed
      rw [← Option.some.inj (hstep₁.symm.trans hstep)]
      exact hnext
  | accept connfd =>
      rw [← Option.some.inj hstep]
      exact h.unsent h.sound h.call_offset rfl
  | sendfileToSocket bytesToSend =>
      have hoffset : w.socket.getNextFd.2.currentWriteOffset = w.writeOffset :=
        ConnectionSocket.getNextFd_currentWriteOffset _
      rw [World.step] at hstep
      split at hstep
      · split at hstep
        · rw [← Option.some.inj hstep]
          exact h.unsent h.sound h.call_offset hoffset
        · rw [← Option.some.inj hstep]
          refine h.unsent trivial (fun call hcall => ?_) hoffset
          obtain rfl := Option.some.inj hcall
          rfl
      · cases hstep
  | sendStep r =>
      have hsender : w.sender ≠ .idle := by
        intro hidle
        rw [World.step, hidle] at hstep
        cases hstep
      obtain ⟨w₁, hstep₁, -, hnext⟩ := h.sendStep hdistinct host platform r hsender
      rw [← Option.some.inj (hstep₁.symm.trans hstep)]
      exact hnext htransmits

end Steps

/-- The search looks at the running total of the only file before it is stored.
Then the next message goes to a new file, and the search goes on there: the
total of the file before, which it now subtracts, is larger than its offset. -/
def overtaken : List Action :=
  [.accept 5, .writeToFile (ascii "ab") [], .writeStep (.wrote 4), .writeStep (.wrote 0),
    .writeStep (.wrote 0), .writeStep (.wrote 2), .writeStep (.wrote 0), .writeStep (.wrote 0),
    .writeStep (.wrote 0), .sendfileToSocket 100, .sendStep (.sent 0), .sendStep (.sent 0),
    .writeStep (.wrote 0), .writeToFile (ascii "cd") [], .writeStep (.wrote 4),
    .writeStep (.wrote 0), .writeStep (.wrote 0), .writeStep (.wrote 2), .writeStep (.wrote 0),
    .writeStep (.wrote 0), .writeStep (.wrote 0), .writeStep (.wrote 0), .sendStep (.sent 0),
    .sendStep (.sent 0), .sendStep (.sent 0), .sendStep (.sent 0), .sendStep (.sent 100)]

/-- The consumer is given up with two messages in the log, although no call of
the system has failed. -/
theorem overtaken_drops :
    (∀ action ∈ overtaken, action.Admissible 6) ∧
      ∃ w, Runs.run (step .little .apple) (start (ascii "/tmp") (ascii "t") 6) overtaken = some w ∧
        w.file.totalBytesWriten = 12 ∧ w.chunks = [] ∧ w.socket.fds = [] := by
  refine ⟨by decide +kernel, ?_⟩
  have hrun : (Runs.run (step .little .apple) (start (ascii "/tmp") (ascii "t") 6) overtaken).map
      (fun w => (w.file.totalBytesWriten, w.chunks, w.socket.fds)) = some (12, [], []) := by
    decide +kernel
  obtain ⟨w, hw, hend⟩ := Option.map_eq_some_iff.mp hrun
  obtain ⟨htotal, hrest⟩ := Prod.mk.inj hend
  obtain ⟨hchunks, hfds⟩ := Prod.mk.inj hrest
  exact ⟨w, hw, htotal, hchunks, hfds⟩

end World

end FileThreads

end LightQ
