/-
# `Socket.ConnectionSocket` — a file topic with raw-socket consumers

`consumer::sendfile_to_socket` picks the next socket of a `connection_socket`
and sends it what lies in the log behind `current_write_offset_`.  All
consumers of the topic share that one offset; which of them gets a chunk is
decided anew for each.

Modelled are the members that this path uses: the sockets, the index of the
next one and the write offset, with `connection_file::send_file` as it is in
`Storage`.  `World` adds the threads around it: messages are added to the
storage, `set_current_file` may run ahead of an append, consumers connect,
and `sendfile_to_socket` is called.  `frames`, `chunks` and `wire` are ghosts:
what has been published, what the calls that succeeded sent, and every byte
that a socket was given, also by a call that failed after it.

`Invariant.step` is the account of every step: the topic grows by frames, each
longer than a header, or a chunk is sent (`Change`).  What is sent comes from
the log; it is a slice of the frames when the files of the log are different
ones.

There is a lemma for each kind of step.  An append makes the log longer
(`Invariant.addToStorage`), a file created ahead of one changes nothing in it
(`Invariant.setCurrentFile`), a call that sends nothing keeps everything
(`Invariant.idle`), and one that sends moves both offsets, not past the end of
the log (`Invariant.sends`).  Of a call of `sendfile_to_socket` there are two
kinds, those that find a socket and whose `send_file` is not an error
(`step_sends`), and the others (`step_idle`); either comes back, and has done
nothing or sent what the file that the write offset lies in gives
(`Invariant.send_cases`).  The call leaves the log alone
(`sendfileToSocket_pFile`), and files that are different ones after a step were
so before (`step_filesExtend`).
-/
import LightQ.Lib.Runs
import LightQ.Storage.OpenLog
import LightQ.Storage.BrokerStorage

namespace LightQ

open MachineInt FrameLog

/-- `connection_socket`, as far as it sends files. -/
structure ConnectionSocket where
  fds : List Int
  currentFdIndex : Nat
  currentWriteOffset : Nat
deriving DecidableEq, Repr

namespace ConnectionSocket

/-- The constructor. -/
def new : ConnectionSocket := ⟨[], 0, 0⟩

/-- `get_next_fd`: an `unsigned`, also where it is -1. -/
def getNextFd (s : ConnectionSocket) : Nat × ConnectionSocket :=
  if s.fds.length = 0 then (u32OfInt (-1), s)
  else
    let index := if s.fds.length ≤ s.currentFdIndex then 0 else s.currentFdIndex
    (u32OfInt (s.fds.getD index 0), { s with currentFdIndex := u32 (index + 1) })

/-- `remove_fd`. -/
def removeFd (s : ConnectionSocket) (fd : Int) : ConnectionSocket :=
  { s with fds := s.fds.filter (· ≠ fd) }

/-- `fds_.push_back(connfd)`, of the thread that accepts. -/
def accept (s : ConnectionSocket) (connfd : Int) : ConnectionSocket :=
  { s with fds := s.fds ++ [connfd] }

/-- `set_write_offset`. -/
def setWriteOffset (s : ConnectionSocket) (offset : Nat) : ConnectionSocket :=
  { s with currentWriteOffset := offset }

@[simp] theorem getNextFd_currentWriteOffset (s : ConnectionSocket) :
    s.getNextFd.2.currentWriteOffset = s.currentWriteOffset := by
  rw [getNextFd]
  split
  · rfl
  · rfl

/-- `int socket_fd = psocket->get_next_fd()`. -/
def nextFd (s : ConnectionSocket) : Int := i32 s.getNextFd.1

end ConnectionSocket

/-- `add_total_bytes_read`. -/
def BrokerStorage.addTotalBytesRead (s : BrokerStorage) (bytesRead : Nat) : BrokerStorage :=
  { s with totalBytesRead := s.totalBytesRead + bytesRead }

/-- A `consumer` of raw sockets: its storage and its socket. -/
structure SocketConsumer where
  storage : BrokerStorage
  socket : ConnectionSocket

/-- The result of `sendfile_to_socket`: its value, the objects after it, and
the bytes that the socket it picked is sent. -/
structure SentToSocket where
  value : Int
  consumer : SocketConsumer
  fd : Int
  bytes : Bytes

namespace SocketConsumer

/-- `sendfile_to_socket`.  `send_file` has no negative value but -1, on which
the source leaves the loop, so that its loop turns once. -/
def sendfileToSocket (platform : Platform) (c : SocketConsumer) (bytesToSend : Nat)
    (r : SendfileResult) : Option SentToSocket :=
  let socketFd := c.socket.nextFd
  let socket := c.socket.getNextFd.2
  if socketFd < 0 then some ⟨0, ⟨c.storage, socket⟩, socketFd, []⟩
  else do
    let offset := socket.currentWriteOffset
    let file ← c.storage.pFile
    let (result, bytes) := file.sendFile platform offset bytesToSend r
    if result = -1 then some ⟨result, ⟨c.storage, socket.removeFd socketFd⟩, socketFd, bytes⟩
    else
      some ⟨result, ⟨c.storage.addTotalBytesRead result.toNat,
        socket.setWriteOffset (offset + result.toNat)⟩, socketFd, bytes⟩

theorem sendfileToSocket_pFile {platform : Platform} {c : SocketConsumer} {bytesToSend : Nat}
    {r : SendfileResult} {sent : SentToSocket}
    (h : c.sendfileToSocket platform bytesToSend r = some sent) :
    sent.consumer.storage.pFile = c.storage.pFile := by
  rw [sendfileToSocket] at h
  split at h
  · obtain rfl := Option.some.inj h
    rfl
  · obtain ⟨file, -, h⟩ := Option.bind_eq_some_iff.mp h
    dsimp only at h
    split at h
    · obtain rfl := Option.some.inj h
      rfl
    · obtain rfl := Option.some.inj h
      rfl

end SocketConsumer

/-! ## The topic and its threads -/

namespace SocketTopic

/-- Bytes that one call sent to one socket, and where in the log it took
them from. -/
structure Chunk where
  fd : Int
  offset : Nat
  bytes : Bytes
deriving DecidableEq, Repr

structure World where
  consumer : SocketConsumer
  frames : List Bytes
  chunks : List Chunk
  wire : List (Int × UInt8)

/-- `content` is what `open` finds if a file is created. -/
inductive Action where
  | addToStorage (overload : ConnectionFile.Overload) (message content : Bytes)
      (sched : List PwriteResult)
  | setCurrentFile (content : Bytes)
  | accept (connfd : Int)
  | sendfileToSocket (bytesToSend : Nat) (r : SendfileResult)
deriving DecidableEq, Repr

/-- Messages are not empty and their frames no longer than a file, no `pwrite`
fails, and `accept` gives a descriptor. -/
def Action.Admissible (maxFileSize : Nat) : Action → Prop
  | .addToStorage _ message _ sched =>
      message ≠ [] ∧ frameLength message false ≤ maxFileSize ∧ PwriteResult.error ∉ sched
  | .accept connfd => 0 ≤ connfd
  | _ => True

/-- A call whose `sendfile` fails has put nothing on the socket. -/
def Action.FailsClean (platform : Platform) : Action → Prop
  | .sendfileToSocket _ r => r.Clean platform
  | _ => True

namespace World

/-- A file topic after `init`, with a socket as its consumer, and after
`set_max_file_size`. -/
def start (outputDirectory id : Bytes) (maxFileSize : Nat) : World :=
  ⟨⟨{ (BrokerStorage.init .file outputDirectory id).2.setConsumerSocket .socket with
      pFile := some (ConnectionFile.create outputDirectory id maxFileSize) }, .new⟩, [], [], []⟩

/-- The chunk that a call sent, if it sent one. -/
def sentChunks (w : World) (sent : SentToSocket) : List Chunk :=
  if 0 < sent.value then [⟨sent.fd, w.consumer.socket.currentWriteOffset, sent.bytes⟩] else []

def step (host : ByteOrder) (platform : Platform) (w : World) : Action → Option World
  | .addToStorage overload message content sched => do
      let stored ← w.consumer.storage.add host overload message ⟨some content, sched, 0⟩
      some { w with
        consumer := { w.consumer with storage := stored.storage }
        frames := w.frames ++ [frame host message false 0] }
  | .setCurrentFile content => do
      let file ← w.consumer.storage.pFile
      let (_, file) ← file.setCurrentFile (some content)
      some { w with
        consumer := { w.consumer with storage := { w.consumer.storage with pFile := some file } } }
  | .accept connfd =>
      some { w with
        consumer := { w.consumer with socket := w.consumer.socket.accept connfd } }
  | .sendfileToSocket bytesToSend r => do
      let sent ← w.consumer.sendfileToSocket platform bytesToSend r
      some { w with
        consumer := sent.consumer
        chunks := w.chunks ++ w.sentChunks sent
        wire := w.wire ++ sent.bytes.map fun b => (sent.fd, b) }

/-- `get_write_offset`. -/
def writeOffset (w : World) : Nat := w.consumer.socket.currentWriteOffset

/-- `get_total_bytes_read`. -/
def totalBytesRead (w : World) : Nat := w.consumer.storage.totalBytesRead

/-- `get_file_total_bytes_written`. -/
def written (w : World) : Nat := w.consumer.storage.getFileTotalBytesWritten

/-- The log behind the topic. -/
def log (w : World) : Bytes :=
  match w.consumer.storage.pFile with
  | some file => file.log
  | none => []

/-- The assumption about `send_file` of the file that a call sends from. -/
def Transmits (platform : Platform) (w : World) : Action → Prop
  | .sendfileToSocket bytesToSend r =>
      ∀ file f o, w.consumer.storage.pFile = some file →
        ConnectionFile.locate w.writeOffset file.fileFds none = some (f, o) →
        f.TransmitsPrefix platform o bytesToSend r
  | _ => True

structure Invariant (host : ByteOrder) (maxFileSize : Nat) (w : World) (file : ConnectionFile)
    (segs : List Segment) : Prop where
  brokerType : w.consumer.storage.brokerType = .file
  file_eq : w.consumer.storage.pFile = some file
  log : OpenLog host file segs
  max_eq : file.maxFileSize = maxFileSize
  frames_eq : logFrames segs = w.frames
  read_eq : w.totalBytesRead = w.writeOffset
  offset_le : w.writeOffset ≤ file.totalBytesWriten

section Steps

variable {host : ByteOrder} {platform : Platform} {maxFileSize : Nat} {w w' : World}
  {file : ConnectionFile} {segs : List Segment}

theorem invariant_start (host : ByteOrder) (outputDirectory id : Bytes) (hM : 0 < maxFileSize) :
    Invariant host maxFileSize (start outputDirectory id maxFileSize)
      (ConnectionFile.create outputDirectory id maxFileSize) [] where
  brokerType := rfl
  file_eq := rfl
  log := .appended (logInvariant_create host outputDirectory id hM)
  max_eq := rfl
  frames_eq := rfl
  read_eq := rfl
  offset_le := Nat.le_refl 0

theorem Invariant.log_eq (h : Invariant host maxFileSize w file segs) : w.log = file.log := by
  rw [World.log, h.file_eq]

theorem Invariant.log_frames (h : Invariant host maxFileSize w file segs)
    (hdistinct : w.consumer.storage.FilesDistinct) : w.log = w.frames.flatten := by
  rw [h.log_eq, h.log.log_frames (hdistinct file h.file_eq), h.frames_eq]

theorem Invariant.written_eq (h : Invariant host maxFileSize w file segs) :
    w.written = file.totalBytesWriten :=
  BrokerStorage.getFileTotalBytesWritten_of_file h.file_eq

theorem Invariant.length_log (h : Invariant host maxFileSize w file segs) :
    w.log.length = file.totalBytesWriten := by
  rw [h.log_eq, h.log.length_log]

theorem Invariant.written_frames (h : Invariant host maxFileSize w file segs) :
    w.written = w.frames.flatten.length := by
  rw [h.written_eq, h.log.total_eq, ← flatten_logFrames, h.frames_eq]

theorem Invariant.nonempties (h : Invariant host maxFileSize w file segs) :
    Nonempties w.frames := by
  rw [← h.frames_eq]
  exact h.log.nonempties

/-! ### One call of `sendfile_to_socket` -/

/-- Nothing is sent, and `more` is added to the log. -/
structure Grows (w w' : World) (more : List Bytes) : Prop where
  frames : w'.frames = w.frames ++ more
  chunks : w'.chunks = w.chunks
  writeOffset : w'.writeOffset = w.writeOffset

/-- A call that finds no socket, has nothing to send, or fails. -/
structure Idle (clean : Prop) (w w' : World) : Prop where
  storage : w'.consumer.storage = w.consumer.storage
  grows : Grows w w' []
  wire : clean → w'.wire = w.wire

/-- `bytes` are sent to `fd`, the next socket. -/
structure Sends (w w' : World) (fd : Int) (bytes : Bytes) : Prop where
  nextFd : w.consumer.socket.nextFd = fd
  nonneg : 0 ≤ fd
  storage : w'.consumer.storage = w.consumer.storage.addTotalBytesRead bytes.length
  frames : w'.frames = w.frames
  chunks : w'.chunks = w.chunks ++ [⟨fd, w.writeOffset, bytes⟩]
  wire : w'.wire = w.wire ++ bytes.map fun b => (fd, b)
  writeOffset : w'.writeOffset = w.writeOffset + bytes.length

theorem sentChunks_of_pos {c : SocketConsumer} {fd : Int} {bytes : Bytes} (h : 0 < bytes.length) :
    w.sentChunks ⟨bytes.length, c, fd, bytes⟩ = [⟨fd, w.writeOffset, bytes⟩] := by
  have hpos : (0 : Int) < bytes.length := by omega
  exact if_pos hpos

theorem step_send {bytesToSend : Nat} {r : SendfileResult} {sent : SentToSocket}
    (hcall : w.consumer.sendfileToSocket platform bytesToSend r = some sent) :
    w.step host platform (.sendfileToSocket bytesToSend r) =
      some { w with
        consumer := sent.consumer
        chunks := w.chunks ++ w.sentChunks sent
        wire := w.wire ++ sent.bytes.map fun b => (sent.fd, b) } := by
  rw [step, hcall]
  rfl

theorem step_sends (host : ByteOrder) {bytesToSend : Nat} {r : SendfileResult} {fd : Int}
    {bytes : Bytes} (hfile : w.consumer.storage.pFile = some file)
    (hnext : w.consumer.socket.nextFd = fd) (hfd : 0 ≤ fd) (hpos : 0 < bytes.length)
    (hsend : file.sendFile platform w.writeOffset bytesToSend r = ((bytes.length : Int), bytes)) :
    ∃ w', w.step host platform (.sendfileToSocket bytesToSend r) = some w' ∧
      Sends w w' fd bytes := by
  have hoffset : w.consumer.socket.getNextFd.2.currentWriteOffset = w.writeOffset :=
    ConnectionSocket.getNextFd_currentWriteOffset _
  have hcall : w.consumer.sendfileToSocket platform bytesToSend r =
      some ⟨bytes.length, ⟨w.consumer.storage.addTotalBytesRead bytes.length,
        w.consumer.socket.getNextFd.2.setWriteOffset (w.writeOffset + bytes.length)⟩,
        fd, bytes⟩ := by
    rw [SocketConsumer.sendfileToSocket]
    simp only [hnext, if_neg (Int.not_lt.mpr hfd), hfile, hoffset, Option.bind_eq_bind, Option.bind_some,
      hsend, Int.toNat_natCast]
    exact if_neg (by omega)
  refine ⟨_, step_send hcall, hnext, hfd, rfl, rfl, ?_, rfl, rfl⟩
  rw [sentChunks_of_pos hpos]

theorem step_idle (host : ByteOrder) {bytesToSend : Nat} {r : SendfileResult}
    (hfile : w.consumer.storage.pFile = some file)
    (hnone : w.consumer.socket.nextFd < 0 ∨
      (file.sendFile platform w.writeOffset bytesToSend r).1 = 0 ∨
      (file.sendFile platform w.writeOffset bytesToSend r).1 = -1) :
    ∃ w', w.step host platform (.sendfileToSocket bytesToSend r) = some w' ∧
      Idle (r.Clean platform) w w' := by
  have hoffset : w.consumer.socket.getNextFd.2.currentWriteOffset = w.writeOffset :=
    ConnectionSocket.getNextFd_currentWriteOffset _
  by_cases hfd : w.consumer.socket.nextFd < 0
  · have hcall : w.consumer.sendfileToSocket platform bytesToSend r =
        some ⟨0, ⟨w.consumer.storage, w.consumer.socket.getNextFd.2⟩,
          w.consumer.socket.nextFd, []⟩ := by
      rw [SocketConsumer.sendfileToSocket]
      exact if_pos hfd
    exact ⟨_, step_send hcall, rfl,
      ⟨(List.append_nil _).symm, List.append_nil _, hoffset⟩, fun _ => List.append_nil _⟩
  · have hnothing : r.Clean platform →
        (file.sendFile platform w.writeOffset bytesToSend r).2 = [] := by
      intro hclean
      refine ConnectionFile.sendFile_nothing hclean ?_
      rcases hnone.resolve_left hfd with hzero | herror
      · exact Int.le_of_eq hzero
      · exact Int.le_of_lt (herror ▸ by decide)
    generalize hsend : file.sendFile platform w.writeOffset bytesToSend r = sent at hnone hnothing
    obtain ⟨result, bytes⟩ := sent
    have hwire : r.Clean platform →
        w.wire ++ bytes.map (fun b => (w.consumer.socket.nextFd, b)) = w.wire := by
      intro hclean
      obtain rfl : bytes = [] := hnothing hclean
      exact List.append_nil _
    rcases hnone.resolve_left hfd with hzero | herror
    · obtain rfl : result = 0 := hzero
      have hcall : w.consumer.sendfileToSocket platform bytesToSend r =
          some ⟨0, ⟨w.consumer.storage,
            w.consumer.socket.getNextFd.2.setWriteOffset w.writeOffset⟩,
            w.consumer.socket.nextFd, bytes⟩ := by
        rw [SocketConsumer.sendfileToSocket]
        simp only [if_neg hfd, hfile, hoffset, Option.bind_eq_bind, Option.bind_some, hsend]
        rfl
      refine ⟨_, step_send hcall, rfl, ⟨(List.append_nil _).symm, List.append_nil _, rfl⟩, ?_⟩
      dsimp only
      exact hwire
    · obtain rfl : result = -1 := herror
      have hcall : w.consumer.sendfileToSocket platform bytesToSend r =
          some ⟨-1, ⟨w.consumer.storage,
            w.consumer.socket.getNextFd.2.removeFd w.consumer.socket.nextFd⟩,
            w.consumer.socket.nextFd, bytes⟩ := by
        rw [SocketConsumer.sendfileToSocket]
        simp only [if_neg hfd, hfile, hoffset, Option.bind_eq_bind, Option.bind_some, hsend, if_true]
      refine ⟨_, step_send hcall, rfl, ⟨(List.append_nil _).symm, List.append_nil _, hoffset⟩, ?_⟩
      dsimp only
      exact hwire

/-- The call comes back, and has done nothing or sent what the file that the
write offset lies in gives. -/
theorem Invariant.send_cases (h : Invariant host maxFileSize w file segs) (platform : Platform)
    (bytesToSend : Nat) (r : SendfileResult) :
    ∃ w', w.step host platform (.sendfileToSocket bytesToSend r) = some w' ∧
      (Idle (r.Clean platform) w w' ∨
        ∃ pre x post, segs = pre ++ x :: post ∧ (logBytes pre).length ≤ w.writeOffset ∧
          w.writeOffset < (logBytes pre).length + x.bytes.length ∧
          ConnectionFile.locate w.writeOffset file.fileFds none
            = some (x.file, w.writeOffset - (logBytes pre).length) ∧
          0 < (x.file.sendFile platform (w.writeOffset - (logBytes pre).length) bytesToSend r).1 ∧
          ∃ fd, Sends w w' fd (x.file.sendFile platform (w.writeOffset - (logBytes pre).length)
            bytesToSend r).2) := by
  by_cases hfd : w.consumer.socket.nextFd < 0
  · obtain ⟨w', hstep, hidle⟩ := step_idle host h.file_eq (Or.inl hfd)
    exact ⟨w', hstep, Or.inl hidle⟩
  · rcases h.log.sendFile_cases platform w.writeOffset bytesToSend r with
      ⟨-, hsend⟩ | ⟨pre, x, post, hsplit, hle, hlt, hfind, ⟨-, hsend⟩ | ⟨hpos, hsend⟩⟩
    · obtain ⟨w', hstep, hidle⟩ := step_idle host h.file_eq
        (Or.inr (Or.inl (congrArg Prod.fst hsend)))
      exact ⟨w', hstep, Or.inl hidle⟩
    · obtain ⟨w', hstep, hidle⟩ := step_idle host h.file_eq
        (Or.inr (Or.inr (congrArg Prod.fst hsend)))
      exact ⟨w', hstep, Or.inl hidle⟩
    · obtain ⟨hvalue, -⟩ := FileDetails.sendFile_value hpos
      obtain ⟨w', hstep, hsends⟩ := step_sends host h.file_eq rfl
        (Int.not_lt.mp hfd) (by omega) (hsend.trans (Prod.ext hvalue rfl))
      exact ⟨w', hstep, Or.inr ⟨pre, x, post, hsplit, hle, hlt, hfind, hpos, _, hsends⟩⟩

/-! ### Every step -/

theorem Invariant.addToStorage (h : Invariant host maxFileSize w file segs)
    (hM : maxFileSize < 2 ^ 31) (platform : Platform) {overload : ConnectionFile.Overload}
    {message content : Bytes} {sched : List PwriteResult}
    (hact : (Action.addToStorage overload message content sched).Admissible maxFileSize) :
    ∃ w' file' segs',
      w.step host platform (.addToStorage overload message content sched) = some w' ∧
        Invariant host maxFileSize w' file' segs' ∧ Grows w w' [frame host message false 0] ∧
        w'.wire = w.wire := by
  obtain ⟨hne, hmax, hno⟩ := hact
  obtain ⟨a, segs', hwrite, -, hlog, hframes, hsame⟩ := h.log.write overload content hne
    (Nat.lt_of_le_of_lt hmax hM) (by rw [h.max_eq]; exact hmax) hno
  obtain ⟨n, hbook⟩ := BrokerStorage.bookFile_eq w.consumer.storage a
  have hstep : w.step host platform (.addToStorage overload message content sched) =
      some { w with
        consumer := { w.consumer with storage := (w.consumer.storage.bookFile a).storage }
        frames := w.frames ++ [frame host message false 0] } := by
    rw [step, BrokerStorage.add_file h.brokerType h.file_eq, hwrite]
    rfl
  rw [hbook] at hstep
  have hframes' : logFrames segs' = w.frames ++ [frame host message false 0] := by
    rw [hframes, h.frames_eq]
    rfl
  refine ⟨_, a.conn, segs', hstep,
    ⟨h.brokerType, rfl, .appended hlog, hsame.trans h.max_eq, hframes', h.read_eq, ?_⟩,
    ⟨rfl, rfl, rfl⟩, rfl⟩
  show w.writeOffset ≤ a.conn.totalBytesWriten
  have hle := h.offset_le
  rw [h.log.total_eq, ← flatten_logFrames] at hle
  rw [hlog.total_eq, ← flatten_logFrames, hframes', ← h.frames_eq, List.flatten_append,
    List.length_append]
  exact Nat.le_trans hle (Nat.le_add_right _ _)

theorem Invariant.setCurrentFile (h : Invariant host maxFileSize w file segs) (platform : Platform)
    (content : Bytes) :
    ∃ w' file', w.step host platform (.setCurrentFile content) = some w' ∧
      Invariant host maxFileSize w' file' segs ∧ Grows w w' [] ∧ w'.wire = w.wire := by
  obtain ⟨file', hset, hlog, hsame⟩ := h.log.setCurrentFile content
  have hstep : w.step host platform (.setCurrentFile content) =
      some { w with
        consumer := { w.consumer with
          storage := { w.consumer.storage with pFile := some file' } } } := by
    simp only [step, h.file_eq, hset, Option.bind_eq_bind, Option.bind_some]
  refine ⟨_, file', hstep,
    ⟨h.brokerType, rfl, hlog, hsame.trans h.max_eq, h.frames_eq, h.read_eq, ?_⟩,
    ⟨(List.append_nil _).symm, rfl, rfl⟩, rfl⟩
  show w.writeOffset ≤ file'.totalBytesWriten
  rw [hlog.total_eq, ← h.log.total_eq]
  exact h.offset_le

theorem Invariant.idle (h : Invariant host maxFileSize w file segs) {clean : Prop}
    (hidle : Idle clean w w') :
    Invariant host maxFileSize w' file segs := by
  have hframes : w'.frames = w.frames := by rw [hidle.grows.frames, List.append_nil]
  refine ⟨?_, ?_, h.log, h.max_eq, ?_, ?_, ?_⟩
  · rw [hidle.storage]
    exact h.brokerType
  · rw [hidle.storage]
    exact h.file_eq
  · rw [hframes]
    exact h.frames_eq
  · rw [hidle.grows.writeOffset, totalBytesRead, hidle.storage]
    exact h.read_eq
  · rw [hidle.grows.writeOffset]
    exact h.offset_le

theorem Invariant.sends (h : Invariant host maxFileSize w file segs) {fd : Int} {bytes : Bytes}
    (hsends : Sends w w' fd bytes) (hle : w.writeOffset + bytes.length ≤ file.totalBytesWriten) :
    Invariant host maxFileSize w' file segs := by
  refine ⟨?_, ?_, h.log, h.max_eq, ?_, ?_, ?_⟩
  · rw [hsends.storage]
    exact h.brokerType
  · rw [hsends.storage]
    exact h.file_eq
  · rw [hsends.frames]
    exact h.frames_eq
  · rw [hsends.writeOffset, totalBytesRead, hsends.storage, ← h.read_eq]
    rfl
  · rw [hsends.writeOffset]
    exact hle

/-- What a step can do: add frames, each longer than a header, or send a
chunk. -/
inductive Change (platform : Platform) (w w' : World) (action : Action) : Prop where
  | grows (more : List Bytes) (hmore : ∀ fr ∈ more, 4 < fr.length) (hgrows : Grows w w' more)
      (hwire : action.FailsClean platform → w'.wire = w.wire)
  | sends (bytesToSend : Nat) (r : SendfileResult) (fd : Int) (bytes : Bytes)
      (haction : action = .sendfileToSocket bytesToSend r) (hsends : Sends w w' fd bytes)
      (hpos : 0 < bytes.length)
      (hslice : w.Transmits platform action → bytes <+: w.log.drop w.writeOffset)

theorem Invariant.send (h : Invariant host maxFileSize w file segs) (platform : Platform)
    (bytesToSend : Nat) (r : SendfileResult) :
    ∃ w', w.step host platform (.sendfileToSocket bytesToSend r) = some w' ∧
      Invariant host maxFileSize w' file segs ∧
      Change platform w w' (.sendfileToSocket bytesToSend r) := by
  obtain ⟨w', hstep, hidle | ⟨pre, x, post, hsplit, hle, hlt, hfind, hpos, fd, hsends⟩⟩ :=
    h.send_cases platform bytesToSend r
  · exact ⟨w', hstep, h.idle hidle, .grows [] (fun fr hfr => absurd hfr List.not_mem_nil)
      hidle.grows hidle.wire⟩
  · obtain ⟨hvalue, hsize⟩ := FileDetails.sendFile_value hpos
    have hinside : w.writeOffset - (logBytes pre).length ≤ x.file.offset := by
      rw [x.offset_eq]
      omega
    have hclamp := FileDetails.sendSize_le bytesToSend hinside
    have htotal : (logBytes pre).length + x.bytes.length ≤ file.totalBytesWriten := by
      rw [h.log.total_eq, hsplit, logBytes_append, logBytes_cons, List.length_append,
        List.length_append]
      omega
    rw [x.offset_eq] at hclamp
    refine ⟨w', hstep, h.sends hsends (by omega),
      .sends bytesToSend r fd _ rfl hsends (by omega) fun htransmits => ?_⟩
    rw [h.log_eq]
    exact h.log.sent_chunk hsplit hle hlt hpos (htransmits file x.file _ h.file_eq hfind)

/-- Every admissible step happens and keeps the invariant. -/
theorem Invariant.step (h : Invariant host maxFileSize w file segs) (hM : maxFileSize < 2 ^ 31)
    (platform : Platform) {action : Action} (hact : action.Admissible maxFileSize) :
    ∃ w' file' segs', w.step host platform action = some w' ∧
      Invariant host maxFileSize w' file' segs' ∧ Change platform w w' action := by
  cases action with
  | addToStorage overload message content sched =>
      obtain ⟨w', file', segs', hstep, hinv, hgrows, hwire⟩ := h.addToStorage hM platform hact
      refine ⟨w', file', segs', hstep, hinv, .grows _ ?_ hgrows fun _ => hwire⟩
      intro fr hfr
      obtain rfl := List.mem_singleton.mp hfr
      have hpos : 0 < message.length := List.length_pos_iff.mpr hact.1
      rw [length_frame]
      show 4 < 4 + message.length + 0
      omega
  | setCurrentFile content =>
      obtain ⟨w', file', hstep, hinv, hgrows, hwire⟩ := h.setCurrentFile platform content
      exact ⟨w', file', segs, hstep, hinv,
        .grows [] (fun fr hfr => absurd hfr List.not_mem_nil) hgrows fun _ => hwire⟩
  | accept connfd =>
      exact ⟨_, file, segs, rfl,
        ⟨h.brokerType, h.file_eq, h.log, h.max_eq, h.frames_eq, h.read_eq, h.offset_le⟩,
        .grows [] (fun fr hfr => absurd hfr List.not_mem_nil)
          ⟨(List.append_nil _).symm, rfl, rfl⟩ fun _ => rfl⟩
  | sendfileToSocket bytesToSend r =>
      obtain ⟨w', hstep, hinv, hchange⟩ := h.send platform bytesToSend r
      exact ⟨w', file, segs, hstep, hinv, hchange⟩

theorem step_filesExtend {action : Action} (h : w.step host platform action = some w') :
    w.consumer.storage.FilesExtend w'.consumer.storage := by
  cases action with
  | addToStorage overload message content sched =>
      obtain ⟨stored, hadd, h⟩ := Option.bind_eq_some_iff.mp h
      obtain rfl := Option.some.inj h
      exact BrokerStorage.add_filesExtend hadd
  | setCurrentFile content =>
      obtain ⟨file, hfile, h⟩ := Option.bind_eq_some_iff.mp h
      obtain ⟨⟨ok, file'⟩, hset, h⟩ := Option.bind_eq_some_iff.mp h
      obtain rfl := Option.some.inj h
      rw [BrokerStorage.FilesExtend, hfile]
      exact .some (ConnectionFile.setCurrentFile_continues hset).extends
  | accept connfd =>
      obtain rfl := Option.some.inj h
      exact .of_eq rfl
  | sendfileToSocket bytesToSend r =>
      rw [World.step, Option.bind_eq_bind] at h
      obtain ⟨sent, hsent, h⟩ := Option.bind_eq_some_iff.mp h
      rw [← Option.some.inj h]
      exact .of_eq (SocketConsumer.sendfileToSocket_pFile hsent)

end Steps

end World

end SocketTopic

end LightQ
