/-
# `Storage.BrokerStorage` — the storage of one topic (`broker_storage.h`)

A topic keeps its messages in a queue, in a `connection_file`, or not at
all.  The queue is a list: `try_enqueue` appends, `try_dequeue` takes from
the front, and the counters are separate steps, so that a model of the two
threads can put other steps between them.

Sockets are seen from the storage only: `pConsumerSocket` is the stream type
of `p_consumer_socket_`, and what a function hands to `write_msg` is part of
its result.  What `write_msg` returns is a parameter.

The counters are `uint64_t` in the source and `Nat` here.  They go up by one for
a message, or by its bytes, and `2^64` of either are out of the reach of any
run; the differences of counters, which can be negative, are taken with the
wrap-around of the source (`getQueueSize`).

What other modules use of this one are a few facts about whole calls.  On a
file topic a message is appended, whichever `add_to_storage` is called
(`add_file`), and booking it touches the file and one counter (`bookFile_eq`);
with a consumer socket `direct_write_consumer` hands the message to it
(`directWriteConsumer_of_some`).  With a ZeroMQ socket `file_to_consumer` comes
back (`isSome_fileToConsumer`), touches its buffer and the read position alone
(`fileToConsumer_storage`), sends nothing when `read` returns nothing
(`fileToConsumer_of_nonpos`), and otherwise sends what was read less the header
and less four bytes more (`fileToConsumer_of_pos`).  No call takes a file of
the log away (`FilesExtend`).
-/
import LightQ.Storage.Rotation

namespace LightQ

open MachineInt

/-- `broker_config::broker_type`. -/
inductive BrokerType where
  | queue
  | file
  | direct
  | queueFile
deriving DecidableEq, Repr

/-- `connection::stream_type`, as far as the broker creates such connections. -/
inductive StreamType where
  | zmq
  | file
  | socket
deriving DecidableEq, Repr

/-- `broker_storage`.  The counters are `uint64_t` in the source; no run counts to
`2^64`. -/
structure BrokerStorage where
  brokerType : BrokerType
  pQueue : List Bytes
  pFile : Option ConnectionFile
  pConsumerSocket : Option StreamType
  totalEnqueuedMessages : Nat
  totalDequeuedMessages : Nat
  totalBytesWritten : Nat
  totalBytesRead : Nat
  buffer : Bytes
deriving DecidableEq, Repr

/-- What one `add_to_storage` meets: what `open` finds if a file is created,
the outcomes of the `pwrite` calls, and what `write_msg` returns. -/
structure AddEnv where
  opened : Option Bytes
  sched : List PwriteResult
  writeMsg : Int

/-- The result of `add_to_storage`: its value, the storage after it and the
messages handed to the consumer socket. -/
structure Stored where
  ok : Bool
  storage : BrokerStorage
  sent : List Bytes

/-- The result of `file_to_consumer`: its value, the storage after it, the
bytes and lengths handed to the consumer socket, and the outcomes left. -/
structure Delivery where
  value : Int
  storage : BrokerStorage
  sent : List (Bytes × Nat)
  sched : List PreadResult

namespace BrokerStorage

/-- The constructor and `init`.  The value of `init` is `false` for a topic of
type queue_file, although it is set up. -/
def init (brokerType : BrokerType) (outputDirectory id : Bytes) : Bool × BrokerStorage :=
  let s : BrokerStorage :=
    { brokerType := brokerType
      pQueue := []
      pFile := none
      pConsumerSocket := none
      totalEnqueuedMessages := 0
      totalDequeuedMessages := 0
      totalBytesWritten := 0
      totalBytesRead := 0
      buffer := List.replicate maxMsgSize 0 }
  let file := some (ConnectionFile.create outputDirectory id ConnectionFile.defaultMaxFileSize)
  match brokerType with
  | .queue => (true, s)
  | .file => (true, { s with pFile := file })
  | .queueFile => (false, { s with pFile := file })
  | .direct => (true, s)

def setConsumerSocket (s : BrokerStorage) (pSocket : StreamType) : BrokerStorage :=
  { s with pConsumerSocket := some pSocket }

/-! ## The queue, step by step -/

/-- `p_queue_->try_enqueue(message)`, when it succeeds. -/
def tryEnqueue (s : BrokerStorage) (message : Bytes) : BrokerStorage :=
  { s with pQueue := s.pQueue ++ [message] }

/-- `++total_enqueued_messages_`. -/
def countEnqueued (s : BrokerStorage) : BrokerStorage :=
  { s with totalEnqueuedMessages := s.totalEnqueuedMessages + 1 }

/-- `p_queue_->try_dequeue(message)`: it fails on an empty queue. -/
def tryDequeue (s : BrokerStorage) : Option (Bytes × BrokerStorage) :=
  match s.pQueue with
  | [] => none
  | message :: rest => some (message, { s with pQueue := rest })

/-- `++total_dequeued_messages_`. -/
def countDequeued (s : BrokerStorage) : BrokerStorage :=
  { s with totalDequeuedMessages := s.totalDequeuedMessages + 1 }

/-- `total_bytes_written_ += message.length()`. -/
def countBytes (s : BrokerStorage) (message : Bytes) : BrokerStorage :=
  { s with totalBytesWritten := s.totalBytesWritten + message.length }

/-- `write_to_queue`: `try_enqueue` is repeated until it succeeds. -/
def writeToQueue (s : BrokerStorage) (message : Bytes) : BrokerStorage :=
  ((s.tryEnqueue message).countEnqueued).countBytes message

/-- `get_message_from_queue`: its value, and the message taken, if any. -/
def getMessageFromQueue (s : BrokerStorage) : Int × Option Bytes × BrokerStorage :=
  match s.tryDequeue with
  | some (message, s) => (message.length, some message, s.countDequeued)
  | none => (0, none, s)

/-- `get_queue_size`: an unsigned difference. -/
def getQueueSize (s : BrokerStorage) : Nat :=
  subU64 s.totalEnqueuedMessages s.totalDequeuedMessages

/-! ## The file -/

/-- `get_file_total_bytes_written`. -/
def getFileTotalBytesWritten (s : BrokerStorage) : Nat :=
  match s.pFile with
  | some file => file.totalBytesWriten
  | none => 0

/-- The files of the log, if there is one, are different ones. -/
def FilesDistinct (s : BrokerStorage) : Prop := ∀ file ∈ s.pFile, file.Distinct

instance (s : BrokerStorage) : Decidable s.FilesDistinct :=
  inferInstanceAs (Decidable (∀ file ∈ s.pFile, file.Distinct))

/-- What both `write_to_file` do with the result of the append. -/
def bookFile (s : BrokerStorage) (a : Appended) : Stored :=
  let s := { s with pFile := some a.conn }
  if 0 < a.value then
    ⟨true, { s with totalBytesWritten := s.totalBytesWritten + a.value.toNat }, []⟩
  else ⟨false, s, []⟩

/-- `write_to_file(const std::string &, bool)`. -/
def writeToFile (host : ByteOrder) (s : BrokerStorage) (message : Bytes) (writeSize : Bool)
    (env : AddEnv) : Option Stored := do
  let file ← s.pFile
  let a ← file.writeToFile host message writeSize false env.opened env.sched
  some (s.bookFile a)

/-- `write_to_file(const char *, unsigned, bool)`. -/
def writeToFilePtr (host : ByteOrder) (s : BrokerStorage) (message : Bytes) (messageLen : Nat)
    (writeSize : Bool) (env : AddEnv) : Option Stored := do
  let file ← s.pFile
  let a ← file.writeToFilePtr host message messageLen writeSize false env.opened env.sched
  some (s.bookFile a)

/-! ## Adding and delivering -/

/-- `direct_write_consumer`, both of them. -/
def directWriteConsumer (s : BrokerStorage) (message : Bytes) (env : AddEnv) : Stored :=
  match s.pConsumerSocket with
  | none => ⟨false, s, []⟩
  | some _ =>
      if env.writeMsg < 0 then ⟨false, s, [message]⟩
      else
        ⟨true, { s with totalBytesWritten := s.totalBytesWritten + env.writeMsg.toNat }, [message]⟩

/-- `add_to_storage(const std::string &, bool)`: the flag is not used. -/
def addToStorage (host : ByteOrder) (s : BrokerStorage) (message : Bytes) (env : AddEnv) :
    Option Stored :=
  match s.brokerType with
  | .direct => some (s.directWriteConsumer message env)
  | .queue => some ⟨true, s.writeToQueue message, []⟩
  | .queueFile => some ⟨true, s.writeToQueue message, []⟩
  | .file => s.writeToFile host message true env

/-- `add_to_storage(const char *, unsigned, bool)`. -/
def addToStoragePtr (host : ByteOrder) (s : BrokerStorage) (message : Bytes) (messageSize : Nat)
    (env : AddEnv) : Option Stored :=
  match s.brokerType with
  | .direct => some (s.directWriteConsumer (message.take messageSize) env)
  | .queue => some ⟨true, s.writeToQueue (message.take messageSize), []⟩
  | .queueFile => some ⟨true, s.writeToQueue (message.take messageSize), []⟩
  | .file => s.writeToFilePtr host message messageSize true env

/-- Either `add_to_storage`, on a message whose length the caller has at hand. -/
def add (host : ByteOrder) (s : BrokerStorage) (overload : ConnectionFile.Overload)
    (message : Bytes) (env : AddEnv) : Option Stored :=
  match overload with
  | .string => s.addToStorage host message env
  | .pointer => s.addToStoragePtr host message (u32 message.length) env

/-- `file_to_consumer`.  `sizeof(uint32_t)` is taken off the `ssize_t` twice
and the difference becomes an `unsigned`; what a `char` pointer and a length
describe is cut where the buffer ends. -/
def fileToConsumer (host : ByteOrder) (s : BrokerStorage) (ntohl : Bool)
    (sched : List PreadResult) (writeMsg : Int) : Option Delivery := do
  let file ← s.pFile
  if s.getFileTotalBytesWritten + 4 ≤ s.totalBytesRead then some ⟨0, s, [], sched⟩
  else
    let r := file.read host (store s.buffer 0 [0]) maxMsgSize s.totalBytesRead ntohl sched
    if r.value < 0 then some ⟨0, { s with buffer := r.buffer }, [], r.sched⟩
    else
      let s := { s with
        buffer := store r.buffer (r.value.toNat + 1) [0]
        totalBytesRead := s.totalBytesRead + r.value.toNat }
      if r.value = 0 then some ⟨0, s, [], r.sched⟩
      else
        match s.pConsumerSocket with
        | none => none
        | some .socket =>
            let length := u32OfInt r.value
            let bytes := s.buffer.take length
            some ⟨writeMsg, s, [(bytes, length)], r.sched⟩
        | some .zmq =>
            let length := u32OfInt (r.value - 4 - 4)
            let bytes := (s.buffer.drop 4).take length
            some ⟨writeMsg, s, [(bytes, length)], r.sched⟩
        | some .file => some ⟨r.value, s, [], r.sched⟩

/-! ## Adding to a file -/

section File

variable {host : ByteOrder} {s : BrokerStorage} {file : ConnectionFile}

theorem bookFile_eq (s : BrokerStorage) (a : Appended) :
    ∃ n, (s.bookFile a).storage = { s with pFile := some a.conn, totalBytesWritten := n } := by
  rw [bookFile]
  split
  · exact ⟨_, rfl⟩
  · exact ⟨_, rfl⟩

theorem add_file (htype : s.brokerType = .file) (hfile : s.pFile = some file)
    (overload : ConnectionFile.Overload) (message : Bytes) (env : AddEnv) :
    s.add host overload message env =
      (file.write host overload message false env.opened env.sched).map s.bookFile := by
  cases overload with
  | string =>
      simp only [add, addToStorage, htype, writeToFile, hfile, ConnectionFile.write,
        Option.bind_eq_bind, Option.bind_some]
      cases file.writeToFile host message true false env.opened env.sched with
      | none => rfl
      | some a => rfl
  | pointer =>
      simp only [add, addToStoragePtr, htype, writeToFilePtr, hfile, ConnectionFile.write,
        Option.bind_eq_bind, Option.bind_some]
      cases file.writeToFilePtr host message (u32 message.length) true false env.opened
        env.sched with
      | none => rfl
      | some a => rfl

theorem add_file_some {overload : ConnectionFile.Overload} {message : Bytes} {env : AddEnv}
    {stored : Stored} (htype : s.brokerType = .file)
    (hadd : s.add host overload message env = some stored) :
    ∃ file a, s.pFile = some file ∧
      file.write host overload message false env.opened env.sched = some a ∧
      stored = s.bookFile a := by
  cases hfile : s.pFile with
  | none =>
      cases overload with
      | string => simp [add, addToStorage, htype, writeToFile, hfile] at hadd
      | pointer => simp [add, addToStoragePtr, htype, writeToFilePtr, hfile] at hadd
  | some file =>
      rw [add_file htype hfile] at hadd
      obtain ⟨a, hwrite, rfl⟩ := Option.map_eq_some_iff.mp hadd
      exact ⟨file, a, rfl, hwrite, rfl⟩

end File

theorem tryDequeue_some {s s' : BrokerStorage} {message : Bytes}
    (h : s.tryDequeue = some (message, s')) :
    ∃ rest, s.pQueue = message :: rest ∧ s' = { s with pQueue := rest } := by
  rw [tryDequeue] at h
  split at h
  · cases h
  · next m rest hq =>
      obtain ⟨rfl, rfl⟩ := Prod.mk.inj (Option.some.inj h)
      exact ⟨rest, hq, rfl⟩

theorem directWriteConsumer_of_some {s : BrokerStorage} {stream : StreamType}
    (h : s.pConsumerSocket = some stream) (message : Bytes) (env : AddEnv) :
    ∃ ok n, s.directWriteConsumer message env =
      ⟨ok, { s with totalBytesWritten := n }, [message]⟩ := by
  rw [directWriteConsumer]
  split
  · next hnone =>
      rw [h] at hnone
      cases hnone
  · split
    · exact ⟨false, s.totalBytesWritten, rfl⟩
    · exact ⟨true, _, rfl⟩

theorem isSome_fileToConsumer {host : ByteOrder} {s : BrokerStorage} {conn : ConnectionFile}
    (hfile : s.pFile = some conn) (hconsumer : s.pConsumerSocket = some .zmq) (ntohl : Bool)
    (sched : List PreadResult) (writeMsg : Int) :
    (s.fileToConsumer host ntohl sched writeMsg).isSome := by
  rw [fileToConsumer, hfile]
  simp only [Option.bind_eq_bind, Option.bind_some, hconsumer]
  split
  · rfl
  · split
    · rfl
    · split
      · rfl
      · rfl

theorem fileToConsumer_storage {host : ByteOrder} {s : BrokerStorage} {ntohl : Bool}
    {sched : List PreadResult} {writeMsg : Int} {d : Delivery}
    (h : s.fileToConsumer host ntohl sched writeMsg = some d) :
    ∃ buffer n, d.storage = { s with buffer := buffer, totalBytesRead := n } := by
  rw [fileToConsumer] at h
  obtain ⟨file, -, h⟩ := Option.bind_eq_some_iff.mp h
  split at h
  · obtain rfl := Option.some.inj h
    exact ⟨_, _, rfl⟩
  · dsimp only at h
    split at h
    · obtain rfl := Option.some.inj h
      exact ⟨_, _, rfl⟩
    · split at h
      · obtain rfl := Option.some.inj h
        exact ⟨_, _, rfl⟩
      · split at h
        · cases h
        all_goals
          obtain rfl := Option.some.inj h
          exact ⟨_, _, rfl⟩

/-! ## The log keeps its name and its files -/

section Files

variable {host : ByteOrder} {s s' : BrokerStorage}

/-- The log is the one it was, with its files and maybe more. -/
def FilesExtend (s s' : BrokerStorage) : Prop := Option.Rel ConnectionFile.Extends s.pFile s'.pFile

/-- The name of the log, if there is one, has no zero byte. -/
def NoZero (s : BrokerStorage) : Prop := ∀ file ∈ s.pFile, 0 ∉ file.directory ∧ 0 ∉ file.topic

theorem FilesExtend.of_eq (h : s'.pFile = s.pFile) : s.FilesExtend s' := by
  rw [FilesExtend, h]
  cases s.pFile with
  | none => exact .none
  | some file => exact .some (.refl file)

theorem FilesExtend.distinct (h : s.FilesExtend s') (hdistinct : s'.FilesDistinct) :
    s.FilesDistinct := by
  intro file hfile
  rw [FilesExtend, Option.mem_def.mp hfile] at h
  generalize hfile' : s'.pFile = found at h
  cases h with
  | some hextends => exact hextends.distinct (hdistinct _ hfile')

theorem FilesExtend.noZero (h : s.FilesExtend s') (hzero : s.NoZero) : s'.NoZero := by
  intro file' hfile'
  rw [FilesExtend, Option.mem_def.mp hfile'] at h
  generalize hfile : s.pFile = found at h
  cases h with
  | some hextends =>
      rw [hextends.directory, hextends.topic]
      exact hzero _ hfile

theorem NoZero.distinct (h : s.NoZero) : s.FilesDistinct := by
  rintro file hfile (hone | hone)
  · exact absurd hone (h file hfile).1
  · exact absurd hone (h file hfile).2

theorem FilesExtend.of_write {file : ConnectionFile} {overload : ConnectionFile.Overload}
    {message : Bytes} {includeOffset : Bool} {opened : Option Bytes} {sched : List PwriteResult}
    {a : Appended} {n : Nat} (hfile : s.pFile = some file)
    (hwrite : file.write host overload message includeOffset opened sched = some a) :
    s.FilesExtend { s with pFile := some a.conn, totalBytesWritten := n } := by
  rw [FilesExtend, hfile]
  exact .some (ConnectionFile.write_extends hwrite)

theorem add_filesExtend {overload : ConnectionFile.Overload} {message : Bytes} {env : AddEnv}
    {stored : Stored} (h : s.add host overload message env = some stored) :
    s.FilesExtend stored.storage := by
  have hdirect : ∀ m, s.FilesExtend (s.directWriteConsumer m env).storage := by
    intro m
    rw [directWriteConsumer]
    split
    · exact .of_eq rfl
    · split
      · exact .of_eq rfl
      · exact .of_eq rfl
  cases htype : s.brokerType with
  | file =>
      obtain ⟨file, a, hfile, hwrite, rfl⟩ := add_file_some htype h
      obtain ⟨n, hbook⟩ := bookFile_eq s a
      rw [hbook]
      exact .of_write hfile hwrite
  | direct =>
      cases overload with
      | string =>
          rw [add, addToStorage, htype] at h
          exact Option.some.inj h ▸ hdirect message
      | pointer =>
          rw [add, addToStoragePtr, htype] at h
          exact Option.some.inj h ▸ hdirect _
  | queue =>
      cases overload with
      | string =>
          rw [add, addToStorage, htype] at h
          exact .of_eq (Option.some.inj h ▸ rfl)
      | pointer =>
          rw [add, addToStoragePtr, htype] at h
          exact .of_eq (Option.some.inj h ▸ rfl)
  | queueFile =>
      cases overload with
      | string =>
          rw [add, addToStorage, htype] at h
          exact .of_eq (Option.some.inj h ▸ rfl)
      | pointer =>
          rw [add, addToStoragePtr, htype] at h
          exact .of_eq (Option.some.inj h ▸ rfl)

theorem fileToConsumer_filesExtend {ntohl : Bool} {sched : List PreadResult} {writeMsg : Int}
    {d : Delivery} (h : s.fileToConsumer host ntohl sched writeMsg = some d) :
    s.FilesExtend d.storage := by
  obtain ⟨buffer, n, hstorage⟩ := fileToConsumer_storage h
  exact .of_eq (by rw [hstorage])

end Files

section Call

variable {host : ByteOrder} {s : BrokerStorage} {conn : ConnectionFile}
  {sched : List PreadResult} {r : Read}

theorem getFileTotalBytesWritten_of_file (hfile : s.pFile = some conn) :
    s.getFileTotalBytesWritten = conn.totalBytesWriten := by
  rw [getFileTotalBytesWritten, hfile]

theorem fileToConsumer_of_nonpos (hfile : s.pFile = some conn)
    (hmore : s.totalBytesRead < conn.totalBytesWriten + 4)
    (hr : conn.read host (store s.buffer 0 [0]) maxMsgSize s.totalBytesRead false sched = r)
    (hvalue : r.value ≤ 0) (writeMsg : Int) :
    ∃ buffer, (buffer = r.buffer ∨ buffer = store r.buffer 1 [0]) ∧
      s.fileToConsumer host false sched writeMsg =
        some ⟨0, { s with buffer := buffer }, [], r.sched⟩ := by
  have htotal := getFileTotalBytesWritten_of_file hfile
  rw [fileToConsumer, hfile]
  simp only [Option.bind_eq_bind, Option.bind_some, htotal, if_neg (Nat.not_le.mpr hmore), hr]
  rcases lt_or_eq_of_le hvalue with hneg | hzero
  · rw [if_pos hneg]
    exact ⟨r.buffer, Or.inl rfl, rfl⟩
  · rw [if_neg (by omega), if_pos hzero, hzero]
    exact ⟨store r.buffer 1 [0], Or.inr rfl, rfl⟩

/-- When it returns something, that is sent to a ZeroMQ socket less the
header, and less four bytes more. -/
theorem fileToConsumer_of_pos {v : Nat} (hfile : s.pFile = some conn)
    (hconsumer : s.pConsumerSocket = some .zmq)
    (hmore : s.totalBytesRead < conn.totalBytesWriten + 4)
    (hr : conn.read host (store s.buffer 0 [0]) maxMsgSize s.totalBytesRead false sched = r)
    (hvalue : r.value = v) (hpos : 0 < v) (writeMsg : Int) :
    let buffer := store r.buffer (v + 1) [0]
    let length := u32OfInt ((v : Int) - 4 - 4)
    s.fileToConsumer host false sched writeMsg =
      some ⟨writeMsg, { s with buffer := buffer, totalBytesRead := s.totalBytesRead + v },
        [((buffer.drop 4).take length, length)], r.sched⟩ := by
  have htotal := getFileTotalBytesWritten_of_file hfile
  have hneg : ¬ (v : Int) < 0 := by omega
  have hzero : ¬ (v : Int) = 0 := by omega
  rw [fileToConsumer, hfile]
  simp only [Option.bind_eq_bind, Option.bind_some, htotal, if_neg (Nat.not_le.mpr hmore), hr,
    hvalue, if_neg hneg, if_neg hzero, hconsumer, Int.toNat_natCast]

end Call

end BrokerStorage

end LightQ
