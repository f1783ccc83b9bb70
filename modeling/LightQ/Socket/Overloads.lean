/-
# `Socket.Overloads` — the two `add_to_storage` (`broker_storage.h`)

A message is added as a `std::string` or as a pointer and an `unsigned`.  The
two call trees are copies of each other, down to the files and the sockets.
They differ in what the length is kept in, in whether a file that cannot be
created is noticed, and, on a raw socket, in a test of the value of
`write_size` against the `sizeof` of the length: the one for pointers takes a
header that has been written for one that has not.

`add_to_storage_same_iff` says for which storages, messages and outcomes they
do the same.  A call on a raw socket need not come back, so that the two are
compared after every number of turns: `writeRun` is what the turns come to, and
the loop of `write_msg` comes back with that (`writeLoop_eq`, which connects the
comparison to the function).

The three differences are one lemma or two each.

  * An `unsigned` holds the length of the message, or the bytes that are kept
    are fewer (`take_u32_iff`).
  * A file that cannot be created is the end of one call
    (`write_string_of_uncreated`), and the other goes on to the file that is not
    there (`write_pointer_of_uncreated`); only the creation of the first file
    is reported (`setCurrentFile_true`).
  * Without a header the tests are met in neither function
    (`writeTurn_overload`), and as long as every header fails the two loops go
    together (`writeRun_headless`).  A header that is written parts them
    (`parted`): of one call the payload is next, a part of it that is sent is
    the last (`writeMsg_sent`) and one that is not leaves no trace
    (`writeMsg_unsent`), while the other goes on to the next socket.  So in
    loops that go together every header fails (`headless_of_together`).

Without a connection both fail at once (`same_unconnected`).
-/
import Mathlib.Logic.Relation
import LightQ.Storage.Rotation
import LightQ.Socket.PubSub
import LightQ.Socket.WriteMsg

namespace LightQ

open MachineInt Transfer

/-- `p_consumer_socket_`: that of a `consumer`, so that `endpoint_type_` is
`conn_consumer`. -/
inductive ConsumerSocket where
  | zmq (c : ConnectionZmq)
  | socket (s : ConnectionSocket)

/-- `get_stream_type`. -/
def ConsumerSocket.streamType : ConsumerSocket → StreamType
  | .zmq _ => .zmq
  | .socket _ => .socket

/-- A storage and the connection that it has been given. -/
structure StoredTopic where
  storage : BrokerStorage
  consumer : Option ConsumerSocket
  agrees : storage.pConsumerSocket = consumer.map ConsumerSocket.streamType

/-- What a call of `add_to_storage` meets: the outcomes of file creation and of
`pwrite`, those of ZeroMQ, and those of `write`. -/
structure Outcomes (ν : Type) where
  opened : Option Bytes
  sched : List PwriteResult
  sendmore : SendResult
  send : SendResult
  network : Network ν
  net : ν

/-- Where a call is after a number of turns: its value, if it has come back, the
storage and the socket, and what it has written. -/
structure Progress (ν : Type) where
  ok : Option Bool
  storage : BrokerStorage
  consumer : Option ConsumerSocket
  sched : List PwriteResult
  parts : List Part
  writes : List SocketWrite
  net : ν

/-- Where `write_msg` is after a number of turns. -/
structure WriteRun (ν : Type) where
  value : Option Int
  socket : ConnectionSocket
  writes : List SocketWrite
  net : ν

namespace Overloads

variable {ν : Type}

/-- The turns of `writeLoop`, as far as they go. -/
def writeRun (network : Network ν) (sizeof : Int) (host : ByteOrder) (message : Bytes)
    (length : Nat) : Nat → ConnectionSocket → ν → WriteRun ν
  | 0, s, net => ⟨none, s, [], net⟩
  | turns + 1, s, net =>
      if s.fds.length = 0 then ⟨some 0, s, [], net⟩
      else
        let t := ConnectionSocket.writeTurn network sizeof host message length s net
        match t.value with
        | some value => ⟨some value, t.socket, [t.write], t.net⟩
        | none =>
            let r := writeRun network sizeof host message length turns t.socket t.net
            { r with writes := t.write :: r.writes }

/-- `add_to_storage`, up to a number of turns of the loop over raw sockets. -/
def addToStorage (host : ByteOrder) (t : StoredTopic) (message : Bytes) (env : Outcomes ν)
    (turns : Nat) (overload : ConnectionFile.Overload) : Option (Progress ν) :=
  match t.storage.brokerType with
  | .direct =>
      match t.consumer with
      | none => do
          let stored ← t.storage.add host overload message ⟨none, [], 0⟩
          some ⟨some stored.ok, stored.storage, none, env.sched, [], [], env.net⟩
      | some (.zmq c) => do
          let (value, c, parts) := c.write overload message env.sendmore env.send
          let stored ← t.storage.add host overload message ⟨none, [], value⟩
          some ⟨some stored.ok, stored.storage, some (.zmq c), env.sched, parts, [], env.net⟩
      | some (.socket s) =>
          let r := writeRun env.network (sizeofLength overload) host message (u32 message.length)
            turns s env.net
          match r.value with
          | some value => do
              let stored ← t.storage.add host overload message ⟨none, [], value⟩
              some ⟨some stored.ok, stored.storage, some (.socket r.socket), env.sched, [],
                r.writes, r.net⟩
          | none =>
              some ⟨none, t.storage, some (.socket r.socket), env.sched, [], r.writes, r.net⟩
  | .file => do
      let file ← t.storage.pFile
      let a ← file.write host overload message false env.opened env.sched
      let stored := t.storage.bookFile a
      some ⟨some stored.ok, stored.storage, t.consumer, a.sched, [], [], env.net⟩
  | .queue | .queueFile => do
      let stored ← t.storage.add host overload message ⟨none, [], 0⟩
      some ⟨some stored.ok, stored.storage, t.consumer, env.sched, [], [], env.net⟩

/-- The two do the same, turn by turn. -/
def Same (host : ByteOrder) (t : StoredTopic) (message : Bytes) (env : Outcomes ν) : Prop :=
  ∀ turns, addToStorage host t message env turns .string
    = addToStorage host t message env turns .pointer

/-- A write of the header fails on the socket that is next. -/
def HeaderFails (network : Network ν) (host : ByteOrder) (message : Bytes) (s : ConnectionSocket)
    (net : ν) : Prop :=
  (put (Framing.header host true (u32 message.length))
    (network.upcoming net s.wrapped.currentFd)).failed ≠ none

/-- What comes of the payload behind the header on the socket that is next. -/
def payloadPut (network : Network ν) (host : ByteOrder) (message : Bytes) (s : ConnectionSocket)
    (net : ν) : Put UInt8 Unit :=
  put (message.take (u32 message.length))
    (network.upcoming (ConnectionSocket.behindHeader network host (u32 message.length) net
      s.wrapped.currentFd) s.wrapped.currentFd)

/-- Another socket is tried: the one that was next refuses the payload, or there is
none to send. -/
inductive Next (network : Network ν) (host : ByteOrder) (message : Bytes) :
    ConnectionSocket × ν → ConnectionSocket × ν → Prop where
  | refused {s : ConnectionSocket} {net : ν} : s.fds ≠ [] →
      (payloadPut network host message s net).failed ≠ none →
      (payloadPut network host message s net).sent = [] →
      Next network host message (s, net) (s.wrapped.removeFd s.wrapped.currentFdIndex,
        ConnectionSocket.behindPayload network host message (u32 message.length) net
          s.wrapped.currentFd)
  | nothing {s : ConnectionSocket} {net : ν} : s.fds ≠ [] → u32 message.length = 0 →
      Next network host message (s, net) (s.wrapped.advanced,
        ConnectionSocket.behindPayload network host message (u32 message.length) net
          s.wrapped.currentFd)

/-- On each socket that is tried a write of the header fails. -/
def Headless (network : Network ν) (host : ByteOrder) (message : Bytes)
    (x : ConnectionSocket × ν) : Prop :=
  ∀ y, Relation.ReflTransGen (Next network host message) x y → y.1.fds ≠ [] →
    HeaderFails network host message y.1 y.2

/-- ZeroMQ sends the message, behind its topic. -/
def Sends (c : ConnectionZmq) (env : Outcomes ν) : Prop :=
  env.send = .sent ∧ ¬ (c.zmqSocketType = .pub ∧ env.sendmore = .threw)

/-- When they do. -/
def SameWhen (host : ByteOrder) (t : StoredTopic) (message : Bytes) (env : Outcomes ν) : Prop :=
  match t.storage.brokerType with
  | .direct =>
      match t.consumer with
      | none => True
      | some (.zmq c) => message.length < 2 ^ 32 ∨ ¬ Sends c env
      | some (.socket s) => Headless env.network host message (s, env.net)
  | .file => ∀ file, t.storage.pFile = some file → file.fileFds = [] → env.opened ≠ none
  | .queue | .queueFile => message.length < 2 ^ 32

section Turns

variable {network : Network ν} {sizeof : Int} {host : ByteOrder} {message : Bytes}
  {length turns : Nat} {s : ConnectionSocket} {net : ν}

theorem writeLoop_eq :
    ConnectionSocket.writeLoop network sizeof host message length turns s net =
      (writeRun network sizeof host message length turns s net).value.map fun value =>
        ⟨value, (writeRun network sizeof host message length turns s net).socket,
          (writeRun network sizeof host message length turns s net).writes,
          (writeRun network sizeof host message length turns s net).net⟩ := by
  induction turns generalizing s net with
  | zero => rfl
  | succ turns ih =>
      rw [ConnectionSocket.writeLoop, writeRun]
      split
      · rfl
      · dsimp only
        cases (ConnectionSocket.writeTurn network sizeof host message length s net).value with
        | some value => rfl
        | none =>
            dsimp only
            rw [ih, Option.map_map]
            rfl

theorem writeRun_turn (hfds : s.fds ≠ []) {t : WriteTurn ν}
    (ht : ConnectionSocket.writeTurn network sizeof host message length s net = t) :
    writeRun network sizeof host message length (turns + 1) s net =
      match t.value with
      | some value => ⟨some value, t.socket, [t.write], t.net⟩
      | none =>
          { writeRun network sizeof host message length turns t.socket t.net with
            writes := t.write ::
              (writeRun network sizeof host message length turns t.socket t.net).writes } := by
  have hpos : ¬ s.fds.length = 0 := fun hzero => hfds (List.length_eq_zero_iff.mp hzero)
  rw [writeRun, if_neg hpos]
  dsimp only
  rw [ht]

theorem writeTurn_overload
    (hsize : (ConnectionSocket.headerTo network host length net s.wrapped.currentFd).value ≠ 4) :
    ConnectionSocket.writeTurn network (sizeofLength .string) host message length s net
      = ConnectionSocket.writeTurn network (sizeofLength .pointer) host message length s net := by
  have hstring : (ConnectionSocket.headerTo network host length net s.wrapped.currentFd).value
      ≠ sizeofLength .string := ConnectionSocket.headerTo_ne_string
  have hpointer : (ConnectionSocket.headerTo network host length net s.wrapped.currentFd).value
      ≠ sizeofLength .pointer := hsize
  by_cases hfailed : (ConnectionSocket.payloadTo network host message length net
      s.wrapped.currentFd).value = -1
  · rw [ConnectionSocket.writeTurn_failed hstring hfailed,
      ConnectionSocket.writeTurn_failed hpointer hfailed]
  · by_cases hzero : (ConnectionSocket.payloadTo network host message length net
        s.wrapped.currentFd).value = 0
    · rw [ConnectionSocket.writeTurn_nothing hstring hzero,
        ConnectionSocket.writeTurn_nothing hpointer hzero]
    · rw [ConnectionSocket.writeTurn_wrote hstring hfailed hzero,
        ConnectionSocket.writeTurn_wrote hpointer hfailed hzero]

theorem headerFails_iff : HeaderFails network host message s net ↔
    (ConnectionSocket.headerTo network host (u32 message.length) net s.wrapped.currentFd).value ≠ 4 := by
  have hfour := Framing.length_header host true (u32 message.length)
  obtain ⟨hall, hcut⟩ := ConnectionSocket.wrote_value
    (put (Framing.header host true (u32 message.length)) (network.upcoming net s.wrapped.currentFd))
  change _ ↔ (Utils.wrote (put (Framing.header host true (u32 message.length))
    (network.upcoming net s.wrapped.currentFd))).value ≠ 4
  rcases put_cases (Framing.header host true (u32 message.length))
    (network.upcoming net s.wrapped.currentFd) with ⟨hnone, hsent⟩ | ⟨e, hfailed, -, hless⟩
  · refine iff_of_false (fun h => h hnone) fun h => h ?_
    rw [hall hnone, hsent, hfour]
    rfl
  · have hsome := hfailed.trans_ne (Option.some_ne_none e)
    refine iff_of_true hsome ?_
    rw [hcut hsome]
    split
    · omega
    · omega

/-- A turn of the `std::string` overload without a value goes on to the next
socket. -/
theorem next_iff (hfds : s.fds ≠ []) (y : ConnectionSocket × ν) :
    Next network host message (s, net) y ↔
      ConnectionSocket.writeTurn network (sizeofLength .string) host message (u32 message.length) s net
        = ⟨none, y.1, ConnectionSocket.frameWrite network host message (u32 message.length) net
            s.wrapped.currentFd, y.2⟩ := by
  have hstring : (ConnectionSocket.headerTo network host (u32 message.length) net
      s.wrapped.currentFd).value ≠ sizeofLength .string := ConnectionSocket.headerTo_ne_string
  have hrefused := ConnectionSocket.wrote_refused_iff (payloadPut network host message s net)
  have hnothing : _ ↔ message.take (u32 message.length) = [] :=
    ConnectionSocket.wrote_nothing_iff (message.take (u32 message.length))
      (network.upcoming (ConnectionSocket.behindHeader network host (u32 message.length) net
        s.wrapped.currentFd) s.wrapped.currentFd)
  constructor
  · intro hnext
    cases hnext with
    | refused _ hfailed hnone =>
        exact ConnectionSocket.writeTurn_failed hstring (hrefused.mpr ⟨hfailed, hnone⟩)
    | nothing _ hzero =>
        exact ConnectionSocket.writeTurn_nothing hstring (ConnectionSocket.payloadTo_zero hzero _)
  · intro hturn
    obtain ⟨s', net'⟩ := y
    by_cases hfailed : (ConnectionSocket.payloadTo network host message (u32 message.length) net
        s.wrapped.currentFd).value = -1
    · rw [ConnectionSocket.writeTurn_failed hstring hfailed] at hturn
      obtain ⟨-, rfl, -, rfl⟩ := WriteTurn.mk.inj hturn
      obtain ⟨hsome, hnone⟩ := hrefused.mp hfailed
      exact .refused hfds hsome hnone
    · by_cases hzero : (ConnectionSocket.payloadTo network host message (u32 message.length) net
          s.wrapped.currentFd).value = 0
      · rw [ConnectionSocket.writeTurn_nothing hstring hzero] at hturn
        obtain ⟨-, rfl, -, rfl⟩ := WriteTurn.mk.inj hturn
        have hlen := List.length_take_of_le (u32_le message.length)
        rw [hnothing.mp hzero] at hlen
        exact .nothing hfds hlen.symm
      · rw [ConnectionSocket.writeTurn_wrote hstring hfailed hzero] at hturn
        cases hturn

theorem writeRun_headless (h : Headless network host message (s, net)) :
    writeRun network (sizeofLength .string) host message (u32 message.length) turns s net
      = writeRun network (sizeofLength .pointer) host message (u32 message.length) turns s net := by
  induction turns generalizing s net with
  | zero => rfl
  | succ turns ih =>
      by_cases hfds : s.fds = []
      · have hzero : s.fds.length = 0 := by rw [hfds]; rfl
        rw [writeRun, writeRun, if_pos hzero, if_pos hzero]
      · have hsize := headerFails_iff.mp (h (s, net) .refl hfds)
        have hnext : ∀ y, Next network host message (s, net) y ↔ _ := next_iff hfds
        have hwrite : (ConnectionSocket.writeTurn network (sizeofLength .string) host message
            (u32 message.length) s net).write = _ :=
          ConnectionSocket.writeTurn_write ConnectionSocket.headerTo_ne_string
        rw [writeRun_turn hfds rfl, writeRun_turn hfds (writeTurn_overload hsize).symm]
        generalize ConnectionSocket.writeTurn network (sizeofLength .string) host message
          (u32 message.length) s net = t at hnext hwrite ⊢
        obtain ⟨value, s', write, net'⟩ := t
        cases value with
        | some value => rfl
        | none =>
            obtain rfl := hwrite
            have hstep : Next network host message (s, net) (s', net') := (hnext (s', net')).mpr rfl
            dsimp only
            rw [ih fun y hy => h y (.head hstep hy)]

theorem writeRun_one (hfds : s.fds ≠ []) :
    (writeRun network sizeof host message length 1 s net).socket
        = (ConnectionSocket.writeTurn network sizeof host message length s net).socket ∧
      (writeRun network sizeof host message length 1 s net).writes
        = [(ConnectionSocket.writeTurn network sizeof host message length s net).write] := by
  rw [writeRun_turn hfds rfl]
  cases (ConnectionSocket.writeTurn network sizeof host message length s net).value with
  | some value => exact ⟨rfl, rfl⟩
  | none => exact ⟨rfl, rfl⟩

/-- The two loops have left the same sockets and written the same. -/
def Together (network : Network ν) (host : ByteOrder) (message : Bytes) (s : ConnectionSocket)
    (net : ν) (turns : Nat) : Prop :=
  let string := writeRun network (sizeofLength .string) host message (u32 message.length) turns s net
  let pointer := writeRun network (sizeofLength .pointer) host message (u32 message.length) turns s net
  string.socket = pointer.socket ∧ string.writes = pointer.writes

/-- A header that is written parts them. -/
theorem parted (hfds : s.fds ≠ [])
    (hsize : (ConnectionSocket.headerTo network host (u32 message.length) net
      s.wrapped.currentFd).value = 4) : ¬ Together network host message s net 1 := by
  rintro ⟨hsocket, hwrites⟩
  have hstring : (ConnectionSocket.headerTo network host (u32 message.length) net
      s.wrapped.currentFd).value ≠ sizeofLength .string := ConnectionSocket.headerTo_ne_string
  have hdropped : ConnectionSocket.writeTurn network (sizeofLength .pointer) host message
      (u32 message.length) s net = _ := ConnectionSocket.writeTurn_dropped hsize
  rw [(writeRun_one hfds).2, (writeRun_one hfds).2, ConnectionSocket.writeTurn_write hstring, hdropped] at hwrites
  -- what the turns were to write is the same only if there is no payload
  have hlen : (Framing.header host true (u32 message.length)
      ++ message.take (u32 message.length)).length
        = (Framing.header host true (u32 message.length)).length :=
    congrArg (fun x : SocketWrite => x.asked.length) (List.singleton_inj.mp hwrites)
  rw [List.length_append, List.length_take_of_le (u32_le _)] at hlen
  have hzero : u32 message.length = 0 := by omega
  rw [(writeRun_one hfds).1, (writeRun_one hfds).1, hdropped,
    ConnectionSocket.writeTurn_nothing hstring (ConnectionSocket.payloadTo_zero hzero _)] at hsocket
  have hindex : u32 (s.wrapped.currentFdIndex + 1) = s.wrapped.currentFdIndex :=
    congrArg ConnectionSocket.currentFdIndex hsocket
  rw [u32] at hindex
  omega

/-- In loops that go together every header fails. -/
theorem headless_of_together (h : ∀ k, Together network host message s net k) :
    Headless network host message (s, net) := by
  have hfails : ∀ {s : ConnectionSocket} {net : ν}, s.fds ≠ [] →
      Together network host message s net 1 → HeaderFails network host message s net :=
    fun hfds htogether => headerFails_iff.mpr fun hfour => parted hfds hfour htogether
  intro y hy
  -- what goes together goes together from the next socket on
  have htogether : ∀ k, Together network host message y.1 y.2 k := by
    induction hy with
    | refl => exact h
    | @tail x y _ hnext ih =>
        intro k
        obtain ⟨s, net⟩ := x
        have hfds : s.fds ≠ [] := by
          cases hnext with
          | refused hfds _ _ => exact hfds
          | nothing hfds _ => exact hfds
        have hturn := (next_iff hfds y).mp hnext
        have hsame : ConnectionSocket.writeTurn network (sizeofLength .string) host message
            (u32 message.length) s net = _ :=
          writeTurn_overload (headerFails_iff.mp (hfails hfds (ih 1)))
        obtain ⟨hsocket, hwrites⟩ := ih (k + 1)
        rw [writeRun_turn hfds hturn, writeRun_turn hfds (hsame.symm.trans hturn)] at hsocket hwrites
        exact ⟨hsocket, (List.cons.inj hwrites).2⟩
  exact fun hfds => hfails hfds (htogether 1)

end Turns

/-! ## The four kinds of storage -/

section Kinds

variable {host : ByteOrder} {t : StoredTopic} {message : Bytes} {env : Outcomes ν}

theorem take_u32_iff (message : Bytes) :
    message = message.take (u32 message.length) ↔ message.length < 2 ^ 32 := by
  constructor
  · intro h
    have hlen := congrArg List.length h
    have hlt := u32_lt message.length
    rw [List.length_take_of_le (u32_le _)] at hlen
    omega
  · intro h
    rw [u32_of_lt h, List.take_length]

section File

variable {file : ConnectionFile} {opened : Option Bytes} {sched : List PwriteResult}

theorem write_string_of_uncreated (hfiles : file.fileFds = []) :
    file.write host .string message false none sched = some ⟨-1, file, sched⟩ := by
  have hzero : file.fileFds.length = 0 := by rw [hfiles]; rfl
  have hset : file.setCurrentFile none = some (false, file) := by
    rw [ConnectionFile.setCurrentFile, if_pos hzero]
    rfl
  rw [ConnectionFile.write, ConnectionFile.writeToFile, hset]
  rfl

theorem write_pointer_of_uncreated (hfiles : file.fileFds = []) :
    file.write host .pointer message false none sched = none := by
  have hzero : file.fileFds.length = 0 := by rw [hfiles]; rfl
  have hset : file.setCurrentFile none = some (false, file) := by
    rw [ConnectionFile.setCurrentFile, if_pos hzero]
    rfl
  rw [ConnectionFile.write, ConnectionFile.writeToFilePtr, hset]
  simp only [Option.bind_eq_bind, Option.bind_some, hfiles, List.getElem?_nil, Option.bind_none]

theorem setCurrentFile_true (h : file.fileFds = [] → opened ≠ none) :
    file.setCurrentFile opened = none ∨
      ∃ file', file.setCurrentFile opened = some (true, file') := by
  by_cases hfiles : file.fileFds = []
  · obtain ⟨content, rfl⟩ := Option.ne_none_iff_exists'.mp (h hfiles)
    exact Or.inr ⟨_, ConnectionFile.setCurrentFile_of_no_file hfiles⟩
  · have hpos : ¬ file.fileFds.length = 0 := fun hzero => hfiles (List.length_eq_zero_iff.mp hzero)
    rw [ConnectionFile.setCurrentFile, if_neg hpos]
    split
    · exact Or.inl rfl
    · split
      · cases file.fileFds[file.currentFdIndex]? with
        | none => exact Or.inl rfl
        | some f =>
            -- a later file that cannot be created is not reported
            right
            rw [Option.bind_eq_bind, Option.bind_some]
            dsimp only
            split
            · exact ⟨_, rfl⟩
            · exact ⟨_, rfl⟩
      · exact Or.inr ⟨file, rfl⟩

theorem write_same (h : file.fileFds = [] → opened ≠ none) :
    file.write host .string message false opened sched
      = file.write host .pointer message false opened sched := by
  rcases setCurrentFile_true h with hnone | ⟨file', hset⟩
  · rw [ConnectionFile.write, ConnectionFile.write, ConnectionFile.writeToFile,
      ConnectionFile.writeToFilePtr, hnone]
    rfl
  · rw [ConnectionFile.write_of_set hset, ConnectionFile.write_of_set hset]

end File

/-- What `direct_write_consumer` makes of the value of `write_msg`, if it comes
back. -/
def settled (s : BrokerStorage) : Option Int → Option Bool × BrokerStorage
  | none => (none, s)
  | some value =>
      if value < 0 then (some false, s)
      else (some true, { s with totalBytesWritten := s.totalBytesWritten + value.toNat })

theorem directWriteConsumer_settled {s : BrokerStorage} {k : StreamType}
    (hsocket : s.pConsumerSocket = some k) (handed : Bytes) (addEnv : AddEnv) :
    (some (s.directWriteConsumer handed addEnv).ok, (s.directWriteConsumer handed addEnv).storage)
      = settled s (some addEnv.writeMsg) := by
  have hdirect : s.directWriteConsumer handed addEnv =
      if addEnv.writeMsg < 0 then ⟨false, s, [handed]⟩
      else ⟨true, { s with totalBytesWritten := s.totalBytesWritten + addEnv.writeMsg.toNat },
        [handed]⟩ := by
    rw [BrokerStorage.directWriteConsumer, hsocket]
  rw [hdirect, settled]
  by_cases hneg : addEnv.writeMsg < 0
  · rw [if_pos hneg, if_pos hneg]
  · rw [if_neg hneg, if_neg hneg]

theorem add_direct {s : BrokerStorage} {k : StreamType} (host : ByteOrder) (message : Bytes)
    (htype : s.brokerType = .direct) (hsocket : s.pConsumerSocket = some k)
    (overload : ConnectionFile.Overload) (value : Int) :
    ∃ stored, s.add host overload message ⟨none, [], value⟩ = some stored ∧
      (some stored.ok, stored.storage) = settled s (some value) := by
  cases overload with
  | string =>
      exact ⟨_, by rw [BrokerStorage.add, BrokerStorage.addToStorage, htype],
        directWriteConsumer_settled hsocket _ _⟩
  | pointer =>
      exact ⟨_, by rw [BrokerStorage.add, BrokerStorage.addToStoragePtr, htype],
        directWriteConsumer_settled hsocket _ _⟩

theorem same_unconnected (htype : t.storage.brokerType = .direct) (hconsumer : t.consumer = none) :
    Same host t message env := by
  intro turns
  have hsocket : t.storage.pConsumerSocket = none := by
    rw [t.agrees, hconsumer]
    rfl
  simp only [addToStorage, htype, hconsumer, BrokerStorage.add, BrokerStorage.addToStorage,
    BrokerStorage.addToStoragePtr, BrokerStorage.directWriteConsumer, hsocket,
    Option.bind_eq_bind, Option.bind_some]

theorem addToStorage_socket {s : ConnectionSocket} (htype : t.storage.brokerType = .direct)
    (hconsumer : t.consumer = some (.socket s)) (turns : Nat) (overload : ConnectionFile.Overload) :
    addToStorage host t message env turns overload =
      let r := writeRun env.network (sizeofLength overload) host message (u32 message.length) turns s
        env.net
      some ⟨(settled t.storage r.value).1, (settled t.storage r.value).2, some (.socket r.socket),
        env.sched, [], r.writes, r.net⟩ := by
  have hsocket : t.storage.pConsumerSocket = some .socket := by
    rw [t.agrees, hconsumer]
    rfl
  rw [addToStorage, htype, hconsumer]
  dsimp only
  cases (writeRun env.network (sizeofLength overload) host message (u32 message.length) turns s
    env.net).value with
  | none => rfl
  | some value =>
      obtain ⟨stored, hstored, hsettled⟩ := add_direct host message htype hsocket overload
        value
      dsimp only
      rw [hstored, ← hsettled]
      rfl

theorem same_socket_iff {s : ConnectionSocket} (htype : t.storage.brokerType = .direct)
    (hconsumer : t.consumer = some (.socket s)) :
    Same host t message env ↔ Headless env.network host message (s, env.net) := by
  constructor
  · intro h
    refine headless_of_together ?_
    intro k
    have hk := h k
    rw [addToStorage_socket htype hconsumer, addToStorage_socket htype hconsumer] at hk
    obtain ⟨-, -, hsocket, -, -, hwrites, -⟩ := Progress.mk.inj (Option.some.inj hk)
    exact ⟨ConsumerSocket.socket.inj (Option.some.inj hsocket), hwrites⟩
  · intro h turns
    rw [addToStorage_socket htype hconsumer, addToStorage_socket htype hconsumer]
    dsimp only
    rw [writeRun_headless h]

theorem writeMsg_unsent {c : ConnectionZmq} (h : ¬ Sends c env) (message₁ message₂ : Bytes) :
    c.writeMsg message₁ env.sendmore env.send = c.writeMsg message₂ env.sendmore env.send := by
  by_cases hpub : c.zmqSocketType = .pub
  · simp only [ConnectionZmq.writeMsg, if_pos hpub]
    cases hmore : env.sendmore with
    | threw => rfl
    | sent | again =>
        cases hsend : env.send with
        | sent => exact absurd ⟨hsend, by simp [hmore]⟩ h
        | again | threw => rfl
  · simp only [ConnectionZmq.writeMsg, if_neg hpub]
    cases hsend : env.send with
    | sent => exact absurd ⟨hsend, fun hthrew => hpub hthrew.1⟩ h
    | again | threw => rfl

theorem writeMsg_sent {c : ConnectionZmq} (h : Sends c env) :
    ∃ parts, ∀ handed, (c.writeMsg handed env.sendmore env.send).2.2 = parts ++ [⟨handed, false⟩] := by
  obtain ⟨hsend, hthrew⟩ := h
  by_cases hpub : c.zmqSocketType = .pub
  · cases hmore : env.sendmore with
    | sent =>
        refine ⟨[⟨c.topic, true⟩], ?_⟩
        intro handed
        simp only [ConnectionZmq.writeMsg, hsend, if_pos hpub]
    | again =>
        refine ⟨[], ?_⟩
        intro handed
        simp only [ConnectionZmq.writeMsg, hsend, if_pos hpub]
    | threw => exact absurd ⟨hpub, hmore⟩ hthrew
  · refine ⟨[], ?_⟩
    intro handed
    simp only [ConnectionZmq.writeMsg, hsend, if_neg hpub]

theorem addToStorage_zmq {c : ConnectionZmq} (htype : t.storage.brokerType = .direct)
    (hconsumer : t.consumer = some (.zmq c)) (turns : Nat) (overload : ConnectionFile.Overload) :
    addToStorage host t message env turns overload =
      let w := c.write overload message env.sendmore env.send
      some ⟨(settled t.storage (some w.1)).1, (settled t.storage (some w.1)).2, some (.zmq w.2.1),
        env.sched, w.2.2, [], env.net⟩ := by
  have hsocket : t.storage.pConsumerSocket = some .zmq := by
    rw [t.agrees, hconsumer]
    rfl
  rw [addToStorage, htype, hconsumer]
  dsimp only
  generalize c.write overload message env.sendmore env.send = w
  obtain ⟨value, c', parts⟩ := w
  obtain ⟨stored, hstored, hsettled⟩ := add_direct host message htype hsocket overload value
  dsimp only
  rw [hstored, ← hsettled]
  rfl

theorem same_zmq_iff {c : ConnectionZmq} (htype : t.storage.brokerType = .direct)
    (hconsumer : t.consumer = some (.zmq c)) :
    Same host t message env ↔ message.length < 2 ^ 32 ∨ ¬ Sends c env := by
  constructor
  · intro h
    by_cases hsends : Sends c env
    · have hzero := h 0
      rw [addToStorage_zmq htype hconsumer, addToStorage_zmq htype hconsumer] at hzero
      obtain ⟨-, -, -, -, hparts, -, -⟩ := Progress.mk.inj (Option.some.inj hzero)
      obtain ⟨parts, hsent⟩ := writeMsg_sent hsends
      rw [ConnectionZmq.write, ConnectionZmq.write, ConnectionZmq.writeMsgPtr] at hparts
      rw [hsent, hsent] at hparts
      have hlast := List.singleton_inj.mp (List.append_cancel_left hparts)
      exact Or.inl ((take_u32_iff message).mp (congrArg Part.data hlast))
    · exact Or.inr hsends
  · intro h turns
    have hsame : c.write .string message env.sendmore env.send
        = c.write .pointer message env.sendmore env.send := by
      rcases h with hlt | hunsent
      · exact congrArg (fun m => c.writeMsg m env.sendmore env.send) ((take_u32_iff message).mpr hlt)
      · exact writeMsg_unsent hunsent message (message.take (u32 message.length))
    rw [addToStorage_zmq htype hconsumer, addToStorage_zmq htype hconsumer, hsame]

theorem addToStorage_file (htype : t.storage.brokerType = .file) {file : ConnectionFile}
    (hfile : t.storage.pFile = some file) (turns : Nat) (overload : ConnectionFile.Overload) :
    addToStorage host t message env turns overload =
      (file.write host overload message false env.opened env.sched).map fun a =>
        ⟨some (t.storage.bookFile a).ok, (t.storage.bookFile a).storage, t.consumer, a.sched, [], [],
          env.net⟩ := by
  rw [addToStorage, htype]
  simp only [hfile, Option.bind_eq_bind, Option.bind_some]
  cases file.write host overload message false env.opened env.sched with
  | none => rfl
  | some a => rfl

theorem same_file_iff (htype : t.storage.brokerType = .file) {file : ConnectionFile}
    (hfile : t.storage.pFile = some file) :
    Same host t message env ↔ (file.fileFds = [] → env.opened ≠ none) := by
  constructor
  · intro h hfiles hopened
    have hzero := h 0
    rw [addToStorage_file htype hfile, addToStorage_file htype hfile, hopened,
      write_string_of_uncreated hfiles, write_pointer_of_uncreated hfiles] at hzero
    cases hzero
  · intro h turns
    rw [addToStorage_file htype hfile, addToStorage_file htype hfile, write_same h]

theorem addToStorage_queue (htype : t.storage.brokerType = .queue ∨ t.storage.brokerType = .queueFile)
    (turns : Nat) (overload : ConnectionFile.Overload) :
    addToStorage host t message env turns overload =
      some ⟨some true, t.storage.writeToQueue (PubSub.written overload message), t.consumer,
        env.sched, [], [], env.net⟩ := by
  have hadd : t.storage.add host overload message ⟨none, [], 0⟩
      = some ⟨true, t.storage.writeToQueue (PubSub.written overload message), []⟩ := by
    cases overload with
    | string =>
        rcases htype with htype | htype
        · rw [BrokerStorage.add, BrokerStorage.addToStorage, htype, PubSub.written]
        · rw [BrokerStorage.add, BrokerStorage.addToStorage, htype, PubSub.written]
    | pointer =>
        rcases htype with htype | htype
        · rw [BrokerStorage.add, BrokerStorage.addToStoragePtr, htype, PubSub.written]
        · rw [BrokerStorage.add, BrokerStorage.addToStoragePtr, htype, PubSub.written]
  rcases htype with htype | htype
  · rw [addToStorage, htype]
    dsimp only
    rw [hadd]
    rfl
  · rw [addToStorage, htype]
    dsimp only
    rw [hadd]
    rfl

theorem same_queue_iff (htype : t.storage.brokerType = .queue ∨ t.storage.brokerType = .queueFile) :
    Same host t message env ↔ message.length < 2 ^ 32 := by
  rw [← take_u32_iff]
  constructor
  · intro h
    have hzero := h 0
    rw [addToStorage_queue htype, addToStorage_queue htype] at hzero
    obtain ⟨-, hstorage, -⟩ := Progress.mk.inj (Option.some.inj hzero)
    have hqueue : t.storage.pQueue ++ [message]
        = t.storage.pQueue ++ [message.take (u32 message.length)] :=
      congrArg BrokerStorage.pQueue hstorage
    exact List.singleton_inj.mp (List.append_cancel_left hqueue)
  · intro h turns
    rw [addToStorage_queue htype, addToStorage_queue htype, PubSub.written, PubSub.written, ← h]

end Kinds

/-- Any storage, any connection, any message and any outcomes: both functions
return the same, write the same and leave the same behind, if and only if the
length fits an `unsigned` where the bytes are queued or sent on, the first file
of a log can be created, and no raw socket takes a header. -/
theorem add_to_storage_same_iff (host : ByteOrder) (t : StoredTopic) (message : Bytes)
    (env : Outcomes ν) : Same host t message env ↔ SameWhen host t message env := by
  unfold SameWhen
  cases htype : t.storage.brokerType with
  | direct =>
      cases hconsumer : t.consumer with
      | none => exact iff_of_true (same_unconnected htype hconsumer) trivial
      | some socket =>
          cases socket with
          | zmq c => exact same_zmq_iff htype hconsumer
          | socket s => exact same_socket_iff htype hconsumer
  | file =>
      cases hfile : t.storage.pFile with
      | none =>
          refine iff_of_true (fun turns => ?_) fun file h => nomatch h
          simp only [addToStorage, htype, hfile]
          rfl
      | some file =>
          refine (same_file_iff htype hfile).trans ?_
          constructor
          · rintro h _ hsome
            obtain rfl := Option.some.inj hsome
            exact h
          · intro h
            exact h file rfl
  | queue => exact same_queue_iff (Or.inl htype)
  | queueFile => exact same_queue_iff (Or.inr htype)

/-- One socket that takes everything: one function sends the message, the other
its header, for ever. -/
theorem add_to_storage_not_same :
    ¬ ∀ (host : ByteOrder) (t : StoredTopic) (message : Bytes) (env : Outcomes (List WriteCall)),
        message ≠ [] → Same host t message env := by
  intro h
  have hsame := h .little
    ⟨(BrokerStorage.init .direct (ascii "/tmp") (ascii "t")).2.setConsumerSocket .socket,
      some (.socket ⟨[5], 0, 0⟩), rfl⟩
    (ascii "hello") ⟨none, [], .sent, .sent, .schedule, []⟩ (by decide)
  have hheadless := (same_socket_iff rfl rfl).mp hsame
  exact hheadless _ .refl (List.cons_ne_nil 5 []) rfl

end Overloads

end LightQ
