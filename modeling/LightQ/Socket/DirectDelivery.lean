/-
# `Socket.DirectDelivery` — a direct topic with a raw consumer

`write_msg` puts the length in front of a message in network order;
`receive_message` asks for it in the order of the host, as it stands in the
files that the same client also reads.  On a little-endian host the length
that is read is that of the message with its bytes reversed
(`lengthRead_little_iff`).

So a message arrives if reversing the bytes of its length changes nothing
(`direct_round_trip_iff`): of the lengths that are allowed these are the
multiples of 65792.

Sending is the easy half.  To the one client the header and the message are
sent (`writeMsg_positive`), so that all messages are accepted and the client is
sent their frames (`addAll_positive`).  A message whose length is read as it is,
is received (`receiveMessage_right`), and one whose length is read as another is
not, whatever the call returns, if it comes back at all (`receiveMessage_wrong`).
For several messages the first one decides, since it is that of the first call
(`receiveAll_first`), and behind a message that was received the stream stands at
the next header.

Both directions are for every way of cutting the stream; the loops that send
and receive are those of `Socket.Framing`.
-/
import LightQ.Socket.ConnectionSocket
import LightQ.Socket.Framing

namespace LightQ

open MachineInt Transfer

/-- The result of `connection_socket::write_msg`: its value, the object after
it, what was sent to which socket, and the calls to come. -/
structure WroteMsg where
  value : Int
  socket : ConnectionSocket
  sent : List (Int × Bytes)
  calls : List WriteCall

namespace ConnectionSocket

/-- The loop of `write_msg(const std::string &)`.  `write_size` returns 4 when
it succeeds, so that the test against `sizeof(message.length())` is not met;
on a failure the index is removed from the sockets, not the socket.  A turn
goes on to the next one after a failed call, or for ever if the message is
empty. -/
def writeMsgLoop (host : ByteOrder) (message : Bytes) :
    Nat → ConnectionSocket → List WriteCall → Option WroteMsg
  | 0, _, _ => none
  | turns + 1, s, calls =>
      if s.fds.length = 0 then some ⟨0, s, [], calls⟩
      else
        let index := if s.fds.length ≤ s.currentFdIndex then 0 else s.currentFdIndex
        let s := { s with currentFdIndex := index }
        let fd := s.fds.getD index 0
        let size := Utils.writeSize host (u32 message.length) true calls
        if size.value = 8 then
          (writeMsgLoop host message turns (s.removeFd index) size.calls).map fun w =>
            { w with sent := (fd, size.sent) :: w.sent }
        else
          let body := Utils.writeBuffer message (u32 message.length) size.calls
          let sent := (fd, size.sent ++ body.sent)
          if body.value = -1 then
            (writeMsgLoop host message turns (s.removeFd index) body.calls).map fun w =>
              { w with sent := sent :: w.sent }
          else if body.value = 0 then
            (writeMsgLoop host message turns { s with currentFdIndex := u32 (index + 1) }
              body.calls).map fun w => { w with sent := sent :: w.sent }
          else some ⟨body.value, { s with currentFdIndex := u32 (index + 1) }, [sent], body.calls⟩

/-- `write_msg(const std::string &)`. -/
def writeMsg (host : ByteOrder) (s : ConnectionSocket) (message : Bytes) (calls : List WriteCall) :
    Option WroteMsg :=
  writeMsgLoop host message (calls.length + 1) s calls

end ConnectionSocket

namespace DirectDelivery

/-- A topic of type direct: its storage and the raw socket of its consumer. -/
structure DirectTopic where
  storage : BrokerStorage
  socket : ConnectionSocket

/-- The result of `add_to_storage`: its value, the topic after it, what was
sent, and the calls to come. -/
structure Added where
  ok : Bool
  topic : DirectTopic
  sent : List (Int × Bytes)
  calls : List WriteCall

/-- `add_to_storage(const std::string &)`, which calls `write_msg`. -/
def addToStorage (host : ByteOrder) (t : DirectTopic) (message : Bytes) (calls : List WriteCall) :
    Option Added := do
  let w ← t.socket.writeMsg host message calls
  let stored ← t.storage.addToStorage host message ⟨none, [], w.value⟩
  some ⟨stored.ok, ⟨stored.storage, w.socket⟩, w.sent, w.calls⟩

/-- The messages, one after the other: all values, and all that was sent. -/
def addAll (host : ByteOrder) :
    DirectTopic → List Bytes → List WriteCall → Option (List Bool × List (Int × Bytes))
  | _, [], _ => some ([], [])
  | t, message :: messages, calls => do
      let a ← addToStorage host t message calls
      let (oks, sent) ← addAll host a.topic messages a.calls
      some (a.ok :: oks, a.sent ++ sent)

/-- What a socket is sent. -/
def streamTo (fd : Int) (sent : List (Int × Bytes)) : Bytes :=
  ((sent.filter fun chunk => chunk.1 = fd).map Prod.snd).flatten

/-- `receive_message` of a client made by `init_consumer(socket_consumer)`: the
value becomes an `int`. -/
def receiveMessage (host : ByteOrder) (buffer : Bytes) (bufferLength : Nat) (stream : Bytes)
    (calls : List ReadCall) : Option Received :=
  (ConnectionSocket.clientSocketReadMsg host buffer bufferLength false stream calls).map fun r =>
    { r with value := i32 r.value }

/-- The messages that a number of calls return, each at the front of the
buffer, with the value for its length. -/
def receiveAll (host : ByteOrder) : Nat → Bytes → Bytes → List ReadCall → Option (List Bytes)
  | 0, _, _, _ => some []
  | n + 1, buffer, stream, calls => do
      let r ← receiveMessage host buffer buffer.length stream calls
      let messages ← receiveAll host n r.buffer r.stream r.calls
      some (r.buffer.take r.value.toNat :: messages)

/-! ## Sending -/

section Sending

variable (host : ByteOrder) {t : DirectTopic} {s : ConnectionSocket} {fd : Int} {message : Bytes}
  {calls : List WriteCall}

theorem writeMsg_positive (hfds : s.fds = [fd]) (hne : message ≠ []) (hlt : message.length < 2 ^ 32)
    (h : Positive calls) :
    ∃ calls', s.writeMsg host message calls = some ⟨message.length,
        { s with currentFdIndex := 1 }, [(fd, Framing.frame host true message)], calls'⟩ ∧
      Positive calls' := by
  obtain ⟨calls₁, hsize, h₁⟩ :=
    Framing.writeSize_positive host true h message.length
  obtain ⟨calls₂, hbody, h₂⟩ := Framing.writeBuffer_positive h₁ message
  refine ⟨calls₂, ?_, h₂⟩
  have hindex : (if ([fd] : List Int).length ≤ s.currentFdIndex then 0 else s.currentFdIndex) = 0 := by
    simp only [List.length_singleton]
    split
    · rfl
    · omega
  have hpos : 0 < message.length := List.length_pos_iff.mpr hne
  rw [ConnectionSocket.writeMsg, ConnectionSocket.writeMsgLoop]
  simp only [hfds, hindex, u32_of_lt hlt, hsize, hbody]
  rw [if_neg (by simp), if_neg (by decide), if_neg (by omega), if_neg (by omega)]
  rfl

theorem addToStorage_positive (htype : t.storage.brokerType = .direct)
    (hconsumer : t.storage.pConsumerSocket = some .socket) (hfds : t.socket.fds = [fd])
    (hne : message ≠ []) (hlt : message.length < 2 ^ 32) (h : Positive calls) :
    ∃ t' calls', addToStorage host t message calls
        = some ⟨true, t', [(fd, Framing.frame host true message)], calls'⟩ ∧
      t'.storage.brokerType = .direct ∧ t'.storage.pConsumerSocket = some .socket ∧
      t'.socket.fds = [fd] ∧ Positive calls' := by
  obtain ⟨calls', hwrite, h'⟩ := writeMsg_positive host hfds hne hlt h
  refine ⟨⟨{ t.storage with
      totalBytesWritten := t.storage.totalBytesWritten + message.length },
    { t.socket with currentFdIndex := 1 }⟩, calls', ?_, htype, hconsumer, hfds, h'⟩
  have hok : ¬ (message.length : Int) < 0 := by omega
  simp only [addToStorage, hwrite, Option.bind_eq_bind, Option.bind_some,
    BrokerStorage.addToStorage, htype, BrokerStorage.directWriteConsumer, hconsumer, if_neg hok,
    Int.toNat_natCast]

theorem addAll_positive {messages : List Bytes} (htype : t.storage.brokerType = .direct)
    (hconsumer : t.storage.pConsumerSocket = some .socket) (hfds : t.socket.fds = [fd])
    (hmessages : ∀ m ∈ messages, m ≠ [] ∧ m.length < 2 ^ 32) (h : Positive calls) :
    addAll host t messages calls = some (messages.map fun _ => true,
      messages.map fun m => (fd, Framing.frame host true m)) := by
  induction messages generalizing t calls with
  | nil => rfl
  | cons m messages ih =>
      obtain ⟨hne, hlt⟩ := hmessages m List.mem_cons_self
      obtain ⟨t', calls', hadd, htype', hconsumer', hfds', h'⟩ :=
        addToStorage_positive host htype hconsumer hfds hne hlt h
      have hrest := ih htype' hconsumer' hfds'
        (fun m' hm' => hmessages m' (List.mem_cons_of_mem m hm')) h'
      simp only [addAll, hadd, hrest, Option.bind_eq_bind, Option.bind_some]
      rfl

theorem streamTo_frames (fd : Int) (messages : List Bytes) :
    streamTo fd (messages.map fun m => (fd, Framing.frame host true m))
      = Framing.frames host true messages := by
  have hall : (messages.map fun m => (fd, Framing.frame host true m)).filter
      (fun chunk => decide (chunk.1 = fd)) = messages.map fun m => (fd, Framing.frame host true m) := by
    refine List.filter_eq_self.mpr ?_
    intro chunk hchunk
    obtain ⟨m, -, rfl⟩ := List.mem_map.mp hchunk
    exact decide_eq_true rfl
  rw [streamTo, hall, List.map_map]
  rfl

end Sending

/-! ## Receiving -/

section Receiving

variable {host : ByteOrder} (rest : Bytes) {message buffer : Bytes} {calls : List ReadCall}

/-- The length that `receive_message` reads in the header of a message. -/
def lengthRead (host : ByteOrder) (length : Nat) : Nat :=
  Framing.headerSize host false (Framing.header host true length)

theorem lengthRead_eq (host : ByteOrder) (length : Nat) :
    lengthRead host length = host.htonl length := by
  show host.ofBytes (host.toBytes 4 (host.htonl length)) = host.htonl length
  rw [ByteOrder.toBytes_htonl]
  rfl

theorem lengthRead_little_iff {n : Nat} (hpos : 0 < n) (hmax : n ≤ maxMsgSize) :
    lengthRead .little n = n ↔ 65792 ∣ n := by
  have hmax' : n ≤ 1048576 := hmax
  have hvalue : lengthRead .little n
      = n / 16777216 % 256 + 256 * (n / 65536 % 256 + 256 * (n / 256 % 256 + 256 * (n % 256))) := by
    rw [lengthRead_eq]
    simp [ByteOrder.htonl, ByteOrder.ofBytes, ByteOrder.toBytes, ByteOrder.littleBytes,
      ByteOrder.ofLittle, Nat.ofDigits_cons, Nat.div_div_eq_div_mul]
  -- the three bytes of the length
  have hsplit : n = n % 256 + 256 * (n / 256 % 256) + 65536 * (n / 65536) := by omega
  have hhigh : n / 16777216 = 0 := by omega
  have hthird : n / 65536 ≤ 16 := by omega
  have hfirst : n % 256 < 256 := by omega
  have hsecond : n / 256 % 256 < 256 := by omega
  rw [hvalue, hhigh, Nat.mod_eq_of_lt (by omega : n / 65536 < 256)]
  generalize n % 256 = b₀ at *
  generalize n / 256 % 256 = b₁ at *
  generalize n / 65536 = b₂ at *
  clear hvalue hhigh hmax
  constructor
  · intro h
    exact ⟨b₂, by omega⟩
  · rintro ⟨b, hb⟩
    omega

theorem lengthRead_pos {n : Nat} (hpos : 0 < n) (hlt : n < 2 ^ 32) : 0 < lengthRead host n := by
  rcases Nat.eq_zero_or_pos (lengthRead host n) with hzero | h
  · rw [lengthRead_eq] at hzero
    have hback := ByteOrder.ntohl_htonl host (show n < 256 ^ 4 from hlt)
    rw [hzero] at hback
    have hnone : host.ntohl 0 = 0 := by
      cases host with
      | little => decide
      | big => decide
    omega
  · exact h

/-- A message whose length is read as it is, is received. -/
theorem receiveMessage_right (h : Positive calls) (hne : message ≠ [])
    (hright : lengthRead host message.length = message.length)
    (hmax : message.length ≤ maxMsgSize) (hlen : message.length ≤ buffer.length) :
    ∃ buffer' calls', receiveMessage host buffer buffer.length
        (Framing.frame host true message ++ rest) calls
        = some ⟨message.length, buffer', rest, calls'⟩ ∧
      buffer'.take message.length = message ∧ buffer'.length = buffer.length ∧
      Positive calls' := by
  obtain ⟨buffer', calls', hread, htake, hsame, h'⟩ :=
    Framing.clientSocketReadMsg_positive host false rest h
      (Framing.length_header host true message.length) hright hne hlen
  refine ⟨buffer', calls', ?_, htake, hsame, h'⟩
  have hmax' : message.length ≤ 1048576 := hmax
  rw [receiveMessage, Framing.frame, List.append_assoc, hread, Option.map_some,
    show i32 (message.length : Int) = message.length from i32_of_lt (by omega) (by omega)]

/-- One whose length is read as another is not. -/
theorem receiveMessage_wrong (h : Positive calls) (hne : message ≠ [])
    (hlt : message.length < 2 ^ 32)
    (hwrong : lengthRead host message.length ≠ message.length) {r : Received}
    (hr : receiveMessage host buffer buffer.length (Framing.frame host true message ++ rest) calls
      = some r) : r.buffer.take r.value.toNat ≠ message := by
  have hpos : 0 < lengthRead host message.length :=
    lengthRead_pos (List.length_pos_iff.mpr hne) hlt
  have hbytes := Framing.length_header host true message.length
  have hbound : lengthRead host message.length < 2 ^ 32 := Framing.headerSize_lt host false hbytes
  obtain ⟨calls₁, hread, h₁⟩ :=
    Framing.clientSocketReadMsg_header host false (message ++ rest) buffer h hbytes hpos
  have hheader : Framing.headerSize host false (Framing.header host true message.length)
      = lengthRead host message.length := rfl
  rw [receiveMessage, Framing.frame, List.append_assoc, hread, hheader] at hr
  generalize lengthRead host message.length = v at *
  by_cases henough : v ≤ (message ++ rest).length
  · -- another number of bytes is read, or it is negative as an `int`
    obtain ⟨calls₂, hget, -⟩ := get_positive h₁ false henough
    rw [Utils.readBuffer, hget] at hr
    simp only [Option.map_some, Option.some.injEq, List.length_take_of_le henough] at hr
    subst hr
    intro heq
    have hlen := congrArg List.length heq
    rw [List.length_take, store, Overlay.overlay_zero, List.length_append,
      List.length_take_of_le henough] at hlen
    dsimp only at hlen
    by_cases hint : v < 2 ^ 31
    · rw [i32_of_lt (by omega) (by omega)] at hlen
      omega
    · have hneg := i32_of_ge (Nat.le_of_not_lt hint) hbound
      have hzero : (i32 (v : Int)).toNat = 0 := Int.toNat_of_nonpos (by omega)
      rw [hzero] at hlen
      exact hne (List.length_eq_zero_iff.mp (by omega))
  · -- it waits for bytes that do not come
    have hget := get_short h₁ false (Nat.lt_of_not_le henough)
    rw [Utils.readBuffer] at hr
    simp only [hget] at hr
    cases hr

theorem receiveAll_first {n : Nat} {stream : Bytes} {messages : List Bytes}
    (h : receiveAll host (n + 1) buffer stream calls = some (message :: messages)) :
    ∃ r, receiveMessage host buffer buffer.length stream calls = some r ∧
      r.buffer.take r.value.toNat = message := by
  rw [receiveAll] at h
  obtain ⟨r, hr, h⟩ := Option.bind_eq_some_iff.mp h
  obtain ⟨received, -, h⟩ := Option.bind_eq_some_iff.mp h
  exact ⟨r, hr, (List.cons.inj (Option.some.inj h)).1⟩

end Receiving

/-- A direct topic with one raw client, on a little-endian host, however the
stream is cut: every message is accepted, and `receive_message` returns
exactly the messages, in order, if and only if all lengths are multiples of
65792. -/
theorem direct_round_trip_iff {t : DirectTopic} {fd : Int} {messages : List Bytes}
    {buffer : Bytes} {writes : List WriteCall} {reads : List ReadCall}
    (htype : t.storage.brokerType = .direct) (hconsumer : t.storage.pConsumerSocket = some .socket)
    (hfds : t.socket.fds = [fd]) (hbuffer : buffer.length = maxMsgSize)
    (hmessages : ∀ m ∈ messages, 1 ≤ m.length ∧ m.length ≤ maxMsgSize)
    (hwrites : Positive writes) (hreads : Positive reads) :
    ∃ sent, addAll .little t messages writes = some (messages.map fun _ => true, sent) ∧
      (receiveAll .little messages.length buffer (streamTo fd sent) reads = some messages ↔
        ∀ m ∈ messages, 65792 ∣ m.length) := by
  have hmax : maxMsgSize < 2 ^ 32 := by decide
  have hsmall : ∀ m ∈ messages, m ≠ [] ∧ m.length < 2 ^ 32 := fun m hm =>
    ⟨List.length_pos_iff.mp (hmessages m hm).1, Nat.lt_of_le_of_lt (hmessages m hm).2 hmax⟩
  refine ⟨_, addAll_positive .little htype hconsumer hfds hsmall hwrites, ?_⟩
  rw [streamTo_frames]
  clear hwrites htype hconsumer hfds
  induction messages generalizing buffer reads with
  | nil => exact iff_of_true rfl fun m hm => absurd hm List.not_mem_nil
  | cons m messages ih =>
      obtain ⟨hpos, hle⟩ := hmessages m List.mem_cons_self
      obtain ⟨hne, hlt⟩ := hsmall m List.mem_cons_self
      have hframes : Framing.frames .little true (m :: messages)
          = Framing.frame .little true m ++ Framing.frames .little true messages := rfl
      rw [hframes, List.length_cons, List.forall_mem_cons, ← lengthRead_little_iff hpos hle]
      by_cases hright : lengthRead .little m.length = m.length
      · obtain ⟨buffer', reads', hreceive, htake, hsame, hreads'⟩ :=
          receiveMessage_right (Framing.frames .little true messages) hreads hne hright hle
            (hle.trans_eq hbuffer.symm)
        rw [and_iff_right hright, ← ih (hsame.trans hbuffer)
          (fun m' hm' => hmessages m' (List.mem_cons_of_mem m hm')) hreads'
          fun m' hm' => hsmall m' (List.mem_cons_of_mem m hm')]
        simp only [receiveAll, hreceive, Option.bind_eq_bind, Option.bind_some, Int.toNat_natCast,
          htake]
        cases receiveAll .little messages.length buffer' (Framing.frames .little true messages)
          reads' with
        | none => simp
        | some received => simp
      · refine iff_of_false (fun hall => ?_) fun h => hright h.1
        obtain ⟨r, hreceive, hfirst⟩ := receiveAll_first hall
        exact receiveMessage_wrong _ hreads hne hlt hright hreceive hfirst

/-- A direct topic with one raw client, whose descriptor is 3. -/
def oneClient : DirectTopic :=
  ⟨(BrokerStorage.init .direct (ascii "/tmp") (ascii "t")).2.setConsumerSocket .socket,
    ConnectionSocket.new.accept 3⟩

theorem direct_round_trip_iff_oneClient :
    ∃ sent, addAll .little oneClient [ascii "hello"] [.moved 3, .moved 2] = some ([true], sent) ∧
      (receiveAll .little 1 (List.replicate maxMsgSize 0) (streamTo 3 sent) [.moved 1]
          = some [ascii "hello"] ↔ ∀ m ∈ [ascii "hello"], 65792 ∣ m.length) :=
  direct_round_trip_iff (t := oneClient) rfl rfl rfl List.length_replicate
    (by decide : ∀ m ∈ [ascii "hello"], 1 ≤ m.length ∧ m.length ≤ maxMsgSize)
    (positive_map [2, 1]) (positive_map [0])

/-- Five bytes are accepted; the client waits for 83886080. -/
theorem direct_not_received :
    ∃ sent, addAll .little oneClient [ascii "hello"] [] = some ([true], sent) ∧
      streamTo 3 sent = [0, 0, 0, 5] ++ ascii "hello" ∧
      receiveAll .little 1 (List.replicate maxMsgSize 0) (streamTo 3 sent) []
        ≠ some [ascii "hello"] := by
  refine ⟨[(3, [0, 0, 0, 5] ++ ascii "hello")], by decide, by decide, ?_⟩
  intro hall
  obtain ⟨r, hreceive, hfirst⟩ := receiveAll_first hall
  have hcalls : Positive ([] : List ReadCall) := positive_map []
  have hframe : streamTo 3 [(3, [0, 0, 0, 5] ++ ascii "hello")]
      = Framing.frame .little true (ascii "hello") ++ [] := by decide
  rw [hframe] at hreceive
  exact receiveMessage_wrong _ hcalls (by decide) (by decide) (by decide) hreceive hfirst

end DirectDelivery

end LightQ
