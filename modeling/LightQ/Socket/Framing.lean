/-
# `Socket.Framing` — messages on a stream socket (`utils.h`)

A message is sent as a header of four bytes with its length, in network order
if a flag says so, and its bytes.  Each of `write_size`, `write_buffer`,
`read_size` and `read_buffer` is a loop over `write` or `read`, which may move
less than they are asked to; the calls are the outcomes of `Lib.Transfer`.

`framing_round_trip` is what all of them together come to: for every list of
messages and every way of cutting the stream, either reader gets what was
sent, one message after the other.  Each is sent in full, and whatever number of
them has been received, they are the first ones, in order, and the stream stands
at the header of the next.

The sending side is `sendAll_positive`, frame after frame.  On the receiving side
`read_size` returns the header that arrives (`readSize_complete`), and
`client_socket_read_msg` takes the header and reads as many bytes as it says
(`clientSocketReadMsg_header`), so that with enough bytes behind it the message
is at the front of the buffer (`clientSocketReadMsg_positive`, `store_front`).
`receive_positive` says it of either receiver, and `receiveAll_positive` of any
number of messages by induction on them: what one call leaves of the stream is
what the next one begins with.

The flag is the same on both sides here; `Socket.DirectDelivery` is what comes of
two that differ.
-/
import LightQ.Lib.ByteOrder
import LightQ.Lib.MachineInt
import LightQ.Lib.Transfer
import LightQ.Storage.FileDetails

namespace LightQ

open MachineInt Transfer

/-- The errors of `read` that the callers tell apart: `EAGAIN`, and others. -/
inductive ReadError where
  | again
  | other
deriving DecidableEq, Repr

abbrev WriteCall := Outcome Unit

abbrev ReadCall := Outcome ReadError

/-- The result of a function that writes to a socket: its value, the bytes
sent, and the calls to come. -/
structure Wrote where
  value : Int
  sent : Bytes
  calls : List WriteCall

/-- The result of `read_size`. -/
structure Sized where
  value : Int
  stream : Bytes
  calls : List ReadCall

/-- The result of a function that reads from a socket into a buffer: its value,
the buffer, and what is left of the stream. -/
structure Received where
  value : Int
  buffer : Bytes
  stream : Bytes
  calls : List ReadCall

namespace Utils

/-- How the two functions that write report their loop: a failure after some
bytes as their number. -/
def wrote (p : Put UInt8 Unit) : Wrote :=
  match p.failed with
  | none => ⟨p.sent.length, p.sent, p.calls⟩
  | some _ => ⟨if 0 < p.sent.length then p.sent.length else -1, p.sent, p.calls⟩

/-- `write_buffer`. -/
def writeBuffer (buffer : Bytes) (size : Nat) (calls : List WriteCall) : Wrote :=
  wrote (put (buffer.take size) calls)

/-- `write_size`. -/
def writeSize (host : ByteOrder) (length : Nat) (htonlFlag : Bool) (calls : List WriteCall) :
    Wrote :=
  let length := if htonlFlag then host.htonl length else length
  wrote (put (host.toBytes 4 length) calls)

/-- `read_size`: 0 at the end of the stream, and where `read` would block. -/
def readSize (host : ByteOrder) (ntohlFlag : Bool) (stream : Bytes) (calls : List ReadCall) :
    Sized :=
  let g := get true 4 stream calls
  match g.status with
  | .complete =>
      let length := host.ofBytes g.data
      ⟨if ntohlFlag then host.ntohl length else length, g.rest, g.calls⟩
  | .ended => ⟨0, g.rest, g.calls⟩
  | .failed .again => ⟨0, g.rest, g.calls⟩
  | .failed .other => ⟨-1, g.rest, g.calls⟩

/-- `read_buffer`; `buf_size` is not looked at.  At the end of the stream it
reads nothing for ever, which is `none`. -/
def readBuffer (buffer : Bytes) (_bufSize length : Nat) (stream : Bytes) (calls : List ReadCall) :
    Option Received :=
  let g := get false length stream calls
  let buffer := store buffer 0 g.data
  match g.status with
  | .complete => some ⟨g.data.length, buffer, g.rest, g.calls⟩
  | .ended => none
  | .failed _ =>
      some ⟨if 0 < g.data.length then g.data.length else -1, buffer, g.rest, g.calls⟩

end Utils

namespace ConnectionSocket

/-- `while (result <= 0)` around `read_size`, without the return on an error.
A turn that gives 0 uses up a call or some of the stream, or there is nothing
left of both. -/
def readSizeLoop (host : ByteOrder) (ntohl : Bool) : Nat → Bytes → List ReadCall → Option Sized
  | 0, _, _ => none
  | turns + 1, stream, calls =>
      let s := Utils.readSize host ntohl stream calls
      if s.value = 0 then readSizeLoop host ntohl turns s.stream s.calls else some s

/-- `client_socket_read_msg(char *, unsigned, bool)`.  `read_buffer` does not
return 0 for a positive size, so that its loop turns once. -/
def clientSocketReadMsg (host : ByteOrder) (msgBuffer : Bytes) (length : Nat) (ntohl : Bool)
    (stream : Bytes) (calls : List ReadCall) : Option Received := do
  let s ← readSizeLoop host ntohl (calls.length + stream.length + 1) stream calls
  if s.value < 0 then some ⟨-1, msgBuffer, s.stream, s.calls⟩
  else
    let sizeToRead := u32OfInt s.value
    Utils.readBuffer (store msgBuffer 0 [0]) length sizeToRead s.stream s.calls

end ConnectionSocket

/-! ## Sending and receiving -/

namespace Framing

/-- What is sent for a list of messages: the values of `write_size` and
`write_buffer`, the stream, and the calls to come. -/
structure SentAll where
  values : List (Int × Int)
  stream : Bytes
  calls : List WriteCall

def sendAll (host : ByteOrder) (flag : Bool) : List Bytes → List WriteCall → SentAll
  | [], calls => ⟨[], [], calls⟩
  | message :: messages, calls =>
      let size := Utils.writeSize host (u32 message.length) flag calls
      let body := Utils.writeBuffer message (u32 message.length) size.calls
      let rest := sendAll host flag messages body.calls
      ⟨(size.value, body.value) :: rest.values, size.sent ++ body.sent ++ rest.stream, rest.calls⟩

/-- Who receives: `read_size` and `read_buffer`, or `client_socket_read_msg`. -/
inductive Receiver where
  | utils
  | client
deriving DecidableEq, Repr

def Receiver.receive (host : ByteOrder) (flag : Bool) (buffer : Bytes) (stream : Bytes)
    (calls : List ReadCall) : Receiver → Option Received
  | .utils =>
      let s := Utils.readSize host flag stream calls
      if s.value ≤ 0 then some ⟨s.value, buffer, s.stream, s.calls⟩
      else Utils.readBuffer buffer buffer.length (u32OfInt s.value) s.stream s.calls
  | .client => ConnectionSocket.clientSocketReadMsg host buffer buffer.length flag stream calls

/-- The messages that a number of calls put into the buffer, and what the last
of them leaves. -/
def receiveAll (host : ByteOrder) (flag : Bool) (receiver : Receiver) :
    Nat → Bytes → Bytes → List ReadCall → Option (List Bytes × Received)
  | 0, buffer, stream, calls => some ([], ⟨0, buffer, stream, calls⟩)
  | n + 1, buffer, stream, calls => do
      let r ← receiver.receive host flag buffer stream calls
      let (messages, last) ← receiveAll host flag receiver n r.buffer r.stream r.calls
      some (r.buffer.take r.value.toNat :: messages, last)

/-- The header of a message. -/
def header (host : ByteOrder) (flag : Bool) (length : Nat) : Bytes :=
  host.toBytes 4 (if flag then host.htonl length else length)

/-- A message on the stream. -/
def frame (host : ByteOrder) (flag : Bool) (message : Bytes) : Bytes :=
  header host flag message.length ++ message

/-- What lies on the stream for a list of messages. -/
def frames (host : ByteOrder) (flag : Bool) (messages : List Bytes) : Bytes :=
  (messages.map (frame host flag)).flatten

section Positive

variable (host : ByteOrder) (flag : Bool) (rest : Bytes) {message buffer : Bytes}
  {writes : List WriteCall} {reads : List ReadCall}

/-- What the four bytes of a header are read as. -/
def headerSize (host : ByteOrder) (flag : Bool) (bytes : Bytes) : Nat :=
  if flag then host.ntohl (host.ofBytes bytes) else host.ofBytes bytes

theorem length_header (length : Nat) : (header host flag length).length = 4 :=
  ByteOrder.length_toBytes _ _ _

theorem headerSize_header {length : Nat} (h : length < 2 ^ 32) :
    headerSize host flag (header host flag length) = length := by
  have hlt : length < 256 ^ 4 := h
  cases flag with
  | false => exact ByteOrder.ofBytes_toBytes host hlt
  | true =>
      show host.ntohl (host.ofBytes (host.toBytes 4 (host.htonl length))) = length
      rw [ByteOrder.toBytes_htonl, ByteOrder.ntohl_ofBytes host (ByteOrder.length_toBytes _ _ _),
        ByteOrder.ofBytes_toBytes .big hlt]

/-! The four functions, when every call moves something. -/

theorem writeSize_positive (h : Positive writes) (length : Nat) :
    ∃ writes', Utils.writeSize host length flag writes
        = ⟨4, header host flag length, writes'⟩ ∧ Positive writes' := by
  obtain ⟨writes', heq, hpos⟩ := put_positive h (header host flag length)
  refine ⟨writes', ?_, hpos⟩
  have hput : Utils.writeSize host length flag writes
      = Utils.wrote (put (header host flag length) writes) := rfl
  rw [hput, heq, Utils.wrote, length_header]
  rfl

theorem writeBuffer_positive (h : Positive writes) (message : Bytes) :
    ∃ writes', Utils.writeBuffer message message.length writes
        = ⟨message.length, message, writes'⟩ ∧ Positive writes' := by
  obtain ⟨writes', heq, hpos⟩ := put_positive h message
  refine ⟨writes', ?_, hpos⟩
  rw [Utils.writeBuffer, List.take_length, heq, Utils.wrote]

theorem readSize_complete {bytes stream : Bytes} {reads' : List ReadCall}
    (hget : get true 4 stream reads = ⟨bytes, rest, .complete, reads'⟩) :
    Utils.readSize host flag stream reads = ⟨headerSize host flag bytes, rest, reads'⟩ := by
  rw [Utils.readSize, hget, headerSize]
  cases flag with
  | false => rfl
  | true => rfl

theorem readSize_positive (h : Positive reads) {bytes : Bytes} (hbytes : bytes.length = 4) :
    ∃ reads', Utils.readSize host flag (bytes ++ rest) reads
        = ⟨headerSize host flag bytes, rest, reads'⟩ ∧ Positive reads' := by
  have hneed : 4 ≤ (bytes ++ rest).length := by
    rw [List.length_append, hbytes]
    exact Nat.le_add_right _ _
  obtain ⟨reads', heq, hpos⟩ := get_positive h true hneed
  rw [List.take_left' hbytes, List.drop_left' hbytes] at heq
  exact ⟨reads', readSize_complete host flag rest heq, hpos⟩

theorem readBuffer_positive (h : Positive reads) (message buffer : Bytes) (bufSize : Nat) :
    ∃ reads', Utils.readBuffer buffer bufSize message.length (message ++ rest) reads
        = some ⟨message.length, store buffer 0 message, rest, reads'⟩ ∧ Positive reads' := by
  have hneed : message.length ≤ (message ++ rest).length := by
    rw [List.length_append]
    exact Nat.le_add_right _ _
  obtain ⟨reads', heq, hpos⟩ := get_positive h false hneed
  refine ⟨reads', ?_, hpos⟩
  rw [Utils.readBuffer, heq, List.take_left' rfl, List.drop_left' rfl]

theorem store_front (h : message.length ≤ buffer.length) :
    (store buffer 0 message).take message.length = message ∧
      (store buffer 0 message).length = buffer.length := by
  rw [store, Overlay.overlay_zero, List.take_left' rfl, List.length_append, List.length_drop]
  exact ⟨rfl, Nat.add_sub_cancel' h⟩

theorem headerSize_lt {bytes : Bytes} (hbytes : bytes.length = 4) :
    headerSize host flag bytes < 2 ^ 32 := by
  cases flag with
  | false =>
      have hlt := ByteOrder.ofBytes_lt host bytes
      rwa [hbytes] at hlt
  | true =>
      have hlt := ByteOrder.ofBytes_lt .big (host.toBytes 4 (host.ofBytes bytes))
      rwa [ByteOrder.length_toBytes] at hlt

theorem clientSocketReadMsg_header (buffer : Bytes) (h : Positive reads) {bytes : Bytes}
    (hbytes : bytes.length = 4) (hpos : 0 < headerSize host flag bytes) :
    ∃ reads', ConnectionSocket.clientSocketReadMsg host buffer buffer.length flag
        (bytes ++ rest) reads
        = Utils.readBuffer (store buffer 0 [0]) buffer.length (headerSize host flag bytes) rest
            reads' ∧ Positive reads' := by
  obtain ⟨reads', hread, hreads'⟩ := readSize_positive host flag rest h hbytes
  refine ⟨reads', ?_, hreads'⟩
  have hloop : ConnectionSocket.readSizeLoop host flag
      (reads.length + (bytes ++ rest).length + 1) (bytes ++ rest) reads
        = some ⟨headerSize host flag bytes, rest, reads'⟩ := by
    rw [ConnectionSocket.readSizeLoop, hread]
    exact if_neg (Int.natCast_ne_zero.mpr (Nat.pos_iff_ne_zero.mp hpos))
  have hnat := u32OfInt_of_nonneg (headerSize_lt host flag hbytes)
  rw [ConnectionSocket.clientSocketReadMsg, hloop]
  simp only [Option.bind_eq_bind, Option.bind_some, hnat]
  exact if_neg (by omega)

/-- `client_socket_read_msg` on a stream with a header and enough bytes. -/
theorem clientSocketReadMsg_positive (h : Positive reads) {bytes : Bytes} (hbytes : bytes.length = 4)
    (hsize : headerSize host flag bytes = message.length) (hne : message ≠ [])
    (hlen : message.length ≤ buffer.length) :
    ∃ buffer' reads', ConnectionSocket.clientSocketReadMsg host buffer buffer.length flag
        (bytes ++ (message ++ rest)) reads = some ⟨message.length, buffer', rest, reads'⟩ ∧
      buffer'.take message.length = message ∧ buffer'.length = buffer.length ∧
      Positive reads' := by
  have hpos : 0 < message.length := List.length_pos_iff.mpr hne
  obtain ⟨reads₁, hheader, hreads₁⟩ :=
    clientSocketReadMsg_header host flag (message ++ rest) buffer h hbytes (hsize ▸ hpos)
  have hbuffer : (store buffer 0 [0]).length = buffer.length :=
    (store_front (show ([0] : Bytes).length ≤ buffer.length from Nat.le_trans hpos hlen)).2
  obtain ⟨reads₂, hbody, hreads₂⟩ :=
    readBuffer_positive rest hreads₁ message (store buffer 0 [0]) buffer.length
  obtain ⟨htake, hsame⟩ := store_front (hlen.trans_eq hbuffer.symm)
  refine ⟨store (store buffer 0 [0]) 0 message, reads₂, ?_, htake, hsame.trans hbuffer, hreads₂⟩
  rw [hheader, hsize, hbody]

/-- Either receiver, with a message at the front of the stream. -/
theorem receive_positive (receiver : Receiver) (h : Positive reads) (hne : message ≠ [])
    (hlt : message.length < 2 ^ 32) (hlen : message.length ≤ buffer.length) :
    ∃ buffer' reads', receiver.receive host flag buffer (frame host flag message ++ rest) reads
        = some ⟨message.length, buffer', rest, reads'⟩ ∧
      buffer'.take message.length = message ∧ buffer'.length = buffer.length ∧
      Positive reads' := by
  have hheader : (header host flag message.length).length = 4 := length_header host flag _
  have hsize : headerSize host flag (header host flag message.length) = message.length :=
    headerSize_header host flag hlt
  rw [frame, List.append_assoc]
  cases receiver with
  | client => exact clientSocketReadMsg_positive host flag rest h hheader hsize hne hlen
  | utils =>
      obtain ⟨reads₁, hread, hreads₁⟩ :=
        readSize_positive host flag (message ++ rest) h hheader
      obtain ⟨reads₂, hbody, hreads₂⟩ :=
        readBuffer_positive rest hreads₁ message buffer buffer.length
      obtain ⟨htake, hsame⟩ := store_front hlen
      refine ⟨store buffer 0 message, reads₂, ?_, htake, hsame, hreads₂⟩
      have hpos : 0 < message.length := List.length_pos_iff.mpr hne
      have hnat := u32OfInt_of_nonneg hlt
      simp only [Receiver.receive, hread, hsize, hnat, hbody]
      exact if_neg (by omega)

theorem sendAll_positive {messages : List Bytes} (h : Positive writes)
    (hmessages : ∀ m ∈ messages, m.length < 2 ^ 32) :
    ∃ writes', sendAll host flag messages writes
        = ⟨messages.map fun m => (4, (m.length : Int)), frames host flag messages, writes'⟩ ∧
      Positive writes' := by
  induction messages generalizing writes with
  | nil => exact ⟨writes, rfl, h⟩
  | cons m messages ih =>
      obtain ⟨writes₁, hsize, h₁⟩ :=
        writeSize_positive host flag h m.length
      obtain ⟨writes₂, hbody, h₂⟩ := writeBuffer_positive h₁ m
      obtain ⟨writes₃, hrest, h₃⟩ := ih h₂ fun m' hm' => hmessages m' (List.mem_cons_of_mem m hm')
      refine ⟨writes₃, ?_, h₃⟩
      have hnat : u32 m.length = m.length := u32_of_lt (hmessages m List.mem_cons_self)
      simp only [sendAll, hnat, hsize, hbody, hrest]
      rfl

theorem receiveAll_positive (receiver : Receiver) {messages : List Bytes} (h : Positive reads)
    (hmessages : ∀ m ∈ messages, m ≠ [] ∧ m.length < 2 ^ 32 ∧ m.length ≤ buffer.length) :
    ∃ last, receiveAll host flag receiver messages.length buffer
        (frames host flag messages ++ rest) reads = some (messages, last) ∧
      last.stream = rest ∧ last.buffer.length = buffer.length := by
  induction messages generalizing buffer reads with
  | nil => exact ⟨⟨0, buffer, rest, reads⟩, rfl, rfl, rfl⟩
  | cons m messages ih =>
      obtain ⟨hne, hlt, hlen⟩ := hmessages m List.mem_cons_self
      obtain ⟨buffer₁, reads₁, hreceive, htake, hsame, h₁⟩ :=
        receive_positive host flag (frames host flag messages ++ rest) receiver h hne hlt hlen
      obtain ⟨last, hrest, hstream, hbuffer⟩ := ih h₁ fun m' hm' => by
        rw [hsame]
        exact hmessages m' (List.mem_cons_of_mem m hm')
      refine ⟨last, ?_, hstream, hbuffer.trans hsame⟩
      have hframes : frames host flag (m :: messages) ++ rest
          = frame host flag m ++ (frames host flag messages ++ rest) := by
        simp [frames]
      rw [hframes, List.length_cons, receiveAll, hreceive]
      simp only [Option.bind_eq_bind, Option.bind_some, hrest, Int.toNat_natCast, htake]

end Positive

/-- Every list of messages, however the stream is cut on its way: each is sent
in full, and whatever number of them has been received, they are the first
ones, in order, and the stream stands at the header of the next. -/
theorem framing_round_trip (host : ByteOrder) (flag : Bool) (receiver : Receiver)
    {messages : List Bytes} {buffer : Bytes} {writes : List WriteCall} {reads : List ReadCall}
    (hmessages : ∀ m ∈ messages, m ≠ [] ∧ m.length < 2 ^ 32 ∧ m.length ≤ buffer.length)
    (hwrites : Positive writes) (hreads : Positive reads) (later : Bytes) :
    let sent := sendAll host flag messages writes
    sent.values = messages.map (fun m => (4, (m.length : Int))) ∧
      ∀ pre post, messages = pre ++ post →
        ∃ last, receiveAll host flag receiver pre.length buffer (sent.stream ++ later) reads
            = some (pre, last) ∧
          last.stream = frames host flag post ++ later ∧ last.buffer.length = buffer.length := by
  obtain ⟨writes', hsent, -⟩ := sendAll_positive host flag hwrites
    fun m hm => (hmessages m hm).2.1
  rw [hsent]
  refine ⟨rfl, ?_⟩
  intro pre post hsplit
  have hframes : frames host flag messages ++ later
      = frames host flag pre ++ (frames host flag post ++ later) := by
    simp [frames, hsplit]
  rw [hframes]
  exact receiveAll_positive host flag _ receiver hreads fun m hm =>
    hmessages m (hsplit ▸ List.mem_append_left post hm)

/-- Three bytes and one, in pieces that end inside the headers. -/
theorem framing_round_trip_pieces :
    let messages : List Bytes := [ascii "abc", ascii "d"]
    let writes : List WriteCall := [.moved 1, .moved 2, .moved 9, .moved 2]
    let reads : List ReadCall := [.moved 3, .moved 1, .moved 1, .moved 7, .moved 2]
    let sent := sendAll .little true messages writes
    sent.values = messages.map (fun m => (4, (m.length : Int))) ∧
      ∀ pre post, messages = pre ++ post →
        ∃ last, receiveAll .little true .client pre.length [0, 0, 0, 0] (sent.stream ++ []) reads
            = some (pre, last) ∧
          last.stream = frames .little true post ++ [] ∧ last.buffer.length = 4 :=
  framing_round_trip .little true .client
    (by decide : ∀ m ∈ [ascii "abc", ascii "d"],
      m ≠ [] ∧ m.length < 2 ^ 32 ∧ m.length ≤ ([0, 0, 0, 0] : Bytes).length)
    (positive_map [0, 1, 8, 1]) (positive_map [2, 0, 0, 6, 1]) []

end Framing

end LightQ
