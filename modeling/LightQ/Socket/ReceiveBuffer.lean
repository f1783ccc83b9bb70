/-
# `Socket.ReceiveBuffer` — `receive_message` and the buffer of its caller (`lightq_api.cpp`)

Both transports are told how long the buffer is.  The raw socket does not look
at it: `read_buffer` stores as many bytes as the header says and the stream
has.  ZeroMQ does, and cuts the message to the buffer; but it returns the size
of the whole message, and so does `receive_message`.

`receive_message_keeps_iff` says for which streams and messages the call keeps
to the buffer: those whose length, as far as it arrives, fits.

To keep to the buffer is two things, that no byte is stored behind its end and
that a positive value is a number of bytes of the message that are in it.  On
ZeroMQ the first is never in question, and the size that is returned has to fit
(`keeps_zmq_iff`).  On a raw socket the bytes that are stored have to fit, and
nothing more is asked (`keeps_socket_iff`): the value is an `int` of their
number, which is positive only if it is that number itself (`i32_eq_of_pos`).

What a call touches is counted apart from what it returns, since a call that does not
come back has stored something too.  `length_receiveMessage` ties `touched` to the
function: the buffer of the model, which a store behind its end makes longer, becomes
no longer than what is touched.
-/
import LightQ.Socket.ClientRead
import LightQ.Socket.DirectDelivery
import LightQ.Socket.PubSub

namespace LightQ

open MachineInt Transfer

/-- `connection_zmq::read_msg(char *, uint32_t, bool)`: its value, the buffer and
the object after it, or nothing when `recv` throws.  `zmq_recv` cuts the message
to the buffer and returns its size, as an `int`. -/
def ConnectionZmq.readMsgPtr (c : ConnectionZmq) (buffer : Bytes) (size : Nat)
    (recv : RecvResult) : Option (Int × Bytes × ConnectionZmq) :=
  match recv with
  | .got part =>
      let nbytes := i32 part.data.length
      if nbytes < 0 then none
      else some (nbytes, store buffer 0 (part.data.take size),
        { c with
          totalBytesRead := c.totalBytesRead + nbytes.toNat
          totalMsgRead := c.totalMsgRead + 1 })
  | .again => some (0, buffer, { c with totalMsgRead := c.totalMsgRead + 1 })
  | .threw => none

namespace ReceiveBuffer

/-- The connection of a consumer, and what it is about to read. -/
inductive Incoming where
  | zmq (c : ConnectionZmq) (recv : RecvResult)
  | socket (stream : Bytes) (calls : List ReadCall)

/-- The result of `receive_message`: its value and the caller's buffer. -/
structure Receipt where
  value : Int
  buffer : Bytes

/-- `receive_message`; an exception leaves `bytes_read` at -1. -/
def receiveMessage (host : ByteOrder) (buffer : Bytes) (bufferLength : Nat) :
    Incoming → Option Receipt
  | .zmq c recv =>
      match c.readMsgPtr buffer bufferLength recv with
      | some (nbytes, buffer, _) => some ⟨i32 nbytes, buffer⟩
      | none => some ⟨-1, buffer⟩
  | .socket stream calls =>
      (DirectDelivery.receiveMessage host buffer bufferLength stream calls).map fun r =>
        ⟨r.value, r.buffer⟩

/-- What `read_size` comes to on a raw socket: the size of the next message, with
the stream behind the header. -/
def nextSize (host : ByteOrder) (stream : Bytes) (calls : List ReadCall) : Option Sized :=
  ConnectionSocket.readSizeLoop host false (calls.length + stream.length + 1) stream calls

/-- The message that the call is about. -/
def message (host : ByteOrder) : Incoming → Bytes
  | .zmq _ (.got part) => part.data
  | .zmq _ _ => []
  | .socket stream calls =>
      match nextSize host stream calls with
      | some s => s.stream.take (u32OfInt s.value)
      | none => []

/-- How far from its start the call stores into the buffer, also if it does not
come back: on a raw socket a zero byte, when a header has been read, and then
what `read_buffer` gets. -/
def touched (host : ByteOrder) (bufferLength : Nat) : Incoming → Nat
  | .zmq _ (.got part) => (part.data.take bufferLength).length
  | .zmq _ _ => 0
  | .socket stream calls =>
      match nextSize host stream calls with
      | some s =>
          if s.value < 0 then 0
          else max 1 (get false (u32OfInt s.value) s.stream s.calls).data.length
      | none => 0

/-- The call stores inside the buffer, and a positive result is a number of
bytes of the message that are in it. -/
def KeepsToBuffer (host : ByteOrder) (buffer : Bytes) (bufferLength : Nat) (incoming : Incoming) :
    Prop :=
  touched host bufferLength incoming ≤ bufferLength ∧
    ∀ r, receiveMessage host buffer bufferLength incoming = some r → 0 < r.value →
      r.value ≤ bufferLength ∧ r.value ≤ (message host incoming).length ∧
        r.buffer.take r.value.toNat = (message host incoming).take r.value.toNat

/-- The message fits: on a raw socket that part of it which arrives before the
stream ends or a call fails. -/
def Fits (host : ByteOrder) (bufferLength : Nat) : Incoming → Prop
  | .zmq _ (.got part) => i32 part.data.length ≤ bufferLength
  | .zmq _ _ => True
  | .socket stream calls =>
      ∀ s, nextSize host stream calls = some s → 0 ≤ s.value →
        min (u32OfInt s.value) (reach s.stream.length s.calls) ≤ bufferLength

section Zmq

variable {host : ByteOrder} {buffer : Bytes} {bufferLength : Nat}

/-- ZeroMQ: the size that is returned has to fit. -/
theorem keeps_zmq_iff (c : ConnectionZmq) (part : Part) :
    KeepsToBuffer host buffer bufferLength (.zmq c (.got part)) ↔
      i32 part.data.length ≤ bufferLength := by
  have htouched : touched host bufferLength (.zmq c (.got part)) ≤ bufferLength :=
    List.length_take_le _ _
  have hsize := i32_le (Int.natCast_nonneg part.data.length)
  have hint := i32_lt part.data.length
  rw [KeepsToBuffer, and_iff_right htouched, receiveMessage, ConnectionZmq.readMsgPtr]
  generalize i32 part.data.length = n at hsize hint ⊢
  by_cases hneg : n < 0
  · rw [if_pos hneg]
    refine iff_of_true (fun r hr hpos => ?_) (by omega)
    obtain rfl := Option.some.inj hr
    have hminus : (0 : Int) < -1 := hpos
    exact absurd hminus (by decide)
  · rw [if_neg hneg]
    constructor
    · intro h
      by_cases hzero : n = 0
      · omega
      · have hread := h _ rfl
        simp only [i32_of_lt (Int.not_lt.mp hneg) hint] at hread
        exact (hread (by omega)).1
    · intro hfits r hr hpos
      obtain rfl := Option.some.inj hr
      simp only [i32_of_lt (Int.not_lt.mp hneg) hint]
      refine ⟨hfits, hsize, ?_⟩
      show (store buffer 0 (part.data.take bufferLength)).take n.toNat = part.data.take n.toNat
      rw [store, Overlay.overlay_zero, List.take_append_of_le_length (by rw [List.length_take]; omega),
        List.take_take, Nat.min_eq_left (by omega)]

end Zmq

section Socket

variable {host : ByteOrder} {buffer : Bytes} {bufferLength : Nat}

theorem i32_eq_of_pos {n : Nat} (hlt : n < 2 ^ 32) (hpos : 0 < i32 n) : i32 n = n := by
  rcases Nat.lt_or_ge n (2 ^ 31) with hfits | hlarge
  · exact i32_of_lt (Int.natCast_nonneg _) (by exact_mod_cast hfits)
  · rw [i32_of_ge hlarge hlt] at hpos
    omega

/-- A raw socket: the bytes that are stored have to fit, and nothing more is
asked. -/
theorem keeps_socket_iff (hpos : 0 < bufferLength) (stream : Bytes) (calls : List ReadCall) :
    KeepsToBuffer host buffer bufferLength (.socket stream calls) ↔
      Fits host bufferLength (.socket stream calls) := by
  rw [KeepsToBuffer, Fits, receiveMessage, DirectDelivery.receiveMessage,
    ConnectionSocket.clientSocketReadMsg, touched, message]
  rw [show ConnectionSocket.readSizeLoop host false (calls.length + stream.length + 1) stream calls
    = nextSize host stream calls from rfl]
  cases nextSize host stream calls with
  | none =>
      refine iff_of_true ⟨Nat.zero_le _, fun r hr => ?_⟩ (fun s hs => ?_)
      · cases hr
      · cases hs
  | some s =>
      simp only [Option.bind_eq_bind, Option.bind_some, Option.some.injEq, forall_eq']
      by_cases hneg : s.value < 0
      · rw [if_pos hneg, if_pos hneg]
        refine iff_of_true ⟨Nat.zero_le _, fun r hr hpos => ?_⟩ (fun h => absurd hneg (Int.not_lt.mpr h))
        obtain rfl := Option.some.inj hr
        have hminus : (0 : Int) < i32 (-1) := hpos
        exact absurd hminus (by decide)
      · rw [if_neg hneg, if_neg hneg, length_get_data]
        have hsplit := get_append false (u32OfInt s.value) s.stream s.calls
        have hlen := length_get_data (u32OfInt s.value) s.stream s.calls
        have hsize : u32OfInt s.value < 2 ^ 32 := by
          rw [u32OfInt]
          omega
        constructor
        · exact fun h _ => Nat.le_trans (Nat.le_max_right _ _) h.1
        · intro hfits
          have hroom := hfits (Int.not_lt.mp hneg)
          refine ⟨Nat.max_le.mpr ⟨hpos, hroom⟩, ?_⟩
          intro r hr hvalue
          obtain ⟨r₁, hr₁, rfl⟩ := Option.map_eq_some_iff.mp hr
          obtain ⟨r₀, hread, rfl⟩ := Option.map_eq_some_iff.mp hr₁
          obtain ⟨hbuffer, hcount | hfailed⟩ := ConnectionSocket.readBuffer_cases hread
          · generalize (get false (u32OfInt s.value) s.stream s.calls).data = data at *
            dsimp only at hvalue ⊢
            rw [hcount] at hvalue ⊢
            rw [i32_eq_of_pos (by omega) hvalue, hbuffer, Int.toNat_natCast, ← hsplit, store,
              Overlay.overlay_zero, List.take_left' rfl, List.take_take, Nat.min_eq_left (by omega),
              List.take_left' rfl, List.length_take, List.length_append]
            exact ⟨by omega, by omega, rfl⟩
          · dsimp only at hvalue
            rw [hfailed] at hvalue
            exact absurd hvalue (by decide)

end Socket

theorem length_store_front (buffer bytes : Bytes) :
    (store buffer 0 bytes).length = max buffer.length bytes.length := by
  rw [store, Overlay.overlay_zero, List.length_append, List.length_drop]
  omega

/-- The buffer does not become longer than what is touched. -/
theorem length_receiveMessage {host : ByteOrder} {buffer : Bytes} {bufferLength : Nat}
    {incoming : Incoming} {r : Receipt}
    (h : receiveMessage host buffer bufferLength incoming = some r) :
    r.buffer.length ≤ max buffer.length (touched host bufferLength incoming) := by
  cases incoming with
  | zmq c recv =>
      cases recv with
      | got part =>
          rw [receiveMessage, ConnectionZmq.readMsgPtr] at h
          split at h
          · next hread =>
              obtain rfl := Option.some.inj h
              split at hread
              · cases hread
              · obtain ⟨-, hpair⟩ := Prod.mk.inj (Option.some.inj hread)
                obtain ⟨rfl, -⟩ := Prod.mk.inj hpair
                exact Nat.le_of_eq (length_store_front _ _)
          · obtain rfl := Option.some.inj h
            exact Nat.le_max_left _ _
      | again =>
          obtain rfl := Option.some.inj h
          exact Nat.le_max_left _ _
      | threw =>
          obtain rfl := Option.some.inj h
          exact Nat.le_max_left _ _
  | socket stream calls =>
      obtain ⟨r₁, hr₁, rfl⟩ := Option.map_eq_some_iff.mp h
      obtain ⟨r₀, hread, rfl⟩ := Option.map_eq_some_iff.mp hr₁
      rw [ConnectionSocket.clientSocketReadMsg] at hread
      obtain ⟨s, hs, hbody⟩ := Option.bind_eq_some_iff.mp hread
      have hnext : nextSize host stream calls = some s := hs
      rw [touched, hnext]
      dsimp only
      split at hbody
      · next hneg =>
          obtain rfl := Option.some.inj hbody
          exact Nat.le_max_left _ _
      · next hneg =>
          rw [if_neg hneg, (ConnectionSocket.readBuffer_cases hbody).1, length_store_front,
            length_store_front, List.length_singleton, Nat.max_assoc]

/-- The calls that keep to the buffer of their caller are those whose message
fits. -/
theorem receive_message_keeps_iff (host : ByteOrder) (buffer : Bytes) {bufferLength : Nat}
    (hpos : 0 < bufferLength) (incoming : Incoming) :
    KeepsToBuffer host buffer bufferLength incoming ↔ Fits host bufferLength incoming := by
  cases incoming with
  | socket stream calls => exact keeps_socket_iff hpos stream calls
  | zmq c recv =>
      cases recv with
      | got part => exact keeps_zmq_iff c part
      | again =>
          refine iff_of_true ⟨Nat.zero_le _, fun r hr hvalue => ?_⟩ trivial
          obtain rfl := Option.some.inj hr
          have hzero : (0 : Int) < i32 0 := hvalue
          exact absurd hzero (by decide)
      | threw =>
          refine iff_of_true ⟨Nat.zero_le _, fun r hr hvalue => ?_⟩ trivial
          obtain rfl := Option.some.inj hr
          have hminus : (0 : Int) < -1 := hvalue
          exact absurd hminus (by decide)

/-- A message of five bytes on a raw socket, and a buffer for eight. -/
theorem receive_message_keeps_iff_hello :
    KeepsToBuffer .little (List.replicate 8 0) 8 (.socket ([5, 0, 0, 0] ++ ascii "hello") []) ↔
      Fits .little 8 (.socket ([5, 0, 0, 0] ++ ascii "hello") []) :=
  receive_message_keeps_iff .little (List.replicate 8 0) (by decide) _

/-- The same message, and a buffer for four. -/
theorem receive_message_not_keeps :
    ¬ ∀ (host : ByteOrder) (buffer : Bytes) (bufferLength : Nat) (incoming : Incoming),
        0 < bufferLength → buffer.length = bufferLength →
        KeepsToBuffer host buffer bufferLength incoming := by
  intro h
  have hkeeps := h .little [0, 0, 0, 0] 4 (.socket ([5, 0, 0, 0] ++ ascii "hello") []) (by decide) rfl
  exact absurd hkeeps.1 (by decide)

end ReceiveBuffer

end LightQ
