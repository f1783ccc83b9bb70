/-
# `Socket.EndOfStream` — a client whose broker has closed the connection

At the end of the stream `read` returns 0 from then on.  `read_size` reports
that as 0, which `client_socket_read_msg` takes for a header that is not there
yet; `read_buffer` adds it to what it has and asks again.  Neither comes to an
end.

`end_of_stream_iff` is about every stream, however it is cut and wherever it
ends: the call comes back if and only if a complete message is left, behind any
headers that are passed over.  With one left it returns that message
(`clientSocketRead_left`); with none left it never comes back
(`clientSocketRead_none`).

`nextHeader` is the first header that is not passed over, if there is one.  The
loop around `read_size` comes to it (`sizeLoop_positive`), and on less than a
header it turns for ever (`sizeLoop_short`).  The size that is read is a 32-bit
number (`nextHeader_lt`), and with it the call goes on to the body
(`clientSocketRead_header`), where too few bytes are the second place at which
a call can stay.

Both overloads are meant; they differ in which headers are passed over, those
that read as zero and, with `std::string`, those above `max_msg_size`.
-/
import LightQ.Socket.ClientRead

namespace LightQ

open MachineInt Transfer

namespace EndOfStream

/-- The size in the first header that is not passed over, and what is behind
that header. -/
def nextHeader (overload : ConnectionFile.Overload) (host : ByteOrder) (ntohl : Bool) :
    Bytes → Option (Nat × Bytes)
  | b₀ :: b₁ :: b₂ :: b₃ :: rest =>
      if ConnectionSocket.rereads overload (Framing.headerSize host ntohl [b₀, b₁, b₂, b₃]) then
        nextHeader overload host ntohl rest
      else some (Framing.headerSize host ntohl [b₀, b₁, b₂, b₃], rest)
  | _ => none

/-- The complete message that is left, if one is, and what is behind it. -/
def messageLeft (overload : ConnectionFile.Overload) (host : ByteOrder) (ntohl : Bool)
    (stream : Bytes) : Option (Bytes × Bytes) :=
  match nextHeader overload host ntohl stream with
  | some (size, rest) =>
      if size ≤ rest.length then some (rest.take size, rest.drop size) else none
  | none => none

/-- The call comes back: with the message that is left, or, if none is, with no
positive value. -/
def ComesBack (overload : ConnectionFile.Overload) (host : ByteOrder) (buffer : Bytes)
    (ntohl : Bool) (stream : Bytes) (calls : List ReadCall) : Prop :=
  ∃ turns r, ConnectionSocket.clientRead overload host buffer ntohl turns stream calls = some r ∧
    match messageLeft overload host ntohl stream with
    | some (message, rest) =>
        r.value = message.length ∧ r.message = some message ∧ r.stream = rest
    | none => r.value ≤ 0

section Loop

variable {overload : ConnectionFile.Overload} {host : ByteOrder} {ntohl : Bool}
  {calls : List ReadCall}

theorem sizeLoop_short (h : Positive calls) {stream : Bytes} (hshort : stream.length < 4)
    (turns : Nat) :
    ConnectionSocket.sizeLoop (ConnectionSocket.rereads overload) host ntohl turns stream calls
      = none := by
  induction turns generalizing stream calls with
  | zero => rfl
  | succ turns ih =>
      obtain ⟨data, calls', hget, h'⟩ := get_short_rest h hshort
      have hsize : Utils.readSize host ntohl stream calls = ⟨0, [], calls'⟩ := by
        rw [Utils.readSize, hget]
      rw [ConnectionSocket.sizeLoop, hsize]
      exact (if_pos (ConnectionSocket.rereads_zero overload)).trans (ih h' (Nat.succ_pos 3))

theorem sizeLoop_positive (overload : ConnectionFile.Overload) (host : ByteOrder) (ntohl : Bool)
    (h : Positive calls) {stream : Bytes} {turns : Nat}
    (hturns : stream.length < turns) :
    match nextHeader overload host ntohl stream with
    | some (size, rest) => ∃ calls', Positive calls' ∧
        ConnectionSocket.sizeLoop (ConnectionSocket.rereads overload) host ntohl turns stream calls
          = some ⟨(size : Nat), rest, calls'⟩
    | none =>
        ConnectionSocket.sizeLoop (ConnectionSocket.rereads overload) host ntohl turns stream calls
          = none := by
  fun_induction nextHeader overload host ntohl stream generalizing calls turns with
  | case1 b₀ b₁ b₂ b₃ rest hagain ih =>
      obtain ⟨calls', hsize, h'⟩ :=
        Framing.readSize_positive host ntohl rest h (show [b₀, b₁, b₂, b₃].length = 4 from rfl)
      obtain ⟨turns, rfl⟩ := Nat.exists_eq_succ_of_ne_zero (Nat.ne_of_gt (Nat.zero_lt_of_lt hturns))
      have hfewer : rest.length < turns := by
        simp only [List.length_cons] at hturns
        omega
      have hloop : ConnectionSocket.sizeLoop (ConnectionSocket.rereads overload) host ntohl
          (turns + 1) (b₀ :: b₁ :: b₂ :: b₃ :: rest) calls
            = ConnectionSocket.sizeLoop (ConnectionSocket.rereads overload) host ntohl turns rest
                calls' := by
        rw [ConnectionSocket.sizeLoop, show b₀ :: b₁ :: b₂ :: b₃ :: rest = [b₀, b₁, b₂, b₃] ++ rest
          from rfl, hsize]
        exact if_pos hagain
      rw [hloop]
      exact ih h' hfewer
  | case2 b₀ b₁ b₂ b₃ rest hagain =>
      obtain ⟨calls', hsize, h'⟩ :=
        Framing.readSize_positive host ntohl rest h (show [b₀, b₁, b₂, b₃].length = 4 from rfl)
      obtain ⟨turns, rfl⟩ := Nat.exists_eq_succ_of_ne_zero (Nat.ne_of_gt (Nat.zero_lt_of_lt hturns))
      refine ⟨calls', h', ?_⟩
      rw [ConnectionSocket.sizeLoop, show b₀ :: b₁ :: b₂ :: b₃ :: rest = [b₀, b₁, b₂, b₃] ++ rest
        from rfl, hsize]
      exact if_neg hagain
  | case3 stream hshort =>
      refine sizeLoop_short h (Nat.not_le.mp ?_) turns
      intro hfour
      rcases stream with _ | ⟨b₀, _ | ⟨b₁, _ | ⟨b₂, _ | ⟨b₃, rest⟩⟩⟩⟩
      · simp at hfour
      · simp at hfour
      · simp at hfour
      · simp at hfour
      · exact hshort b₀ b₁ b₂ b₃ rest rfl

end Loop

theorem nextHeader_lt {overload : ConnectionFile.Overload} {host : ByteOrder} {ntohl : Bool}
    {stream rest : Bytes} {size : Nat} (h : nextHeader overload host ntohl stream = some (size, rest)) :
    0 < size ∧ size < 2 ^ 32 := by
  fun_induction nextHeader overload host ntohl stream with
  | case1 b₀ b₁ b₂ b₃ rest' hagain ih => exact ih h
  | case2 b₀ b₁ b₂ b₃ rest' hagain =>
      obtain ⟨rfl, -⟩ := Prod.mk.inj (Option.some.inj h)
      refine ⟨Nat.pos_of_ne_zero fun hzero => hagain ?_, Framing.headerSize_lt host ntohl rfl⟩
      rw [hzero]
      exact ConnectionSocket.rereads_zero overload
  | case3 stream hshort => cases h

section Read

variable {overload : ConnectionFile.Overload} {host : ByteOrder} {ntohl : Bool}
  {buffer stream : Bytes} {calls : List ReadCall}

theorem clientSocketRead_header (buffer : Bytes) (h : Positive calls) {size : Nat} {behind : Bytes}
    (hnext : nextHeader overload host ntohl stream = some (size, behind)) :
    ∃ reads, Positive reads ∧
      ConnectionSocket.clientSocketRead overload host buffer ntohl stream calls =
        (Utils.readBuffer (store buffer 0 [0]) buffer.length size behind reads).map
          (ConnectionSocket.handOver overload) := by
  have hloop := sizeLoop_positive overload host ntohl h
    (show stream.length < calls.length + stream.length + 1 by omega)
  rw [hnext] at hloop
  obtain ⟨reads, hreads, hloop⟩ := hloop
  exact ⟨reads, hreads,
    ConnectionSocket.clientSocketRead_of_sizeLoop buffer (nextHeader_lt hnext).2 hloop⟩

/-- With a message left, the call returns it. -/
theorem clientSocketRead_left (buffer : Bytes) (h : Positive calls) {message rest : Bytes}
    (hleft : messageLeft overload host ntohl stream = some (message, rest)) :
    ∃ r, ConnectionSocket.clientSocketRead overload host buffer ntohl stream calls = some r ∧
      r.value = message.length ∧ r.message = some message ∧ r.stream = rest := by
  rw [messageLeft] at hleft
  split at hleft
  · next size behind hnext =>
      split at hleft
      · next hcomplete =>
          obtain ⟨rfl, rfl⟩ := Prod.mk.inj (Option.some.inj hleft)
          have hlen : (behind.take size).length = size := List.length_take_of_le hcomplete
          obtain ⟨reads, hreads, hcall⟩ := clientSocketRead_header buffer h hnext
          obtain ⟨reads', hbody, -⟩ := Framing.readBuffer_positive (behind.drop size) hreads
            (behind.take size) (store buffer 0 [0]) buffer.length
          rw [hlen, List.take_append_drop] at hbody
          have hvalue : (size : Int) ≠ -1 := by omega
          obtain ⟨buffer', -, hhand⟩ := ConnectionSocket.handOver_of_ne overload
            (r := ⟨size, store (store buffer 0 [0]) 0 (behind.take size), behind.drop size, reads'⟩)
            hvalue
          refine ⟨_, by rw [hcall, hbody, Option.map_some, hhand], by rw [hlen], ?_, rfl⟩
          dsimp only
          rw [Int.toNat_natCast, store, Overlay.overlay_zero, List.take_left' hlen]
      · cases hleft
  · cases hleft

/-- With none left, it never comes back. -/
theorem clientSocketRead_none (h : Positive calls)
    (hleft : messageLeft overload host ntohl stream = none) :
    ConnectionSocket.clientSocketRead overload host buffer ntohl stream calls = none := by
  rw [messageLeft] at hleft
  cases hnext : nextHeader overload host ntohl stream with
  | none =>
      have hloop := sizeLoop_positive overload host ntohl h
        (show stream.length < calls.length + stream.length + 1 by omega)
      rw [hnext] at hloop
      rw [ConnectionSocket.clientSocketRead_eq, ConnectionSocket.clientRead, hloop]
      rfl
  | some d =>
      obtain ⟨size, behind⟩ := d
      rw [hnext] at hleft
      dsimp only at hleft
      split at hleft
      · cases hleft
      · next hshort =>
          obtain ⟨reads, hreads, hcall⟩ := clientSocketRead_header buffer h hnext
          have hended := get_short hreads false (Nat.not_le.mp hshort)
          rw [hcall, Utils.readBuffer, hended]
          rfl

end Read

/-- The calls that come back are those that find a complete message. -/
theorem end_of_stream_iff (overload : ConnectionFile.Overload) (host : ByteOrder) (buffer : Bytes)
    (ntohl : Bool) (stream : Bytes) {calls : List ReadCall} (h : Positive calls) :
    ComesBack overload host buffer ntohl stream calls ↔
      (messageLeft overload host ntohl stream).isSome := by
  rw [ComesBack]
  cases hleft : messageLeft overload host ntohl stream with
  | none =>
      refine iff_of_false ?_ (by decide)
      rintro ⟨turns, r, hread, -⟩
      rw [ConnectionSocket.clientRead_never (clientSocketRead_none h hleft)] at hread
      cases hread
  | some d =>
      obtain ⟨message, rest⟩ := d
      refine iff_of_true ?_ rfl
      obtain ⟨r, hread, hright⟩ := clientSocketRead_left buffer h hleft
      rw [ConnectionSocket.clientSocketRead_eq] at hread
      exact ⟨_, r, hread, hright⟩

/-- A header and a message of one byte, and nothing behind them. -/
theorem end_of_stream_iff_one :
    ComesBack .pointer .little [0] false [1, 0, 0, 0, 7] [.moved 2, .moved 3] ↔
      (messageLeft .pointer .little false [1, 0, 0, 0, 7]).isSome :=
  end_of_stream_iff .pointer .little [0] false [1, 0, 0, 0, 7] (positive_map [1, 2])

/-- Nothing at all: the connection is closed before a header. -/
theorem not_comesBack :
    ¬ ∀ (overload : ConnectionFile.Overload) (host : ByteOrder) (buffer : Bytes) (ntohl : Bool)
        (stream : Bytes) (calls : List ReadCall), Positive calls →
        ComesBack overload host buffer ntohl stream calls := by
  intro h
  have hpositive : Positive ([] : List ReadCall) := by
    intro r hr
    cases hr
  obtain ⟨turns, r, hread, -⟩ := h .string .little [] false [] [] hpositive
  rw [ConnectionSocket.clientRead_never (clientSocketRead_none hpositive rfl)] at hread
  cases hread

end EndOfStream

end LightQ
