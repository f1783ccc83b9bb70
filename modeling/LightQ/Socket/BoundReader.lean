/-
# `Socket.BoundReader` — the socket that producers connect to (`connection_socket.h`)

`read_msg` of a socket that is bound asks each of its connections in turn for a
header, and reads the message of the first that has one.  Between the two the
size is lost: `result` is set to 0, and then it is what `read_buffer` is asked
for.  Of no bytes it gets 0, for which the loop around it turns again.

So a call never has a message to return (`read_msg_not_next`); as long as no
`read` fails it does not come back at all (`readMsg_never`).

The three loops are taken from the inside out.  Of no bytes `read_buffer` gets
none, whatever the connection does (`readBuffer_zero`), so that the loop around
it never ends (`bodyLoop_zero`).  `read_size` on a connection on which no `read`
fails gives a header or asks again (`readSize_chunks`), and a connection on
which one does is removed.  A call that comes back has therefore gone through
all connections, has no message, and has none of them left
(`readMsg_nothing`); the header of a message that did arrive is gone from its
stream (`read_msg_loses_frame`).

The turns are bounded by fuel, and "for ever" is that no amount of it gives a
result.
-/
import Mathlib.Logic.Function.Basic
import LightQ.Socket.ClientRead
import LightQ.Socket.WriteMsg

namespace LightQ

open MachineInt Transfer

/-- What is to be read on a descriptor, and how. -/
structure Inbox where
  stream : Bytes
  calls : List ReadCall

/-- The result of `read_msg`. -/
structure BoundRead where
  value : Int
  message : Option Bytes
  socket : ConnectionSocket
  net : Int → Inbox
  buffer : Bytes

namespace ConnectionSocket

/-- `while (result <= 0)` around `read_buffer`.  What is read goes where the first
bytes of `buffer_`, taken for an address, point to; `elsewhere` is what lies
there.  After a failure the loop turns again. -/
def bodyLoop (elsewhere : Bytes) :
    Nat → Int → ConnectionSocket → (Int → Inbox) → Option (Int × ConnectionSocket × (Int → Inbox))
  | 0, _, _, _ => none
  | turns + 1, result, s, net =>
      if 0 < result then some (result, s, net)
      else do
        let fd := s.currentFd
        let r ← Utils.readBuffer elsewhere maxMsgSize (u32OfInt result) (net fd).stream (net fd).calls
        let net := Function.update net fd ⟨r.stream, r.calls⟩
        let s := if r.value = -1 then s.removeFd s.currentFdIndex else s
        bodyLoop r.buffer turns r.value s net

/-- `read_msg(std::string &, bool)` of a socket that is bound, and not that of a
`conn_broker`. -/
def readMsg (host : ByteOrder) (ntohl : Bool) (elsewhere : Bytes) :
    Nat → ConnectionSocket → (Int → Inbox) → Bytes → Option BoundRead
  | 0, _, _, _ => none
  | turns + 1, s, net, buffer =>
      if s.fds.length = 0 then some ⟨0, none, s, net, buffer⟩
      else
        let s := s.wrapped
        let fd := s.currentFd
        let size := Utils.readSize host ntohl (net fd).stream (net fd).calls
        let net := Function.update net fd ⟨size.stream, size.calls⟩
        if size.value < 0 then
          readMsg host ntohl elsewhere turns (s.removeFd s.currentFdIndex) net buffer
        else if size.value = 0 then readMsg host ntohl elsewhere turns s.advanced net buffer
        else do
          let buffer := store buffer 0 [0]
          let (result, s, net) ← bodyLoop elsewhere turns 0 s net
          some ⟨result, some (buffer.take result.toNat), s.advanced, net, buffer⟩

end ConnectionSocket

namespace BoundReader

/-- What a call is for: it comes back with the payload of the next frame of one
descriptor, and that frame is all that is taken. -/
def ReadsNext (host : ByteOrder) (ntohl : Bool) (elsewhere : Bytes) (s : ConnectionSocket)
    (net : Int → Inbox) (buffer : Bytes) : Prop :=
  ∃ turns r, ConnectionSocket.readMsg host ntohl elsewhere turns s net buffer = some r ∧
    ∃ fd ∈ s.fds, ∃ payload rest, payload ≠ [] ∧
      (net fd).stream = Framing.frame host ntohl payload ++ rest ∧
      r.value = payload.length ∧ r.message = some payload ∧ (r.net fd).stream = rest ∧
      ∀ fd', fd' ≠ fd → (r.net fd').stream = (net fd').stream

/-- Frames arrive on the connections, and a complete one is there. -/
structure Arrives (host : ByteOrder) (ntohl : Bool) (s : ConnectionSocket) (net : Int → Inbox) :
    Prop where
  connected : s.fds ≠ []
  chunks : ∀ fd, Positive (net fd).calls
  frames : ∀ fd ∈ s.fds, ∃ messages : List Bytes,
    (∀ m ∈ messages, m ≠ [] ∧ m.length ≤ maxMsgSize) ∧
      (net fd).stream <+: Framing.frames host ntohl messages
  available : ∃ fd ∈ s.fds, ∃ payload rest, payload ≠ [] ∧
    (net fd).stream = Framing.frame host ntohl payload ++ rest

section Loops

variable {host : ByteOrder} {ntohl : Bool} {elsewhere buffer : Bytes} {s : ConnectionSocket}
  {net : Int → Inbox}

theorem readBuffer_zero (buffer : Bytes) (bufSize : Nat) (stream : Bytes) (calls : List ReadCall) :
    Utils.readBuffer buffer bufSize 0 stream calls = some ⟨0, store buffer 0 [], stream, calls⟩ := by
  cases calls with
  | nil => rfl
  | cons r calls => rfl

theorem bodyLoop_zero (turns : Nat) :
    ConnectionSocket.bodyLoop elsewhere turns 0 s net = none := by
  induction turns generalizing elsewhere s net with
  | zero => rfl
  | succ turns ih =>
      rw [ConnectionSocket.bodyLoop, if_neg (Int.lt_irrefl 0)]
      dsimp only
      rw [show u32OfInt 0 = 0 from rfl, readBuffer_zero]
      exact ih

theorem readMsg_nothing {turns : Nat} {r : BoundRead}
    (h : ConnectionSocket.readMsg host ntohl elsewhere turns s net buffer = some r) :
    r.value = 0 ∧ r.message = none ∧ r.socket.fds = [] := by
  induction turns generalizing s net buffer with
  | zero => cases h
  | succ turns ih =>
      rw [ConnectionSocket.readMsg] at h
      split at h
      · next hzero =>
          obtain rfl := Option.some.inj h
          exact ⟨rfl, rfl, List.length_eq_zero_iff.mp hzero⟩
      · dsimp only at h
        split at h
        · exact ih h
        · split at h
          · exact ih h
          · rw [bodyLoop_zero] at h
            cases h

theorem readSize_chunks (host : ByteOrder) (ntohl : Bool) (stream : Bytes) {calls : List ReadCall}
    (h : Positive calls) :
    0 ≤ (Utils.readSize host ntohl stream calls).value ∧
      Positive (Utils.readSize host ntohl stream calls).calls := by
  rcases Nat.lt_or_ge stream.length 4 with hshort | hfour
  · obtain ⟨data, calls', hget, h'⟩ := get_short_rest h hshort
    rw [Utils.readSize, hget]
    exact ⟨Int.le_refl 0, h'⟩
  · obtain ⟨calls', hget, h'⟩ := get_positive h true hfour
    rw [Framing.readSize_complete host ntohl _ hget]
    exact ⟨Int.natCast_nonneg _, h'⟩

/-- If no `read` fails, the connections stay and the call never comes back. -/
theorem readMsg_never (hfds : s.fds ≠ []) (hchunks : ∀ fd, Positive (net fd).calls) (turns : Nat) :
    ConnectionSocket.readMsg host ntohl elsewhere turns s net buffer = none := by
  induction turns generalizing s net buffer with
  | zero => rfl
  | succ turns ih =>
      have hsome : ¬ s.fds.length = 0 := fun hzero => hfds (List.length_eq_zero_iff.mp hzero)
      obtain ⟨hnonneg, hleft⟩ := readSize_chunks host ntohl (net s.wrapped.currentFd).stream
        (hchunks s.wrapped.currentFd)
      rw [ConnectionSocket.readMsg, if_neg hsome]
      dsimp only
      generalize Utils.readSize host ntohl (net s.wrapped.currentFd).stream
        (net s.wrapped.currentFd).calls = size at hnonneg hleft ⊢
      rw [if_neg (Int.not_lt.mpr hnonneg)]
      split
      · refine ih (s := s.wrapped.advanced) hfds ?_
        intro fd
        by_cases hfd : fd = s.wrapped.currentFd
        · rw [hfd, Function.update_self]
          exact hleft
        · rw [Function.update_of_ne hfd]
          exact hchunks fd
      · rw [bodyLoop_zero]
        rfl

end Loops

/-- No call returns the next message, whatever arrives. -/
theorem read_msg_not_next (host : ByteOrder) (ntohl : Bool) (elsewhere : Bytes)
    (s : ConnectionSocket) (net : Int → Inbox) (buffer : Bytes) :
    ¬ ReadsNext host ntohl elsewhere s net buffer := by
  rintro ⟨turns, r, hread, fd, -, payload, rest, -, -, -, hmessage, -⟩
  obtain ⟨-, hnone, -⟩ := readMsg_nothing hread
  rw [hnone] at hmessage
  cases hmessage

/-- A producer with a message of one byte. -/
def oneByte : Int → Inbox := fun _ => ⟨[1, 0, 0, 0, 7], []⟩

theorem oneByte_arrives : Arrives .little false ⟨[5], 0, 0⟩ oneByte where
  connected := List.cons_ne_nil 5 []
  chunks := fun _ r hr => absurd hr List.not_mem_nil
  frames := fun _ _ => ⟨[[7]], by decide, List.prefix_refl _⟩
  available := ⟨5, List.mem_cons_self, [7], [], List.cons_ne_nil 7 [], rfl⟩

/-- Its header is read, and the call goes on for ever. -/
theorem read_msg_loses_frame :
    ¬ ∀ (host : ByteOrder) (ntohl : Bool) (elsewhere : Bytes) (s : ConnectionSocket)
        (net : Int → Inbox) (buffer : Bytes), Arrives host ntohl s net →
        ReadsNext host ntohl elsewhere s net buffer := by
  intro h
  obtain ⟨turns, r, hread, -⟩ := h .little false [] ⟨[5], 0, 0⟩ oneByte [] oneByte_arrives
  rw [readMsg_never oneByte_arrives.connected oneByte_arrives.chunks] at hread
  cases hread

end BoundReader

end LightQ
