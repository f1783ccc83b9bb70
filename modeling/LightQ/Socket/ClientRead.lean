/-
# `Socket.ClientRead` — the two `client_socket_read_msg` (`connection_socket.h`)

A client reads a header and then as many bytes as it says, into the buffer of
its caller or, with `std::string`, into one of its own.  The two differ in
little: the latter takes a size above `max_msg_size` for one more header that
is not there yet, and reads on.

`clientRead` is either of them, with a bound on the turns of the loop around
`read_size`.  That bound takes nothing away: `clientRead_never` says that a
loop that does not end within as many turns as there are calls and bytes does
not end at all.

For the loop itself this is `sizeLoop_never`.  A turn uses up a call, or some
of the stream, as long as there is either (`readSize_progress`); when both are
used up the loop turns for ever (`sizeLoop_stuck`).  Further turns do not change
a result (`sizeLoop_mono`), so one that there is comes within as many turns
(`sizeLoop_enough`), and it is none of the values after which the loop turns
again (`not_again_of_sizeLoop`).

Behind the header both go on to the body (`clientSocketRead_of_sizeLoop`).
What `read_buffer` returns is the number of bytes that it has put at the front
of the buffer, or a failure (`readBuffer_cases`); a read that has not failed is
handed over (`handOver_of_ne`), with the terminator behind the message
(`take_store_terminator`).
-/
import LightQ.Socket.Framing
import LightQ.Storage.ConnectionFile

namespace LightQ

open MachineInt Transfer

/-- The result of `client_socket_read_msg`: its value, what it has put into the
caller's hands, its buffer, and what is left of the stream. -/
structure Reading where
  value : Int
  message : Option Bytes
  buffer : Bytes
  stream : Bytes
  calls : List ReadCall

namespace ConnectionSocket

/-- `while (result <= 0)` around `read_size`; `again` are the values after which
it turns once more. -/
def sizeLoop (again : Int → Bool) (host : ByteOrder) (ntohl : Bool) :
    Nat → Bytes → List ReadCall → Option Sized
  | 0, _, _ => none
  | turns + 1, stream, calls =>
      let s := Utils.readSize host ntohl stream calls
      if again s.value then sizeLoop again host ntohl turns s.stream s.calls else some s

/-- The values after which the loop turns once more, in either function. -/
def rereads : ConnectionFile.Overload → Int → Bool
  | .string, value => value = 0 || (maxMsgSize : Int) < value
  | .pointer, value => value = 0

/-- `client_socket_read_msg(std::string &, bool)`; the buffer is `buffer_`. -/
def clientSocketReadMsgString (host : ByteOrder) (buffer : Bytes) (ntohl : Bool) (stream : Bytes)
    (calls : List ReadCall) : Option Reading := do
  let s ← sizeLoop (rereads .string) host ntohl (calls.length + stream.length + 1) stream calls
  if s.value < 0 then some ⟨-1, none, buffer, s.stream, s.calls⟩
  else
    let sizeToRead := u32OfInt s.value
    let sizeToRead := if maxMsgSize < sizeToRead then maxMsgSize else sizeToRead
    let r ← Utils.readBuffer (store buffer 0 [0]) maxMsgSize sizeToRead s.stream s.calls
    if r.value = -1 then some ⟨-1, none, r.buffer, r.stream, r.calls⟩
    else
      let buffer := store r.buffer r.value.toNat [0]
      some ⟨r.value, some (buffer.take r.value.toNat), buffer, r.stream, r.calls⟩

/-- Either function; a caller with a buffer of its own finds the message at the
front of it. -/
def clientSocketRead (overload : ConnectionFile.Overload) (host : ByteOrder) (buffer : Bytes)
    (ntohl : Bool) (stream : Bytes) (calls : List ReadCall) : Option Reading :=
  match overload with
  | .string => clientSocketReadMsgString host buffer ntohl stream calls
  | .pointer =>
      (clientSocketReadMsg host buffer buffer.length ntohl stream calls).map fun r =>
        ⟨r.value, if r.value = -1 then none else some (r.buffer.take r.value.toNat), r.buffer,
          r.stream, r.calls⟩

/-- What either function makes of the result of `read_buffer`; the `std::string`
is assigned after a terminator has been put behind the message. -/
def handOver (overload : ConnectionFile.Overload) (r : Received) : Reading :=
  if r.value = -1 then ⟨-1, none, r.buffer, r.stream, r.calls⟩
  else
    let buffer := match overload with
      | .string => store r.buffer r.value.toNat [0]
      | .pointer => r.buffer
    ⟨r.value, some (r.buffer.take r.value.toNat), buffer, r.stream, r.calls⟩

/-- The same, with a bound on the turns around `read_size`. -/
def clientRead (overload : ConnectionFile.Overload) (host : ByteOrder) (buffer : Bytes)
    (ntohl : Bool) (turns : Nat) (stream : Bytes) (calls : List ReadCall) : Option Reading := do
  let s ← sizeLoop (rereads overload) host ntohl turns stream calls
  if s.value < 0 then some ⟨-1, none, buffer, s.stream, s.calls⟩
  else
    (Utils.readBuffer (store buffer 0 [0]) buffer.length (u32OfInt s.value) s.stream s.calls).map
      (handOver overload)

section Loop

variable {again : Int → Bool} {host : ByteOrder} {ntohl : Bool} {turns : Nat} {stream : Bytes}
  {calls : List ReadCall} {s : Sized}

theorem readSize_progress (host : ByteOrder) (ntohl : Bool)
    (hsome : 0 < stream.length + calls.length) :
    (Utils.readSize host ntohl stream calls).stream.length
        + (Utils.readSize host ntohl stream calls).calls.length < stream.length + calls.length := by
  have hget := get_progress true (show 0 < 4 by decide) hsome
  rw [Utils.readSize]
  split
  all_goals exact hget

theorem sizeLoop_mono {turns' : Nat} (hle : turns ≤ turns')
    (h : sizeLoop again host ntohl turns stream calls = some s) :
    sizeLoop again host ntohl turns' stream calls = some s := by
  induction turns generalizing turns' stream calls with
  | zero => cases h
  | succ turns ih =>
      obtain ⟨more, rfl⟩ := Nat.exists_eq_add_of_le hle
      rw [Nat.add_right_comm, sizeLoop]
      rw [sizeLoop] at h
      split at h
      · next hagain =>
          rw [if_pos hagain]
          exact ih (Nat.le_add_right _ _) h
      · next hstop =>
          rw [if_neg hstop]
          exact h

theorem sizeLoop_stuck (hagain : again 0 = true) (turns : Nat) :
    sizeLoop again host ntohl turns [] [] = none := by
  induction turns with
  | zero => rfl
  | succ turns ih =>
      rw [sizeLoop]
      exact (if_pos hagain).trans ih

/-- More turns than there are calls and bytes are as good as any number. -/
theorem sizeLoop_never (hagain : again 0 = true)
    (hturns : stream.length + calls.length < turns)
    (h : sizeLoop again host ntohl turns stream calls = none) (turns' : Nat) :
    sizeLoop again host ntohl turns' stream calls = none := by
  induction turns generalizing turns' stream calls with
  | zero => exact absurd hturns (Nat.not_lt_zero _)
  | succ turns ih =>
      cases turns' with
      | zero => rfl
      | succ turns' =>
          rcases Nat.eq_zero_or_pos (stream.length + calls.length) with hzero | hsome
          · obtain ⟨hstream, hcalls⟩ := Nat.add_eq_zero_iff.mp hzero
            rw [List.length_eq_zero_iff.mp hstream, List.length_eq_zero_iff.mp hcalls]
            exact sizeLoop_stuck hagain _
          · have hless := readSize_progress host ntohl hsome
            rw [sizeLoop] at h ⊢
            split at h
            · next hmore =>
                rw [if_pos hmore]
                exact ih (by omega) h turns'
            · cases h

theorem sizeLoop_enough (hagain : again 0 = true)
    (h : sizeLoop again host ntohl turns stream calls = some s) :
    sizeLoop again host ntohl (calls.length + stream.length + 1) stream calls = some s := by
  cases hbound : sizeLoop again host ntohl (calls.length + stream.length + 1) stream calls with
  | none =>
      rw [sizeLoop_never hagain (by omega) hbound turns] at h
      cases h
  | some s' =>
      have hleft := sizeLoop_mono (Nat.le_add_right _ turns) hbound
      have hright := sizeLoop_mono (Nat.le_add_left _ (calls.length + stream.length + 1)) h
      exact hleft.symm.trans hright

theorem not_again_of_sizeLoop (h : sizeLoop again host ntohl turns stream calls = some s) :
    again s.value = false := by
  induction turns generalizing stream calls with
  | zero => cases h
  | succ turns ih =>
      rw [sizeLoop] at h
      split at h
      · exact ih h
      · next hstop =>
          obtain rfl := Option.some.inj h
          exact Bool.not_eq_true _ ▸ hstop

theorem readSizeLoop_eq :
    readSizeLoop host ntohl turns stream calls
      = sizeLoop (rereads .pointer) host ntohl turns stream calls := by
  induction turns generalizing stream calls with
  | zero => rfl
  | succ turns ih =>
      rw [readSizeLoop, sizeLoop, ih]
      simp only [rereads, decide_eq_true_eq]

end Loop

section Read

variable {host : ByteOrder} {ntohl : Bool}

theorem readBuffer_cases {buffer : Bytes} {bufSize length : Nat} {stream : Bytes}
    {calls : List ReadCall} {r : Received}
    (h : Utils.readBuffer buffer bufSize length stream calls = some r) :
    r.buffer = store buffer 0 (get false length stream calls).data ∧
      (r.value = (get false length stream calls).data.length ∨ r.value = -1) := by
  rw [Utils.readBuffer] at h
  split at h
  · obtain rfl := Option.some.inj h
    exact ⟨rfl, Or.inl rfl⟩
  · cases h
  · obtain rfl := Option.some.inj h
    refine ⟨rfl, ?_⟩
    split
    · exact Or.inl rfl
    · exact Or.inr rfl

theorem readBuffer_stream {buffer : Bytes} {bufSize length : Nat} {stream : Bytes}
    {calls : List ReadCall} {r : Received}
    (h : Utils.readBuffer buffer bufSize length stream calls = some r) :
    r.stream = (get false length stream calls).rest := by
  rw [Utils.readBuffer] at h
  split at h
  · obtain rfl := Option.some.inj h
    rfl
  · cases h
  · obtain rfl := Option.some.inj h
    rfl

theorem take_store_terminator {buffer : Bytes} {n : Nat} (h : n ≤ buffer.length) :
    (store buffer n [0]).take n = buffer.take n :=
  Overlay.take_overlay_of_le (Nat.le_refl n) h

theorem clientSocketRead_eq (overload : ConnectionFile.Overload) (buffer : Bytes) (stream : Bytes)
    (calls : List ReadCall) :
    clientSocketRead overload host buffer ntohl stream calls
      = clientRead overload host buffer ntohl (calls.length + stream.length + 1) stream calls := by
  cases overload with
  | pointer =>
      rw [clientSocketRead, clientSocketReadMsg, clientRead, readSizeLoop_eq]
      cases sizeLoop (rereads .pointer) host ntohl (calls.length + stream.length + 1) stream calls with
      | none => rfl
      | some s =>
          simp only [Option.bind_eq_bind, Option.bind_some]
          split
          · rfl
          · cases Utils.readBuffer (store buffer 0 [0]) buffer.length (u32OfInt s.value) s.stream
              s.calls with
            | none => rfl
            | some r =>
                simp only [Option.map_some, handOver]
                split
                · next hfailed => rw [hfailed]
                · rfl
  | string =>
      rw [clientSocketRead, clientSocketReadMsgString, clientRead]
      cases hloop : sizeLoop (rereads .string) host ntohl (calls.length + stream.length + 1) stream
        calls with
      | none => rfl
      | some s =>
          simp only [Option.bind_eq_bind, Option.bind_some]
          split
          · rfl
          · next hpos =>
              -- the loop has passed over every size that is too large
              have hfit : u32OfInt s.value ≤ maxMsgSize := by
                have hstop := not_again_of_sizeLoop hloop
                simp only [rereads, Bool.or_eq_false_iff, decide_eq_false_iff_not] at hstop
                rw [u32OfInt]
                omega
              have hsame : Utils.readBuffer (store buffer 0 [0]) maxMsgSize (u32OfInt s.value) s.stream
                  s.calls = Utils.readBuffer (store buffer 0 [0]) buffer.length (u32OfInt s.value)
                    s.stream s.calls := rfl
              rw [if_neg (Nat.not_lt.mpr hfit), hsame]
              cases hread : Utils.readBuffer (store buffer 0 [0]) buffer.length (u32OfInt s.value)
                s.stream s.calls with
              | none => rfl
              | some r =>
                  obtain ⟨hbuffer, hvalue⟩ := readBuffer_cases hread
                  simp only [Option.bind_some, Option.map_some, handOver]
                  split
                  · rfl
                  · next hne =>
                      have hlen : r.value.toNat ≤ r.buffer.length := by
                        rw [hbuffer, hvalue.resolve_right hne, store, Overlay.overlay_zero,
                          List.length_append]
                        omega
                      rw [take_store_terminator hlen]

theorem rereads_zero (overload : ConnectionFile.Overload) : rereads overload 0 = true := by
  cases overload with
  | string => rfl
  | pointer => rfl

theorem handOver_of_ne (overload : ConnectionFile.Overload) {r : Received} (h : r.value ≠ -1) :
    ∃ buffer, r.buffer.length ≤ buffer.length ∧ handOver overload r
      = ⟨r.value, some (r.buffer.take r.value.toNat), buffer, r.stream, r.calls⟩ := by
  cases overload with
  | pointer => exact ⟨r.buffer, Nat.le_refl _, if_neg h⟩
  | string =>
      refine ⟨store r.buffer r.value.toNat [0], ?_, if_neg h⟩
      rw [store, Overlay.length_overlay (List.cons_ne_nil _ _)]
      exact Nat.le_max_left _ _

theorem handOver_eq (overload : ConnectionFile.Overload) (r : Received) :
    (handOver overload r).value = r.value ∧ (handOver overload r).stream = r.stream := by
  by_cases hfailed : r.value = -1
  · have heq : handOver overload r = ⟨-1, none, r.buffer, r.stream, r.calls⟩ := if_pos hfailed
    rw [heq]
    exact ⟨hfailed.symm, rfl⟩
  · obtain ⟨buffer, -, heq⟩ := handOver_of_ne overload hfailed
    rw [heq]
    exact ⟨rfl, rfl⟩

/-- A call that does not come back within as many turns as there are calls and
bytes never does. -/
theorem clientRead_never {overload : ConnectionFile.Overload} {buffer stream : Bytes}
    {calls : List ReadCall}
    (h : clientSocketRead overload host buffer ntohl stream calls = none) (turns : Nat) :
    clientRead overload host buffer ntohl turns stream calls = none := by
  rw [clientSocketRead_eq, clientRead] at h
  rw [clientRead]
  cases hloop : sizeLoop (rereads overload) host ntohl turns stream calls with
  | none => rfl
  | some s =>
      rw [sizeLoop_enough (rereads_zero overload) hloop] at h
      exact h

theorem clientSocketRead_of_sizeLoop {overload : ConnectionFile.Overload} (buffer : Bytes)
    {stream behind : Bytes} {calls reads : List ReadCall} {turns size : Nat} (hsize : size < 2 ^ 32)
    (hloop : sizeLoop (rereads overload) host ntohl turns stream calls
      = some ⟨(size : Nat), behind, reads⟩) :
    clientSocketRead overload host buffer ntohl stream calls =
      (Utils.readBuffer (store buffer 0 [0]) buffer.length size behind reads).map
        (handOver overload) := by
  have hnat := u32OfInt_of_nonneg hsize
  rw [clientSocketRead_eq, clientRead, sizeLoop_enough (rereads_zero overload) hloop]
  simp only [Option.bind_eq_bind, Option.bind_some, hnat]
  exact if_neg (by omega)

end Read

end ConnectionSocket

end LightQ
