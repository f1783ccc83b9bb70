/-
# `Socket.WriteMsg` — the two `write_msg` (`connection_socket.h`)

`write_msg` takes the sockets in turn.  It writes the length of the message and
the message to one of them, and goes on to the next after a failure.  Its two
overloads are the same text, but compare the value of `write_size` to the
`sizeof` of different types.

`writeLoop` is the loop of either, over any network.  `writeMsgLoop_eq` says
that the one of `DirectDelivery`, over one list of outcomes, is that loop.

A turn that has a result is the last, one that has none is followed by another
(`writeLoop_turn`); the socket of a turn is one of those that there are and none
is added (`writeTurn_within`), so that a call removes sockets and writes to
those that it was given (`writeLoop_within`).

Of the values that a turn looks at: the one of `write_size` is at most 4
(`headerTo_value_le`), so that the test of the `std::string` overload, which
compares it with 8, is never met (`headerTo_ne_string`); the value of a write is
-1 if its first call fails (`wrote_refused_iff`) and 0 if there is nothing to
write (`wrote_nothing_iff`), as of a payload without bytes (`payloadTo_zero`).
A turn that goes on to the payload is `writeTurn_write`.
-/
import Mathlib.Data.List.GetD
import LightQ.Socket.DirectDelivery

namespace LightQ

open MachineInt Transfer

/-- How writes come out: the next calls on a descriptor, and what is left of them
when a loop has ended. -/
structure Network (ν : Type) where
  upcoming : ν → Int → List WriteCall
  after : ν → Int → List WriteCall → ν

/-- One list of outcomes for all descriptors. -/
def Network.schedule : Network (List WriteCall) :=
  ⟨fun calls _ => calls, fun _ _ left => left⟩

/-- `sizeof(message.length())`, of a `std::string`, and `sizeof(length)`, of an
`unsigned`. -/
def sizeofLength : ConnectionFile.Overload → Int
  | .string => 8
  | .pointer => 4

/-- What one turn of the loop was to write to a descriptor, and what was sent. -/
structure SocketWrite where
  fd : Int
  asked : Bytes
  sent : Bytes
deriving DecidableEq, Repr

/-- One turn of the loop, with its result, if it has one. -/
structure WriteTurn (ν : Type) where
  value : Option Int
  socket : ConnectionSocket
  write : SocketWrite
  net : ν

/-- The result of `write_msg`, with what was written in each turn. -/
structure WroteTo (ν : Type) where
  value : Int
  socket : ConnectionSocket
  writes : List SocketWrite
  net : ν

namespace ConnectionSocket

variable {ν : Type}

/-- `if (current_fd_index_ >= fds_.size())`. -/
def wrapped (s : ConnectionSocket) : ConnectionSocket :=
  { s with currentFdIndex := if s.fds.length ≤ s.currentFdIndex then 0 else s.currentFdIndex }

/-- `fds_[current_fd_index_]`. -/
def currentFd (s : ConnectionSocket) : Int := s.fds.getD s.currentFdIndex 0

/-- `++current_fd_index_`. -/
def advanced (s : ConnectionSocket) : ConnectionSocket :=
  { s with currentFdIndex := u32 (s.currentFdIndex + 1) }

/-- The header that a turn writes. -/
def headerTo (network : Network ν) (host : ByteOrder) (length : Nat) (net : ν) (fd : Int) : Wrote :=
  Utils.writeSize host length true (network.upcoming net fd)

/-- The network behind the header. -/
def behindHeader (network : Network ν) (host : ByteOrder) (length : Nat) (net : ν) (fd : Int) : ν :=
  network.after net fd (headerTo network host length net fd).calls

/-- The payload that a turn writes. -/
def payloadTo (network : Network ν) (host : ByteOrder) (message : Bytes) (length : Nat) (net : ν)
    (fd : Int) : Wrote :=
  Utils.writeBuffer message length
    (network.upcoming (behindHeader network host length net fd) fd)

/-- The network behind the payload. -/
def behindPayload (network : Network ν) (host : ByteOrder) (message : Bytes) (length : Nat)
    (net : ν) (fd : Int) : ν :=
  network.after (behindHeader network host length net fd) fd
    (payloadTo network host message length net fd).calls

/-- What a turn writes that goes on to the payload. -/
def frameWrite (network : Network ν) (host : ByteOrder) (message : Bytes) (length : Nat) (net : ν)
    (fd : Int) : SocketWrite :=
  ⟨fd, Framing.header host true length ++ message.take length,
    (headerTo network host length net fd).sent ++ (payloadTo network host message length net fd).sent⟩

/-- A turn of either `write_msg`, of an endpoint that is not `conn_broker`;
`sizeof` is the `sizeof` that the value of `write_size` is compared to. -/
def writeTurn (network : Network ν) (sizeof : Int) (host : ByteOrder) (message : Bytes)
    (length : Nat) (s : ConnectionSocket) (net : ν) : WriteTurn ν :=
  let s := s.wrapped
  let fd := s.currentFd
  let size := headerTo network host length net fd
  if size.value = sizeof then
    ⟨none, s.removeFd s.currentFdIndex, ⟨fd, Framing.header host true length, size.sent⟩,
      behindHeader network host length net fd⟩
  else
    let body := payloadTo network host message length net fd
    let write := frameWrite network host message length net fd
    let net := behindPayload network host message length net fd
    if body.value = -1 then ⟨none, s.removeFd s.currentFdIndex, write, net⟩
    else if body.value = 0 then ⟨none, s.advanced, write, net⟩
    else ⟨some body.value, s.advanced, write, net⟩

/-- `while (fds_.size() > 0)`. -/
def writeLoop (network : Network ν) (sizeof : Int) (host : ByteOrder) (message : Bytes)
    (length : Nat) : Nat → ConnectionSocket → ν → Option (WroteTo ν)
  | 0, _, _ => none
  | turns + 1, s, net =>
      if s.fds.length = 0 then some ⟨0, s, [], net⟩
      else
        let t := writeTurn network sizeof host message length s net
        match t.value with
        | some value => some ⟨value, t.socket, [t.write], t.net⟩
        | none =>
            (writeLoop network sizeof host message length turns t.socket t.net).map fun w =>
              { w with writes := t.write :: w.writes }

section Loop

variable {network : Network ν} {sizeof : Int} {host : ByteOrder} {message : Bytes}
  {length turns : Nat} {s : ConnectionSocket} {net : ν} {w : WroteTo ν}

theorem wrote_value (p : Put UInt8 Unit) :
    (p.failed = none → (Utils.wrote p).value = p.sent.length) ∧
      (p.failed ≠ none → (Utils.wrote p).value =
        if 0 < p.sent.length then (p.sent.length : Int) else -1) := by
  rw [Utils.wrote]
  cases p.failed with
  | none => exact ⟨fun _ => rfl, fun h => absurd rfl h⟩
  | some e => exact ⟨fun h => absurd h (Option.some_ne_none e), fun _ => rfl⟩

theorem wrote_sent (p : Put UInt8 Unit) : (Utils.wrote p).sent = p.sent ∧
    (Utils.wrote p).calls = p.calls := by
  rw [Utils.wrote]
  cases p.failed with
  | none => exact ⟨rfl, rfl⟩
  | some e => exact ⟨rfl, rfl⟩

theorem wrote_refused_iff (p : Put UInt8 Unit) :
    (Utils.wrote p).value = -1 ↔ p.failed ≠ none ∧ p.sent = [] := by
  obtain ⟨hall, hcut⟩ := wrote_value p
  by_cases hfailed : p.failed = none
  · refine iff_of_false ?_ fun h => h.1 hfailed
    rw [hall hfailed]
    omega
  · rw [hcut hfailed]
    constructor
    · intro hvalue
      refine ⟨hfailed, List.eq_nil_of_length_eq_zero ?_⟩
      split at hvalue
      · omega
      · omega
    · rintro ⟨-, hnone⟩
      rw [hnone]
      rfl

theorem wrote_nothing_iff (buf : Bytes) (calls : List WriteCall) :
    (Utils.wrote (put buf calls)).value = 0 ↔ buf = [] := by
  obtain ⟨hall, hcut⟩ := wrote_value (put buf calls)
  rcases put_cases buf calls with ⟨hnone, hsent⟩ | ⟨e, hfailed, -, hless⟩
  · rw [hall hnone, hsent]
    exact Int.natCast_eq_zero.trans List.length_eq_zero_iff
  · refine iff_of_false ?_ (List.ne_nil_of_length_pos (Nat.zero_lt_of_lt hless))
    rw [hcut (hfailed.trans_ne (Option.some_ne_none e))]
    split
    · omega
    · omega

theorem headerTo_value_le {fd : Int} : (headerTo network host length net fd).value ≤ 4 := by
  have hfour := Framing.length_header host true length
  have hlen : (put (Framing.header host true length) (network.upcoming net fd)).sent.length ≤ 4 := by
    rcases put_cases (Framing.header host true length) (network.upcoming net fd) with
      ⟨-, hsent⟩ | ⟨e, -, -, hless⟩
    · rw [hsent, hfour]
    · omega
  show (Utils.wrote (put (Framing.header host true length) (network.upcoming net fd))).value ≤ 4
  obtain ⟨hall, hcut⟩ := wrote_value (put (Framing.header host true length) (network.upcoming net fd))
  by_cases hfailed : (put (Framing.header host true length) (network.upcoming net fd)).failed = none
  · rw [hall hfailed]
    exact_mod_cast hlen
  · rw [hcut hfailed]
    split
    · exact_mod_cast hlen
    · omega

theorem headerTo_ne_string {fd : Int} :
    (headerTo network host length net fd).value ≠ sizeofLength .string := by
  have hle : (headerTo network host length net fd).value ≤ 4 := headerTo_value_le
  show (headerTo network host length net fd).value ≠ 8
  omega

theorem writeTurn_dropped
    (hsize : (headerTo network host length net s.wrapped.currentFd).value = sizeof) :
    writeTurn network sizeof host message length s net =
      ⟨none, s.wrapped.removeFd s.wrapped.currentFdIndex,
        ⟨s.wrapped.currentFd, Framing.header host true length,
          (headerTo network host length net s.wrapped.currentFd).sent⟩,
        behindHeader network host length net s.wrapped.currentFd⟩ :=
  if_pos hsize

theorem writeTurn_failed
    (hsize : (headerTo network host length net s.wrapped.currentFd).value ≠ sizeof)
    (hbody : (payloadTo network host message length net s.wrapped.currentFd).value = -1) :
    writeTurn network sizeof host message length s net =
      ⟨none, s.wrapped.removeFd s.wrapped.currentFdIndex,
        frameWrite network host message length net s.wrapped.currentFd,
        behindPayload network host message length net s.wrapped.currentFd⟩ :=
  (if_neg hsize).trans (if_pos hbody)

theorem writeTurn_nothing
    (hsize : (headerTo network host length net s.wrapped.currentFd).value ≠ sizeof)
    (hbody : (payloadTo network host message length net s.wrapped.currentFd).value = 0) :
    writeTurn network sizeof host message length s net =
      ⟨none, s.wrapped.advanced,
        frameWrite network host message length net s.wrapped.currentFd,
        behindPayload network host message length net s.wrapped.currentFd⟩ := by
  have hfailed : (payloadTo network host message length net s.wrapped.currentFd).value ≠ -1 := by
    omega
  exact (if_neg hsize).trans ((if_neg hfailed).trans (if_pos hbody))

theorem writeTurn_wrote
    (hsize : (headerTo network host length net s.wrapped.currentFd).value ≠ sizeof)
    (hfailed : (payloadTo network host message length net s.wrapped.currentFd).value ≠ -1)
    (hzero : (payloadTo network host message length net s.wrapped.currentFd).value ≠ 0) :
    writeTurn network sizeof host message length s net =
      ⟨some (payloadTo network host message length net s.wrapped.currentFd).value,
        s.wrapped.advanced, frameWrite network host message length net s.wrapped.currentFd,
        behindPayload network host message length net s.wrapped.currentFd⟩ :=
  (if_neg hsize).trans ((if_neg hfailed).trans (if_neg hzero))

theorem writeTurn_write
    (hsize : (headerTo network host length net s.wrapped.currentFd).value ≠ sizeof) :
    (writeTurn network sizeof host message length s net).write
      = frameWrite network host message length net s.wrapped.currentFd := by
  by_cases hfailed : (payloadTo network host message length net s.wrapped.currentFd).value = -1
  · rw [writeTurn_failed hsize hfailed]
  · by_cases hzero : (payloadTo network host message length net s.wrapped.currentFd).value = 0
    · rw [writeTurn_nothing hsize hzero]
    · rw [writeTurn_wrote hsize hfailed hzero]

theorem payloadTo_zero (hzero : length = 0) (fd : Int) :
    (payloadTo network host message length net fd).value = 0 := by
  have hnone : message.take length = [] := by rw [hzero]; rfl
  exact (wrote_nothing_iff _ _).mpr hnone

theorem writeLoop_empty (hfds : s.fds = []) :
    writeLoop network sizeof host message length (turns + 1) s net = some ⟨0, s, [], net⟩ := by
  have hzero : s.fds.length = 0 := by rw [hfds]; rfl
  rw [writeLoop, if_pos hzero]

/-- A turn that has a result is the last, one that has none is followed by
another. -/
theorem writeLoop_turn (hfds : s.fds ≠ []) {t : WriteTurn ν}
    (ht : writeTurn network sizeof host message length s net = t) :
    writeLoop network sizeof host message length (turns + 1) s net =
      match t.value with
      | some value => some ⟨value, t.socket, [t.write], t.net⟩
      | none =>
          (writeLoop network sizeof host message length turns t.socket t.net).map fun w =>
            { w with writes := t.write :: w.writes } := by
  have hpos : ¬ s.fds.length = 0 := fun hzero => hfds (List.length_eq_zero_iff.mp hzero)
  rw [writeLoop, if_neg hpos]
  dsimp only
  rw [ht]

theorem wrapped_lt (hfds : s.fds ≠ []) : s.wrapped.currentFdIndex < s.wrapped.fds.length := by
  have hpos : 0 < s.wrapped.fds.length := List.length_pos_iff.mpr hfds
  rw [wrapped] at hpos ⊢
  dsimp only at hpos ⊢
  split
  · exact hpos
  · omega

theorem currentFd_mem (hfds : s.fds ≠ []) : s.wrapped.currentFd ∈ s.fds := by
  rw [currentFd, List.getD_eq_getElem _ _ (wrapped_lt hfds)]
  exact List.getElem_mem (wrapped_lt hfds)

variable (network sizeof host message length net) in
theorem writeTurn_within (hfds : s.fds ≠ []) :
    (writeTurn network sizeof host message length s net).write.fd ∈ s.fds ∧
      (writeTurn network sizeof host message length s net).socket.fds ⊆ s.fds := by
  have hmem := currentFd_mem hfds
  have hremoved : (s.wrapped.removeFd s.wrapped.currentFdIndex).fds ⊆ s.fds :=
    fun fd hfd => List.mem_of_mem_filter hfd
  by_cases hsize : (headerTo network host length net s.wrapped.currentFd).value = sizeof
  · rw [writeTurn_dropped hsize]
    exact ⟨hmem, hremoved⟩
  · by_cases hfailed : (payloadTo network host message length net s.wrapped.currentFd).value = -1
    · rw [writeTurn_failed hsize hfailed]
      exact ⟨hmem, hremoved⟩
    · by_cases hzero : (payloadTo network host message length net s.wrapped.currentFd).value = 0
      · rw [writeTurn_nothing hsize hzero]
        exact ⟨hmem, List.Subset.refl _⟩
      · rw [writeTurn_wrote hsize hfailed hzero]
        exact ⟨hmem, List.Subset.refl _⟩

theorem writeLoop_within
    (h : writeLoop network sizeof host message length turns s net = some w) :
    w.socket.fds ⊆ s.fds ∧ ∀ x ∈ w.writes, x.fd ∈ s.fds := by
  induction turns generalizing s net w with
  | zero => cases h
  | succ turns ih =>
      by_cases hfds : s.fds = []
      · rw [writeLoop_empty hfds] at h
        obtain rfl := Option.some.inj h
        exact ⟨List.Subset.refl _, fun x hx => absurd hx List.not_mem_nil⟩
      · obtain ⟨hfirst, hfewer⟩ := writeTurn_within network sizeof host message
          length net hfds
        rw [writeLoop_turn hfds rfl] at h
        generalize writeTurn network sizeof host message length s net = t at h hfirst hfewer
        split at h
        · obtain rfl := Option.some.inj h
          refine ⟨hfewer, ?_⟩
          intro x hx
          obtain rfl := List.mem_singleton.mp hx
          exact hfirst
        · obtain ⟨w', hw', rfl⟩ := Option.map_eq_some_iff.mp h
          obtain ⟨hsubset, hwrites⟩ := ih hw'
          refine ⟨List.Subset.trans hsubset hfewer, ?_⟩
          intro x hx
          rcases List.mem_cons.mp hx with rfl | htail
          · exact hfirst
          · exact hfewer (hwrites x htail)

/-- With one list of outcomes it is the loop of a direct topic. -/
theorem writeMsgLoop_eq (host : ByteOrder) (message : Bytes) (turns : Nat) (s : ConnectionSocket)
    (calls : List WriteCall) :
    writeMsgLoop host message turns s calls =
      (writeLoop Network.schedule 8 host message (u32 message.length) turns s calls).map fun w =>
        ⟨w.value, w.socket, w.writes.map fun x => (x.fd, x.sent), w.net⟩ := by
  induction turns generalizing s calls with
  | zero => rfl
  | succ turns ih =>
      by_cases hfds : s.fds = []
      · have hzero : s.fds.length = 0 := by rw [hfds]; rfl
        rw [writeMsgLoop, if_pos hzero, writeLoop_empty hfds]
        rfl
      · have hpos : ¬ s.fds.length = 0 := fun hzero => hfds (List.length_eq_zero_iff.mp hzero)
        rw [writeMsgLoop, if_neg hpos, writeLoop_turn hfds rfl]
        dsimp only
        by_cases hsize : (headerTo Network.schedule host (u32 message.length) calls
            s.wrapped.currentFd).value = 8
        · rw [writeTurn_dropped hsize]
          refine (if_pos hsize).trans ?_
          rw [ih, Option.map_map, Option.map_map]
          rfl
        · refine (if_neg hsize).trans ?_
          by_cases hfailed : (payloadTo Network.schedule host message (u32 message.length) calls
              s.wrapped.currentFd).value = -1
          · rw [writeTurn_failed hsize hfailed]
            refine (if_pos hfailed).trans ?_
            rw [ih, Option.map_map, Option.map_map]
            rfl
          · refine (if_neg hfailed).trans ?_
            by_cases hzero : (payloadTo Network.schedule host message (u32 message.length) calls
                s.wrapped.currentFd).value = 0
            · rw [writeTurn_nothing hsize hzero]
              refine (if_pos hzero).trans ?_
              rw [ih, Option.map_map, Option.map_map]
              rfl
            · rw [writeTurn_wrote hsize hfailed hzero]
              exact if_neg hzero

end Loop

end ConnectionSocket

end LightQ
