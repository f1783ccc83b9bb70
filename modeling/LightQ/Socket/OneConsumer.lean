/-
# `Socket.OneConsumer` — each message to one socket that takes it

`write_msg` goes on to the next socket after one that fails before a byte of the
payload is sent.  It is to remove that socket from its list; but `remove_fd`,
which removes by value, is given the position.  The socket stays, unless its
descriptor is the number of its place, and another one may go.  A payload that
is cut off counts as sent, and one of no bytes as not sent, by any socket.

A `Peer` takes what it is sent in some pieces, and then everything or nothing
any more (`peer_cases`).  One that refuses is dead behind the payload
(`after_refuses`), a dead one is sent nothing (`put_dead`), and behind a header
that fails nothing is sent (`refuses_of_header`).

`write_msg_delivers_iff` says for which peers a call does what it is for:
`Settles` describes the sockets that are tried until one takes the message,
each of which refuses it and has the number of its place for its descriptor.
Such a call delivers, by induction over the sockets that are tried; a turn in
which the header and the payload are sent is the end of it (`delivered_takes`),
and only the peers of the sockets that are left matter (`Settles.congr`).

Conversely a call that does what it is for has come to such a socket
(`settles_of_delivered`).  A message without bytes is sent for ever
(`writeLoop_empty_message`), and so is one to a dead peer that is not removed
(`writeLoop_stuck`).  Where the call goes on behind a socket that is dead, and in
the end those are removed that failed, that socket was removed by the number of
its place (`place_of_removed`); what is left then is what `mem_removeFd` says.
-/
import Mathlib.Logic.Function.Basic
import LightQ.Socket.WriteMsg

namespace LightQ

open MachineInt Transfer

/-- How a descriptor takes what is written to it: in pieces of one byte more than
these numbers, and then everything or, if it is broken, nothing any more. -/
structure Peer where
  pieces : List Nat
  broken : Bool
deriving DecidableEq, Repr

namespace Peer

/-- One on which every write fails. -/
def dead : Peer := ⟨[], true⟩

/-- The writes to come. -/
def upcoming (p : Peer) : List WriteCall :=
  p.pieces.map (fun k => .moved (k + 1)) ++ if p.broken then [.failed ()] else []

/-- The peer when these writes are left. -/
def after (p : Peer) (left : List WriteCall) : Peer :=
  { p with pieces := p.pieces.drop (p.upcoming.length - left.length) }

/-- What comes of the header of a message of this length. -/
def header (host : ByteOrder) (length : Nat) (p : Peer) : Put UInt8 Unit :=
  put (Framing.header host true length) p.upcoming

/-- What comes of the payload behind it. -/
def payload (host : ByteOrder) (message : Bytes) (p : Peer) : Put UInt8 Unit :=
  put (message.take (u32 message.length))
    (p.after (p.header host (u32 message.length)).calls).upcoming

/-- No write of the header or the payload fails. -/
def Takes (host : ByteOrder) (message : Bytes) (p : Peer) : Prop :=
  (p.header host (u32 message.length)).failed = none ∧ (p.payload host message).failed = none

/-- A write fails before a byte of the payload is sent. -/
def Refuses (host : ByteOrder) (message : Bytes) (p : Peer) : Prop :=
  (p.payload host message).failed ≠ none ∧ (p.payload host message).sent = []

end Peer

/-- A peer for each descriptor. -/
def Network.peers : Network (Int → Peer) :=
  ⟨fun net fd => (net fd).upcoming, fun net fd left => Function.update net fd ((net fd).after left)⟩

namespace OneConsumer

/-- A write to the descriptor failed: not all that was to be written was sent. -/
def Failed (writes : List SocketWrite) (fd : Int) : Prop :=
  ∃ x ∈ writes, x.fd = fd ∧ x.sent ≠ x.asked

/-- What `write_msg` is for. -/
structure Delivered (host : ByteOrder) (message : Bytes) (s : ConnectionSocket)
    (w : WroteTo (Int → Peer)) : Prop where
  value : w.value = message.length ↔ ∃ x ∈ w.writes, x.sent = Framing.frame host true message
  removed : ∀ fd ∈ s.fds, fd ∉ w.socket.fds ↔ Failed w.writes fd

/-- `write_msg(const std::string &)` comes back, and has done what it is for. -/
def Delivers (host : ByteOrder) (message : Bytes) (s : ConnectionSocket) (net : Int → Peer) : Prop :=
  ∃ turns w, ConnectionSocket.writeLoop Network.peers (sizeofLength .string) host message
    (u32 message.length) turns s net = some w ∧ Delivered host message s w

/-- From the socket that is next: each one refuses and has the number of its place
for its descriptor, until one takes the message or none is left. -/
inductive Settles (host : ByteOrder) (message : Bytes) (net : Int → Peer) :
    ConnectionSocket → Prop where
  | nobody {s : ConnectionSocket} : s.fds = [] → Settles host message net s
  | takes {s : ConnectionSocket} : s.fds ≠ [] →
      (net s.wrapped.currentFd).Takes host message → Settles host message net s
  | refuses {s : ConnectionSocket} : s.fds ≠ [] →
      (net s.wrapped.currentFd).Refuses host message →
      s.wrapped.currentFd = s.wrapped.currentFdIndex →
      Settles host message net (s.wrapped.removeFd s.wrapped.currentFdIndex) →
      Settles host message net s

section Peers

variable {host : ByteOrder} {message : Bytes} {p : Peer}

theorem peer_cases (p : Peer) (buf : Bytes) :
    ((put buf p.upcoming).failed = none ∧ (put buf p.upcoming).sent = buf) ∨
      ((put buf p.upcoming).failed ≠ none ∧ (put buf p.upcoming).sent.length < buf.length ∧
        p.after (put buf p.upcoming).calls = .dead) := by
  rcases put_cases buf p.upcoming with hall | ⟨e, hfailed, hmem, hless⟩
  · exact Or.inl hall
  · have hsome : (put buf p.upcoming).failed ≠ none := by
      rw [hfailed]
      exact Option.some_ne_none e
    refine Or.inr ⟨hsome, hless, ?_⟩
    obtain ⟨pieces, broken⟩ := p
    have hpieces : Positive (pieces.map fun k => (.moved (k + 1) : WriteCall)) :=
      positive_map pieces
    cases broken with
    | false =>
        rw [Peer.upcoming, if_neg Bool.false_ne_true, List.append_nil] at hmem
        obtain ⟨k, hk⟩ := hpieces _ hmem
        cases hk
    | true =>
        have hlast := put_failed_last hpieces hsome
        have hcalls : (put buf (Peer.upcoming ⟨pieces, true⟩)).calls = [] := hlast
        rw [Peer.after, hcalls, Peer.dead, Peer.mk.injEq]
        refine ⟨List.drop_eq_nil_of_le ?_, rfl⟩
        rw [Peer.upcoming, if_pos rfl, List.length_append, List.length_map]
        exact Nat.le_succ pieces.length

theorem length_header (host : ByteOrder) (p : Peer) (n : Nat) : (p.header host n).sent.length ≤ 4 := by
  have hfour := Framing.length_header host true n
  rcases peer_cases p (Framing.header host true n) with ⟨-, hsent⟩ | ⟨-, hless, -⟩
  · rw [Peer.header, hsent, hfour]
  · rw [Peer.header]
    omega

theorem put_dead {buf : Bytes} (hne : buf ≠ []) :
    (put buf Peer.dead.upcoming).failed ≠ none ∧ (put buf Peer.dead.upcoming).sent = [] := by
  cases buf with
  | nil => exact absurd rfl hne
  | cons b buf => exact ⟨Option.some_ne_none (), rfl⟩

theorem payload_ne_nil (hpos : 0 < u32 message.length) : message.take (u32 message.length) ≠ [] := by
  intro hnil
  rcases List.take_eq_nil_iff.mp hnil with hzero | rfl
  · omega
  · exact absurd hpos (by decide)

theorem refuses_of_header (hpos : 0 < u32 message.length)
    (hfailed : (p.header host (u32 message.length)).failed ≠ none) : p.Refuses host message := by
  have hdead : p.after (p.header host (u32 message.length)).calls = .dead :=
    (peer_cases p _).elim (fun hall => absurd hall.1 hfailed) fun hno => hno.2.2
  rw [Peer.Refuses, Peer.payload, hdead]
  exact put_dead (payload_ne_nil hpos)

theorem dead_refuses (hpos : 0 < u32 message.length) : Peer.dead.Refuses host message := by
  have hheader : Framing.header host true (u32 message.length) ≠ [] :=
    List.length_pos_iff.mp (Framing.length_header host true (u32 message.length) ▸ Nat.succ_pos 3)
  exact refuses_of_header hpos (put_dead hheader).1

/-- What is to be written in a turn that goes on to the payload. -/
def turnAsked (host : ByteOrder) (message : Bytes) : Bytes :=
  Framing.header host true (u32 message.length) ++ message.take (u32 message.length)

/-- And what is sent. -/
def turnSent (host : ByteOrder) (message : Bytes) (p : Peer) : Bytes :=
  (p.header host (u32 message.length)).sent ++ (p.payload host message).sent

theorem length_turnAsked (host : ByteOrder) (message : Bytes) :
    (turnAsked host message).length = 4 + u32 message.length := by
  rw [turnAsked, List.length_append, Framing.length_header, List.length_take_of_le (u32_le _)]

theorem length_turnSent (host : ByteOrder) (hpos : 0 < u32 message.length) (h : ¬ p.Takes host message) :
    (turnSent host message p).length < 4 + u32 message.length := by
  have hheader := Framing.length_header host true (u32 message.length)
  have htake : (message.take (u32 message.length)).length = u32 message.length :=
    List.length_take_of_le (u32_le _)
  have hall := length_header host p (u32 message.length)
  rw [turnSent, List.length_append]
  rcases peer_cases p (Framing.header host true (u32 message.length)) with ⟨hnone, -⟩ | ⟨hsome, hless, -⟩
  · rcases peer_cases (p.after (p.header host (u32 message.length)).calls)
      (message.take (u32 message.length)) with ⟨hnone', -⟩ | ⟨-, hless, -⟩
    · exact absurd ⟨hnone, hnone'⟩ h
    · rw [Peer.payload]
      omega
  · rw [(refuses_of_header hpos hsome).2, Peer.header, List.length_nil]
    omega

theorem after_refuses (hfailed : (p.payload host message).failed ≠ none) :
    (p.after (p.header host (u32 message.length)).calls).after (p.payload host message).calls
      = .dead := by
  rcases peer_cases (p.after (p.header host (u32 message.length)).calls)
    (message.take (u32 message.length)) with ⟨hnone, -⟩ | ⟨-, -, hdead⟩
  · exact absurd hnone hfailed
  · exact hdead

end Peers

section Turns

variable {host : ByteOrder} {message : Bytes} {s : ConnectionSocket} {net : Int → Peer}

theorem headerTo_peers (net : Int → Peer) (fd : Int) (n : Nat) :
    ConnectionSocket.headerTo Network.peers host n net fd = Utils.wrote ((net fd).header host n) :=
  rfl

theorem behindHeader_peers (net : Int → Peer) (fd : Int) (n : Nat) :
    ConnectionSocket.behindHeader Network.peers host n net fd
      = Function.update net fd ((net fd).after ((net fd).header host n).calls) := by
  rw [ConnectionSocket.behindHeader, headerTo_peers, (ConnectionSocket.wrote_sent _).2]
  rfl

theorem payloadTo_peers (net : Int → Peer) (fd : Int) :
    ConnectionSocket.payloadTo Network.peers host message (u32 message.length) net fd
      = Utils.wrote ((net fd).payload host message) := by
  rw [ConnectionSocket.payloadTo, behindHeader_peers]
  show Utils.writeBuffer message (u32 message.length) (Peer.upcoming (Function.update net fd _ fd)) = _
  rw [Function.update_self]
  rfl

theorem behindPayload_peers (net : Int → Peer) (fd : Int) :
    ConnectionSocket.behindPayload Network.peers host message (u32 message.length) net fd
      = Function.update net fd (((net fd).after ((net fd).header host (u32 message.length)).calls).after
          ((net fd).payload host message).calls) := by
  rw [ConnectionSocket.behindPayload, payloadTo_peers, behindHeader_peers, (ConnectionSocket.wrote_sent _).2]
  show Function.update (Function.update net fd _) fd
    (Peer.after (Function.update net fd _ fd) _) = _
  rw [Function.update_self, Function.update_idem]

theorem frameWrite_peers (net : Int → Peer) (fd : Int) :
    ConnectionSocket.frameWrite Network.peers host message (u32 message.length) net fd
      = ⟨fd, turnAsked host message, turnSent host message (net fd)⟩ := by
  rw [ConnectionSocket.frameWrite, headerTo_peers, payloadTo_peers,
    (ConnectionSocket.wrote_sent _).1, (ConnectionSocket.wrote_sent _).1]
  rfl

theorem turn_takes (hpos : 0 < u32 message.length)
    (h : (net s.wrapped.currentFd).Takes host message) :
    ∃ net', ConnectionSocket.writeTurn Network.peers (sizeofLength .string) host message
        (u32 message.length) s net
      = ⟨some (u32 message.length : Nat), s.wrapped.advanced,
          ⟨s.wrapped.currentFd, turnAsked host message, turnAsked host message⟩, net'⟩ := by
  generalize hp : net s.wrapped.currentFd = p at h
  obtain ⟨hheader, hpayload⟩ := h
  have hsent₁ : (p.header host (u32 message.length)).sent
      = Framing.header host true (u32 message.length) :=
    (peer_cases p _).elim And.right fun hno => absurd hheader hno.1
  have hsent₂ : (p.payload host message).sent = message.take (u32 message.length) :=
    (peer_cases (p.after (p.header host (u32 message.length)).calls) _).elim And.right
      fun hno => absurd hpayload hno.1
  have hlen : (message.take (u32 message.length)).length = u32 message.length :=
    List.length_take_of_le (u32_le _)
  have hbody : (ConnectionSocket.payloadTo Network.peers host message (u32 message.length) net
      s.wrapped.currentFd).value = (u32 message.length : Nat) := by
    rw [payloadTo_peers, hp, (ConnectionSocket.wrote_value _).1 hpayload, hsent₂, hlen]
  refine ⟨ConnectionSocket.behindPayload Network.peers host message (u32 message.length) net
    s.wrapped.currentFd,
    (ConnectionSocket.writeTurn_wrote ConnectionSocket.headerTo_ne_string ?_ ?_).trans ?_⟩
  · omega
  · omega
  · rw [hbody, frameWrite_peers, hp, turnSent, hsent₁, hsent₂]
    rfl

theorem turn_refuses (h : (net s.wrapped.currentFd).Refuses host message) :
    ConnectionSocket.writeTurn Network.peers (sizeofLength .string) host message
        (u32 message.length) s net
      = ⟨none, s.wrapped.removeFd s.wrapped.currentFdIndex,
          ⟨s.wrapped.currentFd, turnAsked host message, turnSent host message (net s.wrapped.currentFd)⟩,
          Function.update net s.wrapped.currentFd .dead⟩ := by
  generalize hp : net s.wrapped.currentFd = p at h
  obtain ⟨hfailed, hnone⟩ := h
  have hbody : (ConnectionSocket.payloadTo Network.peers host message (u32 message.length) net
      s.wrapped.currentFd).value = -1 := by
    rw [payloadTo_peers, hp]
    exact (ConnectionSocket.wrote_refused_iff _).mpr ⟨hfailed, hnone⟩
  refine (ConnectionSocket.writeTurn_failed ConnectionSocket.headerTo_ne_string hbody).trans ?_
  rw [frameWrite_peers, behindPayload_peers, hp, after_refuses hfailed]

theorem turn_short (h₁ : ¬ (net s.wrapped.currentFd).Takes host message)
    (h₂ : ¬ (net s.wrapped.currentFd).Refuses host message) (hpos : 0 < u32 message.length) :
    ∃ value net', ConnectionSocket.writeTurn Network.peers (sizeofLength .string) host message
        (u32 message.length) s net
      = ⟨some value, s.wrapped.advanced,
          ⟨s.wrapped.currentFd, turnAsked host message, turnSent host message (net s.wrapped.currentFd)⟩,
          net'⟩ := by
  generalize hp : net s.wrapped.currentFd = p at h₁ h₂ ⊢
  have hheader : (p.header host (u32 message.length)).failed = none := by
    by_contra hfailed
    exact h₂ (refuses_of_header hpos hfailed)
  have hfailed : (p.payload host message).failed ≠ none := fun hnone => h₁ ⟨hheader, hnone⟩
  have hsome : 0 < (p.payload host message).sent.length :=
    List.length_pos_iff.mpr fun hnil => h₂ ⟨hfailed, hnil⟩
  have hbody : (ConnectionSocket.payloadTo Network.peers host message (u32 message.length) net
      s.wrapped.currentFd).value = (p.payload host message).sent.length := by
    rw [payloadTo_peers, hp, (ConnectionSocket.wrote_value _).2 hfailed, if_pos hsome]
  refine ⟨(p.payload host message).sent.length,
    ConnectionSocket.behindPayload Network.peers host message (u32 message.length) net
      s.wrapped.currentFd,
    (ConnectionSocket.writeTurn_wrote ConnectionSocket.headerTo_ne_string ?_ ?_).trans ?_⟩
  · omega
  · omega
  · rw [hbody, frameWrite_peers, hp]

end Turns

section Loop

variable {host : ByteOrder} {message : Bytes} {s : ConnectionSocket} {net : Int → Peer}

theorem writeLoop_empty_message (hfds : s.fds ≠ []) (hzero : u32 message.length = 0) (turns : Nat) :
    ConnectionSocket.writeLoop Network.peers (sizeofLength .string) host message
      (u32 message.length) turns s net = none := by
  induction turns generalizing s net with
  | zero => rfl
  | succ turns ih =>
      rw [ConnectionSocket.writeLoop_turn hfds
        (ConnectionSocket.writeTurn_nothing ConnectionSocket.headerTo_ne_string
          (ConnectionSocket.payloadTo_zero hzero _))]
      dsimp only
      rw [ih (s := s.wrapped.advanced) hfds]
      rfl

theorem wrapped_wrapped (hfds : s.fds ≠ []) : s.wrapped.wrapped = s.wrapped := by
  have hlt := ConnectionSocket.wrapped_lt hfds
  rw [ConnectionSocket.wrapped]
  exact congrArg (fun i => (⟨_, i, _⟩ : ConnectionSocket)) (if_neg (by omega))

theorem removeFd_of_not_mem (hmiss : (s.wrapped.currentFdIndex : Int) ∉ s.fds) :
    s.wrapped.removeFd s.wrapped.currentFdIndex = s.wrapped := by
  have hall : s.fds.filter (· ≠ (s.wrapped.currentFdIndex : Int)) = s.fds :=
    List.filter_eq_self.mpr fun fd hfd => decide_eq_true fun heq => hmiss (heq ▸ hfd)
  rw [ConnectionSocket.removeFd]
  exact congrArg (fun fds => (⟨fds, _, _⟩ : ConnectionSocket)) hall

theorem writeLoop_stuck (host : ByteOrder) (hpos : 0 < u32 message.length) (hfds : s.fds ≠ [])
    (hdead : net s.wrapped.currentFd = .dead) (hmiss : (s.wrapped.currentFdIndex : Int) ∉ s.fds)
    (turns : Nat) :
    ConnectionSocket.writeLoop Network.peers (sizeofLength .string) host message
      (u32 message.length) turns s net = none := by
  induction turns generalizing s net with
  | zero => rfl
  | succ turns ih =>
      have hrefuses : (net s.wrapped.currentFd).Refuses host message := by
        rw [hdead]
        exact dead_refuses hpos
      have hnext : Function.update net s.wrapped.currentFd Peer.dead s.wrapped.wrapped.currentFd
          = .dead := by
        rw [wrapped_wrapped hfds, Function.update_self]
      rw [ConnectionSocket.writeLoop_turn hfds (turn_refuses hrefuses), removeFd_of_not_mem hmiss]
      dsimp only
      rw [ih (s := s.wrapped) hfds hnext (by rw [wrapped_wrapped hfds]; exact hmiss)]
      rfl

theorem failed_cons {writes : List SocketWrite} {x : SocketWrite} {fd : Int} (hne : fd ≠ x.fd) :
    Failed (x :: writes) fd ↔ Failed writes fd := by
  constructor
  · rintro ⟨y, hmem, hfd, hless⟩
    rcases List.mem_cons.mp hmem with rfl | htail
    · exact absurd hfd.symm hne
    · exact ⟨y, htail, hfd, hless⟩
  · rintro ⟨y, hmem, hfd, hless⟩
    exact ⟨y, List.mem_cons_of_mem x hmem, hfd, hless⟩

theorem length_frame (host : ByteOrder) (message : Bytes) :
    (Framing.frame host true message).length = 4 + message.length := by
  rw [Framing.frame, List.length_append, Framing.length_header]

theorem turnSent_ne {p : Peer} (hpos : 0 < u32 message.length) (h : ¬ p.Takes host message) :
    turnSent host message p ≠ turnAsked host message ∧
      turnSent host message p ≠ Framing.frame host true message := by
  have hless := length_turnSent host hpos h
  have hcut := u32_le message.length
  constructor
  · intro heq
    rw [heq, length_turnAsked] at hless
    omega
  · intro heq
    rw [heq, length_frame] at hless
    omega

theorem mem_removeFd {fd : Int} {i : Nat} :
    fd ∈ (s.removeFd i).fds ↔ fd ∈ s.fds ∧ fd ≠ i := by
  rw [ConnectionSocket.removeFd, List.mem_filter]
  exact and_congr_right fun _ => decide_eq_true_iff

theorem delivered_takes {net' : Int → Peer} :
    Delivered host message s ⟨(u32 message.length : Nat), s.wrapped.advanced,
      [⟨s.wrapped.currentFd, turnAsked host message, turnAsked host message⟩], net'⟩ := by
  constructor
  · by_cases hlt : message.length < 2 ^ 32
    · refine iff_of_true ?_ ⟨_, List.mem_singleton.mpr rfl, ?_⟩
      · exact congrArg Nat.cast (u32_of_lt hlt)
      · show turnAsked host message = Framing.frame host true message
        rw [turnAsked, u32_of_lt hlt, List.take_length]
        rfl
    · have hcut := u32_lt message.length
      refine iff_of_false ?_ ?_
      · show ¬ ((u32 message.length : Nat) : Int) = message.length
        omega
      · rintro ⟨x, hmem, hsent⟩
        obtain rfl := List.mem_singleton.mp hmem
        have hlen := congrArg List.length hsent
        rw [length_frame, length_turnAsked] at hlen
        omega
  · intro fd hfd
    refine iff_of_false (fun hno => hno hfd) ?_
    rintro ⟨x, hmem, -, hne⟩
    obtain rfl := List.mem_singleton.mp hmem
    exact hne rfl

theorem Settles.congr (hs : Settles host message net s) {net' : Int → Peer}
    (hsame : ∀ fd ∈ s.fds, net' fd = net fd) : Settles host message net' s := by
  induction hs with
  | nobody hfds => exact .nobody hfds
  | takes hfds htakes =>
      rw [← hsame _ (ConnectionSocket.currentFd_mem hfds)] at htakes
      exact .takes hfds htakes
  | refuses hfds hrefuses hvalue hrest ih =>
      rw [← hsame _ (ConnectionSocket.currentFd_mem hfds)] at hrefuses
      exact .refuses hfds hrefuses hvalue (ih fun fd hfd => hsame fd (mem_removeFd.mp hfd).1)

theorem Settles.delivers (hs : Settles host message net s) (hpos : 0 < u32 message.length)
    {net' : Int → Peer} (hsame : ∀ fd ∈ s.fds, net' fd = net fd) :
    Delivers host message s net' := by
  have hlong : 0 < message.length := Nat.lt_of_lt_of_le hpos (u32_le _)
  induction hs generalizing net' with
  | nobody hfds =>
      refine ⟨1, _, ConnectionSocket.writeLoop_empty hfds, ?_, ?_⟩
      · refine iff_of_false ?_ ?_
        · show ¬ (0 : Int) = message.length
          omega
        · rintro ⟨x, hmem, -⟩
          cases hmem
      · intro fd hfd
        rw [hfds] at hfd
        cases hfd
  | @takes s hfds htakes =>
      rw [← hsame _ (ConnectionSocket.currentFd_mem hfds)] at htakes
      obtain ⟨net'', hturn⟩ := turn_takes hpos htakes
      exact ⟨1, _, ConnectionSocket.writeLoop_turn hfds hturn, delivered_takes⟩
  | @refuses s hfds hrefuses hvalue hrest ih =>
      rw [← hsame _ (ConnectionSocket.currentFd_mem hfds)] at hrefuses
      have hturn := turn_refuses hrefuses
      obtain ⟨hless, hother⟩ := turnSent_ne hpos fun (htakes : (net' s.wrapped.currentFd).Takes host message) =>
        hrefuses.1 htakes.2
      have hothers : ∀ fd ∈ (s.wrapped.removeFd s.wrapped.currentFdIndex).fds,
          Function.update net' s.wrapped.currentFd .dead fd = net fd := by
        intro fd hfd
        obtain ⟨hmem, hne⟩ := mem_removeFd.mp hfd
        rw [Function.update_of_ne (hvalue ▸ hne)]
        exact hsame fd hmem
      obtain ⟨turns, w, hw, hright⟩ := ih hothers
      have hleft := (ConnectionSocket.writeLoop_within hw).1
      refine ⟨turns + 1, _, (ConnectionSocket.writeLoop_turn hfds hturn).trans
        (congrArg (Option.map _) hw), ?_, ?_⟩
      · refine hright.value.trans ?_
        constructor
        · rintro ⟨x, hmem, hsent⟩
          exact ⟨x, List.mem_cons_of_mem _ hmem, hsent⟩
        · rintro ⟨x, hmem, hsent⟩
          rcases List.mem_cons.mp hmem with rfl | htail
          · exact absurd hsent hother
          · exact ⟨x, htail, hsent⟩
      · intro fd hfd
        by_cases hfirst : fd = s.wrapped.currentFd
        · subst hfirst
          refine iff_of_true (fun hmem => ?_) ⟨_, List.mem_cons_self, rfl, hless⟩
          exact (mem_removeFd.mp (hleft hmem)).2 hvalue
        · exact (hright.removed fd (mem_removeFd.mpr ⟨hfd, hvalue ▸ hfirst⟩)).trans
            (failed_cons hfirst).symm

/-- If the call goes on behind a socket that is dead, and in the end those are
removed that failed, the socket has the number of its place. -/
theorem place_of_removed (hpos : 0 < u32 message.length) {turns : Nat} (hfds : s.fds ≠ [])
    {w : WroteTo (Int → Peer)} {asked sent : Bytes}
    (hloop : ConnectionSocket.writeLoop Network.peers (sizeofLength .string) host message
      (u32 message.length) turns (s.wrapped.removeFd s.wrapped.currentFdIndex)
      (Function.update net s.wrapped.currentFd .dead) = some w)
    (hremoved : ∀ fd ∈ s.fds, fd ∉ w.socket.fds ↔
      Failed (⟨s.wrapped.currentFd, asked, sent⟩ :: w.writes) fd) :
    s.wrapped.currentFd = s.wrapped.currentFdIndex := by
  obtain ⟨hleft, hwrites⟩ := ConnectionSocket.writeLoop_within hloop
  by_contra hne
  by_cases hplace : (s.wrapped.currentFdIndex : Int) ∈ s.fds
  · -- another socket is removed, and nothing has been written to it
    have hgone : (s.wrapped.currentFdIndex : Int) ∉ w.socket.fds :=
      fun hmem => (mem_removeFd.mp (hleft hmem)).2 rfl
    obtain ⟨x, hmem, hfd, -⟩ := (failed_cons (Ne.symm hne)).mp ((hremoved _ hplace).mp hgone)
    exact (mem_removeFd.mp (hwrites x hmem)).2 hfd
  · rw [removeFd_of_not_mem hplace] at hloop
    have hnext : Function.update net s.wrapped.currentFd Peer.dead
        s.wrapped.wrapped.currentFd = .dead := by
      rw [wrapped_wrapped hfds, Function.update_self]
    have hmiss : (s.wrapped.wrapped.currentFdIndex : Int) ∉ s.wrapped.fds := by
      rw [wrapped_wrapped hfds]
      exact hplace
    have hnever := writeLoop_stuck host (s := s.wrapped) hpos hfds hnext hmiss turns
    rw [hnever] at hloop
    cases hloop

/-- A call that does what it is for has come to such a socket. -/
theorem settles_of_delivered (hpos : 0 < u32 message.length) {turns : Nat}
    {w : WroteTo (Int → Peer)}
    (hloop : ConnectionSocket.writeLoop Network.peers (sizeofLength .string) host message
      (u32 message.length) turns s net = some w)
    (hremoved : ∀ fd ∈ s.fds, fd ∉ w.socket.fds ↔ Failed w.writes fd) :
    Settles host message net s := by
  induction turns generalizing s net w with
  | zero => cases hloop
  | succ turns ih =>
      by_cases hfds : s.fds = []
      · exact .nobody hfds
      · have hcurrent := ConnectionSocket.currentFd_mem hfds
        by_cases htakes : (net s.wrapped.currentFd).Takes host message
        · exact .takes hfds htakes
        · obtain ⟨hless, -⟩ := turnSent_ne hpos htakes
          by_cases hrefuses : (net s.wrapped.currentFd).Refuses host message
          · rw [ConnectionSocket.writeLoop_turn hfds (turn_refuses hrefuses)] at hloop
            obtain ⟨w', hw', rfl⟩ := Option.map_eq_some_iff.mp hloop
            have hvalue : s.wrapped.currentFd = s.wrapped.currentFdIndex :=
              place_of_removed hpos hfds hw' hremoved
            have hrest := ih hw' fun fd hfd => by
              obtain ⟨hmem, hne⟩ := mem_removeFd.mp hfd
              exact (hremoved fd hmem).trans (failed_cons (hvalue ▸ hne))
            refine .refuses hfds hrefuses hvalue (hrest.congr fun fd hfd => ?_)
            have hne : fd ≠ s.wrapped.currentFd := hvalue ▸ (mem_removeFd.mp hfd).2
            exact (Function.update_of_ne hne _ _).symm
          · -- the payload is cut off, and the socket stays
            obtain ⟨value, net', hturn⟩ := turn_short htakes hrefuses hpos
            rw [ConnectionSocket.writeLoop_turn hfds hturn] at hloop
            obtain rfl := Option.some.inj hloop
            have hgone := (hremoved _ hcurrent).mpr ⟨_, List.mem_singleton.mpr rfl, rfl, hless⟩
            exact absurd hcurrent hgone

end Loop

/-- Any sockets, any place in turn, any message and any peers: the call comes
back, returns the length of the message exactly if one socket has got all of
it, and has removed those sockets to which a write failed, if and only if the
message has bytes and the sockets that are tried before one takes it refuse it
and have the number of their place for their descriptor. -/
theorem write_msg_delivers_iff (host : ByteOrder) (message : Bytes) {s : ConnectionSocket}
    (net : Int → Peer) (hfds : s.fds ≠ []) :
    Delivers host message s net ↔ 0 < u32 message.length ∧ Settles host message net s := by
  constructor
  · rintro ⟨turns, w, hloop, hdelivered⟩
    have hpos : 0 < u32 message.length := by
      rcases Nat.eq_zero_or_pos (u32 message.length) with hzero | hpos
      · rw [writeLoop_empty_message hfds hzero turns] at hloop
        cases hloop
      · exact hpos
    exact ⟨hpos, settles_of_delivered hpos hloop hdelivered.removed⟩
  · rintro ⟨hpos, hsettles⟩
    exact hsettles.delivers hpos fun fd _ => rfl

/-- One consumer that takes everything, and one in front of it that is gone and
has the number of its place. -/
def zeroIsGone : Int → Peer := fun fd => if fd = 0 then .dead else ⟨[], false⟩

theorem write_msg_delivers_iff_zeroIsGone :
    Delivers .little (ascii "hello") ⟨[0, 7], 0, 0⟩ zeroIsGone ↔
      0 < u32 (ascii "hello").length ∧
        Settles .little (ascii "hello") zeroIsGone ⟨[0, 7], 0, 0⟩ :=
  write_msg_delivers_iff .little (ascii "hello") zeroIsGone (List.cons_ne_nil 0 [7])

/-- A consumer with descriptor 5 that is gone: it is tried for ever. -/
theorem write_msg_not_delivers :
    ¬ ∀ (host : ByteOrder) (message : Bytes) (s : ConnectionSocket) (net : Int → Peer),
        s.fds ≠ [] → Delivers host message s net := by
  intro h
  obtain ⟨turns, w, hloop, -⟩ :=
    h .little (ascii "hello") ⟨[5], 0, 0⟩ (fun _ => .dead) (List.cons_ne_nil 5 [])
  have hpos : 0 < u32 (ascii "hello").length := by decide
  have hmiss : ((⟨[5], 0, 0⟩ : ConnectionSocket).wrapped.currentFdIndex : Int) ∉ [5] := by decide
  have hnever : ConnectionSocket.writeLoop Network.peers (sizeofLength .string) .little
      (ascii "hello") (u32 (ascii "hello").length) turns ⟨[5], 0, 0⟩ (fun _ => .dead) = none :=
    writeLoop_stuck .little hpos (List.cons_ne_nil 5 []) rfl hmiss turns
  rw [hnever] at hloop
  cases hloop

end OneConsumer

end LightQ
