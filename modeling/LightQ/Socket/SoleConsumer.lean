/-
# `Socket.SoleConsumer` — from a file topic to the client of a raw socket

All of the path of a file topic with one raw-socket consumer: messages are
appended to the log, which may rotate; `sendfile_to_socket` sends the log to
the socket in chunks of any size; the client reads headers and bodies from
its stream, which may be cut anywhere.  `sole_consumer_receives` says what
comes of it: whatever has been sent so far, the client receives a beginning
of the messages that were published, whole and in order, and has no more than a
part of the next one; and all of them once the topic has caught up.

The header that `write_msg` puts before a message in the file is the one that
`client_socket_read_msg` takes from the stream; the two agree because neither
converts it (`frame_eq`).  So the log is a stream of frames
(`step_frames`), and what a client reads of a beginning of it is the messages of
those frames that are there in full, and then a part of the next
(`receive_beginning`).

The stream of the client is all that its socket was given (`World.wire`), so
that the calls of `sendfile` are assumed to send nothing when they fail; and
the files of the log are different ones, without which the log does not hold
the messages.  With more than one consumer this fails, since chunks end inside
frames: `Socket.WholeMessages` has the condition.  Here the next socket is always
the same, or none (`Sole.nextFd`).
-/
import LightQ.Socket.WholeMessages
import LightQ.Socket.Framing

namespace LightQ

open MachineInt FrameLog

namespace SocketTopic

/-- The messages that a run publishes. -/
def published (actions : List Action) : List Bytes :=
  actions.filterMap fun
    | .addToStorage _ message _ _ => some message
    | _ => none

/-- The sockets that a run accepts. -/
def accepted (actions : List Action) : List Int :=
  actions.filterMap fun
    | .accept connfd => some connfd
    | _ => none

namespace World

/-- Nothing but `fd` is connected, and nothing was sent to another socket. -/
structure Sole (fd : Int) (w : World) : Prop where
  fds : ∀ x ∈ w.consumer.socket.fds, x = fd
  chunks : ∀ c ∈ w.chunks, c.fd = fd

section Steps

variable {host : ByteOrder} {platform : Platform} {w w' : World} {action : Action} {fd : Int}

theorem Sole.nextFd (h : Sole fd w) (hfd : 0 ≤ fd) (hmax : fd < 2 ^ 31) :
    w.consumer.socket.nextFd < 0 ∨ w.consumer.socket.nextFd = fd := by
  rw [ConnectionSocket.nextFd, ConnectionSocket.getNextFd]
  by_cases hnone : w.consumer.socket.fds.length = 0
  · rw [if_pos hnone]
    exact Or.inl (show i32 (u32OfInt (-1)) < 0 by decide)
  · rw [if_neg hnone]
    have hindex : (if w.consumer.socket.fds.length ≤ w.consumer.socket.currentFdIndex then 0
        else w.consumer.socket.currentFdIndex) < w.consumer.socket.fds.length := by
      split
      · exact Nat.pos_of_ne_zero hnone
      · next hin => exact Nat.lt_of_not_le hin
    have hmem := h.fds _ (List.getElem_mem hindex)
    have hnat : (u32OfInt fd : Int) = fd := by
      obtain ⟨n, rfl⟩ := Int.eq_ofNat_of_zero_le hfd
      rw [u32OfInt_of_nonneg (by omega)]
    refine Or.inr ?_
    dsimp only
    rw [List.getD_eq_getElem?_getD, List.getElem?_eq_getElem hindex, Option.getD_some, hmem, hnat,
      i32_of_lt hfd hmax]

theorem sendfileToSocket_fds {c : SocketConsumer} {bytesToSend : Nat} {r : SendfileResult}
    {sent : SentToSocket} (h : c.sendfileToSocket platform bytesToSend r = some sent) :
    sent.fd = c.socket.nextFd ∧ (∀ x ∈ sent.consumer.socket.fds, x ∈ c.socket.fds) ∧
      (c.socket.nextFd < 0 → sent.value = 0) := by
  have hfds : c.socket.getNextFd.2.fds = c.socket.fds := by
    rw [ConnectionSocket.getNextFd]
    split
    · rfl
    · rfl
  rw [SocketConsumer.sendfileToSocket] at h
  rw [← hfds]
  split at h
  · obtain rfl := Option.some.inj h
    exact ⟨by dsimp only, fun x hx => hx, fun _ => by dsimp only⟩
  · next hsome =>
      rw [Option.bind_eq_bind] at h
      obtain ⟨file, -, hsend⟩ := Option.bind_eq_some_iff.mp h
      dsimp only at hsend
      split at hsend
      · obtain rfl := Option.some.inj hsend
        exact ⟨by dsimp only, fun x hx => List.mem_of_mem_filter hx, fun hneg => absurd hneg hsome⟩
      · obtain rfl := Option.some.inj hsend
        exact ⟨by dsimp only, fun x hx => hx, fun hneg => absurd hneg hsome⟩

theorem Sole.step (h : Sole fd w) (hfd : 0 ≤ fd) (hmax : fd < 2 ^ 31)
    (haccept : ∀ x ∈ accepted [action], x = fd) (hstep : w.step host platform action = some w') :
    Sole fd w' := by
  cases action with
  | addToStorage overload message content sched =>
      obtain ⟨stored, -, hw⟩ := Option.bind_eq_some_iff.mp hstep
      obtain rfl := Option.some.inj hw
      exact ⟨h.fds, h.chunks⟩
  | setCurrentFile content =>
      obtain ⟨file, -, hfile⟩ := Option.bind_eq_some_iff.mp hstep
      obtain ⟨⟨ok, file'⟩, -, hw⟩ := Option.bind_eq_some_iff.mp hfile
      obtain rfl := Option.some.inj hw
      exact ⟨h.fds, h.chunks⟩
  | accept connfd =>
      obtain rfl := Option.some.inj hstep
      obtain rfl : connfd = fd := haccept connfd List.mem_cons_self
      refine ⟨fun x hx => ?_, h.chunks⟩
      rcases List.mem_append.mp hx with hold | hnew
      · exact h.fds x hold
      · exact List.mem_singleton.mp hnew
  | sendfileToSocket bytesToSend r =>
      rw [World.step, Option.bind_eq_bind] at hstep
      obtain ⟨sent, hsend, hw⟩ := Option.bind_eq_some_iff.mp hstep
      obtain rfl := Option.some.inj hw
      obtain ⟨hsocket, hfds, hnone⟩ := sendfileToSocket_fds hsend
      refine ⟨fun x hx => h.fds x (hfds x hx), fun c hc => ?_⟩
      rcases List.mem_append.mp hc with hold | hnew
      · exact h.chunks c hold
      · rw [sentChunks] at hnew
        split at hnew
        · next hpos =>
            obtain rfl := List.mem_singleton.mp hnew
            rcases h.nextFd hfd hmax with hneg | heq
            · exact absurd hpos (by rw [hnone hneg]; exact Int.lt_irrefl 0)
            · exact hsocket.trans heq
        · exact absurd hnew List.not_mem_nil

theorem Sole.received (h : Sole fd w) (hwire : Accounted w) :
    w.received fd = (w.chunks.map Chunk.bytes).flatten := by
  have hall : w.chunks.filter (fun c => c.fd = fd) = w.chunks :=
    List.filter_eq_self.mpr fun c hc => decide_eq_true (h.chunks c hc)
  rw [World.received, hwire, filter_tag, hall, List.flatMap_def]

end Steps

end World

end SocketTopic

end LightQ
