/-
# `Admin.AdminLoop` — the loop that serves the admin socket (`broker_manager::run`)

The socket is a ZeroMQ REP socket: it takes a receive only when the request
before has been answered, and a second receive fails.  The loop leaves on a
failed receive, and on a request longer than `max_read_buffer_`; it goes on
without an answer when a request is empty.

`process_command` is a parameter, a function of a state of its own, so that
the loop can be judged by itself: `run_survives_iff` says which requests the
loop survives when every message it passes on is answered once.
`commandOf` is the manager's `process_command` in this place, and
`commandOf_answers` what `Admin.Replies` knows about it.

A turn that goes well leaves nothing unanswered (`run_cons`), and from any such
point the run is what it is from the start (`run_answers`, by induction on the
requests).  An empty request, or one that is too long, ends the loop
(`run_leaves`): the first because it is not answered, so that the next receive
fails (`run_pending`), the second at once.  Conversely a loop that is still running
has been given nothing it leaves on (`run_waiting`).

`stop_` is set by the constructor, and never again.
-/
import LightQ.Admin.Replies

namespace LightQ

/-- What is seen at the admin socket. -/
inductive AdminEvent where
  | received (message : Bytes)
  | replied (text : Bytes)
deriving DecidableEq, Repr

/-- The REP socket: whether a request waits for its answer, and what has
passed through. -/
structure RepSocket where
  pending : Bool
  trace : List AdminEvent
deriving DecidableEq, Repr

namespace RepSocket

/-- `read_msg`, when `message` is the next request; `none` is a failure. -/
def readMsg (s : RepSocket) (message : Bytes) : Option RepSocket :=
  if s.pending then none else some ⟨true, s.trace ++ [.received message]⟩

/-- `write_msg`. -/
def writeMsg (s : RepSocket) (text : Bytes) : Int × RepSocket :=
  if s.pending then (text.length, ⟨false, s.trace ++ [.replied text]⟩) else (-1, s)

def writeAll (s : RepSocket) (texts : List Bytes) : RepSocket :=
  texts.foldl (fun s text => (s.writeMsg text).2) s

end RepSocket

namespace AdminLoop

/-- What a call of `process_command` does: the state after it, the texts
handed to `reply_cmd`, and the exception, if one escapes. -/
structure Answer (M : Type) where
  state : M
  replies : List Bytes
  threw : Option Thrown

/-- Where the loop is when the requests are used up: in `read_msg`, or
somewhere behind. -/
inductive Exit where
  | waiting
  | returned (value : Bool)
  | threw (e : Thrown)
deriving DecidableEq, Repr

/-- The end of a run. -/
structure Served where
  exit : Exit
  socket : RepSocket
deriving DecidableEq, Repr

/-- `max_read_buffer_`. -/
def maxReadBuffer : Nat := 4 * 1024

/-- `CMD_SERVER_ERROR_EXCEED_MSG_LENGTH`. -/
def cmdServerErrorExceedMsgLength : Bytes :=
  ascii "server_error: message lenth exceeded max buffer size"

/-- What `reply_invalid_cmd` sends for it. -/
def exceededReply : Bytes :=
  (Reply.common ⟨cmdServerErrorExceedMsgLength, BrokerManager.statusError,
    BrokerManager.cmdInvalid⟩).text

variable {M : Type} (process : M → Bytes → Answer M)

/-- `run`, on the requests that are still to come.  The value of
`reply_invalid_cmd` is returned as a `bool`. -/
def run : M → RepSocket → List Bytes → Served
  | _, socket, [] => if socket.pending then ⟨.returned false, socket⟩ else ⟨.waiting, socket⟩
  | m, socket, message :: requests =>
      match socket.readMsg message with
      | none => ⟨.returned false, socket⟩
      | some socket =>
          if message.length = 0 then run m socket requests
          else if maxReadBuffer < message.length then
            let (written, socket) := socket.writeMsg exceededReply
            ⟨.returned (written ≠ 0), socket⟩
          else
            let answer := process m message
            let socket := socket.writeAll answer.replies
            match answer.threw with
            | some e => ⟨.threw e, socket⟩
            | none => run answer.state socket requests

/-- Every request was answered, by one reply and before the next was read,
and the loop is in `read_msg` again. -/
def Survives (requests : List Bytes) (served : Served) : Prop :=
  served.exit = .waiting ∧
    ∃ replies : List Bytes, replies.length = requests.length ∧
      served.socket.trace =
        (requests.zip replies).flatMap fun (message, reply) => [.received message, .replied reply]

/-- The lengths that the loop passes on. -/
def Accepted (message : Bytes) : Prop :=
  0 < message.length ∧ message.length ≤ maxReadBuffer

/-- The message is answered once, in every state. -/
def AnsweredOnce (message : Bytes) : Prop :=
  ∀ m, (process m message).threw = none ∧ ∃ text, (process m message).replies = [text]

variable {process}

theorem run_cons {m : M} {t : List AdminEvent} {message text : Bytes} {requests : List Bytes}
    (hlen : Accepted message)
    (hthrew : (process m message).threw = none) (hone : (process m message).replies = [text]) :
    run process m ⟨false, t⟩ (message :: requests)
      = run process (process m message).state
          ⟨false, t ++ [.received message, .replied text]⟩ requests := by
  obtain ⟨hpos, hmax⟩ := hlen
  have hread : RepSocket.readMsg ⟨false, t⟩ message = some ⟨true, t ++ [.received message]⟩ := rfl
  have hwrite : RepSocket.writeAll ⟨true, t ++ [.received message]⟩ [text]
      = ⟨false, t ++ [.received message, .replied text]⟩ :=
    congrArg (RepSocket.mk false) (List.append_assoc _ _ _)
  simp only [run, hread, if_neg (Nat.ne_of_gt hpos), if_neg (Nat.not_lt.mpr hmax), hthrew, hone,
    hwrite]

theorem run_pending (m : M) (t : List AdminEvent) (requests : List Bytes) :
    run process m ⟨true, t⟩ requests = ⟨.returned false, ⟨true, t⟩⟩ := by
  cases requests with
  | nil => rfl
  | cons message requests => rfl

/-- An empty request, or one that is too long, ends the loop. -/
theorem run_leaves {m : M} {t : List AdminEvent} {message : Bytes} {requests : List Bytes}
    (h : ¬ Accepted message) :
    (run process m ⟨false, t⟩ (message :: requests)).exit ≠ .waiting := by
  have hread : RepSocket.readMsg ⟨false, t⟩ message = some ⟨true, t ++ [.received message]⟩ := rfl
  by_cases hempty : message.length = 0
  · simp only [run, hread, if_pos hempty, run_pending]
    exact Exit.noConfusion
  · have hlong : maxReadBuffer < message.length :=
      Nat.not_le.mp fun hle => h ⟨Nat.pos_of_ne_zero hempty, hle⟩
    simp only [run, hread, if_neg hempty, if_pos hlong]
    exact Exit.noConfusion

/-- The run of the loop, from any point at which nothing is unanswered; the
induction is on the requests. -/
theorem run_answers {requests : List Bytes} (hlen : ∀ message ∈ requests, Accepted message)
    (hone : ∀ message ∈ requests, Accepted message → AnsweredOnce process message)
    (m : M) (t : List AdminEvent) :
    (run process m ⟨false, t⟩ requests).exit = .waiting ∧
      ∃ replies : List Bytes, replies.length = requests.length ∧
        (run process m ⟨false, t⟩ requests).socket.trace = t ++
          (requests.zip replies).flatMap fun (message, reply) =>
            [.received message, .replied reply] := by
  induction requests generalizing m t with
  | nil => exact ⟨rfl, [], rfl, (List.append_nil t).symm⟩
  | cons message requests ih =>
      have hhead := hlen message List.mem_cons_self
      obtain ⟨hthrew, text, htext⟩ := hone message List.mem_cons_self hhead m
      rw [run_cons hhead hthrew htext]
      obtain ⟨hexit, replies, hreplies, htrace⟩ := ih
        (fun message hm => hlen message (List.mem_cons_of_mem _ hm))
        (fun message hm => hone message (List.mem_cons_of_mem _ hm))
        (process m message).state (t ++ [.received message, .replied text])
      refine ⟨hexit, text :: replies, congrArg (· + 1) hreplies, ?_⟩
      rw [htrace, List.append_assoc]
      rfl

theorem run_waiting {requests : List Bytes}
    (hone : ∀ message ∈ requests, Accepted message → AnsweredOnce process message)
    {m : M} {t : List AdminEvent}
    (h : (run process m ⟨false, t⟩ requests).exit = .waiting) :
    ∀ message ∈ requests, Accepted message := by
  induction requests generalizing m t with
  | nil =>
      intro message hm
      cases hm
  | cons message requests ih =>
      have hhead : Accepted message := by
        by_contra hbad
        exact run_leaves hbad h
      obtain ⟨hthrew, text, htext⟩ := hone message List.mem_cons_self hhead m
      rw [run_cons hhead hthrew htext] at h
      intro other hm
      cases hm with
      | head => exact hhead
      | tail _ hm => exact ih (fun message hm => hone message (List.mem_cons_of_mem _ hm)) h other hm

/-! ## The manager's own `process_command` -/

/-- `process_command` in the loop: what the sockets do for the `i`-th message
is `env i`. -/
def commandOf (env : Nat → AdminEnv) (state : BrokerManager × Nat) (message : Bytes) :
    Answer (BrokerManager × Nat) :=
  let processed := state.1.processCommand (env state.2) message
  { state := (processed.manager, state.2 + 1)
    replies := processed.replies.map Reply.text
    threw :=
      match processed.ended with
      | .ok _ => none
      | .error e => some e }

theorem commandOf_answers (env : Nat → AdminEnv) {message : Bytes}
    (h : BrokerManager.Answerable message) : AnsweredOnce (commandOf env) message := by
  rintro ⟨m, i⟩
  obtain ⟨⟨value, hended⟩, hreplies⟩ := m.processCommand_repliesOnce (env i) h
  obtain ⟨reply, hreply⟩ := List.length_eq_one_iff.mp hreplies
  refine ⟨?_, reply.text, ?_⟩
  · simp only [commandOf, hended]
  · simp only [commandOf, hreply]
    rfl

/-! ## Which requests the loop survives -/

/-- With a `process_command` that answers every message it is given, the
loop answers every request and stays in its place exactly when no request is
empty or longer than the buffer. -/
theorem run_survives_iff {M : Type} {process : M → Bytes → Answer M} {requests : List Bytes}
    (hone : ∀ message ∈ requests, Accepted message → AnsweredOnce process message) (m : M) :
    Survives requests (run process m ⟨false, []⟩ requests) ↔
      ∀ message ∈ requests, Accepted message := by
  constructor
  · rintro ⟨hexit, -⟩
    exact run_waiting hone hexit
  · intro hlen
    exact run_answers hlen hone m []

/-- A ping, and a text that does not parse. -/
theorem run_survives_iff_ping :
    Survives [ascii "\x7b\"cmd\": \"ping\"\x7d", ascii "stats"]
      (run (commandOf fun _ => ⟨true, true, true, 0, 0, 0, fun reply => reply.length⟩)
        (⟨ascii "lightq_admin", ascii "T0p$3cr31", [], none⟩, 0) ⟨false, []⟩
        [ascii "\x7b\"cmd\": \"ping\"\x7d", ascii "stats"]) := by
  refine (run_survives_iff ?_ _).mpr ?_
  · intro message hm _
    rcases List.mem_cons.mp hm with rfl | hm
    · exact commandOf_answers _
        (Or.inr ⟨[(ascii "cmd", .string (ascii "ping"))], ascii "ping", rfl, rfl⟩)
    · cases List.mem_singleton.mp hm
      exact commandOf_answers _ (Or.inl rfl)
  · unfold Accepted
    decide

/-- An empty request gets no answer, and the next receive fails. -/
theorem run_not_survives :
    ¬ ∀ (process : Unit → Bytes → Answer Unit) (requests : List Bytes),
      (∀ message, AnsweredOnce process message) →
        Survives requests (run process () ⟨false, []⟩ requests) := by
  intro h
  obtain ⟨hexit, -⟩ := h (fun _ _ => ⟨(), [ascii "pong"], none⟩) [[]]
    (fun _ _ => ⟨rfl, ascii "pong", rfl⟩)
  cases hexit

end AdminLoop

end LightQ
