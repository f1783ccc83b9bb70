/-
# `Admin.CreateTopic` — `create_topic` of the client library

A topic is created by a request over the admin socket: the client encodes it
(`lightq_api.cpp`), the loop of the broker manager takes it, `process_command`
decides and replies.  The client waits for the reply, and does not look at it.

`create_topic_true_iff` says when its boolean is nevertheless the truth, for every
state of the broker and all arguments.  The request is what `from_json` finds again,
by `Admin.Messages`, so that the decision is about the arguments of the call
(`processCommand_createTopic`).

`serve` is one exchange over the socket, and `run_serve` says that it is what the
loop of `Admin.AdminLoop` does with that request.  Where nothing is sent the client
says so (`createTopic_unsent`).  Every refusal, for a name that is taken or for the
credentials, leaves the manager as it was (`serve_refuses`); the client has waited
for it, and says that the topic was created.
-/
import LightQ.Admin.Access
import LightQ.Admin.AdminLoop
import LightQ.Admin.Messages

namespace LightQ

/-! ## The client -/

/-- `broker_storage_type`. -/
inductive BrokerStorageType where
  | queueType
  | fileType
  | directType
  | queueFileType
deriving DecidableEq, Repr

/-- The arguments of `create_topic`, the URI apart: C strings, and the type. -/
structure CreateArgs where
  topic : Bytes
  adminUserid : Bytes
  adminPassword : Bytes
  userid : Bytes
  password : Bytes
  storageType : BrokerStorageType
deriving DecidableEq, Repr

/-- The request that `create_topic` sends: every type but `file_type` is asked
for as a queue. -/
def CreateArgs.req (a : CreateArgs) : CreateTopicReq :=
  { topic := a.topic
    brokerType := if a.storageType = .fileType then ascii "file" else ascii "queue"
    adminUserId := a.adminUserid
    adminPassword := a.adminPassword
    userId := a.userid
    password := a.password }

/-- The `admin_socket` of the client: the value of `init`, and whether
`s_send` succeeds. -/
structure ClientSocket where
  init : Bool
  send : Bool
deriving DecidableEq, Repr

namespace ClientSocket

/-- `run`, a dummy. -/
def run (_ : ClientSocket) : Bool := true

/-- `write_msg`. -/
def writeMsg (s : ClientSocket) (message : Bytes) : Int :=
  if s.send then message.length else -1

end ClientSocket

namespace BrokerManager

/-- What a turn of the loop in `run` makes of a request: the manager after it,
and the replies. -/
def serve (m : BrokerManager) (env : AdminEnv) (message : Bytes) : BrokerManager × List Reply :=
  if message.length = 0 then (m, [])
  else if AdminLoop.maxReadBuffer < message.length then
    (m, [.common ⟨AdminLoop.cmdServerErrorExceedMsgLength, statusError, cmdInvalid⟩])
  else
    let processed := m.processCommand env message
    (processed.manager, processed.replies)

end BrokerManager

/-- How `create_topic` ends: its value, the broker manager, and the replies to
the request. -/
structure CreateOutcome where
  result : Bool
  manager : BrokerManager
  replies : List Reply

/-- `create_topic`, with the broker at the other end of the socket.  The reply
is read, and not looked at. -/
def createTopic (socket : ClientSocket) (m : BrokerManager) (env : AdminEnv) (a : CreateArgs) :
    CreateOutcome :=
  if !socket.init && socket.run then ⟨false, m, []⟩
  else if socket.writeMsg (a.req.toJson false) ≤ 0 then ⟨false, m, []⟩
  else
    let (manager, replies) := m.serve env (a.req.toJson false)
    ⟨true, manager, replies⟩

/-- The topic was created by this call. -/
structure CreateOutcome.Created (o : CreateOutcome) (m : BrokerManager) (topic : Bytes) : Prop where
  absent : OrderedMap.find topic m.brokers = none
  present : (OrderedMap.find topic o.manager.brokers).isSome = true

/-- The broker replied that it was. -/
def CreateOutcome.Told (o : CreateOutcome) : Prop :=
  o.replies.map Reply.status = [some BrokerManager.statusSuccess]

/-! ## What the broker makes of the request -/

namespace BrokerManager

variable (m : BrokerManager) (env : AdminEnv)

/-- `serve` is what the loop does. -/
theorem run_serve {env : Nat → AdminEnv} {i : Nat} {message : Bytes} {reply : Reply}
    (h : (m.serve (env i) message).2 = [reply]) (t : List AdminEvent) :
    (AdminLoop.run (AdminLoop.commandOf env) (m, i) ⟨false, t⟩ [message]).socket.trace =
      t ++ [.received message, .replied reply.text] := by
  have hread : RepSocket.readMsg ⟨false, t⟩ message = some ⟨true, t ++ [.received message]⟩ := rfl
  have hwrite : ∀ text : Bytes, (RepSocket.writeMsg ⟨true, t ++ [.received message]⟩ text).2 =
      ⟨false, t ++ [.received message, .replied text]⟩ := fun text =>
    congrArg (RepSocket.mk false) (List.append_assoc t [.received message] [.replied text])
  unfold serve at h
  split at h
  · cases h
  · next hempty =>
      split at h
      · next hlong =>
          obtain rfl := List.singleton_inj.mp h
          simp only [AdminLoop.run, hread, if_neg hempty, if_pos hlong, hwrite]
          rfl
      · next hlong =>
          have hreplies : (AdminLoop.commandOf env (m, i) message).replies = [reply.text] :=
            congrArg (List.map Reply.text) h
          have hsocket : RepSocket.writeAll ⟨true, t ++ [.received message]⟩ [reply.text] =
              ⟨false, t ++ [.received message, .replied reply.text]⟩ := hwrite reply.text
          simp only [AdminLoop.run, hread, if_neg hempty, if_neg hlong, hreplies, hsocket]
          cases (AdminLoop.commandOf env (m, i) message).threw with
          | none => rfl
          | some e => rfl

theorem processCommand_createTopic (req : CreateTopicReq) :
    m.processCommand env (req.toJson false) = m.replyCreateTopic env req := by
  have hcmd := createTopicReq_getCmd req false
  have hreq := createTopicReq_round_trip req
  simp only [processCommand, hcmd, hreq, handle]
  rw [if_neg (by decide), if_neg (by decide), if_neg (by decide), if_pos trivial]

/-- The three-way decision of the broker, and the length of the request. -/
def Creates (req : CreateTopicReq) : Prop :=
  OrderedMap.find req.topic m.brokers = none ∧ m.userId = req.adminUserId ∧
    m.password = req.adminPassword ∧ (req.toJson false).length ≤ AdminLoop.maxReadBuffer

theorem toJson_length_pos (req : CreateTopicReq) : (req.toJson false).length ≠ 0 := by
  simp [CreateTopicReq.toJson, serialize]

theorem serve_creates {req : CreateTopicReq} (h : m.Creates req) :
    ∃ pb, m.serve env (req.toJson false) =
      ({ m with brokers := OrderedMap.assign req.topic pb m.brokers },
        [.common ⟨CreateTopicReq.cmd, statusSuccess, statusTopicCreated⟩]) := by
  obtain ⟨hnone, huser, hpassword, hlength⟩ := h
  have hauth : unauthorized m.userId m.password req.adminUserId req.adminPassword = false := by
    simp [unauthorized, huser, hpassword]
  refine ⟨(Broker.init (topicConfig req)).2, ?_⟩
  rw [serve, if_neg (toJson_length_pos req), if_neg (Nat.not_lt.mpr hlength)]
  simp only [processCommand_createTopic, replyCreateTopic, hnone, hauth, Bool.false_eq_true,
    if_false, Broker.init, replyCommon, replyCmd]
  rw [show (topicConfig req).id = req.topic from rfl, OrderedMap.insert_of_none hnone]

/-- Every refusal leaves the manager as it was. -/
theorem serve_refuses {req : CreateTopicReq} (h : ¬ m.Creates req) :
    ∃ cmd description, m.serve env (req.toJson false) =
      (m, [.common ⟨cmd, statusError, description⟩]) := by
  rw [serve, if_neg (toJson_length_pos req)]
  split
  · exact ⟨_, _, rfl⟩
  · next hlength =>
      rw [processCommand_createTopic, replyCreateTopic]
      split
      · exact ⟨_, _, rfl⟩
      · next hnone =>
          split
          · exact ⟨_, _, rfl⟩
          · next hauth =>
              obtain ⟨huser, hpassword⟩ := not_unauthorized hauth
              exact absurd ⟨hnone, huser, hpassword, Nat.not_lt.mp hlength⟩ h

end BrokerManager

/-! ## What the client is told -/

open BrokerManager

section Client

variable {socket : ClientSocket} {m : BrokerManager} {env : AdminEnv} {a : CreateArgs}

theorem createTopic_unsent (h : socket.init = false ∨ socket.send = false) :
    createTopic socket m env a = ⟨false, m, []⟩ := by
  unfold createTopic
  split
  · rfl
  · next hinit =>
      have hsend : socket.send = false := by
        refine h.resolve_left fun hno => hinit ?_
        rw [hno]
        rfl
      have hsize : socket.writeMsg (a.req.toJson false) ≤ 0 := by
        rw [ClientSocket.writeMsg, hsend, if_neg Bool.false_ne_true]
        decide
      rw [if_pos hsize]

theorem createTopic_sent (hinit : socket.init = true) (hsend : socket.send = true) :
    createTopic socket m env a =
      ⟨true, (m.serve env (a.req.toJson false)).1, (m.serve env (a.req.toJson false)).2⟩ := by
  have hpos := Nat.pos_of_ne_zero (toJson_length_pos a.req)
  have hsize : ¬ socket.writeMsg (a.req.toJson false) ≤ 0 := by
    rw [ClientSocket.writeMsg, hsend, if_pos rfl]
    omega
  simp only [createTopic, hinit, Bool.not_true, Bool.false_and, Bool.false_eq_true, if_false,
    if_neg hsize]

theorem not_created {result : Bool} {replies : List Reply} {topic : Bytes} :
    ¬ CreateOutcome.Created ⟨result, m, replies⟩ m topic := by
  rintro ⟨habsent, hpresent⟩
  rw [habsent] at hpresent
  cases hpresent

end Client

/-- The result of `create_topic`, for every state of the broker and all
arguments: it is true exactly if the topic was created, provided that nothing
was sent or that the topic is created. -/
theorem create_topic_true_iff (socket : ClientSocket) (m : BrokerManager) (env : AdminEnv)
    (a : CreateArgs) :
    ((createTopic socket m env a).Told ↔ (createTopic socket m env a).Created m a.topic) ∧
      (((createTopic socket m env a).result = true ↔
          (createTopic socket m env a).Created m a.topic) ↔
        socket.init = false ∨ socket.send = false ∨
          (OrderedMap.find a.topic m.brokers = none ∧ m.userId = a.adminUserid ∧
            m.password = a.adminPassword ∧
            (a.req.toJson false).length ≤ AdminLoop.maxReadBuffer)) := by
  by_cases hunsent : socket.init = false ∨ socket.send = false
  · rw [createTopic_unsent hunsent]
    refine ⟨iff_of_false (fun h => by cases h) not_created, iff_of_true ?_ ?_⟩
    · exact iff_of_false Bool.false_ne_true not_created
    · exact hunsent.imp_right Or.inl
  · obtain ⟨hinit, hsend⟩ := not_or.mp hunsent
    rw [createTopic_sent (Bool.eq_true_of_not_eq_false hinit) (Bool.eq_true_of_not_eq_false hsend)]
    by_cases hcreates : m.Creates a.req
    · obtain ⟨pb, hserve⟩ := m.serve_creates env hcreates
      rw [hserve]
      have hcreated : CreateOutcome.Created ⟨true, { m with
          brokers := OrderedMap.assign a.topic pb m.brokers },
          [.common ⟨CreateTopicReq.cmd, statusSuccess, statusTopicCreated⟩]⟩ m a.topic :=
        ⟨hcreates.1, by rw [OrderedMap.find_assign_self]; rfl⟩
      exact ⟨iff_of_true rfl hcreated, iff_of_true (iff_of_true rfl hcreated)
        (Or.inr (Or.inr hcreates))⟩
    · obtain ⟨cmd, description, hserve⟩ := m.serve_refuses env hcreates
      rw [hserve]
      have hnot : ¬ (socket.init = false ∨ socket.send = false ∨ m.Creates a.req) := by
        rintro (h | h | h)
        · exact hinit h
        · exact hsend h
        · exact hcreates h
      refine ⟨iff_of_false ?_ not_created, iff_of_false ?_ hnot⟩
      · intro htold
        have hstatus : statusError = statusSuccess :=
          Option.some.inj (List.singleton_inj.mp htold)
        exact absurd hstatus (by decide)
      · intro h
        exact not_created (h.mp rfl)

/-- The credentials of the administrator are wrong: the broker refuses, and
the client is told that the topic exists now. -/
theorem create_topic_unauthorized :
    let env : AdminEnv := ⟨true, true, true, 0, 0, 0, fun reply => reply.length⟩
    let m : BrokerManager := ⟨ascii "lightq_admin", ascii "T0p$3cr31", [], none⟩
    let outcome := createTopic ⟨true, true⟩ m env
      ⟨ascii "t", ascii "lightq_admin", ascii "guess", [], [], .queueType⟩
    outcome.result = true ∧
      outcome.replies = [.common ⟨ascii "create_topic", ascii "error", ascii "unauthorized_access"⟩] ∧
      outcome.manager.brokers.length = 0 := by
  decide +kernel

end LightQ
