/-
# `Admin.BrokerManager` — one admin command (`broker_manager.h`)

`process_command` and the functions that answer it.  Every answer ends in
`return reply_cmd(..)`; an exception of the parser ends a command as well.
The replies are kept as the objects they are made from, `Reply.text` is what
is handed to the socket.

The port of `get_next_port` is a static of the process; only the manager and
`init_broker` (`Admin.JoinUris`) draw ports, so it is part of the manager here.  A
process that starts a second broker has two managers on one counter, which is
outside the model.

The handlers have one order of checks in common: the request has to be readable,
the topic has to be there (or not, for a new one), and then the credentials have
to be right.  Each is written out as it stands in the source, with its own texts.

`uint64_t` counts in a statistics reply come from the storage of the topic; the
conversions on their way, to `unsigned` and to `int64_t`, are kept.
-/
import LightQ.Admin.AdminCmd
import LightQ.Admin.Broker
import LightQ.Admin.Utils

namespace LightQ

open MachineInt

/-- `broker_manager`, and the port of `get_next_port`. -/
structure BrokerManager where
  userId : Bytes
  password : Bytes
  brokers : List (Bytes × Broker)
  port : Option Nat

/-- How a command ends: the manager after it, the replies handed to
`reply_cmd`, in order, and the value or the exception. -/
structure Processed where
  manager : BrokerManager
  replies : List Reply
  ended : Except Thrown Int

namespace BrokerManager

/-! ## The texts -/

def cmdInvalid : Bytes := ascii "invalid_cmd"

def cmdUnauth : Bytes := ascii "unauthorized_access"

def statusError : Bytes := ascii "error"

def statusSuccess : Bytes := ascii "ok"

def statusTopicNotFound : Bytes := ascii "topic not found"

def statusTopicExists : Bytes := ascii "topic already exists"

def statusTopicCreated : Bytes := ascii "topic created successfully"

/-! ## Replying -/

variable (m : BrokerManager) (env : AdminEnv)

/-- `reply_cmd`. -/
def replyCmd (reply : Reply) : Processed := ⟨m, [reply], .ok (env.writeMsg reply.text)⟩

/-- `common_resp` and `reply_cmd`, as the handlers use them. -/
def replyCommon (cmd status description : Bytes) : Processed :=
  m.replyCmd env (.common ⟨cmd, status, description⟩)

/-- `reply_invalid_cmd`. -/
def replyInvalidCmd (cmd : Bytes) : Processed := m.replyCommon env cmd statusError cmdInvalid

/-! ## The handlers -/

/-- `conf.user_id_ != req.user_id_ || conf.password_ != req.password_`, and
the same test on the admin's. -/
def unauthorized (userId password reqUserId reqPassword : Bytes) : Bool :=
  userId ≠ reqUserId || password ≠ reqPassword

/-- The `stats_resp` of a topic: unsigned values are stored as `int64_t`. -/
def statsResp (topic : Bytes) (b : Broker) : StatsResp :=
  { status := statusSuccess
    topic := topic
    topicType := b.config.getBrokerTypeToStr
    queueSize := Int64.ofNat b.getQueueSize
    messagesSent := Int64.ofNat b.getTotalMsgSent
    messagesReceived := Int64.ofNat b.getTotalMsgReceived
    publishersCount := Int64.ofNat
      (match b.pProducer with
      | some p => p.getNumClients env
      | none => 0)
    subscribersCount := Int64.ofNat
      (match b.pConsumer with
      | some c => u32 (c.getNumPubClients env + c.getNumPullClients env)
      | none => 0)
    totalBytesWritten := Int64.ofNat b.storage.getFileTotalBytesWritten
    totalBytesRead := Int64.ofNat b.storage.totalBytesRead }

/-- `reply_to_stats`. -/
def replyToStats (req : StatsReq) : Processed :=
  match OrderedMap.find req.topic m.brokers with
  | none => m.replyCommon env StatsReq.cmd statusError statusTopicNotFound
  | some b =>
      if unauthorized b.config.userId b.config.password req.userId req.password then
        m.replyCommon env StatsReq.cmd statusError cmdUnauth
      else m.replyCmd env (.stats (statsResp env req.topic b))

/-- The comparisons of `req.broker_type_`. -/
def brokerTypeOf (brokerType : Bytes) : BrokerType :=
  if brokerType = ascii "queue" then .queue
  else if brokerType = ascii "file" then .file
  else if brokerType = ascii "direct" then .direct
  else if brokerType = ascii "queue_file" then .queueFile
  else .queue

/-- The `broker_config` of a new topic. -/
def topicConfig (req : CreateTopicReq) : BrokerConfig :=
  { id := req.topic
    brokerType := brokerTypeOf req.brokerType
    userId := req.userId
    password := req.password }

/-- `reply_create_topic`. -/
def replyCreateTopic (req : CreateTopicReq) : Processed :=
  match OrderedMap.find req.topic m.brokers with
  | some _ => m.replyCommon env CreateTopicReq.cmd statusError statusTopicExists
  | none =>
      if unauthorized m.userId m.password req.adminUserId req.adminPassword then
        m.replyCommon env CreateTopicReq.cmd statusError cmdUnauth
      else
        match Broker.init (topicConfig req) with
        | (false, _) =>
            m.replyCommon env CreateTopicReq.cmd statusError (ascii "Failed to initialize topic")
        | (true, pb) =>
            { m with brokers := OrderedMap.insert (topicConfig req).id pb m.brokers }.replyCommon
              env CreateTopicReq.cmd statusSuccess statusTopicCreated

/-- `bind_interface + ":" + std::to_string(get_next_port())`: the URI and the
port afterwards. -/
def nextUri (b : Broker) (port : Option Nat) : Bytes × Option Nat :=
  let (next, port) := getNextPort port 5000
  (b.config.bindInterface ++ ascii ":" ++ decimal next, port)

/-- `utils::replace(resp.bind_uri_, "*", "127.0.0.1")`; it ends, by
`Utils.replace_ends`. -/
def localUri (bindUri : Bytes) : Bytes :=
  match Utils.replace bindUri (ascii "*") (ascii "127.0.0.1") with
  | some (_, bindUri) => bindUri
  | none => bindUri

/-- `if (get_producer() == NULL)` and its block: the value of `init_producer`,
`true` without a call, and what it leaves. -/
def openProducer (b : Broker) : Except Thrown Bool × Broker × Option Nat :=
  match b.pProducer with
  | some _ => (.ok true, b, m.port)
  | none =>
      let (uri, port) := nextUri b m.port
      let (result, b) := b.initProducer ⟨b.config.id, uri, .zmq⟩ env
      (result, b, port)

/-- `connection_type_ == "socket"`. -/
def streamOf (connectionType : Bytes) : StreamType :=
  if connectionType = ascii "socket" then .socket else .zmq

/-- `if (get_consumer() == NULL)` and its block: the pub port is drawn before
the push port. -/
def openConsumer (b : Broker) (connectionType : Bytes) :
    Except Thrown Bool × Broker × Option Nat :=
  match b.pConsumer with
  | some _ => (.ok true, b, m.port)
  | none =>
      let (pubUri, port) := nextUri b m.port
      let (pushUri, port) := nextUri b port
      let (result, b) := b.initConsumer
        ⟨b.config.id, pushUri, pubUri, streamOf connectionType⟩ env
      (result, b, port)

/-- The manager after a topic and the port have changed. -/
def store (topic : Bytes) (b : Broker) (port : Option Nat) : BrokerManager :=
  { m with brokers := OrderedMap.assign topic b m.brokers, port := port }

/-- The branch of `reply_to_join_topic` for `pub`. -/
def joinProducer (req : JoinReq) (b : Broker) : Processed :=
  let (result, b, port) := m.openProducer env b
  let m := m.store req.topic b port
  match result with
  | .error e => ⟨m, [], .error e⟩
  | .ok false =>
      m.replyCommon env JoinReq.cmd statusError (ascii "Failed to initialize producer endpoint")
  | .ok true =>
      match b.pProducer with
      | some p => m.replyCmd env (.join ⟨statusSuccess, req.topic, localUri p.getBindUri⟩)
      | none => m.replyCommon env JoinReq.cmd statusError (ascii "internal server error")

/-- The other branch of `reply_to_join_topic`. -/
def joinConsumer (req : JoinReq) (b : Broker) : Processed :=
  let (result, b, port) := m.openConsumer env b req.connectionType
  let m := m.store req.topic b port
  match result with
  | .error e => ⟨m, [], .error e⟩
  | .ok false =>
      m.replyCommon env JoinReq.cmd statusError
        (ascii "Failed to initialize consumer endpoint for pull stream")
  | .ok true =>
      match b.pConsumer with
      | none => m.replyCommon env JoinReq.cmd statusError (ascii "internal server error")
      | some c =>
          let bindUri := if req.type = ascii "sub" then c.getPubBindUri else c.getPushBindUri
          m.replyCmd env (.join ⟨statusSuccess, req.topic, localUri bindUri⟩)

/-- `reply_to_join_topic`. -/
def replyToJoinTopic (req : JoinReq) : Processed :=
  match OrderedMap.find req.topic m.brokers with
  | none => m.replyCommon env JoinReq.cmd statusError statusTopicNotFound
  | some b =>
      if unauthorized b.config.userId b.config.password req.userId req.password then
        m.replyCommon env JoinReq.cmd statusError cmdUnauth
      else if req.type = ascii "pub" then m.joinProducer env req b
      else m.joinConsumer env req b

/-! ## The command -/

/-- A request object and the handler it is for: `from_json` may throw or
return false. -/
def handle {Req : Type} (cmd : Bytes) (req : Except Thrown (Option Req))
    (handler : Req → Processed) : Processed :=
  match req with
  | .error e => ⟨m, [], .error e⟩
  | .ok none => m.replyInvalidCmd env cmd
  | .ok (some req) => handler req

/-- `process_command`. -/
def processCommand (message : Bytes) : Processed :=
  match getCmd message with
  | .error e => ⟨m, [], .error e⟩
  | .ok none => m.replyInvalidCmd env message
  | .ok (some cmd) =>
      if cmd = ascii "ping" then m.replyCmd env .pong
      else if cmd = JoinReq.cmd then
        m.handle env cmd (JoinReq.fromJson message) (m.replyToJoinTopic env)
      else if cmd = StatsReq.cmd then
        m.handle env cmd (StatsReq.fromJson message) (m.replyToStats env)
      else if cmd = CreateTopicReq.cmd then
        m.handle env cmd (CreateTopicReq.fromJson message) (m.replyCreateTopic env)
      else m.replyInvalidCmd env cmd

end BrokerManager

end LightQ
