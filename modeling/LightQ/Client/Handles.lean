/-
# `Client.Handles` — the client's handles and their arrays (`lightq_api.cpp`)

A producer or a consumer of the C interface asks the admin socket to join a topic,
and keeps the strings in arrays of a handle, with `strcpy`.  The statistics of the
topic are copied into arrays in the same way.  Nothing compares the strings with the
arrays: the broker lets in a topic and a user of any length, as long as the request
has not more than 4096 bytes.

Each function comes with the copies it makes.  A copy that does not fit is undefined
behaviour: the bytes behind the end of `userid` are those of `password`, and what is in
the handle then is not what the model says.  So whatever is said about a handle is said
of one whose copies fit (`Made.Fits`), or of arguments that are `Short`.
`handle_copies_fit_iff` says for which arguments they fit when the broker accepts; what
it says to a handle whose strings fit always does.

`message_counter` and `payload_size_counter` are `uint64_t` in the source and natural
numbers here, since no run counts to 2^64.

The broker is a function from the text of a request to that of a response.  One that
`Accepts` tells the client the topic that it asked for (`Accepts.replies`), and the
copies are then those of the arguments and of the response (`joinTopic_accepted`);
without its sockets nothing is made and nothing is copied (`joinTopic_down`).  They fit
exactly if the arguments are short (`fits_iff_short`, `joinTopic_fits_iff`), the copy of
`""` into `topic_type` included that a producer makes on top (`initProducer_fits_iff`).
What `get_stats` copies are the figures and the name of the topic, or an error
(`respond_stats`), all of which fit in a handle whose topic does (`getStats_fits`).
-/
import LightQ.Admin.AdminLoop
import LightQ.Admin.CreateTopic
import LightQ.Admin.JoinEndpoints
import LightQ.Admin.Messages

namespace LightQ

open MachineInt Picojson

/-- A `strcpy` into an array. -/
structure Copy where
  capacity : Nat
  source : Bytes
deriving DecidableEq, Repr

/-- The string, and a zero behind it, has room in the array. -/
def Copy.Fits (c : Copy) : Prop := c.source.length < c.capacity

/-! ## The handles -/

/-- `lightq_conn`; the strings are what has been copied into its arrays, if that fits.
The counters are of 64 bits in the source; no run counts to 2^64. -/
structure LightqConn where
  topic : Bytes
  userid : Bytes
  password : Bytes
  brokerUri : Bytes
  messageCounter : Nat
  payloadSizeCounter : Nat
deriving DecidableEq, Repr

/-- `topic_stats`. -/
structure TopicStats where
  status : Bytes
  topic : Bytes
  topicType : Bytes
  queueSize : UInt64
  messagesSent : UInt64
  messagesReceived : UInt64
  publishersCount : UInt64
  subscribersCount : UInt64
  totalBytesWritten : UInt64
  totalBytesRead : UInt64
deriving DecidableEq, Repr

/-- `lightq_producer_conn`. -/
structure LightqProducerConn where
  conn : LightqConn
  lastQueueSize : UInt64
  topicType : Bytes
  delayPubOnSlowConsumer : Bool
deriving DecidableEq, Repr

inductive ConsumerSocketType where
  | zmqConsumer
  | socketConsumer
deriving DecidableEq, Repr

/-- `lightq_consumer_conn`. -/
structure LightqConsumerConn where
  pLightqConn : LightqConn
  socketType : ConsumerSocketType
deriving DecidableEq, Repr

/-- What the sockets do: whether that to the admin is connected and that to the topic
initialized, and the response to a request, if it can be sent and one comes. -/
structure ClientEnv where
  adminUp : Bool
  clientUp : Bool
  exchange : Bytes → Option Bytes

namespace Client

/-- What a function makes, NULL if it fails, and the copies on the way.  It is what the
source makes if they fit. -/
structure Made (α : Type) where
  handle : Option α
  copies : List Copy

/-- What `init_producer` and `init_consumer` have in common: the join, and the handle.
Neither looks at the value of `from_json`; an exception is caught.  The handle is that
of the source as long as its copies fit; beyond that an array is overrun, and what is in
the handle is undefined. -/
def joinTopic (env : ClientEnv) (req : JoinReq) (brokerUri : Bytes) : Made LightqConn :=
  if !env.adminUp then ⟨none, []⟩
  else
    match env.exchange (req.toJson false) with
    | none => ⟨none, []⟩
    | some response =>
        match JoinResp.fromJson response with
        | .error _ => ⟨none, []⟩
        | .ok r =>
            let resp := r.getD ⟨[], [], []⟩
            if resp.status = ascii "error" then ⟨none, []⟩
            else if !env.clientUp then ⟨none, []⟩
            else
              ⟨some ⟨cStr resp.topic, cStr req.userId, cStr req.password,
                  cStr brokerUri, 0, 0⟩,
                [⟨256, cStr resp.topic⟩, ⟨128, cStr req.userId⟩,
                  ⟨128, cStr req.password⟩, ⟨256, cStr brokerUri⟩]⟩

/-- The `join_req` of `init_producer`. -/
def producerReq (userid password topic : Bytes) : JoinReq :=
  ⟨ascii "pub", topic, userid, password, ascii "zmq"⟩

/-- `init_producer`. -/
def initProducer (env : ClientEnv) (userid password topic brokerUri : Bytes) :
    Made LightqProducerConn :=
  let joined := joinTopic env (producerReq userid password topic) brokerUri
  match joined.handle with
  | none => ⟨none, joined.copies⟩
  | some conn => ⟨some ⟨conn, 0, [], true⟩, joined.copies ++ [⟨256, []⟩]⟩

/-- The `connection_type_` of a consumer. -/
def connectionTypeOf : ConsumerSocketType → Bytes
  | .zmqConsumer => ascii "zmq"
  | .socketConsumer => ascii "socket"

/-- The `join_req` of `init_consumer`. -/
def consumerReq (userid password topic : Bytes) (consumerType : ConsumerSocketType) : JoinReq :=
  ⟨ascii "pull", topic, userid, password, connectionTypeOf consumerType⟩

/-- `init_consumer`. -/
def initConsumer (env : ClientEnv) (userid password topic brokerUri : Bytes)
    (consumerType : ConsumerSocketType) : Made LightqConsumerConn :=
  let joined := joinTopic env (consumerReq userid password topic consumerType) brokerUri
  ⟨joined.handle.map fun conn => ⟨conn, consumerType⟩, joined.copies⟩

/-- `get_stats`: its value, the statistics, and the copies. -/
def getStats (exchange : Bytes → Option Bytes) (conn : LightqConn) (stats : TopicStats) :
    Bool × TopicStats × List Copy :=
  let failed : Bool × TopicStats × List Copy :=
    (false, { stats with status := ascii "error" }, [⟨128, ascii "error"⟩])
  match exchange (StatsReq.toJson ⟨conn.topic, conn.userid, conn.password⟩ false) with
  | none => failed
  | some response =>
      match StatsResp.fromJson response with
      | .error _ => (false, stats, [])
      | .ok r =>
          let resp := r.getD ⟨[], [], [], 0, 0, 0, 0, 0, 0, 0⟩
          if resp.status = ascii "error" then failed
          else
            (true,
              { status := cStr resp.status
                topic := cStr resp.topic
                topicType := cStr resp.topicType
                queueSize := resp.queueSize.toUInt64
                messagesSent := resp.messagesSent.toUInt64
                messagesReceived := resp.messagesReceived.toUInt64
                publishersCount := resp.publishersCount.toUInt64
                subscribersCount := resp.subscribersCount.toUInt64
                totalBytesWritten := resp.totalBytesWritten.toUInt64
                totalBytesRead := resp.totalBytesRead.toUInt64 },
              [⟨128, cStr resp.status⟩, ⟨256, cStr resp.topic⟩,
                ⟨256, cStr resp.topicType⟩])

/-- What `publish_delay_algorithm` waits, in milliseconds. -/
inductive Wait where
  | none
  | sSleep (msecs : Int)
  | sleepMs (msecs : Int)
deriving DecidableEq, Repr

/-- A queue of more than 10000 messages is taken for one without subscribers.
Both functions take an `int`. -/
def waitFor (lastQueueSize queueSize : UInt64) : Wait :=
  if 10000 < queueSize then .sSleep (i32 (queueSize / 1000).toNat)
  else if lastQueueSize < queueSize then .sleepMs (i32 ((queueSize - lastQueueSize) / 100).toNat)
  else .none

/-- What `publish_delay_algorithm` comes to: the handle after it, whether the broker was
asked, the wait, and the copies. -/
structure Delayed where
  handle : LightqProducerConn
  asked : Bool
  wait : Wait
  copies : List Copy

/-- `publish_delay_algorithm`; `stats` is its uninitialized `topic_stats`. -/
def publishDelayAlgorithm (exchange : Bytes → Option Bytes) (stats : TopicStats)
    (p : LightqProducerConn) : Delayed :=
  if p.conn.messageCounter % 250000 = 0 then
    let (result, stats, copies) := getStats exchange p.conn stats
    if !result then ⟨p, true, .none, copies⟩
    else
      ⟨{ p with topicType := stats.topicType, lastQueueSize := stats.queueSize }, true,
        waitFor p.lastQueueSize stats.queueSize, copies ++ [⟨256, stats.topicType⟩]⟩
  else ⟨p, false, .none, []⟩

end Client

/-- The response of the broker to a request that is read in its loop. -/
def BrokerManager.respond (m : BrokerManager) (env : AdminEnv) (text : Bytes) : Option Bytes :=
  if AdminLoop.maxReadBuffer < text.length then some AdminLoop.exceededReply
  else (m.processCommand env text).replies.head?.map Reply.text

namespace Client

/-- The broker accepts the request. -/
def Accepts (m : BrokerManager) (env : AdminEnv) (req : JoinReq) : Prop :=
  (req.toJson false).length ≤ AdminLoop.maxReadBuffer ∧
    ∃ resp, .join resp ∈ (m.processCommand env (req.toJson false)).replies

/-- The arguments are strings that have room in the handle. -/
structure Short (userid password topic brokerUri : Bytes) : Prop where
  topic : topic.length < 256
  userid : userid.length < 128
  password : password.length < 128
  brokerUri : brokerUri.length < 256

/-- The strings of a handle: no zero in them, and one behind them. -/
structure InBounds (conn : LightqConn) : Prop where
  short : Short conn.userid conn.password conn.topic conn.brokerUri
  zero : ∀ s ∈ [conn.userid, conn.password, conn.topic, conn.brokerUri], 0 ∉ s

/-- Every copy fits. -/
def Made.Fits {α : Type} (made : Made α) : Prop := ∀ c ∈ made.copies, c.Fits

/-- The handle, if there is one, keeps what it has been given. -/
def Made.Kept {α : Type} (connOf : α → LightqConn) (made : Made α) : Prop :=
  ∀ handle, made.handle = some handle → InBounds (connOf handle)

theorem length_cStr_le (s : Bytes) : (cStr s).length ≤ s.length :=
  (List.takeWhile_prefix _).length_le

/-! ## What the broker responds -/

section Broker

variable {m : BrokerManager} {env : AdminEnv} {req : JoinReq}

theorem isJoin_toJson (req : JoinReq) : BrokerManager.IsJoin (req.toJson false) req :=
  ⟨joinReq_getCmd req false, joinReq_round_trip req⟩

theorem Accepts.replies (h : Accepts m env req) :
    ∃ bindUri, (m.processCommand env (req.toJson false)).replies
      = [.join ⟨BrokerManager.statusSuccess, req.topic, bindUri⟩] := by
  obtain ⟨-, resp, hresp⟩ := h
  have hreq := isJoin_toJson req
  by_cases hjoins : ∃ b, m.Joins (req.toJson false) req b
  · obtain ⟨b, hb⟩ := hjoins
    by_cases hok : BrokerManager.OpenSucceeds env req b
    · obtain ⟨uri, -, hreplies⟩ := hb.replies hok
      exact ⟨_, hreplies⟩
    · obtain ⟨reply, hreplies, hfailed⟩ := hb.replies_failed hok
      rw [hreplies] at hresp
      obtain rfl := List.mem_singleton.mp hresp
      rcases hfailed with heq | heq
      · cases heq
      · cases heq
  · obtain ⟨reply, hreplies, -, hno⟩ :=
      BrokerManager.replies_of_not_joins env hreq fun b hb => hjoins ⟨b, hb⟩
    rw [hreplies] at hresp
    exact absurd (List.mem_singleton.mp hresp).symm (hno resp)

theorem Accepts.respond (h : Accepts m env req) :
    ∃ bindUri, m.respond env (req.toJson false)
      = some (JoinResp.toJson ⟨BrokerManager.statusSuccess, req.topic, bindUri⟩) := by
  obtain ⟨bindUri, hreplies⟩ := h.replies
  refine ⟨bindUri, ?_⟩
  rw [BrokerManager.respond, if_neg (Nat.not_lt.mpr h.1), hreplies]
  rfl

theorem respond_stats (m : BrokerManager) (env : AdminEnv) (req : StatsReq) :
    (∃ cmd description, m.respond env (req.toJson false)
        = some (CommonResp.toJson ⟨cmd, ascii "error", description⟩)) ∨
      ∃ b, m.respond env (req.toJson false)
        = some (BrokerManager.statsResp env req.topic b).toJson := by
  rw [BrokerManager.respond]
  split
  · exact Or.inl ⟨_, _, rfl⟩
  · have hcommand : m.processCommand env (req.toJson false) = m.replyToStats env req := by
      have hping : StatsReq.cmd ≠ ascii "ping" := by decide
      have hjoin : StatsReq.cmd ≠ JoinReq.cmd := by decide
      simp only [BrokerManager.processCommand, statsReq_getCmd, if_neg hping, if_neg hjoin, if_true,
        BrokerManager.handle, statsReq_round_trip]
    rw [hcommand, BrokerManager.replyToStats]
    split
    · exact Or.inl ⟨_, _, rfl⟩
    · split
      · exact Or.inl ⟨_, _, rfl⟩
      · exact Or.inr ⟨_, rfl⟩

end Broker

/-! ## The copies -/

section Copies

variable {m : BrokerManager} {env : AdminEnv} {req : JoinReq}
  {userid password topic brokerUri : Bytes}

theorem joinTopic_accepted (h : Accepts m env req)
    (hzero : ∀ s ∈ [req.userId, req.password, req.topic, brokerUri], 0 ∉ s) :
    joinTopic ⟨true, true, m.respond env⟩ req brokerUri
      = ⟨some ⟨req.topic, req.userId, req.password, brokerUri, 0, 0⟩,
          [⟨256, req.topic⟩, ⟨128, req.userId⟩, ⟨128, req.password⟩, ⟨256, brokerUri⟩]⟩ := by
  simp only [List.mem_cons, List.not_mem_nil, or_false, forall_eq_or_imp, forall_eq] at hzero
  obtain ⟨huser, hpassword, htopic, huri⟩ := hzero
  obtain ⟨bindUri, hrespond⟩ := h.respond
  have hstatus : BrokerManager.statusSuccess ≠ ascii "error" := by decide
  simp only [joinTopic, hrespond, joinResp_round_trip, Option.getD_some, Bool.not_true,
    Bool.false_eq_true, if_false, if_neg hstatus, cStr_of_not_mem huser, cStr_of_not_mem hpassword,
    cStr_of_not_mem htopic, cStr_of_not_mem huri]

theorem joinTopic_down (clientEnv : ClientEnv) (req : JoinReq) (brokerUri : Bytes)
    (h : ¬ (clientEnv.adminUp = true ∧ clientEnv.clientUp = true)) :
    joinTopic clientEnv req brokerUri = ⟨none, []⟩ := by
  unfold joinTopic
  split
  · rfl
  · next hadmin =>
      have hdown : clientEnv.clientUp = false :=
        Bool.eq_false_of_not_eq_true fun hclient => h ⟨by simpa using hadmin, hclient⟩
      split
      · rfl
      · split
        · rfl
        · simp only [hdown, Bool.not_false, if_true, ite_self]

theorem fits_iff_short : (∀ c ∈ ([⟨256, topic⟩, ⟨128, userid⟩, ⟨128, password⟩,
      ⟨256, brokerUri⟩] : List Copy), c.Fits) ↔ Short userid password topic brokerUri := by
  simp only [List.mem_cons, List.not_mem_nil, or_false, forall_eq_or_imp, forall_eq, Copy.Fits]
  constructor
  · rintro ⟨htopic, huser, hpassword, huri⟩
    exact ⟨htopic, huser, hpassword, huri⟩
  · rintro ⟨htopic, huser, hpassword, huri⟩
    exact ⟨htopic, huser, hpassword, huri⟩

/-- Of an accepted join. -/
theorem joinTopic_fits_iff {adminUp clientUp : Bool} (h : Accepts m env req)
    (hzero : ∀ s ∈ [req.userId, req.password, req.topic, brokerUri], 0 ∉ s) :
    (joinTopic ⟨adminUp, clientUp, m.respond env⟩ req brokerUri).Fits ↔
      (adminUp = true ∧ clientUp = true → Short req.userId req.password req.topic brokerUri) := by
  by_cases hup : adminUp = true ∧ clientUp = true
  · obtain ⟨rfl, rfl⟩ := hup
    rw [joinTopic_accepted h hzero]
    constructor
    · exact fun hfits _ => fits_iff_short.mp hfits
    · exact fun hshort => fits_iff_short.mpr (hshort ⟨rfl, rfl⟩)
  · rw [joinTopic_down ⟨adminUp, clientUp, m.respond env⟩ req brokerUri hup]
    refine iff_of_true ?_ fun h => absurd h hup
    rintro c ⟨⟩

theorem joinTopic_kept {adminUp clientUp : Bool} (h : Accepts m env req)
    (hzero : ∀ s ∈ [req.userId, req.password, req.topic, brokerUri], 0 ∉ s)
    (hfits : (joinTopic ⟨adminUp, clientUp, m.respond env⟩ req brokerUri).Fits) :
    (joinTopic ⟨adminUp, clientUp, m.respond env⟩ req brokerUri).Kept id := by
  by_cases hup : adminUp = true ∧ clientUp = true
  · have hshort := (joinTopic_fits_iff h hzero).mp hfits hup
    obtain ⟨rfl, rfl⟩ := hup
    rw [joinTopic_accepted h hzero]
    intro conn hconn
    obtain rfl := Option.some.inj hconn
    exact ⟨hshort, hzero⟩
  · rw [joinTopic_down ⟨adminUp, clientUp, m.respond env⟩ req brokerUri hup]
    rintro conn ⟨⟩

theorem initProducer_fits_iff (clientEnv : ClientEnv) :
    (initProducer clientEnv userid password topic brokerUri).Fits ↔
      (joinTopic clientEnv (producerReq userid password topic) brokerUri).Fits := by
  unfold initProducer
  generalize joinTopic clientEnv (producerReq userid password topic) brokerUri = joined
  obtain ⟨handle, copies⟩ := joined
  cases handle with
  | none => exact Iff.rfl
  | some conn =>
      constructor
      · exact fun h c hc => h c (List.mem_append_left _ hc)
      · intro h c hc
        rcases List.mem_append.mp hc with hc | hc
        · exact h c hc
        · obtain rfl := List.mem_singleton.mp hc
          exact Nat.zero_lt_succ 255

theorem initProducer_kept {clientEnv : ClientEnv}
    (h : (joinTopic clientEnv (producerReq userid password topic) brokerUri).Kept id) :
    (initProducer clientEnv userid password topic brokerUri).Kept LightqProducerConn.conn := by
  unfold initProducer
  generalize joinTopic clientEnv (producerReq userid password topic) brokerUri = joined at h
  obtain ⟨handle, copies⟩ := joined
  cases handle with
  | none => rintro p ⟨⟩
  | some conn =>
      intro p hp
      obtain rfl := Option.some.inj hp
      exact h conn rfl

theorem initConsumer_kept {clientEnv : ClientEnv} {consumerType : ConsumerSocketType}
    (h : (joinTopic clientEnv (consumerReq userid password topic consumerType) brokerUri).Kept
      id) :
    (initConsumer clientEnv userid password topic brokerUri consumerType).Kept
      LightqConsumerConn.pLightqConn := by
  intro c hc
  obtain ⟨conn, hconn, rfl⟩ := Option.map_eq_some_iff.mp hc
  exact h conn hconn

theorem length_getBrokerTypeToStr (conf : BrokerConfig) :
    conf.getBrokerTypeToStr.length < 256 ∧ 0 ∉ conf.getBrokerTypeToStr := by
  rw [BrokerConfig.getBrokerTypeToStr]
  cases conf.brokerType with
  | queue => decide
  | file => decide
  | direct => decide
  | queueFile => decide

/-- What `get_stats` copies for a handle whose topic fits. -/
theorem getStats_fits {conn : LightqConn} (h : InBounds conn) (m : BrokerManager) (env : AdminEnv)
    (stats : TopicStats) :
    (∀ c ∈ (getStats (m.respond env) conn stats).2.2, c.Fits) ∧
      ((getStats (m.respond env) conn stats).1 = true →
        (getStats (m.respond env) conn stats).2.1.topicType.length < 256) := by
  have herror : ∀ c ∈ ([⟨128, ascii "error"⟩] : List Copy), c.Fits := by
    intro c hc
    obtain rfl := List.mem_singleton.mp hc
    exact show (ascii "error").length < 128 by decide
  rcases respond_stats m env ⟨conn.topic, conn.userid, conn.password⟩ with
    ⟨cmd, description, hrespond⟩ | ⟨b, hrespond⟩
  · simp only [getStats, hrespond, statsResp_of_commonResp, Option.getD_some, if_true]
    exact ⟨herror, Bool.noConfusion⟩
  · have hstatus : (BrokerManager.statsResp env conn.topic b).status ≠ ascii "error" := by
      show BrokerManager.statusSuccess ≠ _
      decide
    have htype := (length_cStr_le _).trans_lt (length_getBrokerTypeToStr b.config).1
    have htopic := (length_cStr_le conn.topic).trans_lt h.short.topic
    simp only [getStats, hrespond, statsResp_round_trip, Option.getD_some, if_neg hstatus]
    refine ⟨?_, fun _ => htype⟩
    intro c hc
    simp only [List.mem_cons, List.not_mem_nil, or_false] at hc
    rcases hc with rfl | rfl | rfl
    · exact show (cStr BrokerManager.statusSuccess).length < 128 by decide
    · exact htopic
    · exact htype

theorem publishDelayAlgorithm_fits {p : LightqProducerConn} (h : InBounds p.conn)
    (m : BrokerManager) (env : AdminEnv) (stats : TopicStats) :
    ∀ c ∈ (publishDelayAlgorithm (m.respond env) stats p).copies, c.Fits := by
  obtain ⟨hfits, htype⟩ := getStats_fits h m env stats
  unfold publishDelayAlgorithm
  split
  · generalize getStats (m.respond env) p.conn stats = made at hfits htype
    obtain ⟨result, stats, copies⟩ := made
    cases result with
    | false => exact hfits
    | true =>
        intro c hc
        rcases List.mem_append.mp hc with hc | hc
        · exact hfits c hc
        · obtain rfl := List.mem_singleton.mp hc
          exact htype rfl
  · rintro c ⟨⟩

end Copies

/-- Strings that have no zero in them, and any broker: if it accepts the join, the copies
of `init_producer` and `init_consumer` fit exactly if the strings do, or if there is no
socket and hence no handle.  For a handle that is within its arrays, `get_stats` and
`publish_delay_algorithm` never write beyond one. -/
theorem handle_copies_fit_iff (m : BrokerManager) (env : AdminEnv)
    {userid password topic brokerUri : Bytes}
    (hzero : ∀ s ∈ [userid, password, topic, brokerUri], 0 ∉ s) (adminUp clientUp : Bool) :
    (Accepts m env (producerReq userid password topic) →
      let made := initProducer ⟨adminUp, clientUp, m.respond env⟩ userid password topic brokerUri
      (made.Fits ↔ (adminUp = true ∧ clientUp = true → Short userid password topic brokerUri)) ∧
        (made.Fits → made.Kept LightqProducerConn.conn)) ∧
    (∀ consumerType, Accepts m env (consumerReq userid password topic consumerType) →
      let made := initConsumer ⟨adminUp, clientUp, m.respond env⟩ userid password topic brokerUri
        consumerType
      (made.Fits ↔ (adminUp = true ∧ clientUp = true → Short userid password topic brokerUri)) ∧
        (made.Fits → made.Kept LightqConsumerConn.pLightqConn)) ∧
    (∀ conn stats, InBounds conn → ∀ c ∈ (getStats (m.respond env) conn stats).2.2, c.Fits) ∧
    (∀ (p : LightqProducerConn) stats, InBounds p.conn →
      ∀ c ∈ (publishDelayAlgorithm (m.respond env) stats p).copies, c.Fits) := by
  refine ⟨?_, ?_, ?_, ?_⟩
  · intro haccepts
    refine ⟨(initProducer_fits_iff _).trans (joinTopic_fits_iff haccepts hzero), ?_⟩
    intro hfits
    exact initProducer_kept (joinTopic_kept haccepts hzero ((initProducer_fits_iff _).mp hfits))
  · intro consumerType haccepts
    refine ⟨joinTopic_fits_iff haccepts hzero, ?_⟩
    intro hfits
    exact initConsumer_kept (joinTopic_kept haccepts hzero hfits)
  · exact fun conn stats h => (getStats_fits h m env stats).1
  · exact fun p stats h => publishDelayAlgorithm_fits h m env stats

/-! ## A topic for a user -/

section Opened

variable (userid : Bytes)

/-- A broker with a topic of the user. -/
def openedFor : BrokerManager :=
  ((BrokerManager.start [] [] none).processCommand BrokerManager.openingEnv
    (CreateTopicReq.toJson ⟨ascii "t", ascii "queue", [], [], userid, []⟩ false)).manager

variable {userid}

theorem accepts_openedFor
    (h : ((producerReq userid [] (ascii "t")).toJson false).length ≤ AdminLoop.maxReadBuffer) :
    Accepts (openedFor userid) BrokerManager.openingEnv (producerReq userid [] (ascii "t")) := by
  refine ⟨h, ?_⟩
  have hfind : OrderedMap.find (ascii "t") (openedFor userid).brokers
      = some (Broker.init (BrokerManager.topicConfig
          ⟨ascii "t", ascii "queue", [], [], userid, []⟩)).2 := by
    rw [openedFor, BrokerManager.processCommand_createTopic]
    rfl
  have hjoins : (openedFor userid).Joins ((producerReq userid [] (ascii "t")).toJson false)
      (producerReq userid [] (ascii "t")) _ := ⟨isJoin_toJson _, hfind, rfl, rfl⟩
  obtain ⟨uri, -, hreplies⟩ :=
    hjoins.replies (BrokerManager.openSucceeds_openingEnv (producerReq userid [] (ascii "t")) _)
  rw [hreplies]
  exact ⟨_, List.mem_cons_self⟩

end Opened

theorem handle_copies_fit_user :
    (initProducer ⟨true, true, (openedFor (ascii "u")).respond BrokerManager.openingEnv⟩
      (ascii "u") [] (ascii "t") (ascii "tcp://127.0.0.1:5000")).Fits :=
  ((handle_copies_fit_iff (openedFor (ascii "u")) BrokerManager.openingEnv (by decide)
    true true).1 (accepts_openedFor (by decide +kernel))).1.mpr fun _ =>
      ⟨by decide, by decide, by decide, by decide⟩

/-- A user with 128 letters is written over the end of `userid`. -/
theorem handle_copies_overflow :
    ¬ ∀ (m : BrokerManager) (env : AdminEnv) (userid password topic brokerUri : Bytes),
      (∀ s ∈ [userid, password, topic, brokerUri], 0 ∉ s) →
        Accepts m env (producerReq userid password topic) →
          (initProducer ⟨true, true, m.respond env⟩ userid password topic brokerUri).Fits := by
  intro h
  obtain ⟨userid, hlength, hzero, haccepts⟩ : ∃ userid : Bytes, userid.length = 128 ∧
      (∀ s ∈ [userid, [], ascii "t", ascii "tcp://127.0.0.1:5000"], 0 ∉ s) ∧
        Accepts (openedFor userid) BrokerManager.openingEnv (producerReq userid [] (ascii "t")) :=
    ⟨List.replicate 128 97, rfl, by decide, accepts_openedFor (by decide +kernel)⟩
  have hfits := h _ _ _ _ _ _ hzero haccepts
  rw [initProducer, joinTopic_accepted haccepts hzero] at hfits
  have huser : userid.length < 128 :=
    hfits ⟨128, userid⟩ (List.mem_cons_of_mem _ List.mem_cons_self)
  exact absurd hlength huser.ne

end Client

end LightQ
