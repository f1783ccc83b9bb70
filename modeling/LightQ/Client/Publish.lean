/-
# `Client.Publish` — publishing, and how a producer holds back

`publish_message` counts the messages that its socket takes, and after every
250000 of them `publish_delay_algorithm` asks the broker for the statistics of
the topic, waits if the queue is long or has grown, and notes its length.

`getStats_eq` says when `get_stats` succeeds, against any broker, and which
figures it brings: it does if the request is not too long and the topic is there
with the credentials of the handle.  Which topic that is, is `topicOf`, of which
`topicOf_eq_some_iff` says in the broker's own terms when there is one; what the
broker responds is the figures of it, or an error (`respond_topicOf`).

`publish_run` is about any number of calls, whatever the socket and the broker do
meanwhile: what the handle has counted, how often the broker was asked, what was
waited, and which queue length is noted.  It is an induction on the calls, with a
lemma for each of the five ways one can go.  A message that is too long, or that the
socket does not take, leaves no trace (`publishMessage_of_not_taken`,
`Accounts.cons_of_not_taken`).  Most calls do not ask (`publishMessage_of_unasked`);
one that is told nothing is counted whether it has asked or not
(`Accounts.cons_of_untold`: `Accounts.cons_of_unasked`, `Accounts.cons_of_refused`).
Every 250000th notes what it is told (`publishMessage_of_asked`), and puts the figures
in front of those that come later (`Accounts.cons_of_told`).

Which calls ask is every `k`-th of those that are taken (`Lib.Sampling`), counted
since the handle was made.
-/
import LightQ.Client.Sessions
import LightQ.Lib.Sampling

namespace LightQ

open BrokerManager Sampling

namespace Client

/-- A call of `publish_message`: whether the socket takes the message, and the
broker at that moment; `stats` is the uninitialized `topic_stats`. -/
structure PublishCall where
  message : Bytes
  sent : Bool
  manager : BrokerManager
  env : AdminEnv
  stats : TopicStats

/-- The value of `publish_message`, the handle after it, whether the broker was
asked, and the wait. -/
structure Published where
  value : Int
  handle : LightqProducerConn
  asked : Bool
  wait : Wait

/-- The message is not too long, and the socket takes it. -/
def PublishCall.taken (c : PublishCall) : Bool :=
  decide (c.message.length ≤ maxMsgSize) && c.sent

/-- `publish_message`. -/
def publishMessage (c : PublishCall) (p : LightqProducerConn) : Published :=
  if maxMsgSize < c.message.length then ⟨-1, p, false, .none⟩
  else if !c.sent then ⟨-1, p, false, .none⟩
  else
    let bytesSent : Nat := c.message.length
    let p := { p with
      conn := { p.conn with
        messageCounter := p.conn.messageCounter + 1
        payloadSizeCounter := p.conn.payloadSizeCounter + bytesSent } }
    if p.delayPubOnSlowConsumer then
      let delayed := publishDelayAlgorithm (c.manager.respond c.env) c.stats p
      ⟨bytesSent, delayed.handle, delayed.asked, delayed.wait⟩
    else ⟨bytesSent, p, false, .none⟩

/-! ## The statistics -/

/-- What `get_stats` stores: the figures as `uint64_t`. -/
def topicStats (env : AdminEnv) (topic : Bytes) (b : Broker) : TopicStats :=
  { status := statusSuccess
    topic := cStr topic
    topicType := b.config.getBrokerTypeToStr
    queueSize := UInt64.ofNat b.getQueueSize
    messagesSent := UInt64.ofNat b.getTotalMsgSent
    messagesReceived := UInt64.ofNat b.getTotalMsgReceived
    publishersCount := (statsResp env topic b).publishersCount.toUInt64
    subscribersCount := (statsResp env topic b).subscribersCount.toUInt64
    totalBytesWritten := UInt64.ofNat b.storage.getFileTotalBytesWritten
    totalBytesRead := UInt64.ofNat b.storage.totalBytesRead }

/-- The topic of a handle, if the broker lets its request through. -/
def topicOf (m : BrokerManager) (conn : LightqConn) : Option Broker :=
  if AdminLoop.maxReadBuffer
      < (StatsReq.toJson ⟨conn.topic, conn.userid, conn.password⟩ false).length then none
  else (OrderedMap.find conn.topic m.brokers).filter fun b =>
    !unauthorized b.config.userId b.config.password conn.userid conn.password

section Stats

variable {m : BrokerManager} {env : AdminEnv} {conn : LightqConn} {b : Broker}

theorem topicOf_eq_some_iff : topicOf m conn = some b ↔
    (StatsReq.toJson ⟨conn.topic, conn.userid, conn.password⟩ false).length
        ≤ AdminLoop.maxReadBuffer ∧ m.Grants conn.topic conn.userid conn.password b := by
  rw [topicOf]
  split
  · next hlong => simp only [reduceCtorEq, Nat.not_le.mpr hlong, false_and]
  · next hshort =>
      rw [Option.filter_eq_some_iff, Grants, unauthorized]
      simp [Nat.not_lt.mp hshort]

theorem respond_topicOf (m : BrokerManager) (env : AdminEnv) (conn : LightqConn) :
    (topicOf m conn = none ∧ ∃ cmd description,
        m.respond env (StatsReq.toJson ⟨conn.topic, conn.userid, conn.password⟩ false)
          = some (CommonResp.toJson ⟨cmd, ascii "error", description⟩)) ∨
      ∃ b, topicOf m conn = some b ∧
        m.respond env (StatsReq.toJson ⟨conn.topic, conn.userid, conn.password⟩ false)
          = some (statsResp env conn.topic b).toJson := by
  rw [BrokerManager.respond, topicOf]
  split
  · exact Or.inl ⟨rfl, _, _, rfl⟩
  · have hcommand : m.processCommand env
        (StatsReq.toJson ⟨conn.topic, conn.userid, conn.password⟩ false)
          = m.replyToStats env ⟨conn.topic, conn.userid, conn.password⟩ := by
      have hping : StatsReq.cmd ≠ ascii "ping" := by decide
      have hjoin : StatsReq.cmd ≠ JoinReq.cmd := by decide
      simp only [processCommand, statsReq_getCmd, if_neg hping, if_neg hjoin, if_true, handle,
        statsReq_round_trip]
    rw [hcommand, replyToStats]
    cases hfind : OrderedMap.find conn.topic m.brokers with
    | none => exact Or.inl ⟨rfl, _, _, rfl⟩
    | some b =>
        dsimp only
        split
        · next hauth =>
            refine Or.inl ⟨?_, _, _, rfl⟩
            rw [Option.filter_some, hauth]
            rfl
        · next hauth =>
            refine Or.inr ⟨b, ?_, rfl⟩
            rw [Option.filter_some, Bool.eq_false_of_not_eq_true hauth]
            rfl

/-- `get_stats`, against any broker: it succeeds if the request is not too long
and the topic is there with the credentials of the handle. -/
theorem getStats_eq (m : BrokerManager) (env : AdminEnv) (conn : LightqConn)
    (stats : TopicStats) :
    ((getStats (m.respond env) conn stats).1, (getStats (m.respond env) conn stats).2.1) =
      match topicOf m conn with
      | none => (false, { stats with status := ascii "error" })
      | some b => (true, topicStats env conn.topic b) := by
  rcases respond_topicOf m env conn with
    ⟨hnone, cmd, description, hrespond⟩ | ⟨b, hsome, hrespond⟩
  · simp only [getStats, hrespond, statsResp_of_commonResp, Option.getD_some, if_true, hnone]
  · have hstatus : (statsResp env conn.topic b).status ≠ ascii "error" := by
      show statusSuccess ≠ _
      decide
    have hcopy : cStr statusSuccess = statusSuccess := by decide
    have htype := cStr_of_not_mem (length_getBrokerTypeToStr b.config).2
    simp only [getStats, hrespond, statsResp_round_trip, Option.getD_some, if_neg hstatus, hsome]
    simp only [topicStats, statsResp, hcopy, htype, Int64.toUInt64_ofNat']

end Stats

/-! ## One call -/

/-- The handle after a message that the socket has taken. -/
def counted (p : LightqProducerConn) (bytesSent : Nat) : LightqProducerConn :=
  { p with
    conn := { p.conn with
      messageCounter := p.conn.messageCounter + 1
      payloadSizeCounter := p.conn.payloadSizeCounter + bytesSent } }

/-- And after the figures of the topic. -/
def noted (p : LightqProducerConn) (b : Broker) : LightqProducerConn :=
  { p with
    lastQueueSize := UInt64.ofNat b.getQueueSize
    topicType := b.config.getBrokerTypeToStr }

section Call

variable {c : PublishCall} {p : LightqProducerConn}

theorem publishMessage_of_not_taken (h : c.taken = false) :
    publishMessage c p = ⟨-1, p, false, .none⟩ := by
  rw [publishMessage]
  split
  · rfl
  · next hlength =>
      have hsent : c.sent = false := by simpa [PublishCall.taken, Nat.not_lt.mp hlength] using h
      rw [hsent]
      rfl

theorem publishMessage_of_taken (h : c.taken = true) :
    publishMessage c p =
      if p.delayPubOnSlowConsumer then
        let delayed := publishDelayAlgorithm (c.manager.respond c.env) c.stats
          (counted p c.message.length)
        ⟨c.message.length, delayed.handle, delayed.asked, delayed.wait⟩
      else ⟨c.message.length, counted p c.message.length, false, .none⟩ := by
  obtain ⟨hlength, hsent⟩ : c.message.length ≤ maxMsgSize ∧ c.sent = true := by
    simpa [PublishCall.taken] using h
  rw [publishMessage, if_neg (Nat.not_lt.mpr hlength), hsent]
  rfl

theorem publishMessage_of_unasked (h : c.taken = true)
    (hasked : ¬ (p.delayPubOnSlowConsumer = true ∧ (p.conn.messageCounter + 1) % 250000 = 0)) :
    publishMessage c p = ⟨c.message.length, counted p c.message.length, false, .none⟩ := by
  rw [publishMessage_of_taken h]
  split
  · next hdelay =>
      have hcounter : ¬ (counted p c.message.length).conn.messageCounter % 250000 = 0 :=
        fun hzero => hasked ⟨hdelay, hzero⟩
      simp only [publishDelayAlgorithm, hcounter, if_false]
  · rfl

theorem publishMessage_of_asked (h : c.taken = true)
    (hdelay : p.delayPubOnSlowConsumer = true)
    (hasked : (p.conn.messageCounter + 1) % 250000 = 0) :
    publishMessage c p =
      match topicOf c.manager p.conn with
      | none => ⟨c.message.length, counted p c.message.length, true, .none⟩
      | some b => ⟨c.message.length, noted (counted p c.message.length) b, true,
          waitFor p.lastQueueSize (UInt64.ofNat b.getQueueSize)⟩ := by
  have hcounter : (counted p c.message.length).conn.messageCounter % 250000 = 0 := hasked
  have hstats := getStats_eq c.manager c.env (counted p c.message.length).conn c.stats
  have htopic : topicOf c.manager (counted p c.message.length).conn = topicOf c.manager p.conn :=
    rfl
  rw [publishMessage_of_taken h, if_pos hdelay]
  simp only [publishDelayAlgorithm, hcounter, if_true]
  generalize getStats (c.manager.respond c.env) (counted p c.message.length).conn c.stats = made
    at hstats
  obtain ⟨result, stats, copies⟩ := made
  rw [htopic] at hstats
  cases hfound : topicOf c.manager p.conn with
  | none =>
      rw [hfound] at hstats
      obtain ⟨rfl, rfl⟩ := Prod.mk.inj hstats
      rfl
  | some b =>
      rw [hfound] at hstats
      obtain ⟨rfl, rfl⟩ := Prod.mk.inj hstats
      rfl

end Call

/-! ## Any number of calls -/

/-- Calls one after the other: what they return, and the handle behind them. -/
def publishAll : List PublishCall → LightqProducerConn → List Published × LightqProducerConn
  | [], p => ([], p)
  | c :: calls, p =>
      let published := publishMessage c p
      let (results, p) := publishAll calls published.handle
      (published :: results, p)

/-- The length of the message, or -1. -/
def PublishCall.value (c : PublishCall) : Int := if c.taken then c.message.length else -1

/-- The calls that ask the broker: every 250000th of those whose message is
taken, if the handle is to hold back. -/
def asking (p : LightqProducerConn) (calls : List PublishCall) : List PublishCall :=
  if p.delayPubOnSlowConsumer then
    everyNth 250000 p.conn.messageCounter (calls.filter PublishCall.taken)
  else []

/-- The topic, each time that the broker tells its figures. -/
def answers (p : LightqProducerConn) (calls : List PublishCall) : List Broker :=
  (asking p calls).filterMap fun c => topicOf c.manager p.conn

/-- The length of its queue, as `uint64_t`. -/
def queueSizes (p : LightqProducerConn) (calls : List PublishCall) : List UInt64 :=
  (answers p calls).map fun b => UInt64.ofNat b.getQueueSize

/-- The handle: the messages that are taken are counted, with their bytes, and of
the figures told the last ones are kept. -/
def after (p : LightqProducerConn) (calls : List PublishCall) (told : List Broker) :
    LightqProducerConn :=
  { conn := { p.conn with
      messageCounter := p.conn.messageCounter + calls.countP PublishCall.taken
      payloadSizeCounter := p.conn.payloadSizeCounter
        + ((calls.filter PublishCall.taken).map fun c => c.message.length).sum }
    lastQueueSize := (told.map fun b => UInt64.ofNat b.getQueueSize).getLastD p.lastQueueSize
    topicType := (told.map fun b => b.config.getBrokerTypeToStr).getLastD p.topicType
    delayPubOnSlowConsumer := p.delayPubOnSlowConsumer }

/-- What a run of calls comes to.  Each length told is waited for according to the
one before it. -/
structure Accounts (p : LightqProducerConn) (calls : List PublishCall)
    (results : List Published) (p' : LightqProducerConn) : Prop where
  values : results.map Published.value = calls.map PublishCall.value
  requests : results.countP Published.asked = (asking p calls).length
  waits : (results.map Published.wait).filter (· ≠ .none)
    = (List.zipWith waitFor (p.lastQueueSize :: queueSizes p calls)
        (queueSizes p calls)).filter (· ≠ .none)
  handle : p' = after p calls (answers p calls)

section Run

variable {c : PublishCall} {calls : List PublishCall} {p p' : LightqProducerConn}
  {results : List Published}

theorem asking_of_not_taken (p : LightqProducerConn) (calls : List PublishCall)
    (h : c.taken = false) : asking p (c :: calls) = asking p calls := by
  rw [asking, List.filter_cons_of_neg (by rw [h]; decide), asking]

theorem asking_of_unasked (calls : List PublishCall) (h : c.taken = true)
    (hasked : ¬ (p.delayPubOnSlowConsumer = true ∧ (p.conn.messageCounter + 1) % 250000 = 0)) :
    asking p (c :: calls) = asking (counted p c.message.length) calls := by
  rw [asking, asking, List.filter_cons_of_pos h]
  split
  · next hdelay =>
      rw [everyNth_cons_of_not_dvd fun hzero => hasked ⟨hdelay, hzero⟩]
      exact (if_pos hdelay).symm
  · next hdelay => exact (if_neg hdelay).symm

theorem asking_of_asked (calls : List PublishCall) (h : c.taken = true)
    (hdelay : p.delayPubOnSlowConsumer = true) (hasked : (p.conn.messageCounter + 1) % 250000 = 0) :
    asking p (c :: calls) = c :: asking (counted p c.message.length) calls := by
  rw [asking, if_pos hdelay, List.filter_cons_of_pos h, everyNth_cons_of_dvd hasked]
  exact congrArg (c :: ·) (if_pos hdelay).symm

theorem after_of_not_taken {told : List Broker} (h : c.taken = false) :
    after p (c :: calls) told = after p calls told := by
  have hnot : ¬ c.taken = true := by
    rw [h]
    exact Bool.false_ne_true
  rw [after, List.countP_cons_of_neg hnot, List.filter_cons_of_neg hnot, after]

theorem after_counted {told : List Broker} (h : c.taken = true) :
    after (counted p c.message.length) calls told = after p (c :: calls) told := by
  have hcounter : p.conn.messageCounter + 1 + calls.countP PublishCall.taken
      = p.conn.messageCounter + (calls.countP PublishCall.taken + 1) := by omega
  rw [after, after, List.countP_cons_of_pos h, List.filter_cons_of_pos h, List.map_cons,
    List.sum_cons, ← hcounter, ← Nat.add_assoc]
  rfl

theorem after_noted {told : List Broker} {b : Broker} :
    after (noted p b) calls told = after p calls (b :: told) := by
  rw [after, after, List.map_cons, List.map_cons, List.getLastD_cons, List.getLastD_cons]
  rfl

theorem Accounts.cons_of_not_taken (h : c.taken = false) (hrest : Accounts p calls results p') :
    Accounts p (c :: calls) (⟨-1, p, false, .none⟩ :: results) p' := by
  have hasking := asking_of_not_taken p calls h
  have hanswers : answers p (c :: calls) = answers p calls := by rw [answers, hasking, answers]
  have hsizes : queueSizes p (c :: calls) = queueSizes p calls := by
    rw [queueSizes, hanswers, queueSizes]
  have hvalue : c.value = -1 := by rw [PublishCall.value, h]; rfl
  refine ⟨?_, ?_, ?_, ?_⟩
  · rw [List.map_cons, List.map_cons, hrest.values, hvalue]
  · rw [List.countP_cons_of_neg Bool.false_ne_true, hrest.requests, hasking]
  · rw [hsizes]
    exact hrest.waits
  · rw [hanswers, after_of_not_taken h]
    exact hrest.handle

theorem Accounts.cons_of_untold {asked : Bool} (h : c.taken = true)
    (hrequests : (asking p (c :: calls)).length
      = (asking (counted p c.message.length) calls).length + if asked then 1 else 0)
    (hanswers : answers p (c :: calls) = answers (counted p c.message.length) calls)
    (hrest : Accounts (counted p c.message.length) calls results p') :
    Accounts p (c :: calls)
      (⟨c.message.length, counted p c.message.length, asked, .none⟩ :: results) p' := by
  have hsizes : queueSizes p (c :: calls) = queueSizes (counted p c.message.length) calls := by
    rw [queueSizes, hanswers, queueSizes]
  have hvalue : c.value = c.message.length := if_pos h
  refine ⟨?_, ?_, ?_, ?_⟩
  · rw [List.map_cons, List.map_cons, hrest.values, hvalue]
  · rw [List.countP_cons, hrest.requests, hrequests]
  · rw [hsizes]
    exact hrest.waits
  · rw [hanswers, ← after_counted h]
    exact hrest.handle

theorem Accounts.cons_of_unasked (h : c.taken = true)
    (hasked : ¬ (p.delayPubOnSlowConsumer = true ∧ (p.conn.messageCounter + 1) % 250000 = 0))
    (hrest : Accounts (counted p c.message.length) calls results p') :
    Accounts p (c :: calls)
      (⟨c.message.length, counted p c.message.length, false, .none⟩ :: results) p' := by
  have hasking := asking_of_unasked calls h hasked
  refine hrest.cons_of_untold h (by rw [hasking]; rfl) ?_
  rw [answers, hasking]
  rfl

theorem Accounts.cons_of_refused (h : c.taken = true) (hdelay : p.delayPubOnSlowConsumer = true)
    (hasked : (p.conn.messageCounter + 1) % 250000 = 0) (hnone : topicOf c.manager p.conn = none)
    (hrest : Accounts (counted p c.message.length) calls results p') :
    Accounts p (c :: calls)
      (⟨c.message.length, counted p c.message.length, true, .none⟩ :: results) p' := by
  have hasking := asking_of_asked calls h hdelay hasked
  refine hrest.cons_of_untold h (by rw [hasking]; rfl) ?_
  rw [answers, hasking]
  exact List.filterMap_cons_none hnone

theorem Accounts.cons_of_told {b : Broker} (h : c.taken = true)
    (hdelay : p.delayPubOnSlowConsumer = true)
    (hasked : (p.conn.messageCounter + 1) % 250000 = 0) (hsome : topicOf c.manager p.conn = some b)
    (hrest : Accounts (noted (counted p c.message.length) b) calls results p') :
    Accounts p (c :: calls)
      (⟨c.message.length, noted (counted p c.message.length) b, true,
        waitFor p.lastQueueSize (UInt64.ofNat b.getQueueSize)⟩ :: results) p' := by
  have hasking := asking_of_asked calls h hdelay hasked
  have hanswers : answers p (c :: calls)
      = b :: answers (noted (counted p c.message.length) b) calls := by
    rw [answers, hasking]
    exact List.filterMap_cons_some hsome
  have hsizes : queueSizes p (c :: calls)
      = UInt64.ofNat b.getQueueSize :: queueSizes (noted (counted p c.message.length) b) calls := by
    rw [queueSizes, hanswers, List.map_cons, queueSizes]
  have hvalue : c.value = c.message.length := if_pos h
  refine ⟨?_, ?_, ?_, ?_⟩
  · rw [List.map_cons, List.map_cons, hrest.values, hvalue]
  · rw [List.countP_cons_of_pos rfl, hrest.requests, hasking, List.length_cons]
    rfl
  · rw [hsizes, List.map_cons, List.zipWith_cons_cons, List.filter_cons, List.filter_cons,
      hrest.waits]
    rfl
  · rw [hanswers, ← after_counted h, ← after_noted]
    exact hrest.handle

theorem accounts_publishAll (calls : List PublishCall) (p : LightqProducerConn) :
    Accounts p calls (publishAll calls p).1 (publishAll calls p).2 := by
  induction calls generalizing p with
  | nil =>
      have hasking : asking p [] = [] := by
        rw [asking, List.filter_nil, everyNth_nil, ite_self]
      have hanswers : answers p [] = [] := by rw [answers, hasking, List.filterMap_nil]
      refine ⟨rfl, ?_, ?_, ?_⟩
      · rw [hasking]
        rfl
      · rw [queueSizes, hanswers]
        rfl
      · rw [hanswers]
        rfl
  | cons c calls ih =>
      rw [publishAll]
      cases htaken : c.taken with
      | false =>
          rw [publishMessage_of_not_taken htaken]
          exact (ih p).cons_of_not_taken htaken
      | true =>
          by_cases hasked : p.delayPubOnSlowConsumer = true ∧
              (p.conn.messageCounter + 1) % 250000 = 0
          · have hcall := publishMessage_of_asked htaken hasked.1 hasked.2
            cases htopic : topicOf c.manager p.conn with
            | none =>
                rw [htopic] at hcall
                rw [hcall]
                exact (ih _).cons_of_refused htaken hasked.1 hasked.2 htopic
            | some b =>
                rw [htopic] at hcall
                rw [hcall]
                exact (ih _).cons_of_told htaken hasked.1 hasked.2 htopic
          · rw [publishMessage_of_unasked htaken hasked]
            exact (ih _).cons_of_unasked htaken hasked

end Run

/-- Any number of calls of `publish_message`, whatever the socket and the broker
do in between.  A call returns the length of its message, or -1 and leaves no
trace.  Of the messages that are taken, every 250000th since the handle was made
is followed by a request for the figures of the topic, unless the handle is not
to hold back; what is waited for depends only on the lengths of the queue that
the broker tells, each with the one told before it. -/
theorem publish_run (calls : List PublishCall) (p : LightqProducerConn) :
    Accounts p calls (publishAll calls p).1 (publishAll calls p).2 ∧
      (publishAll calls p).1.countP Published.asked =
        if p.delayPubOnSlowConsumer then
          (p.conn.messageCounter + calls.countP PublishCall.taken) / 250000
            - p.conn.messageCounter / 250000
        else 0 := by
  have haccounts := accounts_publishAll calls p
  refine ⟨haccounts, ?_⟩
  rw [haccounts.requests, asking]
  split
  · rw [length_everyNth, List.countP_eq_length_filter]
  · rfl

end Client

end LightQ
