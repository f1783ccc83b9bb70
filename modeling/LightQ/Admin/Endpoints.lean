/-
# `Admin.Endpoints` — endpoints that were initialised, and those that were not

`init_producer` and `init_consumer` assign the pointer that later joins test
before they call anything that can fail, and no failure takes it back.  The
join that meets the failure is answered with an error; the next one finds the
pointer set and is told `ok`.

`Opens` says what a message does to the topics, with the request and the
checks it has passed.  A run keeps every endpoint `Up` as long as no
initialisation fails, `InitsSucceed`; `failed_init_traceless_iff` says that
this is the only case in which a failure leaves no trace.

Most of the module is about what `init` comes to.  A ZeroMQ consumer whose push
socket fails does not make its pub socket (`init_zmq`), the value is that of the
sockets that are made (`init_value`, `initConsumer_value`), and a consumer whose
`init` returns true has the sockets of its stream (`init_sockets`).  An
initialisation that fails has the value false, and the pointer is set all the same
(`openEndpoint_failed`).

A message `Joins` a topic if it is a join that is let in.  It goes to the branch of
its type (`Joins.processCommand`), and the topic is stored with the endpoint
(`Joins.find`); it is answered with the URI of an endpoint that is there or can be
opened (`Joins.replies`), and with an error otherwise (`Joins.replies_failed`).  A
message that does not join changes no endpoint (`processCommand_of_not_joins`,
`replies_of_not_joins`), and what holds of it is true of whatever join there is
(`iff_forall_joins`).  What a message keeps of all topics, opening an endpoint keeps
and new topics have (`Topics.processCommand`).
-/
import LightQ.Admin.JoinUris
import LightQ.Lib.Runs

namespace LightQ

/-! ## One endpoint -/

/-- `init` and `run` of the producer returned true: what they leave. -/
structure Producer.Up (p : Producer) : Prop where
  socket : p.pProducerSocket = some ⟨p.config.producerBindUri, .zmq, some .pull, true⟩
  running : p.running = true

/-- What `init` leaves of the sockets of a consumer when it returns true. -/
def Consumer.Sockets (c : Consumer) : StreamType → Prop
  | .zmq =>
      c.pConsumerSocket = some ⟨c.config.pushBindUri, .zmq, some .push, true⟩ ∧
        c.pConsumerPubSocket = some ⟨c.config.pubBindUri, .zmq, some .pub, true⟩
  | .socket =>
      c.pConsumerSocket = some ⟨c.config.pushBindUri, .socket, none, true⟩ ∧
        c.pConsumerPubSocket = none
  | .file => False

structure Consumer.Up (c : Consumer) : Prop where
  sockets : c.Sockets c.config.streamType
  running : c.running = true

/-- What `init` of a consumer returns, given its sockets. -/
def AdminEnv.consumerInit (env : AdminEnv) : StreamType → Bool
  | .zmq => env.pushInit && env.pubInit
  | .socket => env.pushInit
  | .file => false

structure Broker.Up (b : Broker) : Prop where
  producer : ∀ {p}, b.pProducer = some p → p.Up
  consumer : ∀ {c}, b.pConsumer = some c → c.Up

/-- `init` and `run` of the producer both succeeded. -/
def Producer.Started (p : Producer) : Prop :=
  (∃ socket, p.pProducerSocket = some socket ∧ socket.initialized = true) ∧ p.running = true

/-- `init` and `run` of the consumer both succeeded. -/
def Consumer.Started (c : Consumer) : Prop :=
  (∃ socket, c.pConsumerSocket = some socket ∧ socket.initialized = true) ∧
    (∀ {socket}, c.pConsumerPubSocket = some socket → socket.initialized = true) ∧
    c.running = true

theorem Producer.Up.started {p : Producer} (h : p.Up) : p.Started :=
  ⟨⟨_, h.socket, rfl⟩, h.running⟩

theorem Consumer.Up.started {c : Consumer} (h : c.Up) : c.Started := by
  have hsockets := h.sockets
  cases hs : c.config.streamType with
  | zmq =>
      rw [hs] at hsockets
      refine ⟨⟨_, hsockets.1, rfl⟩, fun hsocket => ?_, h.running⟩
      obtain rfl := Option.some.inj (hsockets.2.symm.trans hsocket)
      rfl
  | socket =>
      rw [hs] at hsockets
      refine ⟨⟨_, hsockets.1, rfl⟩, fun hsocket => ?_, h.running⟩
      rw [hsockets.2] at hsocket
      cases hsocket
  | file =>
      rw [hs] at hsockets
      exact hsockets.elim

namespace Consumer

variable {c : Consumer} (env : AdminEnv)

theorem init_zmq (hs : c.config.streamType = .zmq) (hpush : c.config.pushBindUri ≠ [])
    (hpub : c.config.pubBindUri ≠ []) :
    c.init env =
      if env.pushInit then
        (.ok env.pubInit, { c with
          pConsumerSocket := some ⟨c.config.pushBindUri, .zmq, some .push, env.pushInit⟩
          pConsumerPubSocket := some ⟨c.config.pubBindUri, .zmq, some .pub, env.pubInit⟩ })
      else
        (.ok false, { c with
          pConsumerSocket := some ⟨c.config.pushBindUri, .zmq, some .push, env.pushInit⟩ }) := by
  simp only [init, hs, initPush, if_neg hpush]
  cases henv : env.pushInit with
  | false => rfl
  | true => simp only [initPub, if_neg hpub, if_true]

theorem init_value (hpush : c.config.pushBindUri ≠ []) (hpub : c.config.pubBindUri ≠ [])
    (hstream : c.config.streamType ≠ .file) :
    (c.init env).1 = .ok (env.consumerInit c.config.streamType) := by
  cases hs : c.config.streamType with
  | zmq =>
      rw [init_zmq env hs hpush hpub, AdminEnv.consumerInit]
      cases env.pushInit with
      | false => rfl
      | true => rfl
  | socket => simp only [init, hs, AdminEnv.consumerInit]
  | file => exact absurd hs hstream

theorem init_sockets (hpush : c.config.pushBindUri ≠ []) (hpub : c.config.pubBindUri ≠ [])
    (hnone : c.pConsumerPubSocket = none) (h : (c.init env).1 = .ok true) :
    (c.init env).2.Sockets c.config.streamType := by
  cases hs : c.config.streamType with
  | zmq =>
      rw [init_zmq env hs hpush hpub] at h ⊢
      cases henv : env.pushInit with
      | false => simp [henv] at h
      | true =>
          rw [henv, if_pos rfl] at h
          have hpubInit : env.pubInit = true := Except.ok.inj h
          exact ⟨rfl, by rw [hpubInit]; rfl⟩
  | socket =>
      simp only [init, hs, Except.ok.injEq] at h ⊢
      exact ⟨by rw [h], hnone⟩
  | file => simp [init, hs] at h

end Consumer

namespace Broker

variable {b : Broker} {env : AdminEnv}

theorem initProducer_up {conf : ProducerConfig} (hstream : conf.producerStreamType = .zmq)
    (h : env.producerInit = true) (hup : b.Up) : (b.initProducer conf env).2.Up where
  producer := by
    intro p hp
    simp only [initProducer, Producer.init, Producer.new, Producer.run, hstream, h,
      Option.some.injEq] at hp
    subst hp
    exact ⟨rfl, rfl⟩
  consumer hc := hup.consumer ((b.initProducer_pConsumer env conf).symm.trans hc)

theorem initConsumer_up {conf : ConsumerConfig} (hpush : conf.pushBindUri ≠ [])
    (hpub : conf.pubBindUri ≠ []) (hstream : conf.streamType ≠ .file)
    (h : env.consumerInit conf.streamType = true) (hup : b.Up) :
    (b.initConsumer conf env).2.Up where
  producer hp := hup.producer ((b.initConsumer_pProducer env conf).symm.trans hp)
  consumer := by
    intro c hc
    have hvalue : ((Consumer.new conf).init env).1 = .ok true := by
      rw [Consumer.init_value env hpush hpub hstream]
      exact congrArg Except.ok h
    have hsockets := Consumer.init_sockets (c := Consumer.new conf) env hpush hpub rfl hvalue
    have hconfig := (Consumer.new conf).init_config env
    rw [initConsumer] at hc
    generalize (Consumer.new conf).init env = r at hc hvalue hsockets hconfig
    obtain ⟨result, c₁⟩ := r
    obtain rfl : result = .ok true := hvalue
    obtain rfl := Option.some.inj hc
    refine ⟨?_, rfl⟩
    show Consumer.Sockets _ c₁.config.streamType
    rw [show c₁.config = conf from hconfig]
    cases hs : conf.streamType with
    | zmq => exact hs ▸ hsockets
    | socket => exact hs ▸ hsockets
    | file => exact absurd hs hstream

theorem initConsumer_value {conf : ConsumerConfig} (hpush : conf.pushBindUri ≠ [])
    (hpub : conf.pubBindUri ≠ []) (hstream : conf.streamType ≠ .file) :
    (b.initConsumer conf env).1 = .ok (env.consumerInit conf.streamType) := by
  have hvalue := Consumer.init_value (c := Consumer.new conf) env hpush hpub hstream
  rw [initConsumer]
  split
  · next c heq =>
      rw [heq] at hvalue
      exact hvalue
  · next result c _ heq =>
      rw [heq] at hvalue
      exact hvalue

end Broker

namespace BrokerManager

/-! ## What a message opens -/

/-- A join request that is let in, and the topic it names. -/
structure Joins (m : BrokerManager) (message : Bytes) (req : JoinReq) (b : Broker) : Prop where
  request : IsJoin message req
  grants : m.Grants req.topic req.userId req.password b

/-- The endpoint that a join asks for: what opening it returns, and leaves. -/
def openEndpoint (m : BrokerManager) (env : AdminEnv) (req : JoinReq) (b : Broker) :
    Except Thrown Bool × Broker × Option Nat :=
  if req.type = ascii "pub" then m.openProducer env b else m.openConsumer env b req.connectionType

/-- The manager after a message, with the request that brought it about. -/
inductive Opens (m : BrokerManager) (env : AdminEnv) (message : Bytes) : BrokerManager → Prop
  | same : (∀ req b, ¬ m.Joins message req b) → Opens m env message m
  | created {req : CreateTopicReq} : (∀ req b, ¬ m.Joins message req b) →
      OrderedMap.find req.topic m.brokers = none →
      Opens m env message { m with
        brokers := OrderedMap.assign req.topic (Broker.init (topicConfig req)).2 m.brokers }
  | joined {req : JoinReq} {b : Broker} : m.Joins message req b →
      Opens m env message
        (m.store req.topic (m.openEndpoint env req b).2.1 (m.openEndpoint env req b).2.2)

section Messages

variable {m : BrokerManager} {env : AdminEnv} {message : Bytes} {req : JoinReq} {b : Broker}

theorem Joins.inj {req' : JoinReq} {b' : Broker} (h : m.Joins message req b)
    (h' : m.Joins message req' b') : req = req' ∧ b = b' := by
  obtain rfl := h.request.inj h'.request
  exact ⟨rfl, Option.some.inj (h.grants.1.symm.trans h'.grants.1)⟩

/-- What holds of a message that is let in as a join exactly when `Q` holds of
the join, and of every other message, says `Q` of whatever join there is. -/
theorem iff_forall_joins {P : Prop} {Q : JoinReq → Broker → Prop}
    (hjoins : ∀ {req b}, m.Joins message req b → (P ↔ Q req b))
    (hnot : (∀ req b, ¬ m.Joins message req b) → P) :
    P ↔ ∀ {req b}, m.Joins message req b → Q req b := by
  refine ⟨fun hP req b h => (hjoins h).mp hP, fun hQ => ?_⟩
  by_cases hany : ∃ req b, m.Joins message req b
  · obtain ⟨req, b, h⟩ := hany
    exact (hjoins h).mpr (hQ h)
  · exact hnot fun req b h => hany ⟨req, b, h⟩

theorem Joins.processCommand (h : m.Joins message req b) :
    m.processCommand env message =
      if req.type = ascii "pub" then m.joinProducer env req b else m.joinConsumer env req b := by
  obtain ⟨hb, huser, hpassword⟩ := h.grants
  have hauth : unauthorized b.config.userId b.config.password req.userId req.password = false := by
    rw [unauthorized, huser, hpassword]
    simp
  rw [processCommand_join h.request, replyToJoinTopic, hb]
  simp only [hauth, Bool.false_eq_true, if_false]

theorem processCommand_of_not_joins (env : AdminEnv) (hreq : IsJoin message req)
    (h : ∀ b, ¬ m.Joins message req b) :
    ∃ description, m.processCommand env message =
      m.replyCommon env JoinReq.cmd statusError description ∧
        (description = statusTopicNotFound ∨ description = cmdUnauth) := by
  rw [processCommand_join hreq, replyToJoinTopic]
  split
  · exact ⟨_, rfl, Or.inl rfl⟩
  · next b hb =>
      split
      · exact ⟨_, rfl, Or.inr rfl⟩
      · next hauth => exact absurd ⟨hreq, hb, not_unauthorized hauth⟩ (h b)

theorem not_joins_of_not_isJoin (h : ∀ req, ¬ IsJoin message req) (req : JoinReq) (b : Broker) :
    ¬ m.Joins message req b := fun hjoins => h req hjoins.request

theorem Joins.manager (h : m.Joins message req b) :
    (m.processCommand env message).manager =
      m.store req.topic (m.openEndpoint env req b).2.1 (m.openEndpoint env req b).2.2 := by
  rw [h.processCommand, openEndpoint]
  split
  · exact joinProducer_manager m env req b
  · exact joinConsumer_manager m env req b

theorem processCommand_opens (m : BrokerManager) (env : AdminEnv) (message : Bytes) :
    Opens m env message (m.processCommand env message).manager := by
  by_cases hjoin : ∃ req, IsJoin message req
  · obtain ⟨req, hreq⟩ := hjoin
    by_cases hin : ∃ b, m.Joins message req b
    · obtain ⟨b, hb⟩ := hin
      rw [hb.manager]
      exact .joined hb
    · have hout : ∀ b, ¬ m.Joins message req b := fun b hb => hin ⟨b, hb⟩
      obtain ⟨description, heq, -⟩ := processCommand_of_not_joins env hreq hout
      rw [heq]
      refine .same ?_
      intro req' b hb
      obtain rfl := hreq.inj hb.request
      exact hout b hb
  · have hno := not_joins_of_not_isJoin (m := m) fun req hreq => hjoin ⟨req, hreq⟩
    -- no request of a join is read, so that its handler is not reached
    cases m.processCommand_effect env message with
    | none hm _ =>
        rw [hm]
        exact .same hno
    | counted _ _ hm =>
        rw [hm]
        exact .same hno
    | created _ hnone _ _ _ hm =>
        rw [hm]
        exact .created hno hnone
    | joined hreq _ _ _ _ => exact absurd ⟨_, hreq⟩ hjoin

end Messages

/-! ## What opening leaves -/

section Opening

variable {m : BrokerManager} {env : AdminEnv} {req : JoinReq} {b : Broker}

/-- The endpoint that the join asks for is there, or its initialisation
succeeds. -/
def OpenSucceeds (env : AdminEnv) (req : JoinReq) (b : Broker) : Prop :=
  if req.type = ascii "pub" then b.pProducer = none → env.producerInit = true
  else b.pConsumer = none → env.consumerInit (streamOf req.connectionType) = true

theorem nextUri_ne_nil (b : Broker) (port : Option Nat) : (nextUri b port).1 ≠ [] := by
  show b.config.bindInterface ++ ascii ":" ++ decimal _ ≠ []
  simp [ascii]

theorem openProducer_value (h : b.pProducer = none) :
    (m.openProducer env b).1 = .ok env.producerInit := by
  simp only [openProducer, h]
  exact Broker.initProducer_zmq b env rfl

theorem openConsumer_value (h : b.pConsumer = none) (connectionType : Bytes) :
    (m.openConsumer env b connectionType).1
      = .ok (env.consumerInit (streamOf connectionType)) := by
  simp only [openConsumer, h]
  exact Broker.initConsumer_value (nextUri_ne_nil _ _) (nextUri_ne_nil _ _)
    (streamOf_ne_file connectionType)

theorem openEndpoint_value (h : OpenSucceeds env req b) :
    (m.openEndpoint env req b).1 = .ok true := by
  by_cases hpub : req.type = ascii "pub"
  · simp only [OpenSucceeds, openEndpoint, if_pos hpub] at h ⊢
    cases hp : b.pProducer with
    | none => rw [openProducer_value hp, h hp]
    | some p => simp only [openProducer, hp]
  · simp only [OpenSucceeds, openEndpoint, if_neg hpub] at h ⊢
    cases hc : b.pConsumer with
    | none => rw [openConsumer_value hc, h hc]
    | some c => simp only [openConsumer, hc]

/-- An initialisation that fails: its value is false, and the pointer is set
all the same. -/
theorem openEndpoint_failed (h : ¬ OpenSucceeds env req b) :
    (m.openEndpoint env req b).1 = .ok false ∧
      ((m.openEndpoint env req b).2.1.pProducer ≠ b.pProducer ∨
        (m.openEndpoint env req b).2.1.pConsumer ≠ b.pConsumer) := by
  by_cases hpub : req.type = ascii "pub"
  · simp only [OpenSucceeds, openEndpoint, if_pos hpub] at h ⊢
    obtain ⟨hnone, hinit⟩ := Classical.not_imp.mp h
    rw [openProducer_value hnone, Bool.eq_false_iff.mpr hinit]
    refine ⟨rfl, Or.inl ?_⟩
    simp only [openProducer, hnone]
    intro hsame
    have huri := Broker.initProducer_uri b env ⟨b.config.id, (nextUri b m.port).1, .zmq⟩
    rw [hsame] at huri
    cases huri
  · simp only [OpenSucceeds, openEndpoint, if_neg hpub] at h ⊢
    obtain ⟨hnone, hinit⟩ := Classical.not_imp.mp h
    rw [openConsumer_value hnone, Bool.eq_false_iff.mpr hinit]
    refine ⟨rfl, Or.inr ?_⟩
    obtain ⟨c, hc⟩ := openConsumer_pConsumer m env b req.connectionType
    rw [hc, hnone]
    simp

theorem openEndpoint_up (h : OpenSucceeds env req b) (hup : b.Up) :
    (m.openEndpoint env req b).2.1.Up := by
  by_cases hpub : req.type = ascii "pub"
  · simp only [OpenSucceeds, openEndpoint, if_pos hpub] at h ⊢
    cases hp : b.pProducer with
    | none =>
        simp only [openProducer, hp]
        exact Broker.initProducer_up rfl (h hp) hup
    | some p =>
        simp only [openProducer, hp]
        exact hup
  · simp only [OpenSucceeds, openEndpoint, if_neg hpub] at h ⊢
    cases hc : b.pConsumer with
    | none =>
        simp only [openConsumer, hc]
        exact Broker.initConsumer_up (nextUri_ne_nil _ _) (nextUri_ne_nil _ _)
          (streamOf_ne_file req.connectionType) (h hc) hup
    | some c =>
        simp only [openConsumer, hc]
        exact hup

end Opening

/-! ## Replies to a join -/

section Replies

variable {m : BrokerManager} {env : AdminEnv} {message : Bytes} {req : JoinReq} {b : Broker}

/-- The replies of a join whose initialisation failed. -/
def InitFailed (reply : Reply) : Prop :=
  reply = .common ⟨JoinReq.cmd, statusError, ascii "Failed to initialize producer endpoint"⟩ ∨
    reply = .common ⟨JoinReq.cmd, statusError,
      ascii "Failed to initialize consumer endpoint for pull stream"⟩

instance (reply : Reply) : Decidable (InitFailed reply) := inferInstanceAs (Decidable (_ ∨ _))

theorem kindOf_pub (h : req.type = ascii "pub") : kindOf req.type = .pub := if_pos h

/-- An endpoint that is there or can be opened: the reply has its URI. -/
theorem Joins.replies (h : m.Joins message req b) (hok : OpenSucceeds env req b) :
    ∃ uri, endpointUri (m.openEndpoint env req b).2.1 (kindOf req.type) = some uri ∧
      (m.processCommand env message).replies
        = [.join ⟨statusSuccess, req.topic, localUri uri⟩] := by
  have hvalue := openEndpoint_value (m := m) hok
  rw [h.processCommand]
  by_cases hpub : req.type = ascii "pub"
  · simp only [openEndpoint, if_pos hpub] at hvalue ⊢
    obtain ⟨p, hp⟩ : ∃ p, (m.openProducer env b).2.1.pProducer = some p := by
      simp only [openProducer]
      split
      · next p hp => exact ⟨p, hp⟩
      · obtain ⟨p, hp, -⟩ := Option.map_eq_some_iff.mp
          (b.initProducer_uri env ⟨b.config.id, (nextUri b m.port).1, .zmq⟩)
        exact ⟨p, hp⟩
    refine ⟨p.getBindUri, by rw [kindOf_pub hpub, endpointUri, hp]; rfl, ?_⟩
    simp only [joinProducer, hvalue, hp]
    rfl
  · simp only [openEndpoint, if_neg hpub] at hvalue ⊢
    obtain ⟨c, hc⟩ := openConsumer_pConsumer m env b req.connectionType
    simp only [joinConsumer, hvalue, hc, kindOf, if_neg hpub]
    split
    · exact ⟨c.getPubBindUri, by rw [endpointUri, hc]; rfl, rfl⟩
    · exact ⟨c.getPushBindUri, by rw [endpointUri, hc]; rfl, rfl⟩

theorem Joins.replies_failed (h : m.Joins message req b) (hfail : ¬ OpenSucceeds env req b) :
    ∃ reply, (m.processCommand env message).replies = [reply] ∧ InitFailed reply := by
  have hvalue := (openEndpoint_failed (m := m) hfail).1
  rw [h.processCommand]
  by_cases hpub : req.type = ascii "pub"
  · simp only [openEndpoint, if_pos hpub] at hvalue ⊢
    simp only [joinProducer, hvalue]
    exact ⟨_, rfl, Or.inl rfl⟩
  · simp only [openEndpoint, if_neg hpub] at hvalue ⊢
    simp only [joinConsumer, hvalue]
    exact ⟨_, rfl, Or.inr rfl⟩

theorem replies_of_not_joins (env : AdminEnv) (hreq : IsJoin message req)
    (h : ∀ b, ¬ m.Joins message req b) :
    ∃ reply, (m.processCommand env message).replies = [reply] ∧ ¬ InitFailed reply ∧
      ∀ resp, reply ≠ .join resp := by
  obtain ⟨description, heq, hdescription⟩ := processCommand_of_not_joins env hreq h
  refine ⟨_, by rw [heq]; rfl, ?_, fun resp => Reply.noConfusion⟩
  rcases hdescription with rfl | rfl
  · decide
  · decide

end Replies

/-! ## Runs -/

/-- Every step of a run has the property in the state where it is taken. -/
abbrev Always (P : BrokerManager → AdminStep → Prop) (m : BrokerManager) (steps : List AdminStep) :
    Prop :=
  Runs.Along (fun m s => some (m.step s)) P m steps

/-- Every topic has the property. -/
def Topics (P : Broker → Prop) (m : BrokerManager) : Prop :=
  ∀ topic b, OrderedMap.find topic m.brokers = some b → P b

theorem Topics.processCommand {P : Broker → Prop} {m : BrokerManager} {env : AdminEnv}
    {text : Bytes} (hinit : ∀ req, P (Broker.init (topicConfig req)).2)
    (hopen : ∀ {req b}, m.Joins text req b → P b → P (m.openEndpoint env req b).2.1)
    (h : m.Topics P) : (m.processCommand env text).manager.Topics P := by
  intro topic b hb
  have hopens := m.processCommand_opens env text
  generalize (m.processCommand env text).manager = m' at hopens hb
  cases hopens with
  | same _ => exact h topic b hb
  | created _ _ =>
      rw [OrderedMap.find_assign] at hb
      split at hb
      · obtain rfl := Option.some.inj hb
        exact hinit _
      · exact h topic b hb
  | joined hjoins =>
      rw [store, OrderedMap.find_assign] at hb
      split at hb
      · obtain rfl := Option.some.inj hb
        exact hopen hjoins (h _ _ hjoins.grants.1)
      · exact h topic b hb

theorem topics_start (P : Broker → Prop) (userId password : Bytes) (port : Option Nat) :
    (start userId password port).Topics P := by
  intro topic b hb
  cases hb

/-- No initialisation that a step makes fails. -/
def InitsSucceed (m : BrokerManager) : AdminStep → Prop
  | .message text env => ∀ {req b}, m.Joins text req b → OpenSucceeds env req b
  | .work _ _ => True

theorem up_init (conf : BrokerConfig) : (Broker.init conf).2.Up where
  producer hp := by cases hp
  consumer hc := by cases hc

theorem InitsSucceed.up {m : BrokerManager} {s : AdminStep} (h : m.InitsSucceed s)
    (hup : m.Topics Broker.Up) : (m.step s).Topics Broker.Up := by
  cases s with
  | message text env =>
      exact hup.processCommand (fun req => up_init _)
        fun hjoins hb => openEndpoint_up (h hjoins) hb
  | work other storage =>
      intro topic b hb
      rcases m.work_find other topic storage with heq | ⟨b₀, hb₀, heq⟩
      · exact hup topic b (heq.symm.trans hb)
      · obtain rfl := Option.some.inj (heq.symm.trans hb)
        exact ⟨(hup topic b₀ hb₀).producer, (hup topic b₀ hb₀).consumer⟩

/-! ## A failure leaves a trace -/

/-- `get_producer()` and `get_consumer()` of a topic. -/
def endpoints (m : BrokerManager) (topic : Bytes) : Option (Option Producer × Option Consumer) :=
  (OrderedMap.find topic m.brokers).map fun b => (b.pProducer, b.pConsumer)

/-- The endpoint that a join of this kind is answered with has been started. -/
def StartedFor (b : Broker) : Kind → Prop
  | .pub => ∃ p, b.pProducer = some p ∧ p.Started
  | .sub => ∃ c, b.pConsumer = some c ∧ c.Started
  | .other => ∃ c, b.pConsumer = some c ∧ c.Started

/-- A join that is answered with the error of an initialisation leaves the
endpoints of the topic as they were, and one that is answered with ok refers
to an endpoint that has been started. -/
def LeavesNoTrace (m : BrokerManager) : AdminStep → Prop
  | .message text env => ∀ {req}, IsJoin text req →
      (∀ reply ∈ (m.processCommand env text).replies, InitFailed reply →
        (m.processCommand env text).manager.endpoints req.topic = m.endpoints req.topic) ∧
      (∀ resp, .join resp ∈ (m.processCommand env text).replies → resp.status = statusSuccess →
        ∃ b, OrderedMap.find req.topic (m.processCommand env text).manager.brokers = some b ∧
          StartedFor b (kindOf req.type))
  | .work _ _ => True

section Failure

variable {m : BrokerManager} {env : AdminEnv} {text : Bytes} {req : JoinReq} {b : Broker}

theorem Joins.find (h : m.Joins text req b) :
    OrderedMap.find req.topic (m.processCommand env text).manager.brokers
      = some (m.openEndpoint env req b).2.1 := by
  rw [h.manager, store, OrderedMap.find_assign_self]

theorem startedFor_of_up {kind : Kind} {uri : Bytes} (hup : b.Up)
    (huri : endpointUri b kind = some uri) : StartedFor b kind := by
  cases kind with
  | pub =>
      obtain ⟨p, hp, -⟩ := Option.map_eq_some_iff.mp huri
      exact ⟨p, hp, (hup.producer hp).started⟩
  | sub =>
      obtain ⟨c, hc, -⟩ := Option.map_eq_some_iff.mp huri
      exact ⟨c, hc, (hup.consumer hc).started⟩
  | other =>
      obtain ⟨c, hc, -⟩ := Option.map_eq_some_iff.mp huri
      exact ⟨c, hc, (hup.consumer hc).started⟩

/-- The join itself: no trace exactly if its initialisation does not fail. -/
theorem Joins.leavesNoTrace_iff (h : m.Joins text req b) (hup : b.Up) :
    m.LeavesNoTrace (.message text env) ↔ OpenSucceeds env req b := by
  constructor
  · intro htrace
    by_contra hfail
    obtain ⟨reply, hreply, hfailed⟩ := h.replies_failed hfail
    have hsame := (htrace h.request).1 reply (by rw [hreply]; exact List.mem_cons_self) hfailed
    rw [endpoints, endpoints, h.find, h.grants.1, Option.map_some, Option.map_some] at hsame
    obtain ⟨hproducer, hconsumer⟩ := Prod.mk.inj (Option.some.inj hsame)
    rcases (openEndpoint_failed (m := m) hfail).2 with hne | hne
    · exact hne hproducer
    · exact hne hconsumer
  · intro hok req' hreq'
    obtain rfl := h.request.inj hreq'
    obtain ⟨uri, huri, hreplies⟩ := h.replies hok
    rw [hreplies]
    refine ⟨fun reply hreply hfailed => ?_, fun resp _ _ => ?_⟩
    · obtain rfl := List.mem_singleton.mp hreply
      rcases hfailed with heq | heq
      · cases heq
      · cases heq
    · exact ⟨_, h.find, startedFor_of_up (openEndpoint_up hok hup) huri⟩

theorem leavesNoTrace_of_not_joins (h : ∀ req b, ¬ m.Joins text req b) :
    m.LeavesNoTrace (.message text env) := by
  intro req hreq
  obtain ⟨reply, hreplies, hfailed, hjoin⟩ := replies_of_not_joins env hreq (h req)
  rw [hreplies]
  refine ⟨fun reply' hreply => ?_, fun resp hresp => ?_⟩
  · obtain rfl := List.mem_singleton.mp hreply
    exact fun hinit => absurd hinit hfailed
  · exact absurd (List.mem_singleton.mp hresp).symm (hjoin resp)

theorem leavesNoTrace_iff {s : AdminStep} (hup : m.Topics Broker.Up) :
    m.LeavesNoTrace s ↔ m.InitsSucceed s := by
  cases s with
  | work topic storage => exact Iff.rfl
  | message text env =>
      exact iff_forall_joins (fun hb => hb.leavesNoTrace_iff (hup _ _ hb.grants.1))
        leavesNoTrace_of_not_joins

end Failure

/-- In every run, whatever fails: a failed initialisation leaves no trace and
every ok reply refers to an endpoint that was started, if and only if no
initialisation fails. -/
theorem failed_init_traceless_iff (userId password : Bytes) (port : Option Nat)
    (steps : List AdminStep) :
    Always LeavesNoTrace (start userId password port) steps ↔
      Always InitsSucceed (start userId password port) steps := by
  refine Runs.along_iff_along (I := Topics Broker.Up) (P := fun _ _ => True) ?_ ?_
    (topics_start _ _ _ _) (Runs.along_of_forall (P := fun _ => True) fun _ _ => trivial)
  · intro m s m' hup _ hok hstep
    obtain rfl := Option.some.inj hstep
    exact hok.up hup
  · intro m s hup _
    exact leavesNoTrace_iff hup

/-- Sockets that can be opened. -/
def openingEnv : AdminEnv := ⟨true, true, true, 0, 0, 0, fun reply => reply.length⟩

def createText (brokerType : Bytes) : Bytes :=
  ascii "\x7b\"cmd\": \"create_topic\", \"topic\": \"t\", \"broker_type\": \"" ++ brokerType ++
    ascii "\"\x7d"

def joinText (type connectionType : Bytes) : Bytes :=
  ascii "\x7b\"cmd\": \"join\", \"topic\": \"t\", \"type\": \"" ++ type ++
    ascii "\", \"connection_type\": \"" ++ connectionType ++ ascii "\"\x7d"

/-- A topic, and a publisher whose socket cannot be opened: the producer stays,
without a thread.  The next publisher is told `ok`. -/
theorem failed_init_leaves_trace :
    let steps : List AdminStep :=
      [.message (createText (ascii "queue")) openingEnv,
        .message (joinText (ascii "pub") (ascii "zmq")) { openingEnv with producerInit := false }]
    ¬ Always LeavesNoTrace (start [] [] none) steps ∧
      ((start [] [] none).run steps).endpoints (ascii "t") =
        some (some ⟨⟨ascii "t", ascii "tcp://*:5000", .zmq⟩,
          some ⟨ascii "tcp://*:5000", .zmq, some .pull, false⟩, false⟩, none) ∧
      (((start [] [] none).run steps).processCommand openingEnv
          (joinText (ascii "pub") (ascii "zmq"))).replies =
        [.join ⟨statusSuccess, ascii "t", ascii "tcp://127.0.0.1:5000"⟩] := by
  refine ⟨fun h => ?_, by decide, by decide⟩
  have hjoin : IsJoin (joinText (ascii "pub") (ascii "zmq"))
      ⟨ascii "pub", ascii "t", [], [], ascii "zmq"⟩ := ⟨by decide, by decide⟩
  have hsame := ((h.2 _ rfl).1 hjoin).1
    (.common ⟨JoinReq.cmd, statusError, ascii "Failed to initialize producer endpoint"⟩)
    (by decide) (Or.inl rfl)
  exact absurd hsame (by decide)

end BrokerManager

end LightQ
