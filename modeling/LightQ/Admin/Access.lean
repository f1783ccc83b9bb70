/-
# `Admin.Access` — who may do what, over whole runs

A run is any sequence of admin messages, each with whatever the sockets do,
and between them any progress of the threads that serve the topics: they move
messages, and so replace the storage of a topic, but have no way to the topic
map, the configurations or the endpoints (`work_find`).

`Effect` is what one message can do to a manager, with the checks that were
passed before: nothing, a statistics reply, a new topic, or an endpoint of an
existing one.  `processCommand_effect` shows that every message has one of
these effects, and the rest is read off it: `Controlled` collects the rules
for one message, `access_control` puts them into every reachable state.

Each handler has its lemma.  A request that was not read has no effect, one that
was has its handler's (`handle_effect`), and any reply of the shape of an error has
none (`replyError_effect`); a message is a request for one handler only
(`IsRequest.cmd_eq`).  What is concluded is of three kinds:

  * the topic map is the same but for one topic, a new one or one that was there
    (`kept`), and the manager's own user and password are never touched
    (`credentials`);
  * a message that is refused changes nothing at all, not even the next port
    (`refused`: the cases are the reasons to refuse, against the checks that were
    passed);
  * a new topic takes the credentials of the administrator, and an endpoint or a
    statistics reply those of the topic.
-/
import LightQ.Admin.Replies

namespace LightQ

namespace BrokerManager

/-! ## Requests -/

/-- The message is the request `req` for the handler of `cmd`. -/
def IsRequest {Req : Type} (cmd : Bytes) (fromJson : Bytes → Except Thrown (Option Req))
    (message : Bytes) (req : Req) : Prop :=
  getCmd message = .ok (some cmd) ∧ fromJson message = .ok (some req)

abbrev IsJoin : Bytes → JoinReq → Prop := IsRequest JoinReq.cmd JoinReq.fromJson

abbrev IsStats : Bytes → StatsReq → Prop := IsRequest StatsReq.cmd StatsReq.fromJson

abbrev IsCreateTopic : Bytes → CreateTopicReq → Prop :=
  IsRequest CreateTopicReq.cmd CreateTopicReq.fromJson

/-- A topic of the manager, with its configuration's user and password. -/
def Grants (m : BrokerManager) (topic userId password : Bytes) (b : Broker) : Prop :=
  OrderedMap.find topic m.brokers = some b ∧ b.config.userId = userId ∧ b.config.password = password

/-- A message that is turned away: it is malformed, its command is not known,
it names a topic that is not there (for `create_topic`, one that is), or its
credentials are not the right ones. -/
inductive Refused (m : BrokerManager) (message : Bytes) : Prop
  | malformed : (∀ cmd, getCmd message ≠ .ok (some cmd)) → Refused m message
  | unknownCommand {cmd : Bytes} : getCmd message = .ok (some cmd) → cmd ≠ JoinReq.cmd →
      cmd ≠ StatsReq.cmd → cmd ≠ CreateTopicReq.cmd → Refused m message
  | join {req : JoinReq} : IsJoin message req →
      (∀ b, ¬ m.Grants req.topic req.userId req.password b) → Refused m message
  | stats {req : StatsReq} : IsStats message req →
      (∀ b, ¬ m.Grants req.topic req.userId req.password b) → Refused m message
  | topicExists {req : CreateTopicReq} {b : Broker} : IsCreateTopic message req →
      OrderedMap.find req.topic m.brokers = some b → Refused m message
  | notAdmin {req : CreateTopicReq} : IsCreateTopic message req →
      ¬ (req.adminUserId = m.userId ∧ req.adminPassword = m.password) → Refused m message

/-! ## What one message can do -/

/-- A topic after endpoints may have been created: the configuration and the
endpoints that were there are the same. -/
structure Extends (b b' : Broker) : Prop where
  config : b'.config = b.config
  producer : ∀ {p}, b.pProducer = some p → b'.pProducer = some p
  consumer : ∀ {c}, b.pConsumer = some c → b'.pConsumer = some c

/-- The effects of a message, each with the checks before it. -/
inductive Effect (m : BrokerManager) (message : Bytes) (p : Processed) : Prop
  | none : p.manager = m → (∀ reply ∈ p.replies, reply.status ≠ some statusSuccess) →
      Effect m message p
  | counted {req : StatsReq} {b : Broker} : IsStats message req →
      m.Grants req.topic req.userId req.password b → p.manager = m → Effect m message p
  | created {req : CreateTopicReq} : IsCreateTopic message req →
      OrderedMap.find req.topic m.brokers = .none →
      req.adminUserId = m.userId → req.adminPassword = m.password →
      (∃ value, p.ended = .ok value) →
      p.manager = { m with
        brokers := OrderedMap.assign req.topic (Broker.init (topicConfig req)).2 m.brokers } →
      Effect m message p
  | joined {req : JoinReq} {b b' : Broker} {port : Option Nat} : IsJoin message req →
      m.Grants req.topic req.userId req.password b → Extends b b' →
      (∃ value, p.ended = .ok value) → p.manager = m.store req.topic b' port →
      Effect m message p

section Effects

variable (m : BrokerManager) (env : AdminEnv) {message : Bytes}

theorem not_unauthorized {userId password reqUserId reqPassword : Bytes}
    (h : ¬ unauthorized userId password reqUserId reqPassword = true) :
    userId = reqUserId ∧ password = reqPassword := by
  simpa [unauthorized] using h

theorem error_ne_success : statusError ≠ statusSuccess := by decide

theorem replyError_effect (cmd description : Bytes) :
    Effect m message (m.replyCommon env cmd statusError description) := by
  refine .none rfl ?_
  intro reply hr
  cases List.mem_singleton.mp hr
  exact fun h => error_ne_success (Option.some.inj h)

theorem replyToStats_effect {req : StatsReq} (h : IsStats message req) :
    Effect m message (m.replyToStats env req) := by
  unfold replyToStats
  split
  · exact m.replyError_effect env _ _
  · next b hb =>
      split
      · exact m.replyError_effect env _ _
      · next hauth => exact .counted h ⟨hb, not_unauthorized hauth⟩ rfl

theorem replyCreateTopic_effect {req : CreateTopicReq} (h : IsCreateTopic message req) :
    Effect m message (m.replyCreateTopic env req) := by
  unfold replyCreateTopic
  split
  · exact m.replyError_effect env _ _
  · next hnone =>
      split
      · exact m.replyError_effect env _ _
      · next hauth =>
          obtain ⟨huser, hpassword⟩ := not_unauthorized hauth
          refine .created h hnone huser.symm hpassword.symm ⟨_, rfl⟩ ?_
          exact congrArg (fun brokers => ({ m with brokers := brokers } : BrokerManager))
            (OrderedMap.insert_of_none hnone _)

theorem openProducer_extends (b : Broker) : Extends b (m.openProducer env b).2.1 := by
  unfold openProducer
  split
  · exact ⟨rfl, id, id⟩
  · next hnone =>
      refine ⟨b.initProducer_config env _, fun hp => ?_, fun hc => ?_⟩
      · rw [hnone] at hp
        cases hp
      · exact (b.initProducer_pConsumer env _).trans hc

theorem openConsumer_extends (b : Broker) (connectionType : Bytes) :
    Extends b (m.openConsumer env b connectionType).2.1 := by
  unfold openConsumer
  split
  · exact ⟨rfl, id, id⟩
  · next hnone =>
      refine ⟨b.initConsumer_config env _, fun hp => ?_, fun hc => ?_⟩
      · exact (b.initConsumer_pProducer env _).trans hp
      · rw [hnone] at hc
        cases hc

theorem joinProducer_manager (req : JoinReq) (b : Broker) :
    (m.joinProducer env req b).manager
      = m.store req.topic (m.openProducer env b).2.1 (m.openProducer env b).2.2 := by
  simp only [joinProducer]
  split
  · rfl
  · rfl
  · split
    · rfl
    · rfl

theorem joinConsumer_manager (req : JoinReq) (b : Broker) :
    (m.joinConsumer env req b).manager
      = m.store req.topic (m.openConsumer env b req.connectionType).2.1
          (m.openConsumer env b req.connectionType).2.2 := by
  simp only [joinConsumer]
  split
  · rfl
  · rfl
  · split
    · rfl
    · rfl

theorem replyToJoinTopic_effect {req : JoinReq} (h : IsJoin message req) :
    Effect m message (m.replyToJoinTopic env req) := by
  unfold replyToJoinTopic
  split
  · exact m.replyError_effect env _ _
  · next b hb =>
      split
      · exact m.replyError_effect env _ _
      · next hauth =>
          have hgrants : m.Grants req.topic req.userId req.password b :=
            ⟨hb, not_unauthorized hauth⟩
          split
          · exact .joined h hgrants (m.openProducer_extends env b)
              (m.joinProducer_repliesOnce env req b).1 (m.joinProducer_manager env req b)
          · exact .joined h hgrants (m.openConsumer_extends env b req.connectionType)
              (m.joinConsumer_repliesOnce env req b).1 (m.joinConsumer_manager env req b)

theorem handle_effect {Req : Type} {cmd : Bytes} {fromJson : Bytes → Except Thrown (Option Req)}
    {handler : Req → Processed} (hcmd : getCmd message = .ok (some cmd))
    (hhandler : ∀ req, IsRequest cmd fromJson message req → Effect m message (handler req)) :
    Effect m message (m.handle env cmd (fromJson message) handler) := by
  unfold handle
  split
  · exact .none rfl fun _ hr => absurd hr List.not_mem_nil
  · exact m.replyError_effect env _ _
  · next req hreq => exact hhandler req ⟨hcmd, hreq⟩

theorem processCommand_effect (message : Bytes) :
    Effect m message (m.processCommand env message) := by
  unfold processCommand
  split
  · exact .none rfl fun _ hr => absurd hr List.not_mem_nil
  · exact m.replyError_effect env _ _
  · next cmd hcmd =>
      split
      · -- a ping is answered, and no more
        refine .none rfl ?_
        intro reply hr
        cases List.mem_singleton.mp hr
        intro h
        cases h
      split
      · next hjoin =>
          subst hjoin
          exact m.handle_effect env hcmd fun _ h => m.replyToJoinTopic_effect env h
      split
      · next hstats =>
          subst hstats
          exact m.handle_effect env hcmd fun _ h => m.replyToStats_effect env h
      split
      · next hcreate =>
          subst hcreate
          exact m.handle_effect env hcmd fun _ h => m.replyCreateTopic_effect env h
      · exact m.replyError_effect env _ _

end Effects

/-! ## The rules for one message -/

theorem IsRequest.inj {Req : Type} {cmd : Bytes} {fromJson : Bytes → Except Thrown (Option Req)}
    {message : Bytes} {req req' : Req} (h : IsRequest cmd fromJson message req)
    (h' : IsRequest cmd fromJson message req') : req = req' :=
  Option.some.inj (Except.ok.inj (h.2.symm.trans h'.2))

theorem IsRequest.cmd_eq {Req Req' : Type} {cmd cmd' : Bytes}
    {fromJson : Bytes → Except Thrown (Option Req)} {fromJson' : Bytes → Except Thrown (Option Req')}
    {message : Bytes} {req : Req} {req' : Req'} (h : IsRequest cmd fromJson message req)
    (h' : IsRequest cmd' fromJson' message req') : cmd = cmd' :=
  Option.some.inj (Except.ok.inj (h.1.symm.trans h'.1))

theorem join_ne_stats : JoinReq.cmd ≠ StatsReq.cmd := by decide

theorem join_ne_createTopic : JoinReq.cmd ≠ CreateTopicReq.cmd := by decide

theorem stats_ne_createTopic : StatsReq.cmd ≠ CreateTopicReq.cmd := by decide

/-- What `userId` and `password` of the manager, and of each topic, guard. -/
structure Controlled (userId password : Bytes) (m : BrokerManager) (message : Bytes)
    (p : Processed) : Prop where
  /-- Topics stay, with their configurations and endpoints. -/
  kept : ∀ {topic b}, OrderedMap.find topic m.brokers = some b →
    ∃ b', OrderedMap.find topic p.manager.brokers = some b' ∧ Extends b b'
  /-- A topic is added by a `create_topic` of the admin, without endpoints. -/
  added : ∀ {topic b'}, OrderedMap.find topic m.brokers = none →
    OrderedMap.find topic p.manager.brokers = some b' →
      ∃ req, IsCreateTopic message req ∧ req.topic = topic ∧ req.adminUserId = userId ∧
        req.adminPassword = password ∧ b'.config = topicConfig req ∧
        b'.pProducer = none ∧ b'.pConsumer = none
  /-- An endpoint is created by a join with the topic's user and password. -/
  opened : ∀ {topic b b'}, OrderedMap.find topic m.brokers = some b →
    OrderedMap.find topic p.manager.brokers = some b' →
      b'.pProducer ≠ b.pProducer ∨ b'.pConsumer ≠ b.pConsumer →
        ∃ req, IsJoin message req ∧ req.topic = topic ∧ req.userId = b.config.userId ∧
          req.password = b.config.password
  /-- A join is answered with ok only with the topic's user and password. -/
  joined : ∀ {req reply}, IsJoin message req → reply ∈ p.replies →
    reply.status = some statusSuccess → ∃ b, m.Grants req.topic req.userId req.password b
  /-- So are statistics. -/
  counted : ∀ {req reply}, IsStats message req → reply ∈ p.replies →
    reply.status = some statusSuccess → ∃ b, m.Grants req.topic req.userId req.password b
  /-- A refused request leaves everything as it was. -/
  refused : Refused m message → p.manager = m
  /-- An exception does, too. -/
  threw : ∀ {e}, p.ended = .error e → p.manager = m

namespace Effect

variable {m : BrokerManager} {message : Bytes} {p : Processed}

theorem kept (h : Effect m message p) {topic : Bytes} {b : Broker}
    (hb : OrderedMap.find topic m.brokers = some b) :
    ∃ b', OrderedMap.find topic p.manager.brokers = some b' ∧ Extends b b' := by
  cases h with
  | none hm _ => exact ⟨b, by rw [hm, hb], rfl, id, id⟩
  | counted _ _ hm => exact ⟨b, by rw [hm, hb], rfl, id, id⟩
  | @created req _ hnone _ _ _ hm =>
      have hne : topic ≠ req.topic := by
        rintro rfl
        rw [hnone] at hb
        cases hb
      exact ⟨b, by rw [hm, OrderedMap.find_assign_of_ne hne, hb], rfl, id, id⟩
  | @joined req b₀ b₁ port _ hgrants hext _ hm =>
      by_cases htopic : topic = req.topic
      · subst htopic
        cases hb.symm.trans hgrants.1
        exact ⟨b₁, by rw [hm, store, OrderedMap.find_assign_self], hext⟩
      · exact ⟨b, by rw [hm, store, OrderedMap.find_assign_of_ne htopic, hb], rfl, id, id⟩

theorem added (h : Effect m message p) {topic : Bytes} {b' : Broker}
    (hnone : OrderedMap.find topic m.brokers = .none)
    (hb' : OrderedMap.find topic p.manager.brokers = some b') :
    ∃ req, IsCreateTopic message req ∧ req.topic = topic ∧ req.adminUserId = m.userId ∧
      req.adminPassword = m.password ∧ b'.config = topicConfig req ∧
      b'.pProducer = .none ∧ b'.pConsumer = .none := by
  cases h with
  | none hm _ =>
      rw [hm, hnone] at hb'
      cases hb'
  | counted _ _ hm =>
      rw [hm, hnone] at hb'
      cases hb'
  | @created req hreq _ huser hpassword _ hm =>
      by_cases htopic : topic = req.topic
      · subst htopic
        rw [hm, OrderedMap.find_assign_self] at hb'
        cases hb'
        exact ⟨req, hreq, rfl, huser, hpassword, rfl, rfl, rfl⟩
      · rw [hm, OrderedMap.find_assign_of_ne htopic, hnone] at hb'
        cases hb'
  | @joined req b₀ b₁ port _ hgrants _ _ hm =>
      have hne : topic ≠ req.topic := by
        rintro rfl
        rw [hgrants.1] at hnone
        cases hnone
      rw [hm, store, OrderedMap.find_assign_of_ne hne, hnone] at hb'
      cases hb'

theorem opened (h : Effect m message p) {topic : Bytes} {b b' : Broker}
    (hb : OrderedMap.find topic m.brokers = some b)
    (hb' : OrderedMap.find topic p.manager.brokers = some b')
    (hnew : b'.pProducer ≠ b.pProducer ∨ b'.pConsumer ≠ b.pConsumer) :
    ∃ req, IsJoin message req ∧ req.topic = topic ∧ req.userId = b.config.userId ∧
      req.password = b.config.password := by
  have hsame : b' ≠ b := by
    rintro rfl
    exact hnew.elim (fun h => h rfl) (fun h => h rfl)
  cases h with
  | none hm _ =>
      rw [hm] at hb'
      exact absurd (Option.some.inj (hb'.symm.trans hb)) hsame
  | counted _ _ hm =>
      rw [hm] at hb'
      exact absurd (Option.some.inj (hb'.symm.trans hb)) hsame
  | @created req _ hnone _ _ _ hm =>
      have hne : topic ≠ req.topic := by
        rintro rfl
        rw [hnone] at hb
        cases hb
      rw [hm, OrderedMap.find_assign_of_ne hne] at hb'
      exact absurd (Option.some.inj (hb'.symm.trans hb)) hsame
  | @joined req b₀ b₁ port hreq hgrants _ _ hm =>
      by_cases htopic : topic = req.topic
      · subst htopic
        cases hb.symm.trans hgrants.1
        exact ⟨req, hreq, rfl, hgrants.2.1.symm, hgrants.2.2.symm⟩
      · rw [hm, store, OrderedMap.find_assign_of_ne htopic] at hb'
        exact absurd (Option.some.inj (hb'.symm.trans hb)) hsame

theorem joined_grants (h : Effect m message p) {req : JoinReq} {reply : Reply}
    (hreq : IsJoin message req) (hr : reply ∈ p.replies)
    (hok : reply.status = some statusSuccess) :
    ∃ b, m.Grants req.topic req.userId req.password b := by
  cases h with
  | none _ hno => exact absurd hok (hno reply hr)
  | counted hreq' _ _ => exact absurd (hreq.cmd_eq hreq') join_ne_stats
  | created hreq' _ _ _ _ _ => exact absurd (hreq.cmd_eq hreq') join_ne_createTopic
  | @joined _ b _ _ hreq' hgrants _ _ _ =>
      cases hreq.inj hreq'
      exact ⟨b, hgrants⟩

theorem counted_grants (h : Effect m message p) {req : StatsReq} {reply : Reply}
    (hreq : IsStats message req) (hr : reply ∈ p.replies)
    (hok : reply.status = some statusSuccess) :
    ∃ b, m.Grants req.topic req.userId req.password b := by
  cases h with
  | none _ hno => exact absurd hok (hno reply hr)
  | @counted _ b hreq' hgrants _ =>
      cases hreq.inj hreq'
      exact ⟨b, hgrants⟩
  | created hreq' _ _ _ _ _ => exact absurd (hreq.cmd_eq hreq') stats_ne_createTopic
  | joined hreq' _ _ _ _ => exact absurd (hreq'.cmd_eq hreq) join_ne_stats

/-- The cases are the reasons to refuse, against the checks that were passed. -/
theorem refused (h : Effect m message p) (href : Refused m message) : p.manager = m := by
  cases h with
  | none hm _ => exact hm
  | counted _ _ hm => exact hm
  | created hreq hnone huser hpassword _ _ =>
      cases href with
      | malformed hno => exact absurd hreq.1 (hno _)
      | unknownCommand hcmd _ _ hne =>
          exact absurd (Option.some.inj (Except.ok.inj (hcmd.symm.trans hreq.1))) hne
      | join hreq' _ => exact absurd (hreq'.cmd_eq hreq) join_ne_createTopic
      | stats hreq' _ => exact absurd (hreq'.cmd_eq hreq) stats_ne_createTopic
      | topicExists hreq' hb =>
          cases hreq.inj hreq'
          rw [hnone] at hb
          cases hb
      | notAdmin hreq' hno =>
          cases hreq.inj hreq'
          exact absurd ⟨huser, hpassword⟩ hno
  | joined hreq hgrants _ _ _ =>
      cases href with
      | malformed hno => exact absurd hreq.1 (hno _)
      | unknownCommand hcmd hne _ _ =>
          exact absurd (Option.some.inj (Except.ok.inj (hcmd.symm.trans hreq.1))) hne
      | join hreq' hno =>
          cases hreq.inj hreq'
          exact absurd hgrants (hno _)
      | stats hreq' _ => exact absurd (hreq.cmd_eq hreq') join_ne_stats
      | topicExists hreq' _ => exact absurd (hreq.cmd_eq hreq') join_ne_createTopic
      | notAdmin hreq' _ => exact absurd (hreq.cmd_eq hreq') join_ne_createTopic

theorem threw (h : Effect m message p) {e : Thrown} (he : p.ended = .error e) : p.manager = m := by
  cases h with
  | none hm _ => exact hm
  | counted _ _ hm => exact hm
  | created _ _ _ _ hok _ =>
      obtain ⟨value, hvalue⟩ := hok
      rw [hvalue] at he
      cases he
  | joined _ _ _ hok _ =>
      obtain ⟨value, hvalue⟩ := hok
      rw [hvalue] at he
      cases he

theorem controlled (h : Effect m message p) : Controlled m.userId m.password m message p where
  kept := h.kept
  added := h.added
  opened := h.opened
  joined := h.joined_grants
  counted := h.counted_grants
  refused := h.refused
  threw := h.threw

theorem credentials (h : Effect m message p) :
    p.manager.userId = m.userId ∧ p.manager.password = m.password := by
  cases h with
  | none hm _ => exact ⟨by rw [hm], by rw [hm]⟩
  | counted _ _ hm => exact ⟨by rw [hm], by rw [hm]⟩
  | created _ _ _ _ _ hm => exact ⟨by rw [hm], by rw [hm]⟩
  | joined _ _ _ _ hm => exact ⟨by rw [hm]; rfl, by rw [hm]; rfl⟩

end Effect

/-! ## Runs -/

/-- What happens to a manager: a message and what it meets in the sockets, or
the threads of a topic leave its storage in another state. -/
inductive AdminStep where
  | message (text : Bytes) (env : AdminEnv)
  | work (topic : Bytes) (storage : BrokerStorage)

/-- The constructor. -/
def start (userId password : Bytes) (port : Option Nat) : BrokerManager :=
  ⟨userId, password, [], port⟩

def step (m : BrokerManager) : AdminStep → BrokerManager
  | .message text env => (m.processCommand env text).manager
  | .work topic storage =>
      match OrderedMap.find topic m.brokers with
      | none => m
      | some b =>
          { m with brokers := OrderedMap.assign topic { b with storage := storage } m.brokers }

def run (m : BrokerManager) (steps : List AdminStep) : BrokerManager := steps.foldl step m

theorem Extends.refl (b : Broker) : Extends b b := ⟨rfl, id, id⟩

theorem Extends.trans {b₁ b₂ b₃ : Broker} (h : Extends b₁ b₂) (h' : Extends b₂ b₃) :
    Extends b₁ b₃ :=
  ⟨h'.config.trans h.config, fun hp => h'.producer (h.producer hp),
    fun hc => h'.consumer (h.consumer hc)⟩

theorem work_find (m : BrokerManager) (topic other : Bytes) (storage : BrokerStorage) :
    OrderedMap.find other (m.step (.work topic storage)).brokers
        = OrderedMap.find other m.brokers ∨
      ∃ b, OrderedMap.find other m.brokers = some b ∧
        OrderedMap.find other (m.step (.work topic storage)).brokers
          = some { b with storage := storage } := by
  cases hb : OrderedMap.find topic m.brokers with
  | none => exact Or.inl (by simp only [step, hb])
  | some b =>
      simp only [step, hb]
      by_cases hother : other = topic
      · subst hother
        exact Or.inr ⟨b, hb, OrderedMap.find_assign_self _ _ _⟩
      · exact Or.inl (OrderedMap.find_assign_of_ne hother _ _)

theorem step_kept (m : BrokerManager) (s : AdminStep) {topic : Bytes} {b : Broker}
    (hb : OrderedMap.find topic m.brokers = some b) :
    ∃ b', OrderedMap.find topic (m.step s).brokers = some b' ∧ Extends b b' := by
  cases s with
  | message text env => exact (m.processCommand_effect env text).kept hb
  | work other storage =>
      rcases m.work_find other topic storage with heq | ⟨b₀, hb₀, heq⟩
      · exact ⟨b, heq.trans hb, Extends.refl b⟩
      · cases hb.symm.trans hb₀
        exact ⟨_, heq, rfl, id, id⟩

theorem run_kept (m : BrokerManager) (steps : List AdminStep) {topic : Bytes} {b : Broker}
    (hb : OrderedMap.find topic m.brokers = some b) :
    ∃ b', OrderedMap.find topic (m.run steps).brokers = some b' ∧ Extends b b' := by
  induction steps generalizing m b with
  | nil => exact ⟨b, hb, Extends.refl b⟩
  | cons s steps ih =>
      obtain ⟨b₁, hb₁, h₁⟩ := m.step_kept s hb
      obtain ⟨b₂, hb₂, h₂⟩ := ih (m.step s) hb₁
      exact ⟨b₂, hb₂, h₁.trans h₂⟩

/-- What holds in every reachable state: the admin's credentials are those of
the constructor, and a topic is stored under its own id. -/
structure Reached (userId password : Bytes) (m : BrokerManager) : Prop where
  userId : m.userId = userId
  password : m.password = password
  keyed : ∀ {topic b}, OrderedMap.find topic m.brokers = some b → b.config.id = topic

theorem Reached.step {userId password : Bytes} {m : BrokerManager} (h : Reached userId password m)
    (s : AdminStep) : Reached userId password (m.step s) := by
  cases s with
  | message text env =>
      have heffect := m.processCommand_effect env text
      obtain ⟨huser, hpassword⟩ := heffect.credentials
      refine ⟨huser.trans h.userId, hpassword.trans h.password, ?_⟩
      intro topic b' hb'
      cases hb : OrderedMap.find topic m.brokers with
      | none =>
          obtain ⟨req, -, htopic, -, -, hconfig, -, -⟩ := heffect.added hb hb'
          rw [hconfig]
          exact htopic
      | some b =>
          obtain ⟨b₁, hb₁, hext⟩ := heffect.kept hb
          cases hb'.symm.trans hb₁
          rw [hext.config]
          exact h.keyed hb
  | work other storage =>
      refine ⟨?_, ?_, fun {topic b'} hb' => ?_⟩
      · simp only [BrokerManager.step]
        split
        · exact h.userId
        · exact h.userId
      · simp only [BrokerManager.step]
        split
        · exact h.password
        · exact h.password
      · rcases m.work_find other topic storage with heq | ⟨b, hb, heq⟩
        · exact h.keyed (heq.symm.trans hb')
        · have hkey : b.config.id = topic := h.keyed hb
          cases hb'.symm.trans heq
          exact hkey

theorem Reached.run {userId password : Bytes} {m : BrokerManager} (h : Reached userId password m)
    (steps : List AdminStep) : Reached userId password (m.run steps) := by
  induction steps generalizing m with
  | nil => exact h
  | cons s steps ih => exact ih (h.step s)

theorem reached_start (userId password : Bytes) (port : Option Nat) :
    Reached userId password (start userId password port) :=
  ⟨rfl, rfl, fun h => nomatch h⟩

/-! ## Access control -/

/-- The rules of a state: what is there stays for the rest of the run, and
every message keeps to the rules. -/
structure AccessControlled (userId password : Bytes) (m : BrokerManager) : Prop where
  /-- Every topic is stored under its own id. -/
  keyed : ∀ {topic b}, OrderedMap.find topic m.brokers = some b → b.config.id = topic
  /-- No later step takes a topic away or changes its configuration. -/
  permanent : ∀ steps {topic b}, OrderedMap.find topic m.brokers = some b →
    ∃ b', OrderedMap.find topic (m.run steps).brokers = some b' ∧ Extends b b'
  /-- Between messages, no topic and no endpoint appears. -/
  idle : ∀ topic storage other,
    OrderedMap.find other (m.step (.work topic storage)).brokers
        = OrderedMap.find other m.brokers ∨
      ∃ b, OrderedMap.find other m.brokers = some b ∧
        OrderedMap.find other (m.step (.work topic storage)).brokers
          = some { b with storage := storage }
  /-- Every message keeps to the rules. -/
  controlled : ∀ env message, Controlled userId password m message (m.processCommand env message)

theorem Reached.accessControlled {userId password : Bytes} {m : BrokerManager}
    (h : Reached userId password m) : AccessControlled userId password m where
  keyed := h.keyed
  permanent steps _ _ hb := m.run_kept steps hb
  idle topic storage other := m.work_find topic other storage
  controlled env message := by
    have hcontrolled := (m.processCommand_effect env message).controlled
    rw [h.userId, h.password] at hcontrolled
    exact hcontrolled

/-- In every reachable state of every run, whatever messages come and
whatever the sockets do. -/
theorem access_control (userId password : Bytes) (port : Option Nat) (steps : List AdminStep) :
    AccessControlled userId password ((start userId password port).run steps) :=
  ((reached_start userId password port).run steps).accessControlled

example :
    let env : AdminEnv := ⟨true, true, true, 0, 0, 0, fun reply => reply.length⟩
    let m := (start (ascii "admin") (ascii "secret") none).run
      [.message (ascii "\x7b\"cmd\": \"create_topic\", \"topic\": \"t\", \"password\": \"p\"," ++
        ascii "\"admin_user_id\": \"admin\", \"admin_password\": \"secret\"\x7d") env]
    (m.processCommand env (ascii "\x7b\"cmd\": \"join\", \"topic\": \"t\"," ++
        ascii "\"type\": \"pub\", \"password\": \"p\"\x7d")).replies
      = [.join ⟨statusSuccess, ascii "t", ascii "tcp://127.0.0.1:5000"⟩] := by decide

end BrokerManager

end LightQ
