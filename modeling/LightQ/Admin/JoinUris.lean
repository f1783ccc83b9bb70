/-
# `Admin.JoinUris` — the URIs that joins are answered with

Every endpoint is bound to a port of its own: `get_next_port` counts up, from the
port after the admin's.  A topic has up to three endpoints, that of its
producer and the pub and the push socket of its consumer; they are made by the
first join that asks for one of them, and are kept whether their sockets could
be opened or not, so that a later join is answered with the same URI.

The counter is one for the whole process: a second `init_broker` would go on where
the first broker has got to, whatever port it is given, and both would draw from it.
A run here is that of the one broker that its process has started, and no port has
been drawn before.

The invariant is `Numbered`: the ports of all endpoints are labels in the sense
of `Lib.Labels`, drawn from the counter.  `join_uris_apart` reads the replies
of a whole run off its last state, for as long as the counter does not wrap.

The first join of a publisher draws one port (`Numbered.producer`), that of a consumer
draws two, the pub port first (`Numbered.consumer`); a topic that is stored with more
endpoints has them labelled with these (`Numbered.store`, `Numbered.extend`), a new
topic has none (`Numbered.created`), and an endpoint that is there is left alone
(`Numbered.kept`).

A join is answered with the URI of an endpoint that is there afterwards
(`replyToJoinTopic_uri`) and that is still there when the run ends
(`Answered.uri`).  In such a URI the star of the bind URI has been replaced, and
nothing else (`localUri_portUri`), and the port is what follows the last colon
(`carriesPort_iff`), so that two URIs are equal exactly if their labels are.
-/
import LightQ.Lib.Labels
import LightQ.Admin.Topics
import LightQ.Storage.FileNames

namespace LightQ

open MachineInt

namespace BrokerManager

/-- `init_broker`: the admin URI and the manager, if its socket can be opened.
`port` is the counter of `get_next_port`, which all of the process shares; it is
`none` if no port has been drawn. -/
def initBroker (port : Option Nat) (adminUserid adminPassword transport bindIp : Bytes)
    (bindPort : Nat) (initialized : Bool) : Option (Bytes × BrokerManager) :=
  let (next, port) := getNextPort port bindPort
  let bindUri := transport ++ ascii "://" ++ bindIp ++ ascii ":" ++ decimal next
  if initialized then some (bindUri, start adminUserid adminPassword port) else none

/-- What `reply_to_join_topic` tells apart. -/
inductive Kind where
  | pub
  | sub
  | other
deriving DecidableEq, Repr

def kindOf (type : Bytes) : Kind :=
  if type = ascii "pub" then .pub else if type = ascii "sub" then .sub else .other

/-- The URI of an endpoint of a topic, before it is rewritten. -/
def endpointUri (b : Broker) : Kind → Option Bytes
  | .pub => b.pProducer.map Producer.getBindUri
  | .sub => b.pConsumer.map Consumer.getPubBindUri
  | .other => b.pConsumer.map Consumer.getPushBindUri

def uriOf (m : BrokerManager) (k : Bytes × Kind) : Option Bytes :=
  (OrderedMap.find k.1 m.brokers).bind fun b => endpointUri b k.2

/-- The ports drawn between two states: how far the counter has moved. -/
def portsDrawn (m m' : BrokerManager) : Nat := u32OfInt (m'.port.getD 0 - m.port.getD 0)

/-- The ports drawn in a run; no step draws more than two. -/
def allocated (m : BrokerManager) : List AdminStep → Nat
  | [] => 0
  | s :: steps => portsDrawn m (m.step s) + allocated (m.step s) steps

/-- A join of the run is answered `ok`. -/
def Answered (m : BrokerManager) (steps : List AdminStep) (req : JoinReq) (resp : JoinResp) :
    Prop :=
  ∃ pre text env post, steps = pre ++ .message text env :: post ∧ IsJoin text req ∧
    .join resp ∈ ((m.run pre).processCommand env text).replies ∧ resp.status = statusSuccess

/-- The URI ends in the port. -/
def CarriesPort (uri : Bytes) (port : Nat) : Prop := ∃ host, uri = host ++ ascii ":" ++ decimal port

/-! ## URIs -/

/-- What `bind_interface` makes of a port. -/
def portUri (port : Nat) : Bytes := ascii "tcp://*" ++ ascii ":" ++ decimal port

theorem localUri_portUri (port : Nat) :
    localUri (portUri port) = ascii "tcp://127.0.0.1" ++ ascii ":" ++ decimal port := by
  have hsplit : portUri port = ascii "tcp://" ++ 42 :: (ascii ":" ++ decimal port) := rfl
  have hrest : (42 : UInt8) ∉ ascii ":" ++ decimal port := by
    rw [List.mem_append, not_or]
    exact ⟨by decide, not_mem_decimal (by decide)⟩
  rw [localUri, hsplit, show ascii "*" = [42] from rfl, Utils.replace_once (by decide) hrest]
  rfl

theorem carriesPort_iff (host : Bytes) {p q : Nat} :
    CarriesPort (host ++ ascii ":" ++ decimal p) q ↔ p = q := by
  constructor
  · rintro ⟨host', h⟩
    have hsep : host ++ 58 :: decimal p = host' ++ 58 :: decimal q := by
      simpa [ascii] using h
    have hparts := PosixPath.append_sep_inj (not_mem_decimal (by decide))
      (not_mem_decimal (by decide)) hsep
    exact decimal_inj.mp hparts.2
  · rintro rfl
    exact ⟨_, rfl⟩

theorem carriesPort_localUri {p q : Nat} : CarriesPort (localUri (portUri p)) q ↔ p = q := by
  rw [localUri_portUri]
  exact carriesPort_iff _

theorem localUri_inj {p q : Nat} (h : localUri (portUri p) = localUri (portUri q)) : p = q := by
  have hcarries : CarriesPort (localUri (portUri q)) q := carriesPort_localUri.mpr rfl
  rw [← h] at hcarries
  exact carriesPort_localUri.mp hcarries

/-! ## Endpoints stay -/

section Endpoints

variable {m : BrokerManager} {k : Bytes × Kind} {uri : Bytes}

theorem Extends.endpointUri {b b' : Broker} (h : Extends b b') {kind : Kind}
    (huri : BrokerManager.endpointUri b kind = some uri) :
    BrokerManager.endpointUri b' kind = some uri := by
  cases kind with
  | pub =>
      obtain ⟨p, hp, rfl⟩ := Option.map_eq_some_iff.mp huri
      exact congrArg (Option.map Producer.getBindUri) (h.producer hp)
  | sub =>
      obtain ⟨c, hc, rfl⟩ := Option.map_eq_some_iff.mp huri
      exact congrArg (Option.map Consumer.getPubBindUri) (h.consumer hc)
  | other =>
      obtain ⟨c, hc, rfl⟩ := Option.map_eq_some_iff.mp huri
      exact congrArg (Option.map Consumer.getPushBindUri) (h.consumer hc)

theorem uriOf_run (h : uriOf m k = some uri) (steps : List AdminStep) :
    uriOf (m.run steps) k = some uri := by
  obtain ⟨b, hb, huri⟩ := Option.bind_eq_some_iff.mp h
  obtain ⟨b', hb', hext⟩ := m.run_kept steps hb
  exact Option.bind_eq_some_iff.mpr ⟨b', hb', hext.endpointUri huri⟩

theorem uriOf_store (m : BrokerManager) (topic : Bytes) (b : Broker) (port : Option Nat)
    (k : Bytes × Kind) :
    uriOf (m.store topic b port) k = if k.1 = topic then endpointUri b k.2 else uriOf m k := by
  rw [uriOf, store, OrderedMap.find_assign]
  split
  · rfl
  · rfl

end Endpoints

/-! ## Replies -/

section Replies

variable {m : BrokerManager} {env : AdminEnv} {req : JoinReq} {resp : JoinResp} {text : Bytes}

theorem processCommand_join (h : IsJoin text req) :
    m.processCommand env text = m.replyToJoinTopic env req := by
  have hping : JoinReq.cmd ≠ ascii "ping" := by decide
  simp only [processCommand, h.1, if_neg hping, if_true, handle, h.2]

theorem joinProducer_uri {b : Broker} (hpub : req.type = ascii "pub")
    (h : .join resp ∈ (m.joinProducer env req b).replies) :
    ∃ uri, uriOf (m.joinProducer env req b).manager (req.topic, kindOf req.type) = some uri ∧
      resp.bindUri = localUri uri := by
  rw [joinProducer_manager, uriOf_store, if_pos rfl]
  unfold joinProducer at h
  generalize m.openProducer env b = r at h ⊢
  obtain ⟨result, b', port⟩ := r
  dsimp only at h ⊢
  split at h
  · cases h
  · cases List.mem_singleton.mp h
  · split at h
    · next p hp =>
        obtain rfl := Reply.join.inj (List.mem_singleton.mp h)
        refine ⟨p.getBindUri, ?_, rfl⟩
        rw [kindOf, if_pos hpub, endpointUri, hp]
        rfl
    · cases List.mem_singleton.mp h

theorem joinConsumer_uri {b : Broker} (hpub : req.type ≠ ascii "pub")
    (h : .join resp ∈ (m.joinConsumer env req b).replies) :
    ∃ uri, uriOf (m.joinConsumer env req b).manager (req.topic, kindOf req.type) = some uri ∧
      resp.bindUri = localUri uri := by
  rw [joinConsumer_manager, uriOf_store, if_pos rfl]
  unfold joinConsumer at h
  generalize m.openConsumer env b req.connectionType = r at h ⊢
  obtain ⟨result, b', port⟩ := r
  dsimp only at h ⊢
  split at h
  · cases h
  · cases List.mem_singleton.mp h
  · split at h
    · cases List.mem_singleton.mp h
    · next c hc =>
        obtain rfl := Reply.join.inj (List.mem_singleton.mp h)
        rw [kindOf, if_neg hpub]
        split
        · exact ⟨c.getPubBindUri, by rw [endpointUri, hc]; rfl, rfl⟩
        · exact ⟨c.getPushBindUri, by rw [endpointUri, hc]; rfl, rfl⟩

/-- A join is answered with the URI of an endpoint that is there afterwards. -/
theorem replyToJoinTopic_uri (h : .join resp ∈ (m.replyToJoinTopic env req).replies) :
    ∃ uri, uriOf (m.replyToJoinTopic env req).manager (req.topic, kindOf req.type) = some uri ∧
      resp.bindUri = localUri uri := by
  unfold replyToJoinTopic at h ⊢
  split at h
  · cases List.mem_singleton.mp h
  · split at h
    · cases List.mem_singleton.mp h
    · next hauth =>
        rw [if_neg hauth]
        split at h
        · next hpub =>
            rw [if_pos hpub]
            exact joinProducer_uri hpub h
        · next hpub =>
            rw [if_neg hpub]
            exact joinConsumer_uri hpub h

theorem Answered.uri {steps : List AdminStep} (h : Answered m steps req resp) :
    ∃ uri, uriOf (m.run steps) (req.topic, kindOf req.type) = some uri ∧
      resp.bindUri = localUri uri := by
  obtain ⟨pre, text, env, post, rfl, hreq, hmem, -⟩ := h
  rw [processCommand_join hreq] at hmem
  obtain ⟨uri, huri, hbind⟩ := replyToJoinTopic_uri hmem
  refine ⟨uri, ?_, hbind⟩
  have hstep : (m.run pre).step (.message text env) =
      ((m.run pre).replyToJoinTopic env req).manager :=
    congrArg Processed.manager (processCommand_join hreq)
  rw [run, List.foldl_append, List.foldl_cons, ← run, ← run, hstep]
  exact uriOf_run huri post

end Replies

/-! ## Ports -/

/-- The counter stands where `drawn` ports after the admin's have been drawn,
and the endpoints are labelled with these. -/
structure Numbered (bindPort drawn : Nat) (m : BrokerManager) : Prop where
  port : m.port = some (u32 (bindPort + 1 + drawn))
  interface : ∀ {topic b}, OrderedMap.find topic m.brokers = some b →
    b.config.bindInterface = ascii "tcp://*"
  uris : ∃ f, Labels (bindPort + 1) (bindPort + 1 + drawn) f ∧
    ∀ k, uriOf m k = (f k).map portUri

section Ports

variable {bindPort drawn n : Nat} {m m' : BrokerManager}

theorem numbered_initBroker {adminUserid adminPassword transport bindIp adminUri : Bytes}
    {initialized : Bool}
    (h : initBroker none adminUserid adminPassword transport bindIp bindPort initialized
      = some (adminUri, m)) : Numbered bindPort 0 m := by
  obtain ⟨-, heq⟩ := Option.ite_none_right_eq_some.mp h
  obtain ⟨-, rfl⟩ := Prod.mk.inj (Option.some.inj heq)
  constructor
  · rfl
  · exact fun h => nomatch h
  · exact ⟨_, Labels.empty _ _, fun _ => rfl⟩

theorem u32_succ (a : Nat) : u32 (u32 a + 1) = u32 (a + 1) := by
  simp only [u32]
  omega

theorem getNextPort_u32 (a initialPort : Nat) :
    getNextPort (some (u32 a)) initialPort = (u32 a, some (u32 (a + 1))) := by
  rw [getNextPort, Option.getD_some, u32_succ]

theorem portsDrawn_eq {a : Nat} (hm : m.port = some (u32 a)) (hm' : m'.port = some (u32 (a + n)))
    (hn : n < 2 ^ 32) : portsDrawn m m' = n := by
  rw [portsDrawn, hm, hm', Option.getD_some, Option.getD_some, u32OfInt]
  simp only [u32]
  omega

theorem Numbered.same (h : Numbered bindPort drawn m) (hport : m'.port = m.port)
    (hinterface : ∀ {topic b}, OrderedMap.find topic m'.brokers = some b →
      b.config.bindInterface = ascii "tcp://*")
    (huris : ∀ k, uriOf m' k = uriOf m k) : Numbered bindPort (drawn + portsDrawn m m') m' := by
  have hzero : portsDrawn m m' = 0 := portsDrawn_eq h.port (hport.trans h.port) (by decide)
  obtain ⟨f, hf, hlabel⟩ := h.uris
  rw [hzero]
  exact ⟨hport.trans h.port, hinterface, f, hf, fun k => (huris k).trans (hlabel k)⟩

/-- A state with `n` more endpoints, labelled with the ports drawn for them. -/
theorem Numbered.extend (h : Numbered bindPort drawn m) {g : Bytes × Kind → Option Nat}
    (hn : n < 2 ^ 32) (hport : m'.port = some (u32 (bindPort + 1 + drawn + n)))
    (hinterface : ∀ {topic b}, OrderedMap.find topic m'.brokers = some b →
      b.config.bindInterface = ascii "tcp://*")
    (hg : Labels (bindPort + 1 + drawn) (bindPort + 1 + drawn + n) g)
    (huris : ∀ k, uriOf m' k = (uriOf m k).or ((g k).map portUri)) :
    Numbered bindPort (drawn + portsDrawn m m') m' := by
  obtain ⟨f, hf, hlabel⟩ := h.uris
  rw [portsDrawn_eq h.port hport hn]
  rw [Nat.add_assoc (bindPort + 1)] at hport hg
  refine ⟨hport, hinterface, _, hf.extend hg (Nat.le_add_right _ _) (by omega), ?_⟩
  intro k
  rw [huris, hlabel, Option.map_or]

theorem Numbered.created (h : Numbered bindPort drawn m) {req : CreateTopicReq}
    (hnone : OrderedMap.find req.topic m.brokers = none) :
    let m' := { m with
      brokers := OrderedMap.assign req.topic (Broker.init (topicConfig req)).2 m.brokers }
    Numbered bindPort (drawn + portsDrawn m m') m' := by
  refine h.same rfl (fun {topic b} hb => ?_) fun k => ?_
  · rw [OrderedMap.find_assign] at hb
    split at hb
    · obtain rfl := Option.some.inj hb
      rfl
    · exact h.interface hb
  · rw [uriOf, uriOf, OrderedMap.find_assign]
    split
    · next htopic =>
        rw [htopic, hnone]
        obtain ⟨topic, kind⟩ := k
        cases kind <;> rfl
    · rfl

theorem nextUri_u32 {b : Broker} (hb : b.config.bindInterface = ascii "tcp://*") (a : Nat) :
    nextUri b (some (u32 a)) = (portUri (u32 a), some (u32 (a + 1))) := by
  rw [nextUri, getNextPort_u32, hb, portUri]

theorem Numbered.store (h : Numbered bindPort drawn m) {topic : Bytes} {b b' : Broker}
    {label : Kind → Option Nat} (hb : OrderedMap.find topic m.brokers = some b)
    (hconfig : b'.config = b.config) (hn : n < 2 ^ 32)
    (hlabel : Labels (bindPort + 1 + drawn) (bindPort + 1 + drawn + n) label)
    (huris : ∀ kind, endpointUri b' kind = (endpointUri b kind).or ((label kind).map portUri)) :
    let m' := m.store topic b' (some (u32 (bindPort + 1 + drawn + n)))
    Numbered bindPort (drawn + portsDrawn m m') m' := by
  refine h.extend hn rfl (fun {other b₁} hb₁ => ?_) (hlabel.within topic) fun k => ?_
  · rw [BrokerManager.store, OrderedMap.find_assign] at hb₁
    split at hb₁
    · obtain rfl := Option.some.inj hb₁
      rw [hconfig]
      exact h.interface hb
    · exact h.interface hb₁
  · rw [uriOf_store]
    split
    · next htopic => rw [huris, uriOf, htopic, hb, Option.bind_some]
    · rw [Option.map_none, Option.or_none]

theorem Numbered.kept (h : Numbered bindPort drawn m) {topic : Bytes} {b : Broker}
    (hb : OrderedMap.find topic m.brokers = some b) :
    Numbered bindPort (drawn + portsDrawn m (m.store topic b m.port)) (m.store topic b m.port) := by
  have hport : m.port = some (u32 (bindPort + 1 + drawn + 0)) := h.port
  rw [hport]
  exact h.store hb rfl (by decide) (Labels.empty _ _) fun kind => (Option.or_none).symm

theorem Numbered.producer (h : Numbered bindPort drawn m) {env : AdminEnv} {topic : Bytes}
    {b : Broker} (hb : OrderedMap.find topic m.brokers = some b)
    (hm' : m' = m.store topic (m.openProducer env b).2.1 (m.openProducer env b).2.2)
    (hroom : bindPort + 1 + (drawn + portsDrawn m m') ≤ 2 ^ 32) :
    Numbered bindPort (drawn + portsDrawn m m') m' := by
  cases hp : b.pProducer with
  | some p =>
      obtain rfl : m' = m.store topic b m.port := by rw [hm', openProducer, hp]
      exact h.kept hb
  | none =>
      rw [openProducer, hp, h.port] at hm'
      simp only [nextUri_u32 (h.interface hb)] at hm'
      have hport : m'.port = some (u32 (bindPort + 1 + drawn + 1)) := by
        rw [hm']
        rfl
      rw [portsDrawn_eq h.port hport (by decide)] at hroom
      have hlow : u32 (bindPort + 1 + drawn) = bindPort + 1 + drawn := u32_of_lt (by omega)
      subst hm'
      refine h.store hb (b.initProducer_config env _) (by decide) (Labels.single Kind.pub _)
        fun kind => ?_
      cases kind with
      | pub =>
          rw [endpointUri, b.initProducer_uri, endpointUri, hp, hlow]
          rfl
      | sub =>
          rw [endpointUri, b.initProducer_pConsumer]
          exact (Option.or_none).symm
      | other =>
          rw [endpointUri, b.initProducer_pConsumer]
          exact (Option.or_none).symm

theorem Numbered.consumer (h : Numbered bindPort drawn m) {env : AdminEnv}
    {topic connectionType : Bytes} {b : Broker}
    (hb : OrderedMap.find topic m.brokers = some b)
    (hm' : m' = m.store topic (m.openConsumer env b connectionType).2.1
      (m.openConsumer env b connectionType).2.2)
    (hroom : bindPort + 1 + (drawn + portsDrawn m m') ≤ 2 ^ 32) :
    Numbered bindPort (drawn + portsDrawn m m') m' := by
  cases hc : b.pConsumer with
  | some c =>
      obtain rfl : m' = m.store topic b m.port := by rw [hm', openConsumer, hc]
      exact h.kept hb
  | none =>
      rw [openConsumer, hc, h.port] at hm'
      simp only [nextUri_u32 (h.interface hb)] at hm'
      rw [Nat.add_assoc (bindPort + 1 + drawn) 1 1] at hm'
      have hport : m'.port = some (u32 (bindPort + 1 + drawn + (1 + 1))) := by
        rw [hm']
        rfl
      rw [portsDrawn_eq h.port hport (by decide)] at hroom
      have hlow : u32 (bindPort + 1 + drawn) = bindPort + 1 + drawn := u32_of_lt (by omega)
      have hnext : u32 (bindPort + 1 + drawn + 1) = bindPort + 1 + drawn + 1 := u32_of_lt (by omega)
      subst hm'
      have hlabel := (Labels.single Kind.sub (bindPort + 1 + drawn)).extend
        (Labels.single Kind.other (bindPort + 1 + drawn + 1)) (Nat.le_succ _) (Nat.le_succ _)
      rw [Nat.add_assoc (bindPort + 1 + drawn) 1 1] at hlabel
      refine h.store hb (b.initConsumer_config env _) (by decide) hlabel ?_
      intro kind
      have hconf := b.initConsumer_uris env
        ⟨b.config.id, portUri (u32 (bindPort + 1 + drawn + 1)), portUri (u32 (bindPort + 1 + drawn)),
          streamOf connectionType⟩
      obtain ⟨c, hpc, hconfig⟩ := Option.map_eq_some_iff.mp hconf
      cases kind with
      | pub =>
          rw [endpointUri, b.initConsumer_pProducer]
          exact (Option.or_none).symm
      | sub =>
          rw [endpointUri, hpc, endpointUri, hc]
          show some c.config.pubBindUri = _
          rw [hconfig, hlow]
          rfl
      | other =>
          rw [endpointUri, hpc, endpointUri, hc]
          show some c.config.pushBindUri = _
          rw [hconfig, hnext]
          rfl

theorem Numbered.step (h : Numbered bindPort drawn m) (s : AdminStep)
    (hroom : bindPort + 1 + (drawn + portsDrawn m (m.step s)) ≤ 2 ^ 32) :
    Numbered bindPort (drawn + portsDrawn m (m.step s)) (m.step s) := by
  cases s with
  | message text env =>
      have hleaves := m.processCommand_leaves env text
      change Leaves m env (m.step (.message text env)) at hleaves
      generalize m.step (.message text env) = m' at hleaves hroom ⊢
      cases hleaves with
      | same => exact h.same rfl h.interface fun _ => rfl
      | created hnone => exact h.created hnone
      | producer hb => exact h.producer hb rfl hroom
      | consumer hb => exact h.consumer hb rfl hroom
  | work topic storage =>
      have hfind := fun other => m.work_find topic other storage
      refine h.same ?_ (fun {other b} hb => ?_) fun k => ?_
      · rw [BrokerManager.step]
        split
        · rfl
        · rfl
      · rcases hfind other with heq | ⟨b₀, hb₀, heq⟩
        · exact h.interface (heq.symm.trans hb)
        · obtain rfl := Option.some.inj (heq.symm.trans hb)
          have hinterface : b₀.config.bindInterface = ascii "tcp://*" := h.interface hb₀
          exact hinterface
      · rcases hfind k.1 with heq | ⟨b₀, hb₀, heq⟩
        · rw [uriOf, uriOf, heq]
        · rw [uriOf, uriOf, heq, hb₀]
          obtain ⟨other, kind⟩ := k
          cases kind <;> rfl

theorem Numbered.run {steps : List AdminStep} (h : Numbered bindPort drawn m)
    (hroom : bindPort + 1 + (drawn + allocated m steps) ≤ 2 ^ 32) :
    Numbered bindPort (drawn + allocated m steps) (m.run steps) := by
  induction steps generalizing m drawn with
  | nil => exact h
  | cons s steps ih =>
      rw [allocated] at hroom
      rw [allocated, ← Nat.add_assoc]
      exact ih (h.step s (by omega)) (by omega)

end Ports

/-! ## Runs -/

/-- Two joins that are answered `ok`, at any time of a run, have the same URI
exactly if they are for the same topic and of the same kind; and it is not
that of the admin. -/
theorem join_uris_apart {adminUserid adminPassword transport bindIp adminUri : Bytes}
    {bindPort : Nat} {initialized : Bool} {m : BrokerManager}
    (hinit : initBroker none adminUserid adminPassword transport bindIp bindPort initialized
      = some (adminUri, m)) {steps : List AdminStep}
    (hports : allocated m steps < 2 ^ 32 - bindPort) {req req' : JoinReq} {resp resp' : JoinResp}
    (h : Answered m steps req resp) (h' : Answered m steps req' resp') :
    (resp.bindUri = resp'.bindUri ↔
      req.topic = req'.topic ∧ kindOf req.type = kindOf req'.type) ∧
      ¬ CarriesPort resp.bindUri bindPort := by
  have hnumbered : Numbered bindPort (0 + allocated m steps) (m.run steps) :=
    (numbered_initBroker hinit).run (by omega)
  obtain ⟨f, hlabels, huris⟩ := hnumbered.uris
  have hport : ∀ {req : JoinReq} {resp : JoinResp}, Answered m steps req resp →
      ∃ p, f (req.topic, kindOf req.type) = some p ∧ resp.bindUri = localUri (portUri p) := by
    intro req resp h
    obtain ⟨uri, huri, hbind⟩ := h.uri
    rw [huris] at huri
    obtain ⟨p, hp, rfl⟩ := Option.map_eq_some_iff.mp huri
    exact ⟨p, hp, hbind⟩
  obtain ⟨p, hp, hbind⟩ := hport h
  obtain ⟨p', hp', hbind'⟩ := hport h'
  refine ⟨⟨fun hsame => ?_, ?_⟩, fun hcarries => ?_⟩
  · rw [hbind, hbind'] at hsame
    obtain rfl := localUri_inj hsame
    exact Prod.mk.inj (hlabels.inj hp hp')
  · rintro ⟨htopic, hkind⟩
    rw [htopic, hkind, hp'] at hp
    rw [hbind, hbind', Option.some.inj hp]
  · rw [hbind] at hcarries
    obtain rfl := carriesPort_localUri.mp hcarries
    exact absurd (hlabels.range hp).1 (Nat.not_le.mpr (Nat.lt_succ_self _))

/-- A topic, a publisher whose first join fails, and a subscriber. -/
def joinTwice : List AdminStep :=
  let env : AdminEnv := ⟨true, true, true, 0, 0, 0, fun reply => reply.length⟩
  let join (type : Bytes) : Bytes :=
    ascii "\x7b\"cmd\": \"join\", \"topic\": \"t\", \"type\": \"" ++ type ++ ascii "\"\x7d"
  [.message (ascii "\x7b\"cmd\": \"create_topic\", \"topic\": \"t\"\x7d") env,
    .message (join (ascii "pub")) { env with producerInit := false },
    .message (join (ascii "pub")) env, .message (join (ascii "sub")) env]

theorem join_uris_apart_joinTwice :
    ∃ m, initBroker none [] [] (ascii "tcp") (ascii "*") 5000 true = some (ascii "tcp://*:5000", m) ∧
      (ascii "tcp://127.0.0.1:5001" = ascii "tcp://127.0.0.1:5002" ↔
        ascii "t" = ascii "t" ∧ kindOf (ascii "pub") = kindOf (ascii "sub")) ∧
      ¬ CarriesPort (ascii "tcp://127.0.0.1:5001") 5000 := by
  have hinit : initBroker none [] [] (ascii "tcp") (ascii "*") 5000 true
      = some (ascii "tcp://*:5000", start [] [] (some 5001)) := by rfl
  refine ⟨_, hinit, ?_⟩
  have hpub : Answered (start [] [] (some 5001)) joinTwice ⟨ascii "pub", ascii "t", [], [], []⟩
      ⟨statusSuccess, ascii "t", ascii "tcp://127.0.0.1:5001"⟩ :=
    ⟨joinTwice.take 2, _, _, joinTwice.drop 3, rfl, ⟨by decide, by decide⟩, by decide, rfl⟩
  have hsub : Answered (start [] [] (some 5001)) joinTwice ⟨ascii "sub", ascii "t", [], [], []⟩
      ⟨statusSuccess, ascii "t", ascii "tcp://127.0.0.1:5002"⟩ :=
    ⟨joinTwice.take 3, _, _, [], rfl, ⟨by decide, by decide⟩, by decide, rfl⟩
  exact join_uris_apart hinit (by decide) hpub hsub

end BrokerManager

end LightQ
