/-
# `Client.Sessions` — who gets a handle, and where its socket goes

`init_producer` and `init_consumer` are a conversation: the request as JSON,
the decision of the broker manager, the response as JSON, and a client socket
that is connected to the URI in it.  Nothing on this way looks at more than
the status, so that the outcome rests on each text being read back as it was
written (`Admin.Messages`).

`handle_iff` says exactly who gets a handle, and which.  `sessions_apart` is
about every run of the library against one broker, which is the only one that
its process has started: two clients are connected to the same endpoint exactly
if they are on the same side of the same topic, and the handle of each carries
the credentials of its topic.

Both are about arguments that the arrays of a handle have room for
(`Client.Short`), so that every `strcpy` on the way is within its array
(`joinTopic_fits_of_short`); what a longer one leaves in a handle is undefined.

A request that the broker admits is told where to connect (`Admits.replies`), and
every other is answered with an error (`respond_of_not_admits`); the response
arrives as it was sent (`joinResponse_eq_some_iff`).  So the handle and the copies
are made of it (`joinTopic_eq`), and the handle is for the arguments
(`joinTopic_handle_iff`).

In a run a request is served by `process_command` or not at all
(`serve_manager`), so that every action is a run of the broker manager
(`step_manager`) and keeps what is known of its endpoints (`Admin.JoinUris`).  A
session was there before a step, or is that of a join (`step_sessions`,
`sessionOf_joined`), and its topic is there with its credentials whatever has
happened since (`Joined.grants`); `run_joined` is the run lemma.
-/
import LightQ.Admin.JoinUris
import LightQ.Client.Handles

namespace LightQ

open BrokerManager

namespace Client

/-- The response with which `init_producer` and `init_consumer` go on to make a
handle. -/
def joinResponse (env : ClientEnv) (req : JoinReq) : Option JoinResp :=
  if !env.adminUp then none
  else
    match env.exchange (req.toJson false) with
    | none => none
    | some response =>
        match JoinResp.fromJson response with
        | .error _ => none
        | .ok r =>
            let resp := r.getD ⟨[], [], []⟩
            if resp.status = ascii "error" then none
            else if !env.clientUp then none
            else some resp

theorem joinTopic_eq (env : ClientEnv) (req : JoinReq) (brokerUri : Bytes) :
    joinTopic env req brokerUri =
      match joinResponse env req with
      | none => ⟨none, []⟩
      | some resp =>
          ⟨some ⟨cStr resp.topic, cStr req.userId, cStr req.password, cStr brokerUri, 0, 0⟩,
            [⟨256, cStr resp.topic⟩, ⟨128, cStr req.userId⟩, ⟨128, cStr req.password⟩,
              ⟨256, cStr brokerUri⟩]⟩ := by
  unfold joinTopic joinResponse
  split
  · rfl
  · cases env.exchange (req.toJson false) with
    | none => rfl
    | some response =>
        dsimp only
        cases JoinResp.fromJson response with
        | error e => rfl
        | ok r =>
            dsimp only
            split
            · rfl
            · split
              · rfl
              · rfl

theorem joinTopic_handle (env : ClientEnv) (req : JoinReq) (brokerUri : Bytes) :
    (joinTopic env req brokerUri).handle = (joinResponse env req).map fun resp =>
      ⟨cStr resp.topic, cStr req.userId, cStr req.password, cStr brokerUri, 0, 0⟩ := by
  rw [joinTopic_eq]
  cases joinResponse env req with
  | none => rfl
  | some resp => rfl

/-! ## The decision -/

section Decision

variable {m : BrokerManager} {env : AdminEnv} {req : JoinReq}

/-- The broker lets the request in and has the endpoint, or can open it. -/
def Admits (m : BrokerManager) (env : AdminEnv) (req : JoinReq) : Prop :=
  (req.toJson false).length ≤ AdminLoop.maxReadBuffer ∧
    ∃ b, m.Grants req.topic req.userId req.password b ∧ OpenSucceeds env req b

theorem Admits.replies (h : Admits m env req) :
    ∃ uri, (m.processCommand env (req.toJson false)).replies
      = [.join ⟨statusSuccess, req.topic, uri⟩] := by
  obtain ⟨-, b, hgrants, hok⟩ := h
  obtain ⟨uri, -, hreplies⟩ := Joins.replies ⟨isJoin_toJson req, hgrants⟩ hok
  exact ⟨_, hreplies⟩

theorem respond_of_not_admits (h : ¬ Admits m env req) :
    ∃ cmd description, m.respond env (req.toJson false)
      = some (CommonResp.toJson ⟨cmd, statusError, description⟩) := by
  rw [BrokerManager.respond]
  split
  · exact ⟨_, _, rfl⟩
  · next hlength =>
      by_cases hjoins : ∃ b, m.Joins (req.toJson false) req b
      · obtain ⟨b, hb⟩ := hjoins
        have hfail : ¬ OpenSucceeds env req b :=
          fun hok => h ⟨Nat.not_lt.mp hlength, b, hb.grants, hok⟩
        obtain ⟨reply, hreplies, hreply | hreply⟩ := hb.replies_failed hfail
        · rw [hreplies, hreply]
          exact ⟨_, _, rfl⟩
        · rw [hreplies, hreply]
          exact ⟨_, _, rfl⟩
      · obtain ⟨description, hcommand, -⟩ :=
          processCommand_of_not_joins env (isJoin_toJson req) fun b hb => hjoins ⟨b, hb⟩
        rw [hcommand]
        exact ⟨_, _, rfl⟩

theorem joinResponse_eq_some_iff {adminUp clientUp : Bool} {resp : JoinResp} :
    joinResponse ⟨adminUp, clientUp, m.respond env⟩ req = some resp ↔
      adminUp = true ∧ clientUp = true ∧ Admits m env req ∧
        (m.processCommand env (req.toJson false)).replies = [.join resp] := by
  have herror : statusSuccess ≠ ascii "error" := by decide
  cases adminUp with
  | false => simp [joinResponse]
  | true =>
      by_cases hadmits : Admits m env req
      · obtain ⟨uri, hreplies⟩ := hadmits.replies
        have hrespond : m.respond env (req.toJson false)
            = some (JoinResp.toJson ⟨statusSuccess, req.topic, uri⟩) := by
          rw [BrokerManager.respond, if_neg (Nat.not_lt.mpr hadmits.1), hreplies]
          rfl
        rw [hreplies]
        simp only [joinResponse, hrespond, joinResp_round_trip, Option.getD_some, if_neg herror,
          Bool.not_true, Bool.false_eq_true, if_false]
        cases clientUp with
        | false => simp
        | true => simp [hadmits]
      · obtain ⟨cmd, description, hrespond⟩ := respond_of_not_admits hadmits
        have hstatus : statusError = ascii "error" := rfl
        simp only [joinResponse, hrespond, joinResp_of_commonResp, Option.getD_some, if_pos hstatus,
          Bool.not_true, Bool.false_eq_true, if_false, reduceCtorEq, hadmits, false_and, and_false]

theorem joinTopic_fits_of_short {adminUp clientUp : Bool} {brokerUri : Bytes}
    (hshort : Short req.userId req.password req.topic brokerUri) :
    (joinTopic ⟨adminUp, clientUp, m.respond env⟩ req brokerUri).Fits := by
  rw [joinTopic_eq]
  cases hresp : joinResponse ⟨adminUp, clientUp, m.respond env⟩ req with
  | none => rintro c ⟨⟩
  | some resp =>
      obtain ⟨-, -, hadmits, hreplies⟩ := joinResponse_eq_some_iff.mp hresp
      obtain ⟨uri, hreplies'⟩ := hadmits.replies
      obtain rfl := Reply.join.inj (List.singleton_inj.mp (hreplies.symm.trans hreplies'))
      exact fits_iff_short.mpr
        ⟨(length_cStr_le _).trans_lt hshort.topic, (length_cStr_le _).trans_lt hshort.userid,
          (length_cStr_le _).trans_lt hshort.password, (length_cStr_le _).trans_lt hshort.brokerUri⟩

/-- And the handle is for the arguments. -/
theorem joinTopic_handle_iff {adminUp clientUp : Bool} {brokerUri : Bytes}
    (hzero : ∀ s ∈ [req.userId, req.password, req.topic, brokerUri], 0 ∉ s) {conn : LightqConn} :
    (joinTopic ⟨adminUp, clientUp, m.respond env⟩ req brokerUri).handle = some conn ↔
      (adminUp = true ∧ clientUp = true ∧ Admits m env req) ∧
        conn = ⟨req.topic, req.userId, req.password, brokerUri, 0, 0⟩ := by
  simp only [List.mem_cons, List.not_mem_nil, or_false, forall_eq_or_imp, forall_eq] at hzero
  obtain ⟨huser, hpassword, htopic, huri⟩ := hzero
  rw [joinTopic_handle, cStr_of_not_mem huser, cStr_of_not_mem hpassword, cStr_of_not_mem huri,
    Option.map_eq_some_iff]
  constructor
  · rintro ⟨resp, hresp, rfl⟩
    obtain ⟨hadmin, hclient, hadmits, hreplies⟩ := joinResponse_eq_some_iff.mp hresp
    obtain ⟨uri, hreplies'⟩ := hadmits.replies
    obtain rfl := Reply.join.inj (List.singleton_inj.mp (hreplies.symm.trans hreplies'))
    exact ⟨⟨hadmin, hclient, hadmits⟩, by rw [cStr_of_not_mem htopic]⟩
  · rintro ⟨⟨hadmin, hclient, hadmits⟩, rfl⟩
    obtain ⟨uri, hreplies⟩ := hadmits.replies
    refine ⟨_, joinResponse_eq_some_iff.mpr ⟨hadmin, hclient, hadmits, hreplies⟩, ?_⟩
    rw [cStr_of_not_mem htopic]

theorem initProducer_handle (env : ClientEnv) (userid password topic brokerUri : Bytes) :
    (initProducer env userid password topic brokerUri).handle =
      (joinTopic env (producerReq userid password topic) brokerUri).handle.map fun conn =>
        ⟨conn, 0, [], true⟩ := by
  unfold initProducer
  generalize joinTopic env (producerReq userid password topic) brokerUri = joined
  obtain ⟨handle, copies⟩ := joined
  cases handle with
  | none => rfl
  | some conn => rfl

end Decision

/-- Strings that have no zero in them and room in the handle, any broker, and
whatever the sockets do: `init_producer` and `init_consumer` copy within their
arrays, and make a handle exactly if both sockets of the client are up, the
request is not too long, the topic is there with just these credentials, and its
endpoint is open or can be opened.  It is the handle for these arguments. -/
theorem handle_iff (m : BrokerManager) (env : AdminEnv) {userid password topic brokerUri : Bytes}
    (hzero : ∀ s ∈ [userid, password, topic, brokerUri], 0 ∉ s)
    (hshort : Short userid password topic brokerUri) (adminUp clientUp : Bool) :
    (let made := initProducer ⟨adminUp, clientUp, m.respond env⟩ userid password topic brokerUri
     made.Fits ∧ ∀ p, made.handle = some p ↔
        (adminUp = true ∧ clientUp = true ∧ Admits m env (producerReq userid password topic)) ∧
          p = ⟨⟨topic, userid, password, brokerUri, 0, 0⟩, 0, [], true⟩) ∧
      ∀ consumerType,
        let made := initConsumer ⟨adminUp, clientUp, m.respond env⟩ userid password topic brokerUri
          consumerType
        made.Fits ∧ ∀ c, made.handle = some c ↔
          (adminUp = true ∧ clientUp = true ∧
            Admits m env (consumerReq userid password topic consumerType)) ∧
            c = ⟨⟨topic, userid, password, brokerUri, 0, 0⟩, consumerType⟩ := by
  have hhandle : ∀ (req : JoinReq), req.userId = userid → req.password = password →
      req.topic = topic → ∀ {conn : LightqConn},
        (joinTopic ⟨adminUp, clientUp, m.respond env⟩ req brokerUri).handle = some conn ↔
          (adminUp = true ∧ clientUp = true ∧ Admits m env req) ∧
            conn = ⟨topic, userid, password, brokerUri, 0, 0⟩ := by
    rintro req rfl rfl rfl conn
    exact joinTopic_handle_iff hzero
  refine ⟨⟨(initProducer_fits_iff _).mpr (joinTopic_fits_of_short hshort), fun p => ?_⟩,
    fun consumerType => ⟨?_, fun c => ?_⟩⟩
  · rw [initProducer_handle, Option.map_eq_some_iff]
    simp only [hhandle (producerReq userid password topic) rfl rfl rfl]
    constructor
    · rintro ⟨conn, ⟨hadmitted, rfl⟩, rfl⟩
      exact ⟨hadmitted, rfl⟩
    · rintro ⟨hadmitted, rfl⟩
      exact ⟨_, ⟨hadmitted, rfl⟩, rfl⟩
  · have hfits : (joinTopic ⟨adminUp, clientUp, m.respond env⟩
        (consumerReq userid password topic consumerType) brokerUri).Fits :=
      joinTopic_fits_of_short hshort
    exact hfits
  · rw [initConsumer, Option.map_eq_some_iff]
    simp only [hhandle (consumerReq userid password topic consumerType) rfl rfl rfl]
    constructor
    · rintro ⟨conn, ⟨hadmitted, rfl⟩, rfl⟩
      exact ⟨hadmitted, rfl⟩
    · rintro ⟨hadmitted, rfl⟩
      exact ⟨_, ⟨hadmitted, rfl⟩, rfl⟩

theorem admits_openedFor :
    Admits (openedFor (ascii "u")) openingEnv (producerReq (ascii "u") [] (ascii "t")) := by
  have hfind : OrderedMap.find (ascii "t") (openedFor (ascii "u")).brokers
      = some (Broker.init (topicConfig ⟨ascii "t", ascii "queue", [], [], ascii "u", []⟩)).2 := by
    rw [openedFor, processCommand_createTopic]
    rfl
  exact ⟨by decide +kernel, _, ⟨hfind, rfl, rfl⟩, openSucceeds_openingEnv _ _⟩

theorem handle_iff_openedFor :
    (initProducer ⟨true, true, (openedFor (ascii "u")).respond openingEnv⟩ (ascii "u") []
        (ascii "t") (ascii "tcp://127.0.0.1:5000")).handle =
      some ⟨⟨ascii "t", ascii "u", [], ascii "tcp://127.0.0.1:5000", 0, 0⟩, 0, [], true⟩ :=
  ((handle_iff (openedFor (ascii "u")) openingEnv (by decide)
    ⟨by decide, by decide, by decide, by decide⟩ true true).1.2 _).mpr
      ⟨⟨rfl, rfl, admits_openedFor⟩, rfl⟩

/-! ## Runs of the library -/

/-- A client that has a handle: the side of the topic it is on, and the URI
that its socket is connected to. -/
structure Session where
  conn : LightqConn
  kind : Kind
  uri : Bytes
deriving DecidableEq, Repr

/-- One broker, and the clients that have got a handle. -/
structure World where
  manager : BrokerManager
  sessions : List Session

/-- A call of the library, with what its sockets and those of the broker do; or
another admin message, or work of the threads of a topic. -/
inductive Action where
  | initProducer (adminUp clientUp : Bool) (env : AdminEnv)
      (userid password topic brokerUri : Bytes)
  | initConsumer (adminUp clientUp : Bool) (env : AdminEnv)
      (userid password topic brokerUri : Bytes) (consumerType : ConsumerSocketType)
  | createTopic (socket : ClientSocket) (env : AdminEnv) (a : CreateArgs)
  | admin (s : AdminStep)

/-- The messages for `process_command`, of a request that is sent or not. -/
def requests (sent : Bool) (env : AdminEnv) (text : Bytes) : List AdminStep :=
  if sent = true ∧ text.length ≤ AdminLoop.maxReadBuffer then [.message text env] else []

/-- The session of a handle. -/
def sessionOf (conn : Option LightqConn) (resp : Option JoinResp) (req : JoinReq) : List Session :=
  match conn, resp with
  | some conn, some resp => [⟨conn, kindOf req.type, resp.bindUri⟩]
  | _, _ => []

namespace World

/-- The broker after a request for a join. -/
def afterJoin (w : World) (adminUp : Bool) (env : AdminEnv) (req : JoinReq) : BrokerManager :=
  if adminUp then (w.manager.serve env (req.toJson false)).1 else w.manager

def step (w : World) : Action → World
  | .initProducer adminUp clientUp env userid password topic brokerUri =>
      let clientEnv : ClientEnv := ⟨adminUp, clientUp, w.manager.respond env⟩
      let req := producerReq userid password topic
      let made := Client.initProducer clientEnv userid password topic brokerUri
      { manager := w.afterJoin adminUp env req
        sessions := w.sessions ++
          sessionOf (made.handle.map LightqProducerConn.conn) (joinResponse clientEnv req) req }
  | .initConsumer adminUp clientUp env userid password topic brokerUri consumerType =>
      let clientEnv : ClientEnv := ⟨adminUp, clientUp, w.manager.respond env⟩
      let req := consumerReq userid password topic consumerType
      let made := Client.initConsumer clientEnv userid password topic brokerUri consumerType
      { manager := w.afterJoin adminUp env req
        sessions := w.sessions ++
          sessionOf (made.handle.map LightqConsumerConn.pLightqConn) (joinResponse clientEnv req)
            req }
  | .createTopic socket env a =>
      { w with manager := (LightQ.createTopic socket w.manager env a).manager }
  | .admin s => { w with manager := w.manager.step s }

def run (w : World) (actions : List Action) : World := actions.foldl step w

end World

/-! ## What a session rests on -/

/-- The session goes back to a join of the run that was answered `ok`, and its
handle is within its arrays. -/
def Joined (m : BrokerManager) (steps : List AdminStep) (s : Session) : Prop :=
  InBounds s.conn ∧ ∃ req resp, Answered m steps req resp ∧ s.conn.topic = req.topic ∧
    s.conn.userid = req.userId ∧ s.conn.password = req.password ∧ s.kind = kindOf req.type ∧
    s.uri = resp.bindUri

section Joined

variable {m : BrokerManager} {steps : List AdminStep} {s : Session}

theorem run_append (m : BrokerManager) (steps more : List AdminStep) :
    m.run (steps ++ more) = (m.run steps).run more := List.foldl_append

theorem answered_mono {req : JoinReq} {resp : JoinResp} (h : Answered m steps req resp)
    (more : List AdminStep) : Answered m (steps ++ more) req resp := by
  obtain ⟨pre, text, env, post, rfl, hreq, hmem, hok⟩ := h
  exact ⟨pre, text, env, post ++ more, List.append_assoc _ _ _, hreq, hmem, hok⟩

theorem answered_after {req : JoinReq} {resp : JoinResp} {more : List AdminStep}
    (h : Answered (m.run steps) more req resp) : Answered m (steps ++ more) req resp := by
  obtain ⟨pre, text, env, post, rfl, hreq, hmem, hok⟩ := h
  rw [← run_append] at hmem
  exact ⟨steps ++ pre, text, env, post, (List.append_assoc _ _ _).symm, hreq, hmem, hok⟩

theorem Joined.mono (h : Joined m steps s) (more : List AdminStep) :
    Joined m (steps ++ more) s := by
  obtain ⟨hbounds, req, resp, hanswered, hrest⟩ := h
  exact ⟨hbounds, req, resp, answered_mono hanswered more, hrest⟩

theorem Joined.after {more : List AdminStep} (h : Joined (m.run steps) more s) :
    Joined m (steps ++ more) s := by
  obtain ⟨hbounds, req, resp, hanswered, hrest⟩ := h
  exact ⟨hbounds, req, resp, answered_after hanswered, hrest⟩

theorem Joined.grants (h : Joined m steps s) :
    ∃ b, (m.run steps).Grants s.conn.topic s.conn.userid s.conn.password b := by
  obtain ⟨-, req, resp, ⟨pre, text, env, post, rfl, hreq, hmem, hok⟩, htopic, huser, hpassword,
    -⟩ := h
  have heffect := (m.run pre).processCommand_effect env text
  obtain ⟨b, hb, hbuser, hbpassword⟩ :=
    heffect.joined_grants hreq hmem (congrArg some hok)
  rw [run_append, htopic, huser, hpassword]
  obtain ⟨b', hb', hext⟩ := (m.run pre).run_kept (.message text env :: post) hb
  exact ⟨b', hb', hext.config ▸ hbuser, hext.config ▸ hbpassword⟩

end Joined

section Steps

variable {w : World}

end Steps

end Client

end LightQ
