/-
# `Admin.Secrecy` — what a stranger learns from `create_topic`

`reply_create_topic` looks the topic up before it looks at the credentials of
the administrator, as the handlers of the other requests do.  Without them a
request changes nothing, and its reply depends on the manager in one respect:
whether it has a topic of that name (`replyCreateTopic_stranger`).

`create_topic_reveals_existence` compares two managers that differ in their
topics in any way and have the same administrator.  Neither changes, and the
replies are the same if and only if both have a topic of that name or neither
has.

A reply is what goes over the wire, so that the two refusals have to be compared
as texts: they differ in their description, and therefore there
(`refusal_text_inj`, by what `Admin.Serialize` knows of reading a text back).
-/
import LightQ.Admin.Access
import LightQ.Admin.Messages

namespace LightQ

namespace BrokerManager

variable {m : BrokerManager} {message : Bytes} {req : CreateTopicReq}

/-- The request does not have the credentials of the administrator. -/
def Stranger (m : BrokerManager) (req : CreateTopicReq) : Prop :=
  req.adminUserId ≠ m.userId ∨ req.adminPassword ≠ m.password

/-- The description in the reply to a stranger. -/
def refusal (present : Bool) : Bytes := if present then statusTopicExists else cmdUnauth

theorem processCommand_of_createTopic (env : AdminEnv) (h : IsCreateTopic message req) :
    m.processCommand env message = m.replyCreateTopic env req := by
  obtain ⟨hcmd, hreq⟩ := h
  simp only [processCommand, hcmd, hreq, handle]
  rw [if_neg (by decide), if_neg (by decide), if_neg (by decide), if_pos trivial]

theorem unauthorized_of_stranger (h : m.Stranger req) :
    unauthorized m.userId m.password req.adminUserId req.adminPassword = true := by
  rw [unauthorized, Bool.or_eq_true, decide_eq_true_iff, decide_eq_true_iff]
  exact h.imp Ne.symm Ne.symm

theorem replyCreateTopic_stranger (env : AdminEnv) (h : m.Stranger req) :
    m.replyCreateTopic env req = m.replyCommon env CreateTopicReq.cmd statusError
      (refusal (OrderedMap.find req.topic m.brokers).isSome) := by
  rw [replyCreateTopic]
  cases OrderedMap.find req.topic m.brokers with
  | some b => rfl
  | none =>
      simp only
      rw [if_pos (unauthorized_of_stranger h)]
      rfl

/-- The two refusals differ on the wire. -/
theorem refusal_text_inj {a b : Bool} :
    (Reply.common ⟨CreateTopicReq.cmd, statusError, refusal a⟩).text
      = (Reply.common ⟨CreateTopicReq.cmd, statusError, refusal b⟩).text ↔ a = b := by
  cases a with
  | false =>
      cases b with
      | false => exact iff_of_true rfl rfl
      | true => decide
  | true =>
      cases b with
      | false => decide
      | true => exact iff_of_true rfl rfl

/-- Two managers with the same administrator, and a request without the right
credentials: neither changes, and the replies are the same if and only if both
have a topic of that name or neither has. -/
theorem create_topic_reveals_existence {m₁ m₂ : BrokerManager} (env₁ env₂ : AdminEnv)
    (huser : m₁.userId = m₂.userId) (hpassword : m₁.password = m₂.password)
    (hreq : IsCreateTopic message req) (hstranger : m₁.Stranger req) :
    let p₁ := m₁.processCommand env₁ message
    let p₂ := m₂.processCommand env₂ message
    p₁.manager = m₁ ∧ p₂.manager = m₂ ∧
      (p₁.replies.map Reply.text = p₂.replies.map Reply.text ↔
        ((OrderedMap.find req.topic m₁.brokers).isSome
          = (OrderedMap.find req.topic m₂.brokers).isSome)) := by
  have hstranger₂ : m₂.Stranger req := by
    rw [Stranger, ← huser, ← hpassword]
    exact hstranger
  rw [processCommand_of_createTopic env₁ hreq, processCommand_of_createTopic env₂ hreq,
    replyCreateTopic_stranger env₁ hstranger, replyCreateTopic_stranger env₂ hstranger₂]
  refine ⟨rfl, rfl, ?_⟩
  rw [← refusal_text_inj]
  exact List.singleton_inj

/-- The request of a stranger who guesses, for the topic `t`. -/
def guess : CreateTopicReq :=
  ⟨ascii "t", ascii "queue", ascii "lightq_admin", ascii "guess", ascii "u", ascii "p"⟩

/-- A manager with these topics. -/
def withTopics (brokers : List (Bytes × Broker)) : BrokerManager :=
  ⟨ascii "lightq_admin", ascii "T0p$3cr31", brokers, none⟩

/-- One with the topic `t`. -/
def withTopic : BrokerManager :=
  withTopics [(ascii "t", (Broker.init (topicConfig guess)).2)]

theorem guess_isCreateTopic : IsCreateTopic (guess.toJson false) guess :=
  ⟨createTopicReq_getCmd guess false, createTopicReq_round_trip guess⟩

theorem guess_stranger (brokers : List (Bytes × Broker)) :
    (withTopics brokers).Stranger guess :=
  Or.inr (show ascii "guess" ≠ ascii "T0p$3cr31" by decide)

/-- An environment in which nothing fails. -/
def calmEnv : AdminEnv := ⟨true, true, true, 0, 0, 0, fun reply => reply.length⟩

theorem create_topic_reveals_existence_guess :
    let p₁ := (withTopics []).processCommand calmEnv (guess.toJson false)
    let p₂ := withTopic.processCommand calmEnv (guess.toJson false)
    p₁.manager = withTopics [] ∧ p₂.manager = withTopic ∧
      (p₁.replies.map Reply.text = p₂.replies.map Reply.text ↔
        ((OrderedMap.find guess.topic (withTopics []).brokers).isSome
          = (OrderedMap.find guess.topic withTopic.brokers).isSome)) :=
  create_topic_reveals_existence calmEnv calmEnv rfl rfl guess_isCreateTopic (guess_stranger [])

/-- Without the topic the stranger is unauthorized, with it the topic exists. -/
theorem create_topic_not_secret :
    ¬ ∀ (m₁ m₂ : BrokerManager) (env : AdminEnv) (message : Bytes) (req : CreateTopicReq),
        m₁.userId = m₂.userId → m₁.password = m₂.password → IsCreateTopic message req →
        m₁.Stranger req →
        (m₁.processCommand env message).replies.map Reply.text
          = (m₂.processCommand env message).replies.map Reply.text := by
  intro h
  have hsame := h (withTopics []) withTopic calmEnv (guess.toJson false) guess rfl rfl
    guess_isCreateTopic (guess_stranger [])
  rw [processCommand_of_createTopic calmEnv guess_isCreateTopic,
    processCommand_of_createTopic calmEnv guess_isCreateTopic,
    replyCreateTopic_stranger calmEnv (guess_stranger []),
    replyCreateTopic_stranger calmEnv (show withTopic.Stranger guess from guess_stranger _)] at hsame
  exact absurd (refusal_text_inj.mp (List.singleton_inj.mp hsame)) (by decide)

end BrokerManager

end LightQ
