/-
# `Admin.Replies` — one reply to every admin message

Every handler ends in one call of `reply_cmd`, in every branch and whatever
the sockets do, and no `from_json` throws once `get_cmd` has returned a
command.  What is left is `get_cmd` itself: it takes the field `cmd` without
asking for its type, unlike the `from_json` functions, which ask before they
take.

So a message is answered, and once, when it does not parse or when it is an
object whose `cmd` is a string (`processCommand_replies_once_iff`).  On every
other message an exception leaves `process_command` before anything is sent
(`processCommand_throws`): a value that is no object, an object without a
`cmd`, a `cmd` of another type, and a number that overflows a `double`.

The first half goes through the branches of `process_command`
(`processCommand_repliesOnce`): behind `get_cmd` the message is an object, and
every `from_json` succeeds.  Of what the handlers call, `init_producer` is called
with a ZeroMQ stream and does not throw (`openProducer_ok`), and
`init_consumer` throws only of a stream that no join can name.
-/
import LightQ.Admin.BrokerManager

namespace LightQ

open Picojson

/-- A command returned normally and called `reply_cmd` once. -/
def Processed.RepliesOnce (p : Processed) : Prop :=
  (∃ value, p.ended = .ok value) ∧ p.replies.length = 1

namespace BrokerManager

/-- The text does not parse, or it is an object whose `cmd` is a string. -/
def Answerable (message : Bytes) : Prop :=
  parse message = .ok none ∨
    ∃ o cmd, parse message = .ok (some (.object o)) ∧
      OrderedMap.find (ascii "cmd") o = some (.string cmd)

section Handlers

variable (m : BrokerManager) (env : AdminEnv)

theorem replyCmd_repliesOnce (reply : Reply) : (m.replyCmd env reply).RepliesOnce :=
  ⟨⟨_, rfl⟩, rfl⟩

theorem replyCommon_repliesOnce (cmd status description : Bytes) :
    (m.replyCommon env cmd status description).RepliesOnce :=
  m.replyCmd_repliesOnce env _

theorem replyInvalidCmd_repliesOnce (cmd : Bytes) : (m.replyInvalidCmd env cmd).RepliesOnce :=
  m.replyCommon_repliesOnce env _ _ _

theorem replyToStats_repliesOnce (req : StatsReq) : (m.replyToStats env req).RepliesOnce := by
  unfold replyToStats
  split
  · exact m.replyCommon_repliesOnce env _ _ _
  · split
    · exact m.replyCommon_repliesOnce env _ _ _
    · exact m.replyCmd_repliesOnce env _

theorem replyCreateTopic_repliesOnce (req : CreateTopicReq) :
    (m.replyCreateTopic env req).RepliesOnce := by
  unfold replyCreateTopic
  split
  · exact m.replyCommon_repliesOnce env _ _ _
  · split
    · exact m.replyCommon_repliesOnce env _ _ _
    · split
      · exact m.replyCommon_repliesOnce env _ _ _
      · exact replyCommon_repliesOnce _ env _ _ _

theorem openProducer_ok (b : Broker) : ∃ ok, (m.openProducer env b).1 = .ok ok := by
  unfold openProducer
  split
  · exact ⟨true, rfl⟩
  · exact ⟨env.producerInit, Broker.initProducer_zmq b env rfl⟩

theorem streamOf_ne_file (connectionType : Bytes) : streamOf connectionType ≠ .file := by
  unfold streamOf
  split
  · exact StreamType.noConfusion
  · exact StreamType.noConfusion

theorem openConsumer_ok (b : Broker) (connectionType : Bytes) :
    ∃ ok, (m.openConsumer env b connectionType).1 = .ok ok := by
  unfold openConsumer
  split
  · exact ⟨true, rfl⟩
  · exact Broker.initConsumer_ok b env (streamOf_ne_file connectionType)

theorem joinProducer_repliesOnce (req : JoinReq) (b : Broker) :
    (m.joinProducer env req b).RepliesOnce := by
  obtain ⟨ok, hok⟩ := m.openProducer_ok env b
  simp only [joinProducer, hok]
  cases ok with
  | false => exact replyCommon_repliesOnce _ env _ _ _
  | true =>
      dsimp only
      split
      · exact replyCmd_repliesOnce _ env _
      · exact replyCommon_repliesOnce _ env _ _ _

theorem joinConsumer_repliesOnce (req : JoinReq) (b : Broker) :
    (m.joinConsumer env req b).RepliesOnce := by
  obtain ⟨ok, hok⟩ := m.openConsumer_ok env b req.connectionType
  simp only [joinConsumer, hok]
  cases ok with
  | false => exact replyCommon_repliesOnce _ env _ _ _
  | true =>
      dsimp only
      split
      · exact replyCommon_repliesOnce _ env _ _ _
      · exact replyCmd_repliesOnce _ env _

theorem replyToJoinTopic_repliesOnce (req : JoinReq) :
    (m.replyToJoinTopic env req).RepliesOnce := by
  unfold replyToJoinTopic
  split
  · exact m.replyCommon_repliesOnce env _ _ _
  · split
    · exact m.replyCommon_repliesOnce env _ _ _
    · split
      · exact m.joinProducer_repliesOnce env req _
      · exact m.joinConsumer_repliesOnce env req _

/-! ## The command -/

/-- The cases are the branches of `process_command`; behind `get_cmd` the
message is an object, and every `from_json` succeeds. -/
theorem processCommand_repliesOnce {message : Bytes} (h : Answerable message) :
    (m.processCommand env message).RepliesOnce := by
  rcases h with hp | ⟨o, cmd, hp, hf⟩
  · rw [processCommand, getCmd_none hp]
    exact m.replyInvalidCmd_repliesOnce env message
  · rw [processCommand, getCmd_some_iff.mpr ⟨o, hp, hf⟩]
    simp only [joinReq_fromJson hp, statsReq_fromJson hp, createTopicReq_fromJson hp, handle]
    split
    · exact m.replyCmd_repliesOnce env _
    split
    · exact m.replyToJoinTopic_repliesOnce env _
    split
    · exact m.replyToStats_repliesOnce env _
    split
    · exact m.replyCreateTopic_repliesOnce env _
    · exact m.replyInvalidCmd_repliesOnce env _

theorem getCmd_throws {message : Bytes} (h : ¬ Answerable message) :
    ∃ e, getCmd message = .error e := by
  cases hc : getCmd message with
  | error e => exact ⟨e, rfl⟩
  | ok r =>
      cases r with
      | none => exact absurd (Or.inl (getCmd_none_iff.mp hc)) h
      | some cmd =>
          obtain ⟨o, hp, hf⟩ := getCmd_some_iff.mp hc
          exact absurd (Or.inr ⟨o, cmd, hp, hf⟩) h

/-- Everything else makes an exception escape: nothing is sent and nothing
has changed. -/
theorem processCommand_throws {message : Bytes} (h : ¬ Answerable message) :
    ∃ e, m.processCommand env message = ⟨m, [], .error e⟩ := by
  obtain ⟨e, he⟩ := getCmd_throws h
  exact ⟨e, by rw [processCommand, he]⟩

/-- `process_command` returns with one reply sent exactly on the messages
that do not parse and on the objects whose `cmd` is a string. -/
theorem processCommand_replies_once_iff (message : Bytes) :
    (m.processCommand env message).RepliesOnce ↔ Answerable message := by
  constructor
  · intro honce
    by_contra h
    obtain ⟨e, he⟩ := m.processCommand_throws env h
    obtain ⟨⟨value, hvalue⟩, -⟩ := honce
    rw [he] at hvalue
    cases hvalue
  · exact m.processCommand_repliesOnce env

end Handlers

/-- An empty JSON object: `cmd` is missing, and `get<std::string>` throws. -/
theorem processCommand_not_replies_once :
    ¬ ∀ (m : BrokerManager) (env : AdminEnv) (message : Bytes),
      (m.processCommand env message).RepliesOnce := by
  intro h
  obtain ⟨⟨value, hvalue⟩, -⟩ := h ⟨ascii "lightq_admin", ascii "T0p$3cr31", [], none⟩
    ⟨true, true, true, 0, 0, 0, fun reply => reply.length⟩ (ascii "\x7b\x7d")
  cases hvalue

end BrokerManager

end LightQ
