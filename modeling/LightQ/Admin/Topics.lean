/-
# `Admin.Topics` — what a command leaves of the topics

A command leaves the manager as it was, adds a topic, or stores a topic for
which `reply_to_join_topic` has opened an endpoint.  `Leaves` has these
cases, with the very state that is stored, and `processCommand_leaves` says
that there are no others.

What a command does to a topic that is there follows (`Leaves.topic`), and from it
what the modules about the topics need: `set_consumer_socket` is all that a join
does to the storage (`openConsumer_storage`), a consumer that is there is not
touched (`openConsumer_of_some`), and the files of the topics are left alone, a new
topic having those of `init` (`Leaves.pFile`).

This is the frame of every run in which admin messages and the threads of the
topics take turns: the messages change which topics and endpoints there are, and
the threads what the storages hold.
-/
import LightQ.Admin.Access

namespace LightQ

namespace BrokerManager

/-- The manager after a command. -/
inductive Leaves (m : BrokerManager) (env : AdminEnv) : BrokerManager → Prop
  | same : Leaves m env m
  | created {req : CreateTopicReq} : OrderedMap.find req.topic m.brokers = none →
      Leaves m env { m with
        brokers := OrderedMap.assign req.topic (Broker.init (topicConfig req)).2 m.brokers }
  | producer {topic : Bytes} {b : Broker} : OrderedMap.find topic m.brokers = some b →
      Leaves m env (m.store topic (m.openProducer env b).2.1 (m.openProducer env b).2.2)
  | consumer {topic connectionType : Bytes} {b : Broker} :
      OrderedMap.find topic m.brokers = some b →
      Leaves m env (m.store topic (m.openConsumer env b connectionType).2.1
        (m.openConsumer env b connectionType).2.2)

section Handlers

variable (m : BrokerManager) (env : AdminEnv)

theorem replyToJoinTopic_leaves (req : JoinReq) :
    Leaves m env (m.replyToJoinTopic env req).manager := by
  unfold replyToJoinTopic
  split
  · exact .same
  · next b hb =>
      split
      · exact .same
      · split
        · rw [joinProducer_manager]
          exact .producer hb
        · rw [joinConsumer_manager]
          exact .consumer hb

theorem replyCreateTopic_leaves (req : CreateTopicReq) :
    Leaves m env (m.replyCreateTopic env req).manager := by
  unfold replyCreateTopic
  split
  · exact .same
  · next hnone =>
      split
      · exact .same
      · show Leaves m env { m with brokers := OrderedMap.insert req.topic _ m.brokers }
        rw [OrderedMap.insert_of_none hnone]
        exact .created hnone

theorem replyToStats_leaves (req : StatsReq) : Leaves m env (m.replyToStats env req).manager := by
  unfold replyToStats
  split
  · exact .same
  · split
    · exact .same
    · exact .same

theorem handle_leaves {Req : Type} (cmd : Bytes) (req : Except Thrown (Option Req))
    {handler : Req → Processed} (h : ∀ r, Leaves m env (handler r).manager) :
    Leaves m env (m.handle env cmd req handler).manager := by
  unfold handle
  split
  · exact .same
  · exact .same
  · exact h _

theorem processCommand_leaves (message : Bytes) :
    Leaves m env (m.processCommand env message).manager := by
  unfold processCommand
  split
  · exact .same
  · exact .same
  · split
    · exact .same
    · split
      · exact m.handle_leaves env _ _ (m.replyToJoinTopic_leaves env)
      · split
        · exact m.handle_leaves env _ _ (m.replyToStats_leaves env)
        · split
          · exact m.handle_leaves env _ _ (m.replyCreateTopic_leaves env)
          · exact .same

end Handlers

/-! ## The storage of a topic -/

section Storage

variable {m m' : BrokerManager} {env : AdminEnv}

theorem openProducer_storage (m : BrokerManager) (env : AdminEnv) (b : Broker) :
    (m.openProducer env b).2.1.storage = b.storage := by
  unfold openProducer
  split
  · rfl
  · show (b.initProducer _ env).2.storage = b.storage
    unfold Broker.initProducer
    split
    · rfl
    · rfl

theorem openConsumer_storage (m : BrokerManager) (env : AdminEnv) (b : Broker)
    (connectionType : Bytes) :
    ∃ socket, (m.openConsumer env b connectionType).2.1.storage
      = { b.storage with pConsumerSocket := socket } := by
  unfold openConsumer
  split
  · exact ⟨_, rfl⟩
  · show ∃ socket, (b.initConsumer _ env).2.storage = { b.storage with pConsumerSocket := socket }
    unfold Broker.initConsumer
    split
    · exact ⟨_, rfl⟩
    · exact ⟨_, rfl⟩

theorem openConsumer_of_some {b : Broker} {c : Consumer} {connectionType : Bytes}
    (hc : b.pConsumer = some c) : (m.openConsumer env b connectionType).2.1 = b := by
  simp only [openConsumer, hc]

theorem openConsumer_pConsumer (m : BrokerManager) (env : AdminEnv) (b : Broker)
    (connectionType : Bytes) :
    ∃ c, (m.openConsumer env b connectionType).2.1.pConsumer = some c := by
  unfold openConsumer
  split
  · next c hc => exact ⟨c, hc⟩
  · exact b.initConsumer_pConsumer env _

/-- What a command does to a topic that is there. -/
theorem Leaves.topic (h : Leaves m env m') {topic : Bytes} {b : Broker}
    (hb : OrderedMap.find topic m.brokers = some b) :
    ∃ b', OrderedMap.find topic m'.brokers = some b' ∧
      (b' = b ∨ b' = (m.openProducer env b).2.1 ∨
        ∃ connectionType, b' = (m.openConsumer env b connectionType).2.1) := by
  cases h with
  | same => exact ⟨b, hb, Or.inl rfl⟩
  | @created req hnone =>
      have hne : topic ≠ req.topic := by
        rintro rfl
        rw [hb] at hnone
        cases hnone
      exact ⟨b, (OrderedMap.find_assign_of_ne hne _ _).trans hb, Or.inl rfl⟩
  | @producer other b₀ hb₀ =>
      by_cases htopic : topic = other
      · subst htopic
        obtain rfl := Option.some.inj (hb.symm.trans hb₀)
        exact ⟨_, OrderedMap.find_assign_self _ _ _, Or.inr (Or.inl rfl)⟩
      · exact ⟨b, (OrderedMap.find_assign_of_ne htopic _ _).trans hb, Or.inl rfl⟩
  | @consumer other connectionType b₀ hb₀ =>
      by_cases htopic : topic = other
      · subst htopic
        obtain rfl := Option.some.inj (hb.symm.trans hb₀)
        exact ⟨_, OrderedMap.find_assign_self _ _ _, Or.inr (Or.inr ⟨connectionType, rfl⟩)⟩
      · exact ⟨b, (OrderedMap.find_assign_of_ne htopic _ _).trans hb, Or.inl rfl⟩

theorem Leaves.pFile (h : Leaves m env m') {topic : Bytes} {b' : Broker}
    (hb' : OrderedMap.find topic m'.brokers = some b') :
    (∃ b, OrderedMap.find topic m.brokers = some b ∧ b'.storage.pFile = b.storage.pFile) ∨
      ∃ req : CreateTopicReq, req.topic = topic ∧ OrderedMap.find topic m.brokers = none ∧
        b' = (Broker.init (topicConfig req)).2 := by
  cases h with
  | same => exact Or.inl ⟨b', hb', rfl⟩
  | @created req hnone =>
      by_cases htopic : topic = req.topic
      · subst htopic
        rw [OrderedMap.find_assign_self] at hb'
        exact Or.inr ⟨req, rfl, hnone, (Option.some.inj hb').symm⟩
      · rw [OrderedMap.find_assign_of_ne htopic] at hb'
        exact Or.inl ⟨b', hb', rfl⟩
  | @producer other b hb =>
      by_cases htopic : topic = other
      · subst htopic
        rw [store, OrderedMap.find_assign_self] at hb'
        obtain rfl := Option.some.inj hb'
        exact Or.inl ⟨b, hb, by rw [openProducer_storage]⟩
      · rw [store, OrderedMap.find_assign_of_ne htopic] at hb'
        exact Or.inl ⟨b', hb', rfl⟩
  | @consumer other connectionType b hb =>
      by_cases htopic : topic = other
      · subst htopic
        rw [store, OrderedMap.find_assign_self] at hb'
        obtain rfl := Option.some.inj hb'
        obtain ⟨socket, hstorage⟩ := openConsumer_storage m env b connectionType
        exact Or.inl ⟨b, hb, by rw [hstorage]⟩
      · rw [store, OrderedMap.find_assign_of_ne htopic] at hb'
        exact Or.inl ⟨b', hb', rfl⟩

end Storage

end BrokerManager

end LightQ
