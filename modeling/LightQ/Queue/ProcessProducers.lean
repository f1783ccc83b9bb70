/-
# `Queue.ProcessProducers` — a direct topic and its producer loop (`producer.h`)

`init_producer` starts a thread that reads messages from the producer socket
and hands each one to `add_to_storage`.  On a direct topic that is
`direct_write_consumer`, which fails while there is no consumer socket, and
the loop returns on the first failure.  No later join starts it again: the
producer is there.

A `World` is the manager, a topic of it, what the producer socket has
received and the loop has not read, the message that the loop has read and not
yet handed on, and what has been written to the consumer socket.  `read_msg`
and `add_to_storage` are two steps, so that a consumer may join while a message
is between them; that message is then written like those behind it.

Each message is marked with whether the consumer socket was set when it was
received; `expected` are those that were received afterwards.
`direct_topic_forwards_iff` says when all of them are written.  A run is in one
of two kinds of states.  It is `Alive` as long as no read has failed and no
message has come to `add_to_storage` before the consumer socket was set
(`Spared`): then what has been written, what is held and what is to be read are
together what is expected, and further turns write it (`Alive.drains`).  Once it
is `Ended`, nothing that is expected has been written or ever will be
(`Ended.turns`).

A step that loses nothing keeps a topic alive (`Alive.step`): a read takes one
message unless one is held (`Alive.readMsg`), and what is held is written
(`Alive.addToStorage`).  Any other step ends the loop (`Alive.ends`), and it has
ended for good (`Ended.step`), since neither a producer nor an endpoint is ever
taken away or exchanged (`message_topic`) and a loop that has ended takes no more
turns.
-/
import LightQ.Lib.Runs
import LightQ.Admin.Topics

namespace LightQ

open BrokerManager Runs

namespace DirectTopic

/-- The thread of the topic's producer has been started. -/
def running (b : Broker) : Bool :=
  match b.pProducer with
  | some p => p.running
  | none => false

/-- `set_consumer_socket` has been called. -/
def endpointSet (b : Broker) : Bool := b.storage.pConsumerSocket.isSome

/-- The messages that were received after the endpoint was set. -/
def late (messages : List (Bytes × Bool)) : List Bytes := (messages.filter Prod.snd).map Prod.fst

/-- The messages that are not empty. -/
def nonempty (messages : List (Bytes × Bool)) : List (Bytes × Bool) :=
  messages.filter fun m => m.1 ≠ []

/-- A direct topic and its producer loop; `held` is the `message` of the loop,
between `read_msg` and `add_to_storage`. -/
structure World where
  manager : BrokerManager
  inbox : List (Bytes × Bool)
  held : Option (Bytes × Bool)
  looping : Bool
  written : List (Bytes × Bool)
  expected : List Bytes

/-- An admin message, such as a join; a message for the producer socket; a
`read_msg` of the loop that fails, or that does not; and its `add_to_storage`,
of which `env` holds what `write_msg` returns. -/
inductive Action where
  | message (text : Bytes) (env : AdminEnv)
  | receive (msg : Bytes)
  | readFails
  | readMsg
  | addToStorage (env : AddEnv)

namespace World

def start (m : BrokerManager) : World := ⟨m, [], none, false, [], []⟩

/-- `read_msg`, and what `process_producers` does with the number of bytes: an
empty message is left behind.  The loop stays where it is when it has ended,
holds a message or has none to read. -/
def readMsg (w : World) : World :=
  match w.looping, w.held, w.inbox with
  | true, none, (msg, isLate) :: rest =>
      { w with inbox := rest, held := if msg = [] then none else some (msg, isLate) }
  | _, _, _ => w

/-- `add_to_storage` on the message that is held. -/
def addToStorage (host : ByteOrder) (topic : Bytes) (w : World) (b : Broker) (env : AddEnv) :
    Option World :=
  match w.looping, w.held with
  | true, some (msg, isLate) => do
      let r ← b.storage.addToStorage host msg env
      let w := { w with manager := w.manager.step (.work topic r.storage), held := none }
      if r.ok then some { w with written := w.written ++ r.sent.map fun m => (m, isLate) }
      else some { w with looping := false }
  | _, _ => some w

def step (host : ByteOrder) (topic : Bytes) (w : World) (a : Action) : Option World := do
  let b ← OrderedMap.find topic w.manager.brokers
  match a with
  | .message text env =>
      let manager := w.manager.step (.message text env)
      let b' ← OrderedMap.find topic manager.brokers
      some { w with
        manager := manager
        looping := w.looping || (!running b && running b') }
  | .receive msg =>
      if running b then
        some { w with
          inbox := w.inbox ++ [(msg, endpointSet b)]
          expected := w.expected ++ if endpointSet b && msg ≠ [] then [msg] else [] }
      else none
  | .readFails => if w.looping ∧ w.held = none then some { w with looping := false } else none
  | .readMsg => some w.readMsg
  | .addToStorage env => w.addToStorage host topic b env

/-- No socket fails once the endpoint is set. -/
def Sound (topic : Bytes) (w : World) (a : Action) : Prop :=
  ∀ b, OrderedMap.find topic w.manager.brokers = some b → endpointSet b = true →
    a ≠ .readFails ∧ ∀ env, a = .addToStorage env → 0 ≤ env.writeMsg

/-- Before the endpoint is set, no read fails and no message comes to
`add_to_storage`. -/
def Spared (topic : Bytes) (w : World) (a : Action) : Prop :=
  ∀ b, OrderedMap.find topic w.manager.brokers = some b → endpointSet b = false →
    a ≠ .readFails ∧ ∀ env, a = .addToStorage env → w.looping = true → w.held = none

/-- Turns of the loop: what it holds is added, and the next message is read. -/
def turns (envs : List AddEnv) : List Action :=
  envs.flatMap fun env => [.addToStorage env, .readMsg]

/-- One turn more than there are messages to be read, and they are written,
exactly once and in order, that were received after the endpoint was set. -/
def Forwards (host : ByteOrder) (topic : Bytes) (w : World) : Prop :=
  ∀ envs : List AddEnv, (∀ env ∈ envs, 0 ≤ env.writeMsg) → w.inbox.length < envs.length →
    ∃ w', run (step host topic) w (turns envs) = some w' ∧ late w'.written = w.expected

/-! ## The two kinds of states -/

/-- The loop runs if it was ever started, and what has been written, what is
held and what is to be read is what is expected. -/
structure Alive (topic : Bytes) (w : World) (b : Broker) : Prop where
  topic : OrderedMap.find topic w.manager.brokers = some b
  direct : b.storage.brokerType = .direct
  endpoint : endpointSet b = true → b.pConsumer ≠ none
  looping : w.looping = running b
  arrived : w.inbox ≠ [] → running b = true
  read : w.held ≠ none → running b = true
  early : endpointSet b = false → w.expected = []
  account : late w.written ++ late (w.held.toList ++ nonempty w.inbox) = w.expected

/-- The loop has ended for good, before anything that is expected was
written. -/
structure Ended (topic : Bytes) (w : World) (b : Broker) : Prop where
  topic : OrderedMap.find topic w.manager.brokers = some b
  endpoint : endpointSet b = true → b.pConsumer ≠ none
  started : running b = true
  looping : w.looping = false
  nothing : late w.written = []

/-! ## Messages to the admin -/

section Message

variable {m : BrokerManager} {topic text : Bytes} {env : AdminEnv} {b : Broker}

theorem running_of_extends {b' : Broker} (h : Extends b b') (hb : running b = true) :
    running b' = true := by
  unfold running at hb
  split at hb
  · next p hp =>
      rw [running, h.producer hp]
      exact hb
  · cases hb

theorem message_topic (text : Bytes) (env : AdminEnv)
    (hb : OrderedMap.find topic m.brokers = some b)
    (hendpoint : endpointSet b = true → b.pConsumer ≠ none) :
    ∃ b', OrderedMap.find topic (m.step (.message text env)).brokers = some b' ∧
      b'.storage.brokerType = b.storage.brokerType ∧
      (running b = true → running b' = true) ∧
      (endpointSet b = true → endpointSet b' = true) ∧
      (endpointSet b' = true → b'.pConsumer ≠ none) := by
  obtain ⟨b', hb', hcase⟩ := (m.processCommand_leaves env text).topic hb
  refine ⟨b', hb', ?_⟩
  rcases hcase with rfl | rfl | ⟨connectionType, rfl⟩
  · exact ⟨rfl, id, id, hendpoint⟩
  · have hext := m.openProducer_extends env b
    have hstorage := openProducer_storage m env b
    refine ⟨by rw [hstorage], running_of_extends hext, ?_, ?_⟩
    · rw [endpointSet, endpointSet, hstorage]
      exact id
    · rw [endpointSet, hstorage]
      intro hset hnone
      obtain ⟨c, hc⟩ := Option.ne_none_iff_exists'.mp (hendpoint hset)
      rw [hext.consumer hc] at hnone
      cases hnone
  · have hext := m.openConsumer_extends env b connectionType
    obtain ⟨socket, hstorage⟩ := openConsumer_storage m env b connectionType
    refine ⟨by rw [hstorage], running_of_extends hext, fun hset => ?_, fun _ => ?_⟩
    · obtain ⟨c, hc⟩ := Option.ne_none_iff_exists'.mp (hendpoint hset)
      rw [openConsumer_of_some hc]
      exact hset
    · obtain ⟨c, hc⟩ := openConsumer_pConsumer m env b connectionType
      rw [hc]
      exact Option.some_ne_none c

end Message

/-! ## Steps -/

section Steps

variable {host : ByteOrder} {topic : Bytes} {w w' : World} {b : Broker}

@[simp] theorem late_append (xs ys : List (Bytes × Bool)) :
    late (xs ++ ys) = late xs ++ late ys := by
  rw [late, List.filter_append, List.map_append]
  rfl

@[simp] theorem nonempty_append (xs ys : List (Bytes × Bool)) :
    nonempty (xs ++ ys) = nonempty xs ++ nonempty ys := List.filter_append ..

theorem nonempty_cons {m : Bytes × Bool} (hm : m.1 ≠ []) (rest : List (Bytes × Bool)) :
    nonempty (m :: rest) = m :: nonempty rest :=
  List.filter_cons_of_pos (by simpa using hm)

theorem late_nonempty_singleton (msg : Bytes) (isLate : Bool) :
    late (nonempty [(msg, isLate)]) = if isLate && msg ≠ [] then [msg] else [] := by
  by_cases hmsg : msg = []
  · subst hmsg
    cases isLate with
    | false => rfl
    | true => rfl
  · rw [nonempty_cons hmsg]
    cases isLate with
    | false => rfl
    | true => simp [late, nonempty, hmsg]

/-! What `read_msg` and `add_to_storage` do. -/

theorem readMsg_of_idle (h : w.looping = false ∨ w.held ≠ none ∨ w.inbox = []) : w.readMsg = w := by
  rw [readMsg]
  split
  · next hloop hheld hinbox =>
      rw [hloop, hheld, hinbox] at h
      simp at h
  · rfl

theorem readMsg_of_cons {msg : Bytes} {isLate : Bool} {rest : List (Bytes × Bool)}
    (hloop : w.looping = true) (hheld : w.held = none) (hinbox : w.inbox = (msg, isLate) :: rest) :
    w.readMsg = { w with inbox := rest, held := if msg = [] then none else some (msg, isLate) } := by
  simp only [readMsg, hloop, hheld, hinbox]

theorem addToStorage_of_idle (env : AddEnv) (h : w.looping = false ∨ w.held = none) :
    w.addToStorage host topic b env = some w := by
  rcases h with h | h
  · simp only [addToStorage, h]
  · cases hloop : w.looping with
    | false => simp only [addToStorage, h, hloop]
    | true => simp only [addToStorage, h, hloop]

theorem addToStorage_of_unset (host : ByteOrder) (topic : Bytes) (env : AddEnv)
    {m : Bytes × Bool} (hdirect : b.storage.brokerType = .direct) (hunset : endpointSet b = false)
    (hloop : w.looping = true) (hheld : w.held = some m) :
    w.addToStorage host topic b env =
      some { w with
        manager := w.manager.step (.work topic b.storage)
        held := none
        looping := false } := by
  have hnone : b.storage.pConsumerSocket = none := by simpa [endpointSet] using hunset
  simp only [addToStorage, hloop, hheld, BrokerStorage.addToStorage, hdirect,
    BrokerStorage.directWriteConsumer, hnone, Option.bind_eq_bind, Option.bind_some,
    Bool.false_eq_true, if_false]

theorem addToStorage_of_set (host : ByteOrder) (topic : Bytes) {env : AddEnv} {m : Bytes × Bool}
    (hdirect : b.storage.brokerType = .direct) (hset : endpointSet b = true)
    (henv : 0 ≤ env.writeMsg) (hloop : w.looping = true) (hheld : w.held = some m) :
    ∃ n, w.addToStorage host topic b env =
      some { w with
        manager := w.manager.step (.work topic { b.storage with totalBytesWritten := n })
        held := none
        written := w.written ++ [m] } := by
  obtain ⟨stream, hsocket⟩ := Option.isSome_iff_exists.mp hset
  refine ⟨b.storage.totalBytesWritten + env.writeMsg.toNat, ?_⟩
  simp only [addToStorage, hloop, hheld, BrokerStorage.addToStorage, hdirect,
    BrokerStorage.directWriteConsumer, hsocket, if_neg (Int.not_lt.mpr henv), Option.bind_eq_bind,
    Option.bind_some, if_true, List.map_cons, List.map_nil]

theorem work_topic {m : BrokerManager} (hb : OrderedMap.find topic m.brokers = some b)
    (storage : BrokerStorage) :
    OrderedMap.find topic (m.step (.work topic storage)).brokers
      = some { b with storage := storage } := by
  rcases m.work_find topic topic storage with heq | ⟨b₀, hb₀, heq⟩
  · simp only [BrokerManager.step, hb] at heq ⊢
    exact OrderedMap.find_assign_self _ _ _
  · obtain rfl := Option.some.inj (hb.symm.trans hb₀)
    exact heq

/-! What each kind of step does, given the topic. -/

theorem step_message {text : Bytes} {env : AdminEnv} {b' : Broker}
    (hb : OrderedMap.find topic w.manager.brokers = some b)
    (hb' : OrderedMap.find topic (w.manager.step (.message text env)).brokers = some b')
    (hstep : w.step host topic (.message text env) = some w') :
    w' = { w with
      manager := w.manager.step (.message text env)
      looping := w.looping || (!running b && running b') } := by
  simp only [step, hb, Option.bind_eq_bind, Option.bind_some, hb'] at hstep
  exact (Option.some.inj hstep).symm

theorem step_receive {msg : Bytes} (hb : OrderedMap.find topic w.manager.brokers = some b)
    (hstep : w.step host topic (.receive msg) = some w') :
    running b = true ∧ w' = { w with
      inbox := w.inbox ++ [(msg, endpointSet b)]
      expected := w.expected ++ if endpointSet b && msg ≠ [] then [msg] else [] } := by
  simp only [step, hb, Option.bind_eq_bind, Option.bind_some] at hstep
  split at hstep
  · next hrunning => exact ⟨hrunning, (Option.some.inj hstep).symm⟩
  · cases hstep

theorem step_readFails (hb : OrderedMap.find topic w.manager.brokers = some b)
    (hstep : w.step host topic .readFails = some w') :
    w.looping = true ∧ w' = { w with looping := false } := by
  simp only [step, hb, Option.bind_eq_bind, Option.bind_some] at hstep
  split at hstep
  · next hloop => exact ⟨hloop.1, (Option.some.inj hstep).symm⟩
  · cases hstep

theorem step_readMsg (hb : OrderedMap.find topic w.manager.brokers = some b) :
    w.step host topic .readMsg = some w.readMsg := by
  simp only [step, hb, Option.bind_eq_bind, Option.bind_some]

theorem step_addToStorage (hb : OrderedMap.find topic w.manager.brokers = some b) (env : AddEnv) :
    w.step host topic (.addToStorage env) = w.addToStorage host topic b env := by
  simp only [step, hb, Option.bind_eq_bind, Option.bind_some]

theorem Alive.message (h : Alive topic w b) {text : Bytes} {env : AdminEnv}
    (hstep : w.step host topic (.message text env) = some w') : ∃ b', Alive topic w' b' := by
  obtain ⟨b', hb', hdirect, hrunning, hset, hconsumer⟩ :=
    message_topic text env h.topic h.endpoint
  obtain rfl := step_message h.topic hb' hstep
  refine ⟨b', hb', hdirect.trans h.direct, hconsumer, ?_, fun hne => hrunning (h.arrived hne),
    fun hne => hrunning (h.read hne), ?_, h.account⟩
  · show (w.looping || (!running b && running b')) = running b'
    rw [h.looping]
    cases hb : running b with
    | false => rfl
    | true => rw [hrunning hb]; rfl
  · intro hunset
    refine h.early ?_
    cases hb : endpointSet b with
    | false => rfl
    | true =>
        rw [hset hb] at hunset
        cases hunset

theorem Alive.receive (h : Alive topic w b) {msg : Bytes}
    (hstep : w.step host topic (.receive msg) = some w') : Alive topic w' b := by
  obtain ⟨hrunning, rfl⟩ := step_receive h.topic hstep
  refine ⟨h.topic, h.direct, h.endpoint, h.looping, fun _ => hrunning, h.read,
    fun hunset => ?_, ?_⟩
  · show w.expected ++ _ = []
    rw [h.early hunset, hunset]
    rfl
  · show late w.written ++ late (w.held.toList ++ nonempty (w.inbox ++ [(msg, endpointSet b)])) =
      w.expected ++ _
    rw [nonempty_append, ← List.append_assoc, late_append, ← List.append_assoc, h.account,
      late_nonempty_singleton]

theorem Alive.readMsg (h : Alive topic w b) :
    Alive topic w.readMsg b ∧ w.readMsg.expected = w.expected ∧
      (w.held = none → w.readMsg.inbox = w.inbox.tail) := by
  by_cases hidle : w.held ≠ none ∨ w.inbox = []
  · rw [readMsg_of_idle (Or.inr hidle)]
    refine ⟨h, rfl, fun hheld => ?_⟩
    rcases hidle with hne | hnil
    · exact absurd hheld hne
    · rw [hnil, List.tail_nil]
  · obtain ⟨hheld, hinbox⟩ : w.held = none ∧ w.inbox ≠ [] := by simpa only [not_or, not_not] using hidle
    obtain ⟨⟨msg, isLate⟩, rest, hcons⟩ := List.exists_cons_of_ne_nil hinbox
    have hrunning := h.arrived hinbox
    have haccount := h.account
    rw [hheld, hcons] at haccount
    rw [readMsg_of_cons (h.looping.trans hrunning) hheld hcons, hcons]
    refine ⟨⟨h.topic, h.direct, h.endpoint, h.looping, fun _ => hrunning, fun _ => hrunning,
      h.early, ?_⟩, rfl, fun _ => rfl⟩
    by_cases hmsg : msg = []
    · subst hmsg
      exact haccount
    · rw [nonempty_cons hmsg] at haccount
      show late w.written ++ late ((if msg = [] then none else some (msg, isLate)).toList ++
        nonempty rest) = w.expected
      rw [if_neg hmsg]
      exact haccount

theorem Alive.addToStorage (h : Alive topic w b) (host : ByteOrder) (env : AddEnv)
    (henv : endpointSet b = true → 0 ≤ env.writeMsg)
    (hspared : endpointSet b = false → w.held = none) :
    ∃ w' b', w.step host topic (.addToStorage env) = some w' ∧ Alive topic w' b' ∧
      w'.expected = w.expected ∧ w'.inbox = w.inbox ∧ w'.held = none ∧
      endpointSet b' = endpointSet b := by
  rw [step_addToStorage h.topic]
  cases hheld : w.held with
  | none => exact ⟨w, b, addToStorage_of_idle env (Or.inr hheld), h, rfl, rfl, hheld, rfl⟩
  | some m =>
      have hrunning : running b = true := h.read (by rw [hheld]; exact Option.some_ne_none m)
      have haccount := h.account
      rw [hheld] at haccount
      cases hset : endpointSet b with
      | false =>
          rw [hspared hset] at hheld
          cases hheld
      | true =>
          obtain ⟨n, hadd⟩ := addToStorage_of_set host topic h.direct hset (henv hset)
            (h.looping.trans hrunning) hheld
          refine ⟨_, { b with storage := { b.storage with totalBytesWritten := n } }, hadd,
            ⟨work_topic h.topic _, h.direct, h.endpoint, h.looping, h.arrived,
              fun hne => absurd rfl hne, h.early, ?_⟩, rfl, rfl, rfl, hset⟩
          show late (w.written ++ [m]) ++ late (nonempty w.inbox) = w.expected
          rw [← late_append, List.append_assoc, late_append]
          exact haccount

/-- A step that loses nothing keeps a topic alive. -/
theorem Alive.step {a : Action} (h : Alive topic w b) (hsound : w.Sound topic a)
    (hspared : w.Spared topic a) (hstep : w.step host topic a = some w') :
    ∃ b', Alive topic w' b' := by
  cases a with
  | message text env => exact h.message hstep
  | receive msg => exact ⟨b, h.receive hstep⟩
  | readFails =>
      cases hset : endpointSet b with
      | false => exact absurd rfl (hspared b h.topic hset).1
      | true => exact absurd rfl (hsound b h.topic hset).1
  | readMsg =>
      rw [step_readMsg h.topic] at hstep
      obtain rfl := Option.some.inj hstep
      exact ⟨b, h.readMsg.1⟩
  | addToStorage env =>
      cases hloop : w.looping with
      | true =>
          obtain ⟨w₁, b₁, hstep₁, halive, -⟩ := h.addToStorage host env
            (fun hset => (hsound b h.topic hset).2 env rfl)
            (fun hunset => (hspared b h.topic hunset).2 env rfl hloop)
          obtain rfl := Option.some.inj (hstep₁.symm.trans hstep)
          exact ⟨b₁, halive⟩
      | false =>
          rw [step_addToStorage h.topic, addToStorage_of_idle env (Or.inl hloop)] at hstep
          obtain rfl := Option.some.inj hstep
          exact ⟨b, h⟩

theorem Alive.ends {a : Action} (h : Alive topic w b) (hspared : ¬ w.Spared topic a)
    (hstep : w.step host topic a = some w') : ∃ b', Ended topic w' b' := by
  obtain ⟨b₀, hb₀, hunset, hlost⟩ : ∃ b₀, OrderedMap.find topic w.manager.brokers = some b₀ ∧
      endpointSet b₀ = false ∧ ¬ (a ≠ .readFails ∧
        ∀ env, a = .addToStorage env → w.looping = true → w.held = none) := by
    simpa only [Spared, not_forall, exists_prop] using hspared
  obtain rfl := Option.some.inj (h.topic.symm.trans hb₀)
  have hnothing : late w.written = [] := by
    have haccount := h.account
    rw [h.early hunset] at haccount
    exact (List.append_eq_nil_iff.mp haccount).1
  cases a with
  | message text env => exact absurd ⟨by simp, by simp⟩ hlost
  | receive msg => exact absurd ⟨by simp, by simp⟩ hlost
  | readFails =>
      obtain ⟨hloop, rfl⟩ := step_readFails h.topic hstep
      exact ⟨b, h.topic, h.endpoint, h.looping.symm.trans hloop, rfl, hnothing⟩
  | readMsg => exact absurd ⟨by simp, by simp⟩ hlost
  | addToStorage env =>
      obtain ⟨hloop, hheld⟩ : w.looping = true ∧ w.held ≠ none := by
        by_contra hno
        refine hlost ⟨by simp, fun _ _ hloop => ?_⟩
        by_contra hheld
        exact hno ⟨hloop, hheld⟩
      obtain ⟨m, hm⟩ := Option.ne_none_iff_exists'.mp hheld
      rw [step_addToStorage h.topic,
        addToStorage_of_unset host topic env h.direct hunset hloop hm] at hstep
      obtain rfl := Option.some.inj hstep
      exact ⟨_, work_topic h.topic _, h.endpoint, h.looping.symm.trans hloop, rfl, hnothing⟩

theorem Ended.step {a : Action} (h : Ended topic w b) (hstep : w.step host topic a = some w') :
    ∃ b', Ended topic w' b' := by
  cases a with
  | message text env =>
      obtain ⟨b', hb', -, hrunning, -, hconsumer⟩ :=
        message_topic text env h.topic h.endpoint
      obtain rfl := step_message h.topic hb' hstep
      refine ⟨b', hb', hconsumer, hrunning h.started, ?_, h.nothing⟩
      show (w.looping || (!running b && running b')) = false
      rw [h.looping, h.started]
      rfl
  | receive msg =>
      obtain ⟨-, rfl⟩ := step_receive h.topic hstep
      exact ⟨b, h.topic, h.endpoint, h.started, h.looping, h.nothing⟩
  | readFails =>
      obtain ⟨hloop, -⟩ := step_readFails h.topic hstep
      exact absurd (h.looping.symm.trans hloop) Bool.false_ne_true
  | readMsg =>
      rw [step_readMsg h.topic, readMsg_of_idle (Or.inl h.looping)] at hstep
      obtain rfl := Option.some.inj hstep
      exact ⟨b, h⟩
  | addToStorage env =>
      rw [step_addToStorage h.topic, addToStorage_of_idle env (Or.inl h.looping)] at hstep
      obtain rfl := Option.some.inj hstep
      exact ⟨b, h⟩

/-! ## Turns only -/

theorem run_turns_cons {env : AddEnv} {envs : List AddEnv} {w₁ w₂ : World}
    (hadd : w.step host topic (.addToStorage env) = some w₁)
    (hread : w₁.step host topic .readMsg = some w₂) :
    run (World.step host topic) w (turns (env :: envs)) =
      run (World.step host topic) w₂ (turns envs) := by
  show run (World.step host topic) w (.addToStorage env :: .readMsg :: turns envs) = _
  rw [run_cons_of_some hadd, run_cons_of_some hread]

theorem Alive.turn (h : Alive topic w b) (hset : endpointSet b = true) (host : ByteOrder)
    {env : AddEnv} (henv : 0 ≤ env.writeMsg) :
    ∃ w₁ w₂ b', w.step host topic (.addToStorage env) = some w₁ ∧
      w₁.step host topic .readMsg = some w₂ ∧ Alive topic w₂ b' ∧ endpointSet b' = true ∧
      w₂.expected = w.expected ∧ w₂.inbox = w.inbox.tail ∧ (w.inbox = [] → w₂.held = none) := by
  obtain ⟨w₁, b', hadd, halive, hexpected, hinbox, hheld, hendpoint⟩ := h.addToStorage host env
    (fun _ => henv) (fun hunset => absurd (hset.symm.trans hunset) (by decide))
  obtain ⟨hnext, hexpected', htail⟩ := halive.readMsg
  refine ⟨w₁, w₁.readMsg, b', hadd, step_readMsg halive.topic, hnext, hendpoint.trans hset,
    hexpected'.trans hexpected, (htail hheld).trans (by rw [hinbox]), fun hnil => ?_⟩
  rw [readMsg_of_idle (Or.inr (Or.inr (hinbox.trans hnil))), hheld]

/-- With an endpoint, the turns of a live loop write all that is expected. -/
theorem Alive.drains (h : Alive topic w b) (hset : endpointSet b = true) {envs : List AddEnv}
    (henvs : ∀ env ∈ envs, 0 ≤ env.writeMsg) (hmany : w.inbox.length < envs.length) :
    ∃ w', run (World.step host topic) w (turns envs) = some w' ∧
      late w'.written = w.expected := by
  -- all is written once nothing is held and nothing is to be read
  suffices hall : ∀ {envs : List AddEnv} {w : World} {b : Broker}, Alive topic w b →
      endpointSet b = true → (∀ env ∈ envs, 0 ≤ env.writeMsg) →
      w.inbox.length < envs.length ∨ (w.inbox = [] ∧ w.held = none) →
      ∃ w', run (World.step host topic) w (turns envs) = some w' ∧ late w'.written = w.expected from
    hall h hset henvs (Or.inl hmany)
  intro envs
  induction envs with
  | nil =>
      intro w b h hset henvs hmany
      rcases hmany with hmany | ⟨hinbox, hheld⟩
      · exact absurd hmany (Nat.not_lt_zero _)
      · have haccount := h.account
        rw [hinbox, hheld] at haccount
        exact ⟨w, rfl, by simpa [nonempty, late] using haccount⟩
  | cons env envs ih =>
      intro w b h hset henvs hmany
      obtain ⟨w₁, w₂, b', hadd, hread, hnext, hendpoint, hexpected, hinbox, hheld⟩ :=
        h.turn hset host (henvs env List.mem_cons_self)
      obtain ⟨w', hrun, hwritten⟩ := ih hnext hendpoint
        (fun e he => henvs e (List.mem_cons_of_mem _ he)) (by
          rw [hinbox]
          by_cases hnil : w.inbox = []
          · exact Or.inr ⟨by rw [hnil, List.tail_nil], hheld hnil⟩
          · have hpos := List.length_pos_iff.mpr hnil
            rcases hmany with hmany | ⟨hdone, -⟩
            · rw [List.length_cons] at hmany
              rw [List.length_tail]
              exact Or.inl (by omega)
            · exact absurd hdone hnil)
      rw [run_turns_cons hadd hread]
      exact ⟨w', hrun, hwritten.trans hexpected⟩

/-- A loop that has ended takes no more turns. -/
theorem Ended.turns (h : Ended topic w b) (envs : List AddEnv) :
    run (World.step host topic) w (turns envs) = some w := by
  induction envs with
  | nil => rfl
  | cons env envs ih =>
      have hadd : w.step host topic (.addToStorage env) = some w := by
        rw [step_addToStorage h.topic, addToStorage_of_idle env (Or.inl h.looping)]
      have hread : w.step host topic .readMsg = some w := by
        rw [step_readMsg h.topic, readMsg_of_idle (Or.inl h.looping)]
      rw [run_turns_cons hadd hread]
      exact ih

theorem Alive.unset_turns (h : Alive topic w b) (hunset : endpointSet b = false)
    (envs : List AddEnv) :
    ∃ w', run (World.step host topic) w (turns envs) = some w' ∧ late w'.written = [] := by
  induction envs generalizing w b with
  | nil =>
      have haccount := h.account
      rw [h.early hunset] at haccount
      exact ⟨w, rfl, (List.append_eq_nil_iff.mp haccount).1⟩
  | cons env envs ih =>
      cases hheld : w.held with
      | none =>
          obtain ⟨w₁, b₁, hadd, halive, -, -, -, hendpoint⟩ := h.addToStorage host env
            (fun hset => absurd (hset.symm.trans hunset) (by decide)) (fun _ => hheld)
          rw [run_turns_cons hadd (step_readMsg halive.topic)]
          exact ih halive.readMsg.1 (hendpoint.trans hunset)
      | some m =>
          have hrunning : running b = true := h.read (by rw [hheld]; exact Option.some_ne_none m)
          have hloop : w.looping = true := h.looping.trans hrunning
          have hadd := addToStorage_of_unset host topic env h.direct hunset hloop hheld
          rw [← step_addToStorage h.topic] at hadd
          obtain ⟨b₁, hended⟩ := h.ends (fun hspared => by
            rw [(hspared b h.topic hunset).2 env rfl hloop] at hheld
            cases hheld) hadd
          have hread : World.step host topic _ .readMsg = some _ := step_readMsg hended.topic
          rw [readMsg_of_idle (Or.inl hended.looping)] at hread
          rw [run_turns_cons hadd hread]
          exact ⟨_, hended.turns envs, hended.nothing⟩

end Steps

/-! ## Runs -/

theorem alive_start {m : BrokerManager} {topic : Bytes} {config : BrokerConfig}
    (hb : OrderedMap.find topic m.brokers = some (Broker.init config).2)
    (hdirect : config.brokerType = .direct) : Alive topic (start m) (Broker.init config).2 where
  topic := hb
  direct := by
    simp only [Broker.init, BrokerStorage.init, hdirect]
  endpoint := by simp [Broker.init, BrokerStorage.init, endpointSet, hdirect]
  looping := rfl
  arrived h := absurd rfl h
  read h := absurd rfl h
  early _ := rfl
  account := rfl

/-- In every run of a direct topic, all that is received after the endpoint
was set is forwarded exactly when there is nothing of the kind, or nothing
came to `add_to_storage` before. -/
theorem direct_topic_forwards_iff (host : ByteOrder) {m : BrokerManager} {topic : Bytes}
    {config : BrokerConfig} (hb : OrderedMap.find topic m.brokers = some (Broker.init config).2)
    (hdirect : config.brokerType = .direct) {actions : List Action} {w : World}
    (hsound : Along (step host topic) (Sound topic) (start m) actions)
    (hrun : run (step host topic) (start m) actions = some w) :
    Forwards host topic w ↔
      w.expected = [] ∨ Along (step host topic) (Spared topic) (start m) actions := by
  have hsplit : (Along (step host topic) (Spared topic) (start m) actions ∧ ∃ b, Alive topic w b) ∨
      (¬ Along (step host topic) (Spared topic) (start m) actions ∧ ∃ b, Ended topic w b) :=
    run_splits (I := fun w => ∃ b, Alive topic w b) (J := fun w => ∃ b, Ended topic w b)
      (fun ⟨_, h⟩ hsound hspared hstep => h.step hsound hspared hstep)
      (fun ⟨_, h⟩ _ hspared hstep => h.ends hspared hstep)
      (fun ⟨_, h⟩ _ hstep => h.step hstep) ⟨_, alive_start hb hdirect⟩ hsound hrun
  rcases hsplit with ⟨halong, b, halive⟩ | ⟨hlost, b, hended⟩
  · refine iff_of_true (fun envs henvs hmany => ?_) (Or.inr halong)
    cases hset : endpointSet b with
    | true => exact halive.drains hset henvs hmany
    | false =>
        rw [halive.early hset]
        exact halive.unset_turns hset envs
  · constructor
    · intro h
      obtain ⟨w', hturns, hwritten⟩ := h
        (List.replicate (w.inbox.length + 1) ⟨none, [], 0⟩)
        (fun env henv => (List.eq_of_mem_replicate henv) ▸ Int.le_refl 0)
        (by rw [List.length_replicate]; exact Nat.lt_succ_self _)
      obtain rfl := Option.some.inj ((hended.turns _).symm.trans hturns)
      exact Or.inl (hwritten.symm.trans hended.nothing)
    · rintro (hnone | halong)
      · intro envs _ _
        exact ⟨w, hended.turns envs, hended.nothing.trans hnone.symm⟩
      · exact absurd halong hlost

/-- A manager with one direct topic. -/
def oneTopic : BrokerManager :=
  ⟨[], [], [(ascii "d", (Broker.init ⟨ascii "d", .direct, [], [], ascii "/tmp", ascii "tcp://*"⟩).2)],
    none⟩

/-- A join, when every socket can be opened. -/
def join (type : Bytes) : Action :=
  .message (ascii "\x7b\"cmd\": \"join\", \"topic\": \"d\", \"type\": \"" ++ type ++ ascii "\"\x7d")
    ⟨true, true, true, 0, 0, 0, fun reply => reply.length⟩

theorem along_sound {host : ByteOrder} {topic : Bytes} {w : World} {actions : List Action}
    (h : ∀ a ∈ actions, a ≠ .readFails ∧ ∀ env, a = .addToStorage env → 0 ≤ env.writeMsg) :
    Along (step host topic) (Sound topic) w actions :=
  (along_of_forall h).mono fun _ _ ha _ _ _ => ha

/-- A consumer joins while the loop holds a message. -/
def joinBetween : List Action :=
  [join (ascii "pub"), .receive (ascii "a"), .readMsg, join (ascii "sub"),
    .addToStorage ⟨none, [], 1⟩, .receive (ascii "b")]

theorem direct_topic_forwards_iff_joinBetween :
    ∃ w, run (step .little (ascii "d")) (start oneTopic) joinBetween = some w ∧
      (Forwards .little (ascii "d") w ↔ w.expected = [] ∨
        Along (step .little (ascii "d")) (Spared (ascii "d")) (start oneTopic) joinBetween) := by
  obtain ⟨w, hrun⟩ := Option.isSome_iff_exists.mp
    (show (run (step .little (ascii "d")) (start oneTopic) joinBetween).isSome = true by decide)
  refine ⟨w, hrun, direct_topic_forwards_iff .little rfl rfl (along_sound ?_) hrun⟩
  simp [joinBetween, join]

/-- A message is added before the consumer joins. -/
def joinAfter : List Action :=
  [join (ascii "pub"), .receive (ascii "a"), .readMsg, .addToStorage ⟨none, [], 0⟩,
    join (ascii "sub"), .receive (ascii "b")]

/-- That ends the loop, and the next message is not read. -/
theorem direct_topic_not_forwards :
    ∃ w, run (step .little (ascii "d")) (start oneTopic) joinAfter = some w ∧
      Along (step .little (ascii "d")) (Sound (ascii "d")) (start oneTopic) joinAfter ∧
      w.expected = [ascii "b"] ∧ ¬ Forwards .little (ascii "d") w := by
  obtain ⟨w, hrun, hw⟩ := Option.map_eq_some_iff.mp
    (show (run (step .little (ascii "d")) (start oneTopic) joinAfter).map
        (fun w => (w.expected, w.inbox.length,
          (run (step .little (ascii "d")) w (turns [⟨none, [], 0⟩, ⟨none, [], 0⟩])).map
            fun w' => late w'.written))
      = some ([ascii "b"], 1, some []) by decide)
  obtain ⟨hexpected, hinbox, hturns⟩ : w.expected = [ascii "b"] ∧ w.inbox.length = 1 ∧
      (run (step .little (ascii "d")) w (turns [⟨none, [], 0⟩, ⟨none, [], 0⟩])).map
        (fun w' => late w'.written) = some [] := by
    simpa only [Prod.mk.injEq] using hw
  refine ⟨w, hrun, along_sound (by simp [joinAfter, join]), hexpected, ?_⟩
  intro h
  obtain ⟨w', hrun', hwritten⟩ := h [⟨none, [], 0⟩, ⟨none, [], 0⟩] (by simp)
    (by rw [hinbox]; decide)
  rw [hrun', Option.map_some, hwritten, hexpected] at hturns
  cases hturns

end World

end DirectTopic

end LightQ
