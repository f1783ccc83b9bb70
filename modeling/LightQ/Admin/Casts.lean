/-
# `Admin.Casts` — sockets used as the kind they are not

A `connection *` is cast to `connection_zmq *` or to `connection_socket *` by
the type of the topic in one place, by the stream type in others, and without
a test in others again.  The type of the topic is chosen by `create_topic`,
the stream type by the first consumer, so that all combinations occur.

Below, the functions with such casts are translated to the casts they make.
The system is the broker manager with the consumer threads of its topics;
whatever else the threads do to a storage is a step of its own.
`casts_right_iff` says that one combination is wrong: the thread of a topic of
type queue takes a message and writes it to a raw socket as to a ZeroMQ one.

A socket is given a kind when it is made, and `Typed` says of a topic that its
pointers and its thread go by that kind.  `init` leaves it so whatever it returns,
with the thread not running yet (`init_typed`), and every other step keeps it, since
a turn of a thread leaves the pointer to the socket alone
(`processConsumers_pConsumerSocket`, `Topics.typed_assign`).

So what a turn uses can be read off the topic.  The file branches test the stream
type first (`processConsumers_file`).  On a topic of type queue both sockets are used
as ZeroMQ ones if a message is taken (`processConsumers_queue`) and nothing is used
if none is (`processConsumers_idle`); a turn is wrong exactly if it takes a message
and the consumer is a raw one (`processConsumers_right_iff`).
-/
import LightQ.Admin.Endpoints

namespace LightQ

/-- A connection, and the kind of object it is used as. -/
structure Cast where
  socket : Connection
  as : StreamType
deriving DecidableEq, Repr

/-- Used as what it is. -/
def Cast.Right (c : Cast) : Prop := c.socket.streamType = c.as

/-! ## The casts of the code -/

/-- `producer::get_num_clients`. -/
def Producer.getNumClientsCasts (p : Producer) : List Cast :=
  match p.pProducerSocket with
  | some socket => [⟨socket, .zmq⟩]
  | none => []

namespace Consumer

/-- `get_num_pub_clients`. -/
def getNumPubClientsCasts (c : Consumer) : List Cast :=
  match c.pConsumerPubSocket with
  | some socket => [⟨socket, .zmq⟩]
  | none => []

/-- `get_num_pull_clients`. -/
def getNumPullClientsCasts (c : Consumer) : List Cast :=
  match c.pConsumerSocket, c.config.streamType with
  | some socket, .zmq => [⟨socket, .zmq⟩]
  | some socket, .socket => [⟨socket, .socket⟩]
  | some _, .file => []
  | none, _ => []

/-- `file_to_consumer`: it tests the socket of the storage and writes to the
one it is given. -/
def fileToConsumerCasts (s : BrokerStorage) (socket : Connection) : List Cast :=
  match s.pConsumerSocket with
  | some .socket => [⟨socket, .socket⟩]
  | some .zmq => [⟨socket, .zmq⟩]
  | some .file => []
  | none => []

/-- `sendfile_to_socket`. -/
def sendfileToSocketCasts (c : Consumer) : List Cast :=
  match c.pConsumerSocket with
  | some socket => [⟨socket, .socket⟩]
  | none => []

/-- One turn of the loop of `process_consumers`: its casts, and the queue
after it.  A turn that finds nothing waits. -/
def processConsumers (c : Consumer) (s : BrokerStorage) : List Cast × BrokerStorage :=
  match s.brokerType with
  | .file =>
      match c.pConsumerSocket with
      | some socket =>
          if socket.streamType = .socket then
            -- `is_consumer_pull_messages`, `get_write_offset`
            ([⟨socket, .socket⟩, ⟨socket, .socket⟩] ++ c.sendfileToSocketCasts, s)
          else (fileToConsumerCasts s socket, s)
      | none => ([], s)
  | .queueFile =>
      match c.pConsumerSocket with
      | some socket =>
          if socket.streamType = .socket then
            ([⟨socket, .socket⟩] ++ c.sendfileToSocketCasts, s)
          else (fileToConsumerCasts s socket, s)
      | none => ([], s)
  | .queue =>
      if s.getQueueSize ≤ 0 then ([], s)
      else
        let (result, _, s) := s.getMessageFromQueue
        if 0 < result then
          ((match c.pConsumerSocket with
            | some socket => [⟨socket, .zmq⟩]
            | none => []) ++
            (match c.pConsumerPubSocket with
            | some socket => [⟨socket, .zmq⟩]
            | none => []), s)
        else ([], s)
  | .direct => ([], s)

end Consumer

/-- The counts of clients in `reply_to_stats`. -/
def Broker.statsCasts (b : Broker) : List Cast :=
  (match b.pProducer with
    | some p => p.getNumClientsCasts
    | none => []) ++
  (match b.pConsumer with
    | some c => c.getNumPubClientsCasts ++ c.getNumPullClientsCasts
    | none => [])

/-! ## Types that agree -/

structure Consumer.Typed (c : Consumer) : Prop where
  push : ∀ {socket}, c.pConsumerSocket = some socket → socket.streamType = c.config.streamType
  pub : ∀ {socket}, c.pConsumerPubSocket = some socket → socket.streamType = .zmq
  stream : c.config.streamType ≠ .file

/-- The sockets of a topic are of the stream types that are on record, and a
consumer whose thread runs has a socket, which the storage knows. -/
structure Broker.Typed (b : Broker) : Prop where
  producer : ∀ {p socket}, b.pProducer = some p → p.pProducerSocket = some socket →
    socket.streamType = .zmq
  consumer : ∀ {c}, b.pConsumer = some c → c.Typed
  running : ∀ {c}, b.pConsumer = some c → c.running = true →
    ∃ socket, c.pConsumerSocket = some socket ∧
      b.storage.pConsumerSocket = some socket.streamType

namespace Consumer

theorem init_typed (env : AdminEnv) {conf : ConsumerConfig} (hpush : conf.pushBindUri ≠ [])
    (hpub : conf.pubBindUri ≠ []) (hstream : conf.streamType ≠ .file) :
    ((Consumer.new conf).init env).2.Typed ∧
      (∃ socket, ((Consumer.new conf).init env).2.pConsumerSocket = some socket) ∧
      ((Consumer.new conf).init env).2.running = false := by
  cases hs : conf.streamType with
  | zmq =>
      rw [init_zmq (c := Consumer.new conf) env hs hpush hpub]
      split
      · refine ⟨⟨fun h => ?_, fun h => ?_, hstream⟩, ⟨_, rfl⟩, rfl⟩
        · obtain rfl := Option.some.inj h
          exact hs.symm
        · obtain rfl := Option.some.inj h
          rfl
      · refine ⟨⟨fun h => ?_, fun h => ?_, hstream⟩, ⟨_, rfl⟩, rfl⟩
        · obtain rfl := Option.some.inj h
          exact hs.symm
        · cases h
  | socket =>
      simp only [init, new, hs]
      refine ⟨⟨fun h => ?_, fun h => ?_, hstream⟩, ⟨_, rfl⟩, trivial⟩
      · obtain rfl := Option.some.inj h
        exact hs.symm
      · cases h
  | file => exact absurd hs hstream

end Consumer

namespace Broker

variable {b : Broker} {env : AdminEnv}

theorem initProducer_typed {conf : ProducerConfig} (hstream : conf.producerStreamType = .zmq)
    (h : b.Typed) : (b.initProducer conf env).2.Typed where
  producer := by
    intro p socket hp hsocket
    cases henv : env.producerInit with
    | true =>
        simp only [initProducer, Producer.init, Producer.new, Producer.run, hstream, henv] at hp
        obtain rfl := Option.some.inj hp
        obtain rfl := Option.some.inj hsocket
        rfl
    | false =>
        simp only [initProducer, Producer.init, Producer.new, hstream, henv] at hp
        obtain rfl := Option.some.inj hp
        obtain rfl := Option.some.inj hsocket
        rfl
  consumer hc := h.consumer ((b.initProducer_pConsumer env conf).symm.trans hc)
  running := by
    intro c hc hrun
    have hstorage : (b.initProducer conf env).2.storage = b.storage := by
      unfold initProducer
      split
      · rfl
      · rfl
    rw [hstorage]
    exact h.running ((b.initProducer_pConsumer env conf).symm.trans hc) hrun

theorem initConsumer_typed {conf : ConsumerConfig} (hpush : conf.pushBindUri ≠ [])
    (hpub : conf.pubBindUri ≠ []) (hstream : conf.streamType ≠ .file) (h : b.Typed) :
    (b.initConsumer conf env).2.Typed := by
  obtain ⟨htyped, ⟨socket, hsocket⟩, hstopped⟩ :=
    Consumer.init_typed env hpush hpub hstream
  rw [initConsumer]
  split
  · next c heq =>
      rw [heq] at htyped hsocket
      have hsocket : c.pConsumerSocket = some socket := hsocket
      refine ⟨h.producer, fun hc => ?_, fun hc _ => ?_⟩
      · obtain rfl := Option.some.inj hc
        exact ⟨htyped.push, htyped.pub, htyped.stream⟩
      · obtain rfl := Option.some.inj hc
        refine ⟨socket, hsocket, ?_⟩
        show c.pConsumerSocket.map Connection.streamType = some socket.streamType
        rw [hsocket]
        rfl
  · next c _ heq =>
      rw [heq] at htyped hstopped
      refine ⟨h.producer, fun hc => ?_, fun hc hrun => ?_⟩
      · obtain rfl := Option.some.inj hc
        exact htyped
      · obtain rfl := Option.some.inj hc
        have hstopped : c.running = false := hstopped
        rw [hstopped] at hrun
        cases hrun

end Broker

/-! ## A turn of the consumer thread -/

/-- The next turn of the thread finds a message that is not empty. -/
def BrokerStorage.Takes (s : BrokerStorage) : Prop :=
  0 < s.getQueueSize ∧ ∃ message rest, s.pQueue = message :: rest ∧ message ≠ []

namespace Consumer

variable {c : Consumer} {s : BrokerStorage} {socket : Connection}

theorem processConsumers_queue (hsocket : c.pConsumerSocket = some socket)
    (htype : s.brokerType = .queue) (htakes : s.Takes) :
    (c.processConsumers s).1 = [⟨socket, .zmq⟩] ++ c.getNumPubClientsCasts := by
  obtain ⟨hsize, message, rest, hqueue, hne⟩ := htakes
  have hlen : (0 : Int) < message.length :=
    Int.natCast_pos.mpr (List.length_pos_iff.mpr hne)
  simp only [processConsumers, htype, if_neg (Nat.not_le.mpr hsize),
    BrokerStorage.getMessageFromQueue, BrokerStorage.tryDequeue, hqueue, if_pos hlen, hsocket]
  rfl

theorem processConsumers_idle (htype : s.brokerType = .queue) (hidle : ¬ s.Takes) :
    (c.processConsumers s).1 = [] := by
  simp only [processConsumers, htype]
  split
  · rfl
  · next hsize =>
      cases hqueue : s.pQueue with
      | nil => simp [BrokerStorage.getMessageFromQueue, BrokerStorage.tryDequeue, hqueue]
      | cons message rest =>
          have hempty : message = [] := by
            by_contra hne
            exact hidle ⟨Nat.lt_of_not_le hsize, message, rest, hqueue, hne⟩
          simp [BrokerStorage.getMessageFromQueue, BrokerStorage.tryDequeue, hqueue, hempty]

theorem processConsumers_file (hstream : socket.streamType ≠ .file)
    (hsocket : c.pConsumerSocket = some socket)
    (hstorage : s.pConsumerSocket = some socket.streamType) (htype : s.brokerType ≠ .queue) :
    ∀ cast ∈ (c.processConsumers s).1, cast = ⟨socket, socket.streamType⟩ := by
  have hsendfile : c.sendfileToSocketCasts = [⟨socket, .socket⟩] := by
    rw [sendfileToSocketCasts, hsocket]
  have hfile : socket.streamType ≠ .socket →
      fileToConsumerCasts s socket = [⟨socket, socket.streamType⟩] := by
    intro hraw
    rw [fileToConsumerCasts, hstorage]
    cases hs : socket.streamType with
    | zmq => rfl
    | socket => exact absurd hs hraw
    | file => exact absurd hs hstream
  intro cast hcast
  cases htopic : s.brokerType with
  | queue => exact absurd htopic htype
  | direct =>
      simp only [processConsumers, htopic] at hcast
      cases hcast
  | file | queueFile =>
      simp only [processConsumers, htopic, hsocket] at hcast
      split at hcast
      · next hraw =>
          rw [hsendfile] at hcast
          simpa [hraw] using hcast
      · next hraw =>
          rw [hfile hraw] at hcast
          exact List.mem_singleton.mp hcast

theorem numPubClients_right (h : c.Typed) : ∀ cast ∈ c.getNumPubClientsCasts, cast.Right := by
  intro cast hcast
  unfold getNumPubClientsCasts at hcast
  split at hcast
  · next socket hsocket =>
      obtain rfl := List.mem_singleton.mp hcast
      exact h.pub hsocket
  · cases hcast

theorem numPullClients_right (h : c.Typed) : ∀ cast ∈ c.getNumPullClientsCasts, cast.Right := by
  intro cast hcast
  unfold getNumPullClientsCasts at hcast
  split at hcast
  · next hsocket hstream =>
      obtain rfl := List.mem_singleton.mp hcast
      exact (h.push hsocket).trans hstream
  · next hsocket hstream =>
      obtain rfl := List.mem_singleton.mp hcast
      exact (h.push hsocket).trans hstream
  · cases hcast
  · cases hcast

/-- A turn uses a socket as what it is not exactly if it takes a message from
the queue and the consumer is a raw one. -/
theorem processConsumers_right_iff (h : c.Typed) (hsocket : c.pConsumerSocket = some socket)
    (hstorage : s.pConsumerSocket = some socket.streamType) :
    (∀ cast ∈ (c.processConsumers s).1, cast.Right) ↔
      (s.brokerType = .queue → s.Takes → c.config.streamType = .zmq) := by
  have hpush : socket.streamType = c.config.streamType := h.push hsocket
  by_cases htype : s.brokerType = .queue
  · by_cases htakes : s.Takes
    · rw [processConsumers_queue hsocket htype htakes]
      constructor
      · intro hright _ _
        exact hpush.symm.trans (hright _ (List.mem_append_left _ List.mem_cons_self))
      · intro hzmq cast hcast
        rcases List.mem_append.mp hcast with hcast | hcast
        · obtain rfl := List.mem_singleton.mp hcast
          exact hpush.trans (hzmq htype htakes)
        · exact numPubClients_right h cast hcast
    · rw [processConsumers_idle htype htakes]
      exact iff_of_true (fun cast hcast => absurd hcast List.not_mem_nil)
        fun _ hno => absurd hno htakes
  · refine iff_of_true (fun cast hcast => ?_) fun hno => absurd hno htype
    have hstream : socket.streamType ≠ .file := fun hfile => h.stream (hpush.symm.trans hfile)
    obtain rfl := processConsumers_file hstream hsocket hstorage htype cast hcast
    rfl

theorem processConsumers_pConsumerSocket (c : Consumer) (s : BrokerStorage) :
    (c.processConsumers s).2.pConsumerSocket = s.pConsumerSocket := by
  have hqueue : s.getMessageFromQueue.2.2.pConsumerSocket = s.pConsumerSocket := by
    rw [BrokerStorage.getMessageFromQueue]
    split
    · next message s' hdequeue =>
        obtain ⟨rest, -, rfl⟩ := BrokerStorage.tryDequeue_some hdequeue
        rfl
    · rfl
  unfold processConsumers
  split
  · split
    · split
      · rfl
      · rfl
    · rfl
  · split
    · split
      · rfl
      · rfl
    · rfl
  · split
    · rfl
    · dsimp only
      split
      · exact hqueue
      · exact hqueue
  · rfl

end Consumer

theorem Broker.statsCasts_right {b : Broker} (h : b.Typed) : ∀ cast ∈ b.statsCasts, cast.Right := by
  intro cast hcast
  rcases List.mem_append.mp hcast with hcast | hcast
  · split at hcast
    · next p hp =>
        unfold Producer.getNumClientsCasts at hcast
        split at hcast
        · next socket hsocket =>
            obtain rfl := List.mem_singleton.mp hcast
            exact h.producer hp hsocket
        · cases hcast
    · cases hcast
  · split at hcast
    · next c hc =>
        rcases List.mem_append.mp hcast with hcast | hcast
        · exact Consumer.numPubClients_right (h.consumer hc) cast hcast
        · exact Consumer.numPullClients_right (h.consumer hc) cast hcast
    · cases hcast

namespace BrokerManager

theorem openEndpoint_typed {m : BrokerManager} {env : AdminEnv} {req : JoinReq} {b : Broker}
    (h : b.Typed) : (m.openEndpoint env req b).2.1.Typed := by
  unfold openEndpoint
  split
  · cases hp : b.pProducer with
    | none =>
        simp only [openProducer, hp]
        exact Broker.initProducer_typed rfl h
    | some p =>
        simp only [openProducer, hp]
        exact h
  · cases hc : b.pConsumer with
    | none =>
        simp only [openConsumer, hc]
        exact Broker.initConsumer_typed (nextUri_ne_nil _ _) (nextUri_ne_nil _ _)
          (streamOf_ne_file req.connectionType) h
    | some c =>
        simp only [openConsumer, hc]
        exact h

/-! ## The threads -/

/-- A message to the admin thread, a turn of the consumer thread of a topic,
or anything else that the threads do to a storage. -/
inductive ThreadStep where
  | message (text : Bytes) (env : AdminEnv)
  | consume (topic : Bytes)
  | work (topic : Bytes) (storage : BrokerStorage)

/-- The casts of a message: only `reply_to_stats` counts clients. -/
def messageCasts (m : BrokerManager) (text : Bytes) : List Cast :=
  match getCmd text, StatsReq.fromJson text with
  | .ok (some cmd), .ok (some req) =>
      if cmd = StatsReq.cmd then
        match OrderedMap.find req.topic m.brokers with
        | some b =>
            if unauthorized b.config.userId b.config.password req.userId req.password then []
            else b.statsCasts
        | none => []
      else []
  | _, _ => []

/-- A turn of the thread of a topic, if it has been started. -/
def consume (m : BrokerManager) (topic : Bytes) : List Cast × BrokerManager :=
  match OrderedMap.find topic m.brokers with
  | some b =>
      match b.pConsumer with
      | some c =>
          if c.running then
            let (casts, storage) := c.processConsumers b.storage
            (casts, { m with
              brokers := OrderedMap.assign topic { b with storage := storage } m.brokers })
          else ([], m)
      | none => ([], m)
  | none => ([], m)

/-- What a step casts, and leaves.  No thread writes the type of a storage or
its pointer to the consumer socket. -/
def threadStep (m : BrokerManager) : ThreadStep → List Cast × BrokerManager
  | .message text env => (m.messageCasts text, (m.processCommand env text).manager)
  | .consume topic => m.consume topic
  | .work topic storage =>
      match OrderedMap.find topic m.brokers with
      | some b =>
          let storage := { storage with
            brokerType := b.storage.brokerType
            pConsumerSocket := b.storage.pConsumerSocket }
          ([], { m with
            brokers := OrderedMap.assign topic { b with storage := storage } m.brokers })
      | none => ([], m)

/-- All casts of the step are right. -/
def CastsRight (m : BrokerManager) (s : ThreadStep) : Prop := ∀ c ∈ (m.threadStep s).1, c.Right

/-- A turn that takes a message from the queue finds a ZeroMQ consumer. -/
def NoRawQueue (m : BrokerManager) : ThreadStep → Prop
  | .message _ _ => True
  | .consume topic => ∀ {b c}, OrderedMap.find topic m.brokers = some b → b.pConsumer = some c →
      c.running = true → b.storage.brokerType = .queue → b.storage.Takes →
      c.config.streamType = .zmq
  | .work _ _ => True

section Threads

variable {m : BrokerManager}

theorem messageCasts_right (h : m.Topics Broker.Typed) (text : Bytes) :
    ∀ cast ∈ m.messageCasts text, cast.Right := by
  intro cast hcast
  unfold messageCasts at hcast
  split at hcast
  · split at hcast
    · split at hcast
      · next b hb =>
          split at hcast
          · cases hcast
          · exact Broker.statsCasts_right (h _ b hb) cast hcast
      · cases hcast
    · cases hcast
  · cases hcast

theorem Topics.typed_assign (h : m.Topics Broker.Typed) {topic : Bytes} {b : Broker}
    {storage : BrokerStorage} (hb : OrderedMap.find topic m.brokers = some b)
    (hsocket : storage.pConsumerSocket = b.storage.pConsumerSocket) :
    Topics Broker.Typed { m with
      brokers := OrderedMap.assign topic { b with storage := storage } m.brokers } := by
  intro other b' hb'
  rw [OrderedMap.find_assign] at hb'
  split at hb'
  · obtain rfl := Option.some.inj hb'
    have htyped := h topic b hb
    refine ⟨htyped.producer, htyped.consumer, ?_⟩
    intro c hc hrun
    obtain ⟨socket, hpush, hstorage⟩ := htyped.running hc hrun
    exact ⟨socket, hpush, hsocket.trans hstorage⟩
  · exact h other b' hb'

theorem typed_init (conf : BrokerConfig) : (Broker.init conf).2.Typed where
  producer hp := by cases hp
  consumer hc := by cases hc
  running hc := by cases hc

theorem Topics.threadStep (h : m.Topics Broker.Typed) (s : ThreadStep) :
    (m.threadStep s).2.Topics Broker.Typed := by
  cases s with
  | message text env =>
      exact h.processCommand (fun req => typed_init _) fun _ hb => openEndpoint_typed hb
  | consume topic =>
      simp only [BrokerManager.threadStep, consume]
      split
      · next b hb =>
          split
          · next c hc =>
              split
              · exact h.typed_assign hb (c.processConsumers_pConsumerSocket b.storage)
              · exact h
          · exact h
      · exact h
  | work topic storage =>
      simp only [BrokerManager.threadStep]
      split
      · next b hb => exact h.typed_assign hb rfl
      · exact h

theorem castsRight_iff (h : m.Topics Broker.Typed) (s : ThreadStep) :
    m.CastsRight s ↔ m.NoRawQueue s := by
  cases s with
  | message text env => exact iff_of_true (messageCasts_right h text) trivial
  | work topic storage =>
      refine iff_of_true (fun cast hcast => ?_) trivial
      simp only [BrokerManager.threadStep] at hcast
      split at hcast
      · cases hcast
      · cases hcast
  | consume topic =>
      by_cases hthread : ∃ b c, OrderedMap.find topic m.brokers = some b ∧
          b.pConsumer = some c ∧ c.running = true
      · obtain ⟨b, c, hb, hc, hrun⟩ := hthread
        obtain ⟨socket, hsocket, hstorage⟩ := (h topic b hb).running hc hrun
        have hcasts : (m.threadStep (.consume topic)).1 = (c.processConsumers b.storage).1 := by
          simp only [BrokerManager.threadStep, consume, hb, hc, hrun, if_true]
        rw [CastsRight, hcasts,
          Consumer.processConsumers_right_iff ((h topic b hb).consumer hc) hsocket hstorage]
        constructor
        · intro hright b' c' hb' hc' _
          obtain rfl := Option.some.inj (hb.symm.trans hb')
          obtain rfl := Option.some.inj (hc.symm.trans hc')
          exact hright
        · exact fun hno => hno hb hc hrun
      · refine iff_of_true (fun cast hcast => ?_) ?_
        · simp only [BrokerManager.threadStep, consume] at hcast
          split at hcast
          · next b hb =>
              split at hcast
              · next c hc =>
                  split at hcast
                  · next hrun => exact absurd ⟨b, c, hb, hc, hrun⟩ hthread
                  · cases hcast
              · cases hcast
          · cases hcast
        · intro b c hb hc hrun
          exact absurd ⟨b, c, hb, hc, hrun⟩ hthread

end Threads

/-- In every run, with any topics, joins and failures: no socket is used as
the wrong kind, if and only if no turn of a consumer thread takes a message
from the queue for a raw socket. -/
theorem casts_right_iff (userId password : Bytes) (port : Option Nat) (steps : List ThreadStep) :
    Runs.Along (fun m s => some (m.threadStep s).2) CastsRight (start userId password port) steps ↔
      Runs.Along (fun m s => some (m.threadStep s).2) NoRawQueue
        (start userId password port) steps := by
  refine Runs.along_iff_along (I := Topics Broker.Typed) (P := fun _ _ => True) ?_ ?_
    (topics_start _ _ _ _) (Runs.along_of_forall (P := fun _ => True) fun _ _ => trivial)
  · intro m s m' h _ _ hstep
    obtain rfl := Option.some.inj hstep
    exact h.threadStep s
  · exact fun h _ => castsRight_iff h _

/-- A topic of type queue whose consumer joined with `connection_type`
`socket`, and a message. -/
theorem casts_wrong :
    ¬ ∀ (userId password : Bytes) (port : Option Nat) (steps : List ThreadStep),
      Runs.Along (fun m s => some (m.threadStep s).2) CastsRight
        (start userId password port) steps := by
  intro h
  have hcasts := ((((h [] [] none
    [.message (createText (ascii "queue")) openingEnv,
      .message (joinText (ascii "pull") (ascii "socket")) openingEnv,
      .work (ascii "t")
        ((BrokerStorage.init .queue [] (ascii "t")).2.writeToQueue (ascii "hello")),
      .consume (ascii "t")]).2 _ rfl).2 _ rfl).2 _ rfl).1
  have hraw : StreamType.socket = .zmq :=
    hcasts ⟨⟨ascii "tcp://*:5001", .socket, none, true⟩, .zmq⟩ (by decide)
  cases hraw

end BrokerManager

end LightQ
