/-
# `Admin.Broker` — a topic and its endpoints (`broker.h`, `producer.h`, `consumer.h`)

What the broker manager sees of a topic: its configuration, its storage, and
the producer and the consumer that the first joins make.  `init_producer` and
`init_consumer` set the pointer before anything can fail, and a failure does
not take it back (`initConsumer_pConsumer`).

What the `init` of a socket returns is a parameter, and so is the number of
clients a socket counts.  A thread that cannot be started is outside the
model, as is running out of memory.

A producer has the URI it was made with and a consumer its two, also when the
function fails (`initProducer_uri`, `initConsumer_uris`).  Of the stream types
only a `stream_file` throws (`initConsumer_ok`), and no join asks for one.

The sockets of a consumer are those of its stream: one raw socket, or a ZeroMQ
PUSH and a PUB socket, of which the second is not made when the first fails.
What comes of such failures is the subject of `Admin.Endpoints`.
-/
import LightQ.Admin.Picojson
import LightQ.Storage.BrokerStorage

namespace LightQ

open MachineInt

/-- `broker_config`, with the defaults of its last two fields. -/
structure BrokerConfig where
  id : Bytes
  brokerType : BrokerType
  userId : Bytes
  password : Bytes
  outputDirectory : Bytes := ascii "/tmp"
  bindInterface : Bytes := ascii "tcp://*"
deriving DecidableEq, Repr

/-- `get_broker_type_to_str`. -/
def BrokerConfig.getBrokerTypeToStr (conf : BrokerConfig) : Bytes :=
  match conf.brokerType with
  | .direct => ascii "direct"
  | .file => ascii "file"
  | .queueFile => ascii "queue_file"
  | .queue => ascii "queue"

/-- `get_next_port`: the `static unsigned port` before the first call is
`none`. -/
def getNextPort (port : Option Nat) (initialPort : Nat) : Nat × Option Nat :=
  let next := port.getD initialPort
  (next, some (u32 (next + 1)))

/-- The ZeroMQ sockets that the endpoints of a topic use. -/
inductive ZmqSocketType where
  | pull
  | push
  | pub
deriving DecidableEq, Repr

/-- A `connection_zmq`, or a `connection_socket`, which has no socket type:
what it was constructed with, and what its `init` returned. -/
structure Connection where
  resourceUri : Bytes
  streamType : StreamType
  zmqSocketType : Option ZmqSocketType
  initialized : Bool
deriving DecidableEq, Repr

/-- What a request meets outside: the values of `init` for the three sockets,
the clients they count, and what `write_msg` returns for a reply. -/
structure AdminEnv where
  producerInit : Bool
  pushInit : Bool
  pubInit : Bool
  producerClients : Nat
  pubClients : Nat
  pullClients : Nat
  writeMsg : Bytes → Int

/-! ## The producer -/

/-- `producer_config`. -/
structure ProducerConfig where
  id : Bytes
  producerBindUri : Bytes
  producerStreamType : StreamType
deriving DecidableEq, Repr

/-- `producer`; `running` is set when its thread is started. -/
structure Producer where
  config : ProducerConfig
  pProducerSocket : Option Connection
  running : Bool
deriving DecidableEq, Repr

namespace Producer

/-- The constructor. -/
def new (config : ProducerConfig) : Producer := ⟨config, none, false⟩

/-- `init`. -/
def init (p : Producer) (env : AdminEnv) : Except Thrown Bool × Producer :=
  let connection (stream : StreamType) (type : Option ZmqSocketType) : Producer :=
    { p with pProducerSocket := some ⟨p.config.producerBindUri, stream, type, env.producerInit⟩ }
  match p.config.producerStreamType with
  | .zmq => (.ok env.producerInit, connection .zmq (some .pull))
  | .socket => (.ok env.producerInit, connection .socket none)
  | .file => (.error .runtimeError, p)

theorem init_config (p : Producer) (env : AdminEnv) : (p.init env).2.config = p.config := by
  unfold init
  split
  · rfl
  · rfl
  · rfl

/-- `run`. -/
def run (p : Producer) : Bool × Producer := (true, { p with running := true })

/-- `get_bind_uri`. -/
def getBindUri (p : Producer) : Bytes := p.config.producerBindUri

/-- `get_num_clients`. -/
def getNumClients (p : Producer) (env : AdminEnv) : Nat :=
  match p.pProducerSocket with
  | some _ => u32 env.producerClients
  | none => 0

end Producer

/-! ## The consumer -/

/-- `consumer_config`. -/
structure ConsumerConfig where
  id : Bytes
  pushBindUri : Bytes
  pubBindUri : Bytes
  streamType : StreamType
deriving DecidableEq, Repr

/-- `consumer`. -/
structure Consumer where
  config : ConsumerConfig
  pConsumerSocket : Option Connection
  pConsumerPubSocket : Option Connection
  running : Bool
deriving DecidableEq, Repr

namespace Consumer

/-- The constructor. -/
def new (config : ConsumerConfig) : Consumer := ⟨config, none, none, false⟩

/-- The part of `init` about the push socket. -/
def initPush (c : Consumer) (env : AdminEnv) : Bool × Consumer :=
  if c.config.pushBindUri = [] then (true, c)
  else
    (env.pushInit, { c with
      pConsumerSocket := some ⟨c.config.pushBindUri, .zmq, some .push, env.pushInit⟩ })

/-- The part of `init` about the pub socket. -/
def initPub (c : Consumer) (env : AdminEnv) : Bool × Consumer :=
  if c.config.pubBindUri = [] then (true, c)
  else
    (env.pubInit, { c with
      pConsumerPubSocket := some ⟨c.config.pubBindUri, .zmq, some .pub, env.pubInit⟩ })

/-- `init`: the pub socket is left out when the push socket fails. -/
def init (c : Consumer) (env : AdminEnv) : Except Thrown Bool × Consumer :=
  match c.config.streamType with
  | .zmq =>
      match c.initPush env with
      | (false, c) => (.ok false, c)
      | (true, c) =>
          let (ok, c) := c.initPub env
          (.ok ok, c)
  | .socket =>
      (.ok env.pushInit, { c with
        pConsumerSocket := some ⟨c.config.pushBindUri, .socket, none, env.pushInit⟩ })
  | .file => (.error .runtimeError, c)

theorem init_config (c : Consumer) (env : AdminEnv) : (c.init env).2.config = c.config := by
  have hpush : (c.initPush env).2.config = c.config := by
    unfold initPush
    split
    · rfl
    · rfl
  have hpub : ∀ c : Consumer, (c.initPub env).2.config = c.config := by
    intro c
    unfold initPub
    split
    · rfl
    · rfl
  unfold init
  split
  · split
    · next heq =>
        rw [heq] at hpush
        exact hpush
    · next heq =>
        rw [heq] at hpush
        exact (hpub _).trans hpush
  · rfl
  · rfl

/-- `run`. -/
def run (c : Consumer) : Bool × Consumer := (true, { c with running := true })

/-- `get_pub_bind_uri`. -/
def getPubBindUri (c : Consumer) : Bytes := c.config.pubBindUri

/-- `get_push_bind_uri`. -/
def getPushBindUri (c : Consumer) : Bytes := c.config.pushBindUri

/-- `get_num_pub_clients`. -/
def getNumPubClients (c : Consumer) (env : AdminEnv) : Nat :=
  match c.pConsumerPubSocket with
  | some _ => u32 env.pubClients
  | none => 0

/-- `get_num_pull_clients`. -/
def getNumPullClients (c : Consumer) (env : AdminEnv) : Nat :=
  match c.pConsumerSocket, c.config.streamType with
  | some _, .zmq => u32 env.pullClients
  | some _, .socket => u32 env.pullClients
  | some _, .file => 0
  | none, _ => 0

end Consumer

/-! ## The topic -/

/-- `broker`. -/
structure Broker where
  config : BrokerConfig
  storage : BrokerStorage
  pProducer : Option Producer
  pConsumer : Option Consumer

namespace Broker

/-- The constructor and `init`, which does not look at what the `init` of the
storage returns. -/
def init (config : BrokerConfig) : Bool × Broker :=
  (true, ⟨config, (BrokerStorage.init config.brokerType config.outputDirectory config.id).2,
    none, none⟩)

/-- `init_producer`. -/
def initProducer (b : Broker) (conf : ProducerConfig) (env : AdminEnv) :
    Except Thrown Bool × Broker :=
  match (Producer.new conf).init env with
  | (.ok true, p) =>
      let (ok, p) := p.run
      (.ok ok, { b with pProducer := some p })
  | (result, p) => (result, { b with pProducer := some p })

/-- `init_consumer`. -/
def initConsumer (b : Broker) (conf : ConsumerConfig) (env : AdminEnv) :
    Except Thrown Bool × Broker :=
  match (Consumer.new conf).init env with
  | (.ok true, c) =>
      let storage :=
        { b.storage with pConsumerSocket := c.pConsumerSocket.map Connection.streamType }
      let (ok, c) := c.run
      (.ok ok, { b with storage := storage, pConsumer := some c })
  | (result, c) => (result, { b with pConsumer := some c })

/-- `get_total_msg_sent`. -/
def getTotalMsgSent (b : Broker) : Nat := u32 b.storage.totalDequeuedMessages

/-- `get_total_msg_received`. -/
def getTotalMsgReceived (b : Broker) : Nat := u32 b.storage.totalEnqueuedMessages

/-- `get_queue_size`. -/
def getQueueSize (b : Broker) : Nat := b.storage.getQueueSize

/-! What the two functions do to the topic, whatever the sockets do. -/

variable (b : Broker) (env : AdminEnv)

@[simp] theorem initProducer_config (conf : ProducerConfig) :
    (b.initProducer conf env).2.config = b.config := by
  unfold initProducer
  split
  · rfl
  · rfl

@[simp] theorem initProducer_pConsumer (conf : ProducerConfig) :
    (b.initProducer conf env).2.pConsumer = b.pConsumer := by
  unfold initProducer
  split
  · rfl
  · rfl

theorem initProducer_uri (conf : ProducerConfig) :
    (b.initProducer conf env).2.pProducer.map Producer.getBindUri = some conf.producerBindUri := by
  have hconfig := (Producer.new conf).init_config env
  unfold initProducer
  split
  · next p heq =>
      rw [heq] at hconfig
      exact congrArg (fun config => some config.producerBindUri) hconfig
  · next p _ heq =>
      rw [heq] at hconfig
      exact congrArg (fun config => some config.producerBindUri) hconfig

theorem initProducer_zmq {conf : ProducerConfig} (h : conf.producerStreamType = .zmq) :
    (b.initProducer conf env).1 = .ok env.producerInit := by
  cases henv : env.producerInit with
  | true => simp only [initProducer, Producer.init, Producer.new, Producer.run, h, henv]
  | false => simp only [initProducer, Producer.init, Producer.new, h, henv]

@[simp] theorem initConsumer_config (conf : ConsumerConfig) :
    (b.initConsumer conf env).2.config = b.config := by
  unfold initConsumer
  split
  · rfl
  · rfl

@[simp] theorem initConsumer_pProducer (conf : ConsumerConfig) :
    (b.initConsumer conf env).2.pProducer = b.pProducer := by
  unfold initConsumer
  split
  · rfl
  · rfl

/-- The pointer is set, also when `init_consumer` fails. -/
theorem initConsumer_pConsumer (conf : ConsumerConfig) :
    ∃ c, (b.initConsumer conf env).2.pConsumer = some c := by
  unfold initConsumer
  split
  · exact ⟨_, rfl⟩
  · exact ⟨_, rfl⟩

theorem initConsumer_uris (conf : ConsumerConfig) :
    (b.initConsumer conf env).2.pConsumer.map Consumer.config = some conf := by
  have hconfig := (Consumer.new conf).init_config env
  unfold initConsumer
  split
  · next c heq =>
      rw [heq] at hconfig
      exact congrArg some hconfig
  · next c _ heq =>
      rw [heq] at hconfig
      exact congrArg some hconfig

theorem initConsumer_ok {conf : ConsumerConfig} (h : conf.streamType ≠ .file) :
    ∃ ok, (b.initConsumer conf env).1 = .ok ok := by
  have hinit : ∃ ok, ((Consumer.new conf).init env).1 = .ok ok := by
    unfold Consumer.init
    split
    · split
      · exact ⟨_, rfl⟩
      · exact ⟨_, rfl⟩
    · exact ⟨_, rfl⟩
    · next hfile => exact absurd hfile h
  obtain ⟨ok, hok⟩ := hinit
  unfold initConsumer
  split
  · exact ⟨_, rfl⟩
  · next result c _ heq =>
      rw [heq] at hok
      exact ⟨ok, hok⟩

end Broker

end LightQ
