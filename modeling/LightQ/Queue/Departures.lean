/-
# `Queue.Departures` — the three paths out of a topic

A consumer endpoint has a push socket for pullers and a pub socket for
subscribers.  Three paths lead out of a topic:

    queue             process_consumers      push and pub, each if it counts a
                                             client when it is tested
    file, queue_file  file_to_consumer       push
    direct            direct_write_consumer  push

A run of a topic of any type leaves a trace of the events of
`Queue.ProcessConsumers`.  The `ledger` reads it: for every message that has
left the storage, or was received for direct, it says which sockets counted a
client at that moment and what has been written to which socket since.  A
departure is `Served` if each of these sockets was given the message.  A socket
that is not written to is served exactly if it counted no client
(`servedOn_of_not_written`), one that is written to exactly if that succeeds or it
counted none (`servedOn_self_of_written`).

`Keeps` is the condition on a step; the consumer thread of a queue topic is
taken through its loop here, the other steps are in `Queue.BothModes`.  An
iteration takes a message (`Steady.take`), passes each socket over
(`Steady.pass`) or writes to it (`Steady.write`), and ends (`Steady.finish`);
between the two sockets the ledger has an entry that is not done with, of which
the thread's place says what has been passed (`Steady.in_hand`,
`Steady.no_hand`).  A step that neither writes nor passes a socket over is of no
account (`good_congr`).
-/
import LightQ.Lib.Runs
import LightQ.Queue.ProcessConsumers
import LightQ.Queue.QueueToFile

namespace LightQ

open MachineInt FrameLog Runs

namespace BothModes

open ProcessConsumers (Socket Event)
open QueueToFile (LoopPc)
open Accounting (ProducerPc)

/-! ## What a trace says -/

/-- A message that has left the storage, the sockets that counted a client
then, and what has been written since. -/
structure Departure where
  message : Bytes
  counted : Socket → Bool
  written : List (Socket × Bytes)

/-- If the socket counted a client, the message was written to it. -/
def Departure.ServedOn (d : Departure) (socket : Socket) : Prop :=
  d.counted socket = true → (socket, d.message) ∈ d.written

def Departure.Served (d : Departure) : Prop := ∀ socket, d.ServedOn socket

/-- The clients of each socket, the departure that is going on, and those that
are over. -/
structure Ledger where
  clients : Socket → Int
  hand : Option Departure
  left : List Departure

namespace Ledger

def empty : Ledger := ⟨fun _ => 0, none, []⟩

def record (l : Ledger) : Event → Ledger
  | .connected socket =>
      { l with clients := fun other => l.clients other + (Event.connected socket).delta other }
  | .disconnected socket =>
      { l with clients := fun other => l.clients other + (Event.disconnected socket).delta other }
  | .enqueued _ => l
  | .removed message => { l with hand := some ⟨message, fun socket => 0 < l.clients socket, []⟩ }
  | .wrote socket bytes ok =>
      { l with hand := l.hand.map fun d =>
          { d with written := d.written ++ if ok then [(socket, bytes)] else [] } }
  | .iterationEnd => { l with hand := none, left := l.left ++ l.hand.toList }

end Ledger

def ledger (trace : List Event) : Ledger := trace.foldl Ledger.record Ledger.empty

@[simp] theorem ledger_snoc (trace : List Event) (e : Event) :
    ledger (trace ++ [e]) = (ledger trace).record e := by
  rw [ledger, List.foldl_append]
  rfl

theorem record_writes (sent : List Bytes) (ok : Bool) (l : Ledger) :
    (sent.map fun bytes => Event.wrote .push bytes ok).foldl Ledger.record l =
      { l with hand := l.hand.map fun d =>
          { d with written := d.written ++ if ok then sent.map (Socket.push, ·) else [] } } := by
  induction sent generalizing l with
  | nil =>
      obtain ⟨clients, hand, left⟩ := l
      cases hand <;> cases ok <;> simp
  | cons bytes sent ih =>
      rw [List.map_cons, List.foldl_cons, ih]
      cases hd : l.hand <;> cases ok <;> simp [Ledger.record, hd]

/-! ## A topic of any type -/

/-- A topic with a ZeroMQ consumer endpoint: the storage, the sockets and the
consumer thread, and for queue_file the producer and the loop that moves
messages to the file.  `added` is what has been appended to the file. -/
structure World extends ProcessConsumers.World where
  producer : ProducerPc
  loop : LoopPc
  enqueued : List Bytes
  added : List Bytes

/-- What can happen, to topics of which type: a client comes or goes (any); a
message is enqueued, or the consumer takes a step (queue); a message is
appended (file); the producer or the loop takes a step (queue_file);
`file_to_consumer` is called (file, queue_file); a message is received
(direct). -/
inductive Action where
  | connect (socket : Socket)
  | disconnect (socket : Socket)
  | tryEnqueue (message : Bytes)
  | countEnqueued
  | consumer (writeSucceeds : Bool)
  | publish (overload : ConnectionFile.Overload) (message content : Bytes)
      (sched : List PwriteResult)
  | pipeline (action : QueueToFile.Action)
  | fileToConsumer (sched : List PreadResult) (written : Int)
  | receive (message : Bytes) (env : AddEnv)

namespace World

def start (brokerType : BrokerType) (outputDirectory id : Bytes) : World where
  storage := (BrokerStorage.init brokerType outputDirectory id).2.setConsumerSocket .zmq
  sockets := fun _ => true
  clients := fun _ => 0
  pc := .waiting
  trace := []
  producer := .idle
  loop := .waiting
  enqueued := []
  added := []

/-- The frames that the messages of the file became. -/
def frames (host : ByteOrder) (w : World) : List Bytes :=
  w.added.map fun message => frame host message false 0

/-- The message that starts at the read position. -/
def next (host : ByteOrder) (w : World) : Option Bytes :=
  (frameAt (w.frames host) w.storage.totalBytesRead).map fun fr => fr.drop 4

/-- Messages count as added once the file has grown. -/
def grow (w : World) (storage : BrokerStorage) (messages : List Bytes) : World :=
  { w with
    storage := storage
    added := w.added ++
      if w.storage.getFileTotalBytesWritten < storage.getFileTotalBytesWritten then messages
      else [] }

/-- A message that is done with at once. -/
def episode (message : Bytes) (sent : List Bytes) (ok : Bool) : List Event :=
  .removed message :: (sent.map (fun bytes => .wrote .push bytes ok) ++ [.iterationEnd])

/-- `file_to_consumer(p_consumer_socket_, false)`.  A message leaves when the
read position moves from where it starts. -/
def deliver (host : ByteOrder) (w : World) (sched : List PreadResult) (written : Int) :
    Option World := do
  let d ← w.storage.fileToConsumer host false sched written
  let moved := w.storage.totalBytesRead < d.storage.totalBytesRead
  some { w with
    storage := d.storage
    trace := w.trace ++ match if moved then w.next host else none with
      | some message => episode message (d.sent.map Prod.fst) (0 ≤ written)
      | none => [] }

/-- One step; `none` when the topic is of another type.  `process_producers`
passes empty messages over. -/
def step (host : ByteOrder) (w : World) (a : Action) : Option World :=
  match a, w.storage.brokerType with
  | .connect socket, _ => some { w with toWorld := w.toWorld.step (.connect socket) }
  | .disconnect socket, _ => some { w with toWorld := w.toWorld.step (.disconnect socket) }
  | .tryEnqueue message, .queue =>
      if message = [] then none
      else some { w with toWorld := w.toWorld.step (.tryEnqueue message) }
  | .countEnqueued, .queue => some { w with toWorld := w.toWorld.step .countEnqueued }
  | .consumer ok, .queue => some { w with toWorld := w.toWorld.step (.consumer ok) }
  | .publish overload message content sched, .file => do
      let stored ← w.storage.add host overload message ⟨some content, sched, 0⟩
      some (w.grow stored.storage [message])
  | .pipeline action, .queueFile => do
      let p ← QueueToFile.World.step host ⟨w.storage, w.producer, w.loop, w.enqueued⟩ action
      some { w.grow p.storage w.loop.held with
        producer := p.producer
        loop := p.loop
        enqueued := p.enqueued }
  | .fileToConsumer sched written, .file => w.deliver host sched written
  | .fileToConsumer sched written, .queueFile => w.deliver host sched written
  | .receive message env, .direct =>
      if message = [] then none
      else do
        let r ← w.storage.addToStorage host message env
        some { w with
          storage := r.storage
          trace := w.trace ++ episode message r.sent (0 ≤ env.writeMsg) }
  | _, _ => none

/-- Every departure that is over was served. -/
def Served (w : World) : Prop := ∀ d ∈ (ledger w.trace).left, d.Served

/-- The socket counted a client when the message in hand left. -/
def Counted (w : World) (socket : Socket) : Prop :=
  ∃ d, (ledger w.trace).hand = some d ∧ d.counted socket = true

/-- No client is missed at this step.  On a queue topic, a socket that counted
a client when the message left counts one when it is tested, and is written
to; elsewhere no client is where the path does not lead. -/
def Keeps (host : ByteOrder) (w : World) : Action → Prop
  | .consumer ok =>
      match w.pc with
      | .testing socket _ => w.Counted socket → 0 < u32OfInt (w.clients socket)
      | .writing socket _ => w.Counted socket → ok = true
      | _ => True
  | .fileToConsumer _ _ => w.next host ≠ none → ∀ socket, w.clients socket ≤ 0
  | .receive _ env => w.clients .pub ≤ 0 ∧ (0 < w.clients .push → 0 ≤ env.writeMsg)
  | _ => True

/-! ## Steps -/

/-- The sockets that the consumer is done with. -/
def passed : ProcessConsumers.Pc → Socket → Bool
  | .testing .pub _, .push => true
  | .writing .pub _, .push => true
  | .ending, _ => true
  | _, _ => false

/-- The message that the consumer has in hand. -/
def holding : ProcessConsumers.Pc → Option Bytes
  | .counting message => some message
  | .testing _ message => some message
  | .writing _ message => some message
  | _ => none

/-- No departure so far has passed over a client. -/
def Good (w : World) : Prop :=
  w.Served ∧ ∀ d, (ledger w.trace).hand = some d → ∀ socket, passed w.pc socket = true →
    d.ServedOn socket

/-- What holds in every run. -/
structure Steady (w : World) : Prop where
  clients : ∀ socket, (ledger w.trace).clients socket = w.clients socket
  sockets : ∀ socket, w.sockets socket = true
  consumer : w.storage.pConsumerSocket = some .zmq
  queued : w.storage.brokerType = .queue → ∀ message ∈ w.storage.pQueue, message ≠ []
  idle : w.storage.brokerType ≠ .queue → w.pc = .waiting
  nonempty : ∀ message, w.pc = .counting message → message ≠ []
  hand : match holding w.pc with
    | some message => ∃ d, (ledger w.trace).hand = some d ∧ d.message = message ∧
        ∀ p ∈ d.written, passed w.pc p.1 = true
    | none => w.pc = .ending ∨ (ledger w.trace).hand = none

theorem steady_start (brokerType : BrokerType) (outputDirectory id : Bytes) :
    Steady (start brokerType outputDirectory id) where
  clients _ := rfl
  sockets _ := rfl
  consumer := rfl
  queued _ := by
    cases brokerType <;> exact fun m hm => absurd hm List.not_mem_nil
  idle _ := rfl
  nonempty _ h := by cases h
  hand := Or.inr rfl

section Consumer

variable {w w' : World} {d : Departure} {message : Bytes} {s t : Socket}

theorem passed_after : passed (ProcessConsumers.World.after message s) t = true ↔
    passed (.testing s message) t = true ∨ t = s := by
  cases s <;> cases t <;> simp [passed, ProcessConsumers.World.after]

theorem passed_writing (message : Bytes) (s : Socket) :
    passed (.writing s message) = passed (.testing s message) := by
  funext t
  cases s <;> cases t <;> rfl

theorem forall_passed_after {P : Socket → Prop} :
    (∀ t, passed (ProcessConsumers.World.after message s) t = true → P t) ↔
      (∀ t, passed (.testing s message) t = true → P t) ∧ P s := by
  simp only [passed_after, or_imp, forall_and, forall_eq]

theorem not_passed_self (message : Bytes) (s : Socket) : passed (.testing s message) s = false := by
  cases s <;> rfl

theorem not_written (h : ∀ p ∈ d.written, passed (.testing s message) p.1 = true) :
    ∀ p ∈ d.written, p.1 ≠ s := by
  rintro p hp rfl
  have hpassed := h p hp
  rw [not_passed_self] at hpassed
  cases hpassed

theorem good_of_hand (hd : (ledger w.trace).hand = some d) :
    Good w ↔ Served w ∧ ∀ s, passed w.pc s = true → d.ServedOn s := by
  simp only [Good, hd, Option.some.injEq, forall_eq']

theorem counted_of_hand (hd : (ledger w.trace).hand = some d) :
    w.Counted s ↔ d.counted s = true := by
  simp only [Counted, hd, Option.some.injEq, exists_eq_left']

theorem servedOn_of_not_written (h : ∀ p ∈ d.written, p.1 ≠ s) :
    d.ServedOn s ↔ ¬ d.counted s = true := by
  constructor
  · intro hserved hcounted
    exact h _ (hserved hcounted) rfl
  · intro hno hcounted
    exact absurd hcounted hno

/-- A socket that is written to is served exactly if that succeeds or it
counted no client; another one if it was served before. -/
theorem servedOn_self_of_written {ok : Bool} (h : ∀ p ∈ d.written, p.1 ≠ s) :
    Departure.ServedOn
        { d with written := d.written ++ if ok then [(s, d.message)] else [] } s ↔
      (d.counted s = true → ok = true) := by
  cases ok with
  | true => simp [Departure.ServedOn]
  | false =>
      have hno := servedOn_of_not_written h
      simpa [Departure.ServedOn] using hno

theorem servedOn_other_of_written {ok : Bool} {bytes : Bytes} (hne : t ≠ s) :
    Departure.ServedOn { d with written := d.written ++ if ok then [(s, bytes)] else [] } t ↔
      d.ServedOn t := by
  cases ok with
  | true => simp [Departure.ServedOn, hne]
  | false => simp [Departure.ServedOn]

theorem Steady.thread (h : Steady w) {storage : BrokerStorage} {pc : ProcessConsumers.Pc}
    {trace : List Event} (htype : w.storage.brokerType = .queue)
    (hclients : (ledger trace).clients = (ledger w.trace).clients)
    (htype' : storage.brokerType = w.storage.brokerType)
    (hconsumer : storage.pConsumerSocket = w.storage.pConsumerSocket)
    (hqueue : ∀ m ∈ storage.pQueue, m ∈ w.storage.pQueue)
    (hnonempty : ∀ m, pc = .counting m → m ≠ [])
    (hhand : match holding pc with
      | some message => ∃ d, (ledger trace).hand = some d ∧ d.message = message ∧
          ∀ p ∈ d.written, passed pc p.1 = true
      | none => pc = .ending ∨ (ledger trace).hand = none) :
    Steady { w with storage := storage, pc := pc, trace := trace } where
  clients socket := by rw [hclients]; exact h.clients socket
  sockets := h.sockets
  consumer := hconsumer.trans h.consumer
  queued _ m hm := h.queued htype m (hqueue m hm)
  idle hne := absurd (htype'.trans htype) hne
  nonempty := hnonempty
  hand := hhand

theorem Steady.in_hand (h : Steady w) (hold : holding w.pc = some message) :
    ∃ d, (ledger w.trace).hand = some d ∧ d.message = message ∧
      ∀ p ∈ d.written, passed w.pc p.1 = true := by
  have hhand := h.hand
  rw [hold] at hhand
  exact hhand

theorem Steady.no_hand (h : Steady w) (hold : holding w.pc = none) (hend : w.pc ≠ .ending) :
    (ledger w.trace).hand = none := by
  have hhand := h.hand
  rw [hold] at hhand
  exact hhand.resolve_left hend

theorem good_congr (htrace : w'.trace = w.trace) (hpc : passed w'.pc = passed w.pc) :
    Good w' ↔ Good w := by
  rw [Good, Good, Served, Served, htrace, hpc]

theorem good_of_no_hand (hd : (ledger w.trace).hand = none) : Good w ↔ Served w := by
  simp [Good, hd]

theorem Steady.take (h : Steady w) (htype : w.storage.brokerType = .queue) (hpc : w.pc = .taking)
    {storage : BrokerStorage} (htake : w.storage.tryDequeue = some (message, storage)) :
    Steady { w with
        storage := storage, pc := .counting message, trace := w.trace ++ [.removed message] } ∧
      (Good { w with
        storage := storage, pc := .counting message, trace := w.trace ++ [.removed message] } ↔
        Good w) := by
  obtain ⟨rest, hqueue, rfl⟩ := BrokerStorage.tryDequeue_some htake
  refine ⟨h.thread htype (by rw [ledger_snoc]; rfl) rfl rfl
    (fun m hm => by rw [hqueue]; exact List.mem_cons_of_mem _ hm) ?_ ?_, ?_⟩
  · intro m hm
    obtain rfl : message = m := by simpa using hm
    exact h.queued htype message (by rw [hqueue]; exact List.mem_cons_self)
  · refine ⟨_, by rw [ledger_snoc]; rfl, rfl, ?_⟩
    exact fun p hp => absurd hp List.not_mem_nil
  · rw [good_of_no_hand (h.no_hand (by rw [hpc]; rfl) (by simp [hpc])), Good, Served,
      Served, ledger_snoc]
    constructor
    · rintro ⟨hserved, -⟩
      exact hserved
    · intro hserved
      exact ⟨hserved, fun d _ s hs => by cases hs⟩

theorem Steady.after (h : Steady w) (htype : w.storage.brokerType = .queue) {trace : List Event}
    (hclients : (ledger trace).clients = (ledger w.trace).clients)
    (hd : (ledger trace).hand = some d) (hmessage : d.message = message)
    (hwritten : ∀ p ∈ d.written, passed (ProcessConsumers.World.after message s) p.1 = true) :
    Steady { w with pc := ProcessConsumers.World.after message s, trace := trace } := by
  refine h.thread htype hclients rfl rfl (fun m hm => hm) ?_ ?_
  · intro m hm
    cases s <;> cases hm
  · cases s with
    | push => exact ⟨d, hd, hmessage, hwritten⟩
    | pub => exact Or.inl rfl

theorem Steady.pass (h : Steady w) (htype : w.storage.brokerType = .queue)
    (hpc : w.pc = .testing s message) :
    Steady { w with pc := ProcessConsumers.World.after message s } ∧
      (Good { w with pc := ProcessConsumers.World.after message s } ↔ Good w ∧ ¬ w.Counted s) := by
  obtain ⟨d, hd, rfl, hwritten⟩ := h.in_hand (by rw [hpc]; rfl)
  rw [hpc] at hwritten
  have hgood : Good { w with pc := ProcessConsumers.World.after d.message s } ↔
      Served w ∧ ∀ t, passed (ProcessConsumers.World.after d.message s) t = true →
        d.ServedOn t := good_of_hand hd
  constructor
  · exact h.after htype rfl hd rfl fun p hp => passed_after.mpr (Or.inl (hwritten p hp))
  · rw [hgood, good_of_hand hd, hpc, counted_of_hand hd, forall_passed_after,
      servedOn_of_not_written (not_written hwritten), and_assoc]

theorem Steady.write (h : Steady w) (htype : w.storage.brokerType = .queue)
    (hpc : w.pc = .writing s message) (ok : Bool) :
    Steady { w with
        pc := ProcessConsumers.World.after message s
        trace := w.trace ++ [.wrote s message ok] } ∧
      (Good { w with
        pc := ProcessConsumers.World.after message s
        trace := w.trace ++ [.wrote s message ok] } ↔
        Good w ∧ (w.Counted s → ok = true)) := by
  obtain ⟨d, hd, rfl, hwritten⟩ := h.in_hand (by rw [hpc]; rfl)
  rw [hpc, passed_writing] at hwritten
  have hd' : (ledger (w.trace ++ [.wrote s d.message ok])).hand =
      some { d with written := d.written ++ if ok then [(s, d.message)] else [] } := by
    rw [ledger_snoc, Ledger.record, hd]
    rfl
  have hgood : Good { w with
      pc := ProcessConsumers.World.after d.message s
      trace := w.trace ++ [.wrote s d.message ok] } ↔
      Served { w with
        pc := ProcessConsumers.World.after d.message s
        trace := w.trace ++ [.wrote s d.message ok] } ∧ _ := good_of_hand hd'
  constructor
  · refine h.after htype (by rw [ledger_snoc]; rfl) hd' rfl fun p hp => passed_after.mpr ?_
    rcases List.mem_append.mp hp with hp | hp
    · exact Or.inl (hwritten p hp)
    · cases ok with
      | true => exact Or.inr (congrArg Prod.fst (List.mem_singleton.mp hp))
      | false => exact absurd hp List.not_mem_nil
  · rw [hgood, good_of_hand hd, hpc, passed_writing, counted_of_hand hd, forall_passed_after,
      servedOn_self_of_written (not_written hwritten), and_assoc]
    refine and_congr ?_ (and_congr (forall_congr' fun t => ?_) Iff.rfl)
    · rw [Served, Served, ledger_snoc]
      rfl
    · refine imp_congr_right fun ht => servedOn_other_of_written ?_
      rintro rfl
      rw [not_passed_self] at ht
      cases ht

theorem Steady.finish (h : Steady w) (htype : w.storage.brokerType = .queue)
    (hpc : w.pc = .ending) :
    Steady { w with pc := .waiting, trace := w.trace ++ [.iterationEnd] } ∧
      (Good { w with pc := .waiting, trace := w.trace ++ [.iterationEnd] } ↔ Good w) := by
  refine ⟨h.thread htype (by rw [ledger_snoc]; rfl) rfl rfl (fun m hm => hm) (by simp)
    (Or.inr (by rw [ledger_snoc]; rfl)), ?_⟩
  have hgood : Good { w with pc := .waiting, trace := w.trace ++ [.iterationEnd] } ↔
      ∀ d ∈ (ledger w.trace).left ++ (ledger w.trace).hand.toList, d.Served := by
    rw [good_of_no_hand (by rw [ledger_snoc]; rfl), Served, ledger_snoc]
    rfl
  rw [hgood, Good, hpc]
  simp only [List.mem_append, Option.mem_toList, or_imp, forall_and]
  exact and_congr_right fun _ =>
    ⟨fun hall d hd s _ => hall d hd s, fun hall d hd s => hall d hd s rfl⟩

/-- The step of the consumer thread, on a queue topic. -/
theorem Steady.consumer_step (h : Steady w) (htype : w.storage.brokerType = .queue)
    (host : ByteOrder) (ok : Bool) :
    Steady { w with toWorld := w.consumerStep ok } ∧
      (Good { w with toWorld := w.consumerStep ok } ↔ Good w ∧ Keeps host w (.consumer ok)) := by
  rw [ProcessConsumers.World.consumerStep]
  cases hpc : w.pc with
  | waiting =>
      have hd : (ledger w.trace).hand = none := h.no_hand (by rw [hpc]; rfl) (by simp [hpc])
      simp only [Keeps, hpc, and_true]
      split
      · exact ⟨h, Iff.rfl⟩
      · refine ⟨h.thread htype rfl rfl rfl (fun m hm => hm) (by simp) (Or.inr hd), ?_⟩
        exact good_congr rfl (by rw [hpc]; rfl)
  | taking =>
      have hd : (ledger w.trace).hand = none := h.no_hand (by rw [hpc]; rfl) (by simp [hpc])
      simp only [Keeps, hpc, and_true]
      cases htake : w.storage.tryDequeue with
      | none =>
          refine ⟨h.thread htype rfl rfl rfl (fun m hm => hm) (by simp) (Or.inl rfl), ?_⟩
          exact Iff.trans (good_of_no_hand hd) (good_of_no_hand hd).symm
      | some taken => exact h.take htype hpc htake
  | counting message =>
      obtain ⟨d, hd, hmessage, hwritten⟩ := h.in_hand (by rw [hpc]; rfl)
      rw [hpc] at hwritten
      simp only [Keeps, hpc, and_true, if_pos (List.length_pos_iff.mpr (h.nonempty message hpc))]
      refine ⟨h.thread htype rfl rfl rfl (fun m hm => hm) (by simp)
        ⟨d, hd, hmessage, fun p hp => ?_⟩, good_congr rfl ?_⟩
      · have := hwritten p hp
        cases hs : p.1 <;> rw [hs] at this <;> cases this
      · rw [hpc]
        funext s
        cases s <;> rfl
  | testing socket message =>
      obtain ⟨d, hd, hmessage, hwritten⟩ := h.in_hand (by rw [hpc]; rfl)
      rw [hpc] at hwritten
      simp only [Keeps, hpc, h.sockets, Bool.true_and, decide_eq_true_eq]
      split
      · next hmany =>
          refine ⟨h.thread htype rfl rfl rfl (fun m hm => hm) (by simp)
            ⟨d, hd, hmessage, fun p hp => by rw [passed_writing]; exact hwritten p hp⟩, ?_⟩
          simp only [hmany, implies_true, and_true]
          exact good_congr rfl (by rw [hpc]; exact passed_writing message socket)
      · next hnone =>
          obtain ⟨hsteady, hgood⟩ := h.pass htype hpc
          refine ⟨hsteady, hgood.trans ?_⟩
          simp only [hnone]
  | writing socket message =>
      simp only [Keeps, hpc]
      exact h.write htype hpc ok
  | ending =>
      simp only [Keeps, hpc, and_true]
      exact h.finish htype hpc

end Consumer

end World

end BothModes

end LightQ
