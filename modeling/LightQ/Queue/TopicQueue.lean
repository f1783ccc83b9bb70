/-
# `Queue.TopicQueue` — a queue topic on its real queue

`Queue.Accounting` takes `try_enqueue` and `try_dequeue` as single steps of an
unbounded list.  Here a topic has the queue that `init` makes for it, and the
two threads go through `try_enqueue` and `try_dequeue` one memory access at a
time, the producer trying again for as long as it is refused.  `Shows` says
when a state of this topic is one of `Accounting`, and `Queue.TopicQueueRuns`
that every run of the one is a run of the other.

What has to be shown for that is that the consumer, having seen a positive
queue size, never finds the queue empty: the message is in the queue before it
is counted, and `Fifo.State.Sure` carries that through the call.

A step of this topic is `Matched` by none or one of the other's.  One that leaves
the queue alone is its own (`Matched.local`).  A step of the producer on the queue
is matched by nothing (`enqueuing_matched`) until the one that enqueues
(`enqueued_matched`), and leaves of a dequeue in progress what the consumer knows
(`ConsumerShown.kept`); the steps of the consumer are in `Queue.TopicQueueRuns`.
The books of the bounded queue before and after a step are compared by
`items_eq`.
-/
import LightQ.Queue.Accounting
import LightQ.Queue.QueueSize

namespace LightQ

open MachineInt

namespace TopicQueue

open Accounting (Counter Load)

/-- `write_to_queue`, between two steps. -/
inductive ProducerPc where
  | idle
  | sizing (load : Load)
  | enqueuing (message : Bytes)
  | enqueued (message : Bytes)
  | counted (message : Bytes)
deriving DecidableEq, Repr

/-- The consumer thread, between two steps. -/
inductive ConsumerPc where
  | idle
  | sizing (load : Load)
  | ready
  | dequeuing
  | dequeued (message : Bytes)
deriving DecidableEq, Repr

/-- A topic of type queue: its counters are in `storage`, its messages in
`queue`.  `accepted` and `delivered` are ghosts: what `write_to_queue` has
counted, and what `get_message_from_queue` has returned. -/
structure World where
  storage : BrokerStorage
  queue : QueueThreads.World Bytes
  producer : ProducerPc
  consumer : ConsumerPc
  accepted : List Bytes
  delivered : List Bytes

inductive Action where
  | producerLoad (first : Counter)
  | producerSize
  | writeToQueue (message : Bytes)
  | producer
  | countEnqueued
  | countBytes
  | consumerLoad (first : Counter)
  | consumerSize
  | getMessageFromQueue
  | consumer
  | countDequeued
deriving DecidableEq, Repr

/-- `MAX_BLOCK_SIZE`. -/
def maxBlockSize : Nat := 512

namespace World

def start (outputDirectory id : Bytes) (defaultQueueSize : Nat) : World :=
  ⟨(BrokerStorage.init .queue outputDirectory id).2,
    QueueThreads.World.start maxBlockSize defaultQueueSize, .idle, .idle, [], []⟩

/-- A step of `while (!p_queue_->try_enqueue(message))`. -/
def enqueueStep (w : World) (message : Bytes) : Option World :=
  match w.queue.producer with
  | none =>
      (w.queue.step maxBlockSize (.enqueue .cannotAlloc message)).map fun q => { w with queue := q }
  | some pc =>
      match w.queue.queue.innerEnqueue maxBlockSize false pc with
      | none => none
      | some (_, next) =>
          (w.queue.step maxBlockSize (.producer false)).map fun q =>
            { w with
              queue := q
              producer := match next with
                | .ret true => .enqueued message
                | _ => .enqueuing message }

/-- A step of `p_queue_->try_dequeue(message)`. -/
def dequeueStep (w : World) : Option World :=
  match w.queue.consumer with
  | none => none
  | some pc =>
      match w.queue.queue.tryDequeue pc with
      | none => none
      | some (_, next) =>
          (w.queue.step maxBlockSize .consumer).map fun q =>
            { w with
              queue := q
              consumer := match next with
                | .goto _ => .dequeuing
                | .ret none => .idle
                | .ret (some message) => .dequeued message }

def step (w : World) : Action → Option World
  | .producerLoad first =>
      match w.producer with
      | .idle => some { w with producer := .sizing ⟨first, first.value w.storage⟩ }
      | _ => none
  | .producerSize =>
      match w.producer with
      | .sizing _ => some { w with producer := .idle }
      | _ => none
  | .writeToQueue message =>
      match w.producer with
      | .idle => some { w with producer := .enqueuing message }
      | _ => none
  | .producer =>
      match w.producer with
      | .enqueuing message => w.enqueueStep message
      | _ => none
  | .countEnqueued =>
      match w.producer with
      | .enqueued message =>
          some { w with
            storage := w.storage.countEnqueued
            producer := .counted message
            accepted := w.accepted ++ [message] }
      | _ => none
  | .countBytes =>
      match w.producer with
      | .counted message =>
          some { w with storage := w.storage.countBytes message, producer := .idle }
      | _ => none
  | .consumerLoad first =>
      match w.consumer with
      | .idle => some { w with consumer := .sizing ⟨first, first.value w.storage⟩ }
      | _ => none
  | .consumerSize =>
      match w.consumer with
      | .sizing l => some { w with consumer := if l.size w.storage ≤ 0 then .idle else .ready }
      | _ => none
  | .getMessageFromQueue =>
      match w.consumer with
      | .ready =>
          (w.queue.step maxBlockSize .dequeue).map fun q =>
            { w with queue := q, consumer := .dequeuing }
      | _ => none
  | .consumer =>
      match w.consumer with
      | .dequeuing => w.dequeueStep
      | _ => none
  | .countDequeued =>
      match w.consumer with
      | .dequeued message =>
          some { w with
            storage := w.storage.countDequeued
            consumer := .idle
            delivered := w.delivered ++ [message] }
      | _ => none

def run (w : World) (actions : List Action) : Option World := Runs.run step w actions

/-- `get_queue_size_approx`. -/
def getQueueSizeApprox (w : World) : Option Nat :=
  if w.storage.brokerType = .queue then w.queue.queue.sizeApprox else some 0

end World

/-! ## The same topic on a list -/

open QueueThreads (Represents heldAt)

def ProducerShown (p : ProducerPc) (q : QueueThreads.World Bytes)
    (a : Accounting.ProducerPc) : Prop :=
  match p with
  | .idle => q.producer = none ∧ a = .idle
  | .sizing l => q.producer = none ∧ a = .sizing l
  | .enqueuing message =>
      (q.producer.isSome → (Fifo.tally q.history).offered = [message]) ∧ a = .idle
  | .enqueued message => q.producer = none ∧ a = .enqueued message
  | .counted message => q.producer = none ∧ a = .counted message

/-- A dequeue in progress is still to take its message, of which it can be
sure, or has taken it. -/
def ConsumerShown (c : ConsumerPc) (q : QueueThreads.World Bytes) (s : Fifo.State Bytes)
    (a : Accounting.ConsumerPc) : Prop :=
  match c with
  | .idle => q.consumer = none ∧ a = .idle
  | .sizing l => q.consumer = none ∧ a = .sizing l
  | .ready => q.consumer = none ∧ a = .ready
  | .dequeuing => q.consumer.isSome ∧
      (s.consumer = .calling false ∧ a = .ready ∨ ∃ x, s.consumer = .done x ∧ a = .dequeued)
  | .dequeued _ => q.consumer = none ∧ a = .dequeued

/-- What the consumer thread has taken and not counted. -/
def inHand (c : ConsumerPc) (q : QueueThreads.World Bytes) : List Bytes :=
  match c with
  | .dequeuing => heldAt q.consumer
  | .dequeued message => [message]
  | _ => []

/-- The topic on the real queue is in a state of the topic on a list. -/
structure Shows (w : World) (s : Fifo.State Bytes) (a : Accounting.World) : Prop where
  storage : a.storage = { w.storage with pQueue := s.items }
  producer : ProducerShown w.producer w.queue a.producer
  consumer : ConsumerShown w.consumer w.queue s a.consumer
  accepted : a.accepted = w.accepted
  dequeued : a.dequeued = w.delivered ++ inHand w.consumer w.queue

/-- Some run of the topic on a list has come as far. -/
def Matched (n : Nat) (a₀ : Accounting.World) (w : World) : Prop :=
  ∃ s v actions a, Fifo.Reaches n Fifo.start s ∧ Represents n w.queue s v ∧
    a₀.run actions = some a ∧ Shows w s a

section Steps

variable {n : Nat} {a₀ a : Accounting.World} {w w' : World} {s : Fifo.State Bytes} {v : View Bytes}

theorem run_snoc {a' : Accounting.World} {actions : List Accounting.Action}
    {act : Accounting.Action} (hrun : a₀.run actions = some a) (hstep : a.step act = some a') :
    a₀.run (actions ++ [act]) = some a' := by
  rw [Accounting.World.run, List.foldlM_append]
  show (a₀.run actions).bind _ = _
  rw [hrun]
  show (a.step act).bind _ = _
  rw [hstep]
  rfl

theorem value_pQueue (first : Counter) (b : BrokerStorage) (items : List Bytes) :
    first.value { b with pQueue := items } = first.value b := by cases first <;> rfl

theorem size_pQueue (l : Load) (b : BrokerStorage) (items : List Bytes) :
    l.size { b with pQueue := items } = l.size b := by
  obtain ⟨counter, value⟩ := l
  cases counter <;> rfl

theorem Matched.local (h : Matched n a₀ w) {p : ProducerPc} {c : ConsumerPc} {b : BrokerStorage}
    {accepted delivered : List Bytes}
    (hstep : ∀ s a, Shows w s a → ∃ act a', a.step act = some a' ∧
      Shows { w with
        storage := b
        producer := p
        consumer := c
        accepted := accepted
        delivered := delivered } s a') :
    Matched n a₀ { w with
      storage := b
      producer := p
      consumer := c
      accepted := accepted
      delivered := delivered } := by
  obtain ⟨s, v, actions, a, hreach, hrep, hrun, hshows⟩ := h
  obtain ⟨act, a', hact, hshows'⟩ := hstep s a hshows
  exact ⟨s, v, actions ++ [act], a', hreach, hrep, run_snoc hrun hact, hshows'⟩

theorem producerLoad_matched (h : Matched n a₀ w) (hp : w.producer = .idle) (first : Counter) :
    Matched n a₀ { w with producer := .sizing ⟨first, first.value w.storage⟩ } := by
  refine h.local fun s a hshows => ?_
  obtain ⟨hstorage, hproducer, hconsumer, haccepted, hdequeued⟩ := hshows
  rw [hp] at hproducer
  refine ⟨.producerLoad first, { a with producer := .sizing ⟨first, first.value w.storage⟩ }, ?_,
    hstorage, ⟨hproducer.1, rfl⟩, hconsumer, haccepted, hdequeued⟩
  rw [Accounting.World.step, hproducer.2, hstorage, value_pQueue]

theorem producerSize_matched (h : Matched n a₀ w) {l : Load} (hp : w.producer = .sizing l) :
    Matched n a₀ { w with producer := .idle } := by
  refine h.local fun s a hshows => ?_
  obtain ⟨hstorage, hproducer, hconsumer, haccepted, hdequeued⟩ := hshows
  rw [hp] at hproducer
  refine ⟨.producerSize, { a with producer := .idle }, ?_, hstorage, ⟨hproducer.1, rfl⟩, hconsumer,
    haccepted, hdequeued⟩
  rw [Accounting.World.step, hproducer.2]

theorem countEnqueued_matched (h : Matched n a₀ w) {message : Bytes}
    (hp : w.producer = .enqueued message) :
    Matched n a₀ { w with
      storage := w.storage.countEnqueued
      producer := .counted message
      accepted := w.accepted ++ [message] } := by
  refine h.local fun s a hshows => ?_
  obtain ⟨hstorage, hproducer, hconsumer, haccepted, hdequeued⟩ := hshows
  rw [hp] at hproducer
  refine ⟨.countEnqueued, { a with
    storage := a.storage.countEnqueued
    producer := .counted message
    accepted := a.accepted ++ [message] }, ?_, ?_, ⟨hproducer.1, rfl⟩, hconsumer, ?_, hdequeued⟩
  · rw [Accounting.World.step, hproducer.2]
  · rw [hstorage]
    rfl
  · rw [haccepted]

theorem countBytes_matched (h : Matched n a₀ w) {message : Bytes}
    (hp : w.producer = .counted message) :
    Matched n a₀ { w with storage := w.storage.countBytes message, producer := .idle } := by
  refine h.local fun s a hshows => ?_
  obtain ⟨hstorage, hproducer, hconsumer, haccepted, hdequeued⟩ := hshows
  rw [hp] at hproducer
  refine ⟨.countBytes, { a with storage := a.storage.countBytes message, producer := .idle }, ?_,
    ?_, ⟨hproducer.1, rfl⟩, hconsumer, haccepted, hdequeued⟩
  · rw [Accounting.World.step, hproducer.2]
  · rw [hstorage]
    rfl

theorem consumerLoad_matched (h : Matched n a₀ w) (hc : w.consumer = .idle) (first : Counter) :
    Matched n a₀ { w with consumer := .sizing ⟨first, first.value w.storage⟩ } := by
  refine h.local fun s a hshows => ?_
  obtain ⟨hstorage, hproducer, hconsumer, haccepted, hdequeued⟩ := hshows
  rw [hc] at hconsumer hdequeued
  refine ⟨.consumerLoad first, { a with consumer := .sizing ⟨first, first.value w.storage⟩ }, ?_,
    hstorage, hproducer, ⟨hconsumer.1, rfl⟩, haccepted, hdequeued⟩
  rw [Accounting.World.step, hconsumer.2, hstorage, value_pQueue]

theorem consumerSize_matched (h : Matched n a₀ w) {l : Load} (hc : w.consumer = .sizing l) :
    Matched n a₀
      { w with consumer := if l.size w.storage ≤ 0 then .idle else .ready } := by
  refine h.local fun s a hshows => ?_
  obtain ⟨hstorage, hproducer, hconsumer, haccepted, hdequeued⟩ := hshows
  rw [hc] at hconsumer hdequeued
  have hload : l.size a.storage = l.size w.storage := by
    rw [hstorage]
    exact size_pQueue l w.storage s.items
  refine ⟨.consumerSize,
    { a with consumer := if l.size w.storage ≤ 0 then .idle else .ready }, ?_, ?_⟩
  · simp only [Accounting.World.step, hconsumer.2, hload]
  · by_cases hsize : l.size w.storage ≤ 0
    · rw [if_pos hsize, if_pos hsize]
      exact ⟨hstorage, hproducer, ⟨hconsumer.1, rfl⟩, haccepted, hdequeued⟩
    · rw [if_neg hsize, if_neg hsize]
      exact ⟨hstorage, hproducer, ⟨hconsumer.1, rfl⟩, haccepted, hdequeued⟩

theorem countDequeued_matched (h : Matched n a₀ w) {message : Bytes}
    (hc : w.consumer = .dequeued message) :
    Matched n a₀ { w with
      storage := w.storage.countDequeued
      consumer := .idle
      delivered := w.delivered ++ [message] } := by
  refine h.local fun s a hshows => ?_
  obtain ⟨hstorage, hproducer, hconsumer, haccepted, hdequeued⟩ := hshows
  rw [hc] at hconsumer hdequeued
  refine ⟨.countDequeued, { a with storage := a.storage.countDequeued, consumer := .idle }, ?_, ?_,
    hproducer, ⟨hconsumer.1, rfl⟩, haccepted, ?_⟩
  · rw [Accounting.World.step, hconsumer.2]
  · rw [hstorage]
    rfl
  · rw [hdequeued]
    exact (List.append_nil _).symm

/-! ## The steps on the queue -/

theorem done_of_held {c : Fifo.Consumer Bytes} {x : Bytes} (h : c.held = [x]) : c = .done x := by
  cases c with
  | idle => exact absurd h nofun
  | calling empty => exact absurd h nofun
  | done y =>
      obtain rfl : y = x := (List.cons.inj h).1
      rfl

theorem ConsumerShown.kept {q q' : QueueThreads.World Bytes} {s' : Fifo.State Bytes}
    {v' : View Bytes} {c : ConsumerPc} {pc : Accounting.ConsumerPc} (h : ConsumerShown c q s pc)
    (hrep : Represents n q s v) (hrep' : Represents n q' s' v') (hreach : Fifo.Reaches n s s')
    (hsame : q'.consumer = q.consumer)
    (hreturns : Fifo.returns q'.history = Fifo.returns q.history)
    (hready : pc = .ready → s.items ≠ []) : ConsumerShown c q' s' pc := by
  have hheld : s'.consumer.held = s.consumer.held := by rw [hrep'.held_eq, hrep.held_eq, hsame]
  cases c with
  | idle => exact ⟨hsame.trans h.1, h.2⟩
  | sizing l => exact ⟨hsame.trans h.1, h.2⟩
  | ready => exact ⟨hsame.trans h.1, h.2⟩
  | dequeued message => exact ⟨hsame.trans h.1, h.2⟩
  | dequeuing =>
      obtain ⟨hsome, ⟨hcalling, hpc⟩ | ⟨x, hdone, hpc⟩⟩ := h
      · have hsure : s'.Sure := by
          refine hreach.sure (Or.inl ⟨Or.inr hcalling, hready hpc⟩) ?_
          rw [hrep.history, hrep'.history]
          exact hreturns
        refine ⟨hsame ▸ hsome, Or.inl ⟨?_, hpc⟩⟩
        obtain ⟨pc', hpc'⟩ := Option.isSome_iff_exists.mp (hsame ▸ hsome)
        rcases hsure with ⟨hidle | hstill, -⟩ | ⟨x, hdone⟩
        · exact absurd hidle (hrep'.calling_of_some hpc')
        · exact hstill
        · rw [hdone, hcalling] at hheld
          exact absurd hheld nofun
      · refine ⟨hsame ▸ hsome, Or.inr ⟨x, done_of_held ?_, hpc⟩⟩
        rw [hheld, hdone]
        rfl

theorem items_eq {q q' : QueueThreads.World Bytes} {s' : Fifo.State Bytes} {v' : View Bytes}
    (hrep : Represents n q s v) (hrep' : Represents n q' s' v')
    (hreach : Fifo.Reaches n Fifo.start s) (hreach' : Fifo.Reaches n s s') {taken new : List Bytes}
    (hreceived : (Fifo.tally q'.history).received ++ heldAt q'.consumer =
      (Fifo.tally q.history).received ++ heldAt q.consumer ++ taken)
    (haccepted : (Fifo.tally q'.history).accepted = (Fifo.tally q.history).accepted ++ new) :
    taken ++ s'.items = s.items ++ new := by
  have hbefore := hrep.account hreach
  have hafter := hrep'.account (hreach.trans hreach')
  rw [hreceived, haccepted, ← hbefore, List.append_assoc _ taken, List.append_assoc _ s.items]
    at hafter
  exact List.append_cancel_left hafter

theorem inHand_kept {q q' : QueueThreads.World Bytes} (hsame : q'.consumer = q.consumer)
    (c : ConsumerPc) : inHand c q' = inHand c q := by
  cases c <;> simp only [inHand, hsame]

theorem ready_items (hinv : Accounting.World.Invariant a) (hshows : Shows w s a)
    (hready : a.consumer = .ready) : s.items ≠ [] := by
  intro hnil
  have hfifo := congrArg List.length hinv.fifo
  have hlt := hinv.ready hready
  rw [hshows.storage, hnil, List.length_append, List.length_append] at hfifo
  simp only [List.length_nil] at hfifo
  omega

theorem enqueuing_matched {q' : QueueThreads.World Bytes} {s' : Fifo.State Bytes} {v' : View Bytes}
    {actions : List Accounting.Action} {message : Bytes} (hinv : Accounting.World.Invariant a)
    (hreach : Fifo.Reaches n Fifo.start s) (hrep : Represents n w.queue s v)
    (hrun : a₀.run actions = some a) (hshows : Shows w s a)
    (hreach' : Fifo.Reaches n s s') (hrep' : Represents n q' s' v')
    (hp : w.producer = .enqueuing message) (hsame : q'.consumer = w.queue.consumer)
    (hreturns : Fifo.returns q'.history = Fifo.returns w.queue.history)
    (hreceived : (Fifo.tally q'.history).received = (Fifo.tally w.queue.history).received)
    (haccepted : (Fifo.tally q'.history).accepted = (Fifo.tally w.queue.history).accepted)
    (hoffered : q'.producer.isSome → (Fifo.tally q'.history).offered = [message]) :
    Matched n a₀ { w with queue := q', producer := .enqueuing message } := by
  have hitems : [] ++ s'.items = s.items ++ [] := by
    refine items_eq hrep hrep' hreach hreach' ?_ (haccepted.trans (List.append_nil _).symm)
    rw [hreceived, hsame, List.append_nil]
  rw [List.append_nil, List.nil_append] at hitems
  have hready := ready_items hinv hshows
  obtain ⟨hstorage, hproducer, hconsumer, hacc, hdequeued⟩ := hshows
  rw [hp] at hproducer
  refine ⟨s', v', actions, a, hreach.trans hreach', hrep', hrun, ?_, ⟨hoffered, hproducer.2⟩,
    hconsumer.kept hrep hrep' hreach' hsame hreturns hready, hacc, ?_⟩
  · rw [hstorage, hitems]
  · rw [hdequeued, inHand_kept hsame]

/-- The step of the producer that enqueues. -/
theorem enqueued_matched {q' : QueueThreads.World Bytes} {s' : Fifo.State Bytes} {v' : View Bytes}
    {actions : List Accounting.Action} {message : Bytes} (hinv : Accounting.World.Invariant a)
    (hreach : Fifo.Reaches n Fifo.start s) (hrep : Represents n w.queue s v)
    (hrun : a₀.run actions = some a) (hshows : Shows w s a)
    (hreach' : Fifo.Reaches n s s') (hrep' : Represents n q' s' v')
    (hp : w.producer = .enqueuing message) (hidle : q'.producer = none)
    (hsame : q'.consumer = w.queue.consumer)
    (hoffered : (Fifo.tally w.queue.history).offered = [message])
    (hhistory : q'.history = w.queue.history ++ [.enqueued true]) :
    Matched n a₀ { w with queue := q', producer := .enqueued message } := by
  have hitems : [] ++ s'.items = s.items ++ [message] := by
    refine items_eq hrep hrep' hreach hreach' ?_ ?_
    · rw [hhistory, Fifo.tally_append, hsame, List.append_nil]
      rfl
    · rw [hhistory, Fifo.tally_append, ← hoffered]
      rfl
  rw [List.nil_append] at hitems
  have hreturns : Fifo.returns q'.history = Fifo.returns w.queue.history := by
    rw [hhistory]
    exact Fifo.returns_append _ _
  have hready := ready_items hinv hshows
  obtain ⟨hstorage, hproducer, hconsumer, hacc, hdequeued⟩ := hshows
  rw [hp] at hproducer
  have hact : a.step (.tryEnqueue message) = some { a with
      storage := a.storage.tryEnqueue message
      producer := .enqueued message } := by
    rw [Accounting.World.step, hproducer.2]
  have hshows' : Shows { w with queue := q', producer := .enqueued message } s' { a with
      storage := a.storage.tryEnqueue message
      producer := .enqueued message } := by
    refine ⟨?_, ⟨hidle, rfl⟩, hconsumer.kept hrep hrep' hreach' hsame hreturns hready, hacc, ?_⟩
    · show a.storage.tryEnqueue message = _
      rw [hstorage, hitems]
      rfl
    · rw [hdequeued]
      exact congrArg _ (inHand_kept hsame _).symm
  exact ⟨s', v', actions ++ [.tryEnqueue message], _, hreach.trans hreach', hrep',
    run_snoc hrun hact, hshows'⟩

theorem enqueueStep_matched (ha₀ : Accounting.World.Invariant a₀) (h : Matched n a₀ w)
    {message : Bytes} (hp : w.producer = .enqueuing message)
    (hstep : w.enqueueStep message = some w') : Matched n a₀ w' := by
  obtain ⟨s, v, actions, a, hreach, hrep, hrun, hshows⟩ := h
  have hinv := Accounting.World.invariant_run ha₀ hrun
  cases hq : w.queue.producer with
  | none =>
      simp only [World.enqueueStep, hq] at hstep
      obtain ⟨q', hq', s', v', hreach', hrep'⟩ : QueueThreads.Proceeds maxBlockSize n w.queue
        (.enqueue .cannotAlloc message) s := QueueThreads.enqueue_proceeds hrep hq
      rw [hq'] at hstep
      have hnew : q' = { w.queue with
          producer := some (.entered .cannotAlloc message)
          history := w.queue.history ++ [.enqueue message] } := by
        simpa only [QueueThreads.World.step, hq, Option.some.injEq, eq_comm] using hq'
      have hmatched := enqueuing_matched hinv hreach hrep hrun hshows hreach' hrep' hp
        (by rw [hnew]) (by rw [hnew]; exact Fifo.returns_append _ _)
        (by rw [hnew, Fifo.tally_append]; rfl) (by rw [hnew, Fifo.tally_append]; rfl)
        (fun _ => by rw [hnew, Fifo.tally_append]; rfl)
      obtain rfl := Option.some.inj hstep
      rwa [← hp] at hmatched
  | some pc =>
      have hoffered : (Fifo.tally w.queue.history).offered = [message] := by
        have hproducer := hshows.producer
        rw [hp] at hproducer
        exact hproducer.1 (by rw [hq]; rfl)
      obtain ⟨q', hq', s', v', hreach', hrep'⟩ : QueueThreads.Proceeds maxBlockSize n w.queue
        (.producer false) s := QueueThreads.producer_proceeds hrep (by decide) hq
      simp only [World.enqueueStep, hq] at hstep
      cases hnext : w.queue.queue.innerEnqueue maxBlockSize false pc with
      | none => simp only [hnext, reduceCtorEq] at hstep
      | some out =>
          obtain ⟨q, next⟩ := out
          rw [hnext] at hstep
          simp only [hq'] at hstep
          obtain rfl := Option.some.inj hstep
          cases next with
          | goto pc' =>
              have hnew := Option.some.inj
                (hq'.symm.trans (QueueThreads.step_producer_goto hq hnext))
              exact enqueuing_matched hinv hreach hrep hrun hshows hreach' hrep' hp
                (by rw [hnew]) (by rw [hnew]) (by rw [hnew]) (by rw [hnew])
                (fun _ => by rw [hnew]; exact hoffered)
          | ret ok =>
              have hnew := Option.some.inj
                (hq'.symm.trans (QueueThreads.step_producer_ret hq hnext))
              cases ok with
              | false =>
                  exact enqueuing_matched hinv hreach hrep hrun hshows hreach' hrep' hp
                    (by rw [hnew]) (by rw [hnew]; exact Fifo.returns_append _ _)
                    (by rw [hnew, Fifo.tally_append]; rfl) (by rw [hnew, Fifo.tally_append]; rfl)
                    (fun hsome => by rw [hnew] at hsome; exact absurd hsome Bool.false_ne_true)
              | true =>
                  exact enqueued_matched hinv hreach hrep hrun hshows hreach' hrep' hp
                    (by rw [hnew]) (by rw [hnew]) hoffered (by rw [hnew])

end Steps

end TopicQueue

end LightQ
