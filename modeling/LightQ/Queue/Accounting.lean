/-
# `Queue.Accounting` — the counters of a queue topic, under any interleaving

A queue topic has one producer thread, in `write_to_queue`, and one consumer
thread, which tests `get_queue_size()` and takes a message.  Each counts
after the operation it counts, and `get_queue_size` loads two counters one
after the other, in an order the language leaves open.  Here every queue
operation, every load and every increment is a step of its own, and a run is
any list of them.

    producer    idle → enqueued m → counted m → idle
    consumer    idle → sizing → ready → dequeued → idle

Either thread may evaluate `get_queue_size` while it is idle.  Undisturbed, the
steps of the producer are the function `write_to_queue` of
`Storage.BrokerStorage` (`run_writeToQueue`) and those of the consumer are
`get_message_from_queue` (`run_getMessageFromQueue`), which is what makes a run
of steps a statement about the code.

`accepted` and `dequeued` are ghosts: what `write_to_queue` has counted, and what
has been taken.  `Invariant` ties them to the counters and the queue; that the
consumer is `ready` only with a counted message in front of it is what makes
the rest go through.  From it come the three facts that `queue_accounting`
states of every state: neither thread's subtraction wraps
(`Invariant.operands_le`), a positive size means that a counted message has not
been taken (`Invariant.sized`), and the queue size and the queue differ by what
each thread has done and not counted (`Invariant.size_near`).
-/
import LightQ.Lib.Runs
import LightQ.Storage.BrokerStorage

namespace LightQ

open MachineInt

namespace Accounting

/-- The two counters. -/
inductive Counter where
  | enqueued
  | dequeued
deriving DecidableEq, Repr

/-- A `get_queue_size` in progress: the counter loaded first, and its value
then. -/
structure Load where
  counter : Counter
  value : Nat
deriving DecidableEq, Repr

/-- Where the producer thread is. -/
inductive ProducerPc where
  | idle
  | sizing (load : Load)
  | enqueued (message : Bytes)
  | counted (message : Bytes)
deriving DecidableEq, Repr

/-- Where the consumer thread is. -/
inductive ConsumerPc where
  | idle
  | sizing (load : Load)
  | ready
  | dequeued
deriving DecidableEq, Repr

structure World where
  storage : BrokerStorage
  producer : ProducerPc
  consumer : ConsumerPc
  accepted : List Bytes
  dequeued : List Bytes

inductive Action where
  | producerLoad (first : Counter)
  | producerSize
  | tryEnqueue (message : Bytes)
  | countEnqueued
  | countBytes
  | consumerLoad (first : Counter)
  | consumerSize
  | tryDequeue
  | countDequeued
deriving DecidableEq, Repr

def Counter.value (s : BrokerStorage) : Counter → Nat
  | .enqueued => s.totalEnqueuedMessages
  | .dequeued => s.totalDequeuedMessages

/-- The operands of the subtraction, once the second counter is loaded. -/
def Load.operands (s : BrokerStorage) (l : Load) : Nat × Nat :=
  match l.counter with
  | .enqueued => (l.value, s.totalDequeuedMessages)
  | .dequeued => (s.totalEnqueuedMessages, l.value)

/-- The value of `get_queue_size`, once the second counter is loaded. -/
def Load.size (s : BrokerStorage) (l : Load) : Nat := subU64 (l.operands s).1 (l.operands s).2

namespace World

def start (outputDirectory id : Bytes) : World :=
  ⟨(BrokerStorage.init .queue outputDirectory id).2, .idle, .idle, [], []⟩

/-- One step of one thread; `none` when the thread is elsewhere. -/
def step (w : World) : Action → Option World
  | .producerLoad first =>
      match w.producer with
      | .idle => some { w with producer := .sizing ⟨first, first.value w.storage⟩ }
      | _ => none
  | .producerSize =>
      match w.producer with
      | .sizing _ => some { w with producer := .idle }
      | _ => none
  | .tryEnqueue message =>
      match w.producer with
      | .idle =>
          some { w with storage := w.storage.tryEnqueue message, producer := .enqueued message }
      | _ => none
  | .countEnqueued =>
      match w.producer with
      | .enqueued message =>
          some { w with
            storage := w.storage.countEnqueued
            producer := .counted message
            accepted := w.accepted ++ [message] }
      | _ => none
  | .countBytes =>
      match w.producer with
      | .counted message =>
          some { w with storage := w.storage.countBytes message, producer := .idle }
      | _ => none
  | .consumerLoad first =>
      match w.consumer with
      | .idle => some { w with consumer := .sizing ⟨first, first.value w.storage⟩ }
      | _ => none
  | .consumerSize =>
      match w.consumer with
      | .sizing l => some { w with consumer := if l.size w.storage ≤ 0 then .idle else .ready }
      | _ => none
  | .tryDequeue =>
      match w.consumer with
      | .ready =>
          match w.storage.tryDequeue with
          | some (message, storage) =>
              some { w with
                storage := storage
                consumer := .dequeued
                dequeued := w.dequeued ++ [message] }
          | none => some { w with consumer := .idle }
      | _ => none
  | .countDequeued =>
      match w.consumer with
      | .dequeued => some { w with storage := w.storage.countDequeued, consumer := .idle }
      | _ => none

def run (w : World) (actions : List Action) : Option World := actions.foldlM step w

theorem run_writeToQueue {w : World} (hp : w.producer = .idle) (message : Bytes) :
    w.run [.tryEnqueue message, .countEnqueued, .countBytes] =
      some { w with
        storage := w.storage.writeToQueue message
        accepted := w.accepted ++ [message] } := by
  simp [run, step, hp, BrokerStorage.writeToQueue]

theorem run_getMessageFromQueue {w : World} (hc : w.consumer = .ready) {message : Bytes}
    {rest : List Bytes} (hq : w.storage.pQueue = message :: rest) :
    w.run [.tryDequeue, .countDequeued] =
      some { w with
        storage := w.storage.getMessageFromQueue.2.2
        consumer := .idle
        dequeued := w.dequeued ++ [message] } := by
  simp [run, step, hc, BrokerStorage.tryDequeue, BrokerStorage.getMessageFromQueue, hq]

/-- What the producer has put into the queue and not counted. -/
def uncounted : ProducerPc → List Bytes
  | .enqueued message => [message]
  | _ => []

/-- Whether the consumer has taken a message and not counted it. -/
def pending : ConsumerPc → Nat
  | .dequeued => 1
  | _ => 0

/-- What a load of the producer is good for: it alone counts enqueued
messages. -/
def ProducerLoad (s : BrokerStorage) (l : Load) : Prop :=
  match l.counter with
  | .enqueued => l.value = s.totalEnqueuedMessages
  | .dequeued => l.value ≤ s.totalDequeuedMessages

/-- What a load of the consumer is good for: it alone counts dequeued
messages. -/
def ConsumerLoad (s : BrokerStorage) (l : Load) : Prop :=
  match l.counter with
  | .enqueued => s.totalDequeuedMessages ≤ l.value ∧ l.value ≤ s.totalEnqueuedMessages
  | .dequeued => l.value = s.totalDequeuedMessages

structure Invariant (w : World) : Prop where
  fifo : w.dequeued ++ w.storage.pQueue = w.accepted ++ uncounted w.producer
  enqueued_eq : w.storage.totalEnqueuedMessages = w.accepted.length
  dequeued_eq : w.storage.totalDequeuedMessages + pending w.consumer = w.dequeued.length
  taken : w.dequeued.length ≤ w.accepted.length
  ready : w.consumer = .ready → w.dequeued.length < w.accepted.length
  producer_load : ∀ l, w.producer = .sizing l → ProducerLoad w.storage l
  consumer_load : ∀ l, w.consumer = .sizing l → ConsumerLoad w.storage l

theorem invariant_start (outputDirectory id : Bytes) : Invariant (start outputDirectory id) where
  fifo := rfl
  enqueued_eq := rfl
  dequeued_eq := rfl
  taken := Nat.le_refl 0
  ready := nofun
  producer_load := nofun
  consumer_load := nofun

section Steps

variable {w w' : World}

theorem Invariant.counters_le (h : Invariant w) :
    w.storage.totalDequeuedMessages ≤ w.storage.totalEnqueuedMessages := by
  have hdeq := h.dequeued_eq
  have htaken := h.taken
  rw [h.enqueued_eq]
  omega

/-- Neither thread's subtraction wraps. -/
theorem Invariant.operands_le (h : Invariant w) {l : Load}
    (hl : w.producer = .sizing l ∨ w.consumer = .sizing l) :
    (l.operands w.storage).2 ≤ (l.operands w.storage).1 := by
  have hle := h.counters_le
  obtain ⟨counter, value⟩ := l
  rcases hl with hp | hc
  · have hload := h.producer_load _ hp
    cases counter with
    | enqueued =>
        obtain rfl : value = w.storage.totalEnqueuedMessages := hload
        exact hle
    | dequeued => exact Nat.le_trans hload hle
  · have hload := h.consumer_load _ hc
    cases counter with
    | enqueued => exact hload.1
    | dequeued =>
        obtain rfl : value = w.storage.totalDequeuedMessages := hload
        exact hle

/-- A positive size means that a counted message has not been taken. -/
theorem Invariant.sized (h : Invariant w) {l : Load} (hc : w.consumer = .sizing l)
    (hsize : ¬ l.size w.storage ≤ 0) : w.dequeued.length < w.accepted.length := by
  have hwrap := h.operands_le (Or.inr hc)
  have hload := h.consumer_load _ hc
  have hdeq := h.dequeued_eq
  rw [hc] at hdeq
  rw [Load.size, subU64_of_le hwrap] at hsize
  rw [← h.enqueued_eq, ← hdeq]
  show w.storage.totalDequeuedMessages < _
  obtain ⟨counter, value⟩ := l
  cases counter with
  | enqueued =>
      obtain ⟨-, hle⟩ := hload
      have hpos : ¬ value - w.storage.totalDequeuedMessages ≤ 0 := hsize
      have hle' : value ≤ w.storage.totalEnqueuedMessages := hle
      omega
  | dequeued =>
      obtain rfl : value = w.storage.totalDequeuedMessages := hload
      have hpos : ¬ w.storage.totalEnqueuedMessages - w.storage.totalDequeuedMessages ≤ 0 := hsize
      omega

/-- What one step can do. -/
inductive Step (w : World) : World → Prop where
  | producerLoad (first : Counter) : w.producer = .idle →
      Step w { w with producer := .sizing ⟨first, first.value w.storage⟩ }
  | producerSize (l : Load) : w.producer = .sizing l → Step w { w with producer := .idle }
  | tryEnqueue (message : Bytes) : w.producer = .idle →
      Step w { w with storage := w.storage.tryEnqueue message, producer := .enqueued message }
  | countEnqueued (message : Bytes) : w.producer = .enqueued message →
      Step w { w with
        storage := w.storage.countEnqueued
        producer := .counted message
        accepted := w.accepted ++ [message] }
  | countBytes (message : Bytes) : w.producer = .counted message →
      Step w { w with storage := w.storage.countBytes message, producer := .idle }
  | consumerLoad (first : Counter) : w.consumer = .idle →
      Step w { w with consumer := .sizing ⟨first, first.value w.storage⟩ }
  | empty (l : Load) : w.consumer = .sizing l → l.size w.storage ≤ 0 →
      Step w { w with consumer := .idle }
  | ready (l : Load) : w.consumer = .sizing l → ¬ l.size w.storage ≤ 0 →
      Step w { w with consumer := .ready }
  | tryDequeue (message : Bytes) (rest : List Bytes) : w.consumer = .ready →
      w.storage.pQueue = message :: rest →
      Step w { w with
        storage := { w.storage with pQueue := rest }
        consumer := .dequeued
        dequeued := w.dequeued ++ [message] }
  | noMessage : w.consumer = .ready → w.storage.pQueue = [] → Step w { w with consumer := .idle }
  | countDequeued : w.consumer = .dequeued →
      Step w { w with storage := w.storage.countDequeued, consumer := .idle }

theorem step_cases {action : Action} (h : w.step action = some w') : Step w w' := by
  cases action with
  | producerLoad first =>
      cases hp : w.producer <;> simp only [step, hp, reduceCtorEq, Option.some.injEq] at h
      exact h ▸ .producerLoad first hp
  | producerSize =>
      cases hp : w.producer <;> simp only [step, hp, reduceCtorEq, Option.some.injEq] at h
      exact h ▸ .producerSize _ hp
  | tryEnqueue message =>
      cases hp : w.producer <;> simp only [step, hp, reduceCtorEq, Option.some.injEq] at h
      exact h ▸ .tryEnqueue message hp
  | countEnqueued =>
      cases hp : w.producer <;> simp only [step, hp, reduceCtorEq, Option.some.injEq] at h
      exact h ▸ .countEnqueued _ hp
  | countBytes =>
      cases hp : w.producer <;> simp only [step, hp, reduceCtorEq, Option.some.injEq] at h
      exact h ▸ .countBytes _ hp
  | consumerLoad first =>
      cases hc : w.consumer <;> simp only [step, hc, reduceCtorEq, Option.some.injEq] at h
      exact h ▸ .consumerLoad first hc
  | consumerSize =>
      cases hc : w.consumer <;> simp only [step, hc, reduceCtorEq, Option.some.injEq] at h
      rename_i l
      by_cases hsize : l.size w.storage ≤ 0
      · rw [if_pos hsize] at h
        exact h ▸ .empty l hc hsize
      · rw [if_neg hsize] at h
        exact h ▸ .ready l hc hsize
  | tryDequeue =>
      cases hc : w.consumer <;> simp only [step, hc, reduceCtorEq] at h
      cases hq : w.storage.pQueue with
      | nil =>
          simp only [BrokerStorage.tryDequeue, hq, Option.some.injEq] at h
          exact h ▸ .noMessage hc hq
      | cons message rest =>
          simp only [BrokerStorage.tryDequeue, hq, Option.some.injEq] at h
          exact h ▸ .tryDequeue message rest hc hq
  | countDequeued =>
      cases hc : w.consumer <;> simp only [step, hc, reduceCtorEq, Option.some.injEq] at h
      exact h ▸ .countDequeued hc

theorem Invariant.step (h : Invariant w) (hstep : Step w w') : Invariant w' := by
  have hle := h.counters_le
  obtain ⟨hfifo, henq, hdeq, htaken, hready, hpload, hcload⟩ := h
  cases hstep with
  | producerLoad first hp =>
      refine ⟨by simpa [hp, uncounted] using hfifo, henq, hdeq, htaken, hready, ?_, hcload⟩
      intro l hl
      obtain rfl := ProducerPc.sizing.inj hl
      cases first with
      | enqueued => exact rfl
      | dequeued => exact Nat.le_refl _
  | producerSize l hp =>
      exact ⟨by simpa [hp, uncounted] using hfifo, henq, hdeq, htaken, hready, nofun, hcload⟩
  | tryEnqueue message hp =>
      refine ⟨?_, henq, hdeq, htaken, hready, nofun, hcload⟩
      have hqueue : w.dequeued ++ w.storage.pQueue = w.accepted := by
        simpa [hp, uncounted] using hfifo
      show w.dequeued ++ (w.storage.pQueue ++ [message]) = w.accepted ++ [message]
      rw [← List.append_assoc, hqueue]
  | countEnqueued message hp =>
      refine ⟨?_, ?_, hdeq, ?_, ?_, nofun, ?_⟩
      · show w.dequeued ++ w.storage.pQueue = _
        simpa [hp, uncounted] using hfifo
      · show w.storage.totalEnqueuedMessages + 1 = _
        rw [henq, List.length_append, List.length_singleton]
      · rw [List.length_append]
        exact Nat.le_trans htaken (Nat.le_add_right _ _)
      · intro hc
        rw [List.length_append]
        exact Nat.lt_of_lt_of_le (hready hc) (Nat.le_add_right _ _)
      · intro l hl
        have hload := hcload l hl
        obtain ⟨counter, value⟩ := l
        cases counter with
        | enqueued => exact ⟨hload.1, Nat.le_succ_of_le hload.2⟩
        | dequeued => exact hload
  | countBytes message hp =>
      refine ⟨?_, henq, hdeq, htaken, hready, nofun, hcload⟩
      show w.dequeued ++ w.storage.pQueue = _
      simpa [hp, uncounted] using hfifo
  | consumerLoad first hc =>
      rw [hc] at hdeq
      refine ⟨hfifo, henq, hdeq, htaken, nofun, hpload, ?_⟩
      intro l hl
      obtain rfl := ConsumerPc.sizing.inj hl
      cases first with
      | enqueued => exact ⟨hle, Nat.le_refl _⟩
      | dequeued => exact rfl
  | empty l hc hsize =>
      rw [hc] at hdeq
      exact ⟨hfifo, henq, hdeq, htaken, nofun, hpload, nofun⟩
  | ready l hc hsize =>
      have hlt := Invariant.sized ⟨hfifo, henq, hdeq, htaken, hready, hpload, hcload⟩ hc hsize
      rw [hc] at hdeq
      exact ⟨hfifo, henq, hdeq, htaken, fun _ => hlt, hpload, nofun⟩
  | tryDequeue message rest hc hq =>
      have hlt := hready hc
      rw [hc] at hdeq
      rw [hq] at hfifo
      refine ⟨?_, henq, ?_, ?_, nofun, hpload, nofun⟩
      · show w.dequeued ++ [message] ++ rest = _
        rw [← hfifo, List.append_assoc]
        rfl
      · show w.storage.totalDequeuedMessages + 1 = (w.dequeued ++ [message]).length
        rw [List.length_append, ← hdeq]
        rfl
      · rw [List.length_append]
        exact hlt
  | noMessage hc hq =>
      rw [hc] at hdeq
      exact ⟨hfifo, henq, hdeq, htaken, nofun, hpload, nofun⟩
  | countDequeued hc =>
      rw [hc] at hdeq
      refine ⟨hfifo, henq, hdeq, htaken, nofun, ?_, nofun⟩
      intro l hl
      have hload := hpload l hl
      obtain ⟨counter, value⟩ := l
      cases counter with
      | enqueued => exact hload
      | dequeued => exact Nat.le_succ_of_le hload

theorem invariant_run {actions : List Action} (h : Invariant w)
    (hrun : w.run actions = some w') : Invariant w' :=
  Runs.run_invariant (P := fun _ _ => True) (fun hinv _ hstep => hinv.step (step_cases hstep)) h
    (Runs.along_of_forall fun _ _ => trivial) hrun

theorem Invariant.size_near (h : Invariant w) :
    w.storage.getQueueSize ≤ w.storage.pQueue.length + 1 ∧
      w.storage.pQueue.length ≤ w.storage.getQueueSize + 1 := by
  have hlen := congrArg List.length h.fifo
  rw [List.length_append, List.length_append] at hlen
  have huncounted : (uncounted w.producer).length ≤ 1 := by
    cases w.producer <;> simp [uncounted]
  have hpending : pending w.consumer ≤ 1 := by
    cases w.consumer <;> simp [pending]
  have hdeq := h.dequeued_eq
  have hle := h.counters_le
  rw [BrokerStorage.getQueueSize, subU64_of_le hle, h.enqueued_eq]
  rw [h.enqueued_eq] at hle
  omega

theorem Invariant.in_order (h : Invariant w) : w.dequeued <+: w.accepted :=
  List.prefix_of_prefix_length_le (h.fifo ▸ List.prefix_append _ _) (List.prefix_append _ _) h.taken

end Steps

/-- The accounting of a queue topic, in every state that any interleaving of
the two threads reaches. -/
theorem queue_accounting {outputDirectory id : Bytes} {actions : List Action} {w : World}
    (hrun : (start outputDirectory id).run actions = some w) :
    w.storage.totalDequeuedMessages ≤ w.storage.totalEnqueuedMessages ∧
      (∀ l, w.producer = .sizing l ∨ w.consumer = .sizing l →
        (l.operands w.storage).2 ≤ (l.operands w.storage).1) ∧
      (w.storage.getQueueSize ≤ w.storage.pQueue.length + 1 ∧
        w.storage.pQueue.length ≤ w.storage.getQueueSize + 1) ∧
      w.dequeued <+: w.accepted := by
  have hinv := invariant_run (invariant_start outputDirectory id) hrun
  exact ⟨hinv.counters_le, fun l hl => hinv.operands_le hl, hinv.size_near, hinv.in_order⟩

/-- A message is enqueued, the consumer sees it once it is counted, and takes
it. -/
theorem queue_accounting_taken :
    ∃ w, (start (ascii "/tmp") (ascii "t")).run
        [.tryEnqueue (ascii "a"), .consumerLoad .dequeued, .countEnqueued, .consumerSize,
          .tryDequeue] = some w ∧
      w.storage.totalDequeuedMessages ≤ w.storage.totalEnqueuedMessages ∧
      (∀ l, w.producer = .sizing l ∨ w.consumer = .sizing l →
        (l.operands w.storage).2 ≤ (l.operands w.storage).1) ∧
      (w.storage.getQueueSize ≤ w.storage.pQueue.length + 1 ∧
        w.storage.pQueue.length ≤ w.storage.getQueueSize + 1) ∧
      w.dequeued <+: w.accepted := by
  obtain ⟨w, hw⟩ := Option.isSome_iff_exists.mp (show ((start (ascii "/tmp") (ascii "t")).run
    [.tryEnqueue (ascii "a"), .consumerLoad .dequeued, .countEnqueued, .consumerSize,
      .tryDequeue]).isSome by decide)
  exact ⟨w, hw, queue_accounting hw⟩

end World

end Accounting

end LightQ
