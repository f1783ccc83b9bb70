/-
# `Queue.Draining` — a queue topic works off what it has received

`process_consumers` waits for as long as `get_queue_size()` is 0, which is a
difference of two counters and not the length of the queue.  A topic works off
what it has received all the same: `drained_exactly_iff` says that from every
state of every run, enough steps of the producer thread and then enough of the
consumer thread empty the producer socket and the queue, whatever other steps
of the two come between them, and says when all of it has been written.

The counters are behind the queue in the same way at all times (`Counted`), so
that what `get_queue_size` makes of them is the length of the queue less what a
thread has still to count (`Counted.getQueueSize`).

The rest is two potentials, one for each thread, and `Runs.potential_le`.  The
producer thread gets on if there is room (`producerWork_step`), and with enough
steps reads all that has arrived (`Looping.drains`).  The consumer thread gets on
or has nothing to do (`consumerWork_step`): a message takes a fixed number of
steps through the loop, of which the test of a socket, the write and what follows
are the turn of that socket (`rank_turn`, `consumerWork_lt`), and how much it can
have to do is bounded by what has been received (`Looping.consumerWork_le`).  A
step of a thread is always possible, if only to wait (`run_threads`), so that a
run can be continued by as many as are needed (`Drained.empties`).
-/
import LightQ.Queue.Forwarding

namespace LightQ

open MachineInt Runs

namespace Forwarding

open ProcessConsumers (Socket Event Pc)

/-- A message that is enqueued and not counted. -/
def ProducerPc.uncounted : ProducerPc → Nat
  | .counting _ => 1
  | _ => 0

/-- A message that is taken and not counted. -/
def uncountedTaken : Pc → Nat
  | .counting _ => 1
  | _ => 0

/-- Each counter is behind by what its thread has not counted; what is in the
queue and not counted is never in front, and the thread takes a message only if
there is a counted one. -/
structure Counted (w : World) : Prop where
  enqueued : w.storage.totalEnqueuedMessages + w.producer.uncounted =
    (taken w.trace).length + w.storage.pQueue.length
  dequeued : w.storage.totalDequeuedMessages + uncountedTaken w.pc = (taken w.trace).length
  front : w.producer.uncounted ≤ w.storage.pQueue.length
  ready : w.pc = .taking → w.producer.uncounted < w.storage.pQueue.length

theorem counted_start (outputDirectory id : Bytes) (sockets : Socket → Bool) :
    Counted (World.start outputDirectory id sockets) where
  enqueued := rfl
  dequeued := rfl
  front := Nat.le_refl _
  ready := fun h => by cases h

section Steps

variable {w w' : World}

theorem Counted.getQueueSize (h : Counted w) (hpc : uncountedTaken w.pc = 0) :
    w.storage.getQueueSize = w.storage.pQueue.length - w.producer.uncounted := by
  have henqueued := h.enqueued
  have hdequeued := h.dequeued
  have hfront := h.front
  rw [BrokerStorage.getQueueSize, subU64_of_le (by omega)]
  omega

theorem Counted.quiet (h : Counted w)
    (henqueued : w'.storage.totalEnqueuedMessages = w.storage.totalEnqueuedMessages)
    (hdequeued : w'.storage.totalDequeuedMessages = w.storage.totalDequeuedMessages)
    (hqueue : w'.storage.pQueue = w.storage.pQueue)
    (hproducer : w'.producer.uncounted = w.producer.uncounted)
    (htaken : (taken w'.trace).length = (taken w.trace).length)
    (hpc : uncountedTaken w'.pc = uncountedTaken w.pc)
    (hready : w'.pc = .taking → w.producer.uncounted < w.storage.pQueue.length) : Counted w' where
  enqueued := by rw [henqueued, hproducer, htaken, hqueue, h.enqueued]
  dequeued := by rw [hdequeued, hpc, htaken, h.dequeued]
  front := by rw [hproducer, hqueue]; exact h.front
  ready := by rw [hproducer, hqueue]; exact hready

theorem Counted.producerStep (h : Counted w) (room : Bool) : Counted (w.producerStep room) := by
  have henqueued := h.enqueued
  have hready := h.ready
  rw [World.producerStep]
  cases hp : w.producer with
  | reading =>
      cases hi : w.inbox with
      | nil => exact h
      | cons message rest =>
          refine h.quiet rfl rfl rfl ?_ rfl rfl h.ready
          dsimp only
          rw [hp]
          split
          · rfl
          · rfl
  | enqueuing message =>
      rw [hp] at henqueued hready
      cases room with
      | false => exact h
      | true =>
          have hlength : (w.storage.pQueue ++ [message]).length = w.storage.pQueue.length + 1 :=
            List.length_append
          have htaken : taken (w.trace ++ [.enqueued message]) = taken w.trace :=
            (taken_snoc _ _).trans (List.append_nil _)
          refine ⟨?_, ?_, ?_, fun hpc => ?_⟩
          · show w.storage.totalEnqueuedMessages + 1 =
              (taken (w.trace ++ [.enqueued message])).length +
                (w.storage.pQueue ++ [message]).length
            rw [htaken, hlength, ← Nat.add_assoc, ← henqueued]
            rfl
          · show w.storage.totalDequeuedMessages + uncountedTaken w.pc =
              (taken (w.trace ++ [.enqueued message])).length
            rw [htaken, h.dequeued]
          · show 1 ≤ (w.storage.pQueue ++ [message]).length
            rw [hlength]
            exact Nat.le_add_left _ _
          · show 1 < (w.storage.pQueue ++ [message]).length
            rw [hlength]
            exact Nat.add_lt_add_right (hready hpc) 1
  | counting message =>
      rw [hp] at henqueued hready
      refine ⟨?_, h.dequeued, Nat.zero_le _, fun hpc => (Nat.zero_le _).trans_lt (hready hpc)⟩
      show w.storage.totalEnqueuedMessages + 1 + 0 = _
      exact henqueued
  | adding message =>
      rw [hp] at hready
      refine h.quiet rfl rfl rfl ?_ rfl rfl fun hpc => ?_
      · rw [hp]
        rfl
      · rw [hp]
        exact hready hpc
  | returned => exact h

theorem Counted.consumerStep (h : Counted w) (writeSucceeds : Bool) :
    Counted { w with toWorld := w.consumerStep writeSucceeds } := by
  have hdequeued := h.dequeued
  rw [ProcessConsumers.World.consumerStep]
  cases hpc : w.pc with
  | waiting =>
      dsimp only
      split
      · exact h
      · next hsize =>
          refine h.quiet rfl rfl rfl rfl rfl (by rw [hpc]; rfl) fun _ => ?_
          have hvalue := h.getQueueSize (by rw [hpc]; rfl)
          omega
  | taking =>
      have hcounted := h.ready hpc
      rw [hpc] at hdequeued
      dsimp only
      cases htake : w.storage.tryDequeue with
      | none => exact h.quiet rfl rfl rfl rfl rfl (by rw [hpc]; rfl) fun hnext => by cases hnext
      | some r =>
          obtain ⟨message, storage⟩ := r
          obtain ⟨rest, hqueue, rfl⟩ := BrokerStorage.tryDequeue_some htake
          have henqueued := h.enqueued
          have htaken : (taken (w.trace ++ [.removed message])).length =
              (taken w.trace).length + 1 := by
            rw [taken_snoc, List.length_append]
            rfl
          rw [hqueue, List.length_cons] at hcounted henqueued
          refine ⟨?_, ?_, ?_, fun hnext => by cases hnext⟩
          · show w.storage.totalEnqueuedMessages + w.producer.uncounted =
              (taken (w.trace ++ [.removed message])).length + rest.length
            omega
          · show w.storage.totalDequeuedMessages + 1 =
              (taken (w.trace ++ [.removed message])).length
            rw [htaken, ← hdequeued]
            rfl
          · exact Nat.le_of_lt_succ hcounted
  | counting message =>
      rw [hpc] at hdequeued
      dsimp only
      have hnext : ∀ b : Prop, [Decidable b] → uncountedTaken
          (if b then .testing .push message else .ending) = 0 := by
        intro b _
        split
        · rfl
        · rfl
      refine ⟨h.enqueued, ?_, h.front, fun htaking => ?_⟩
      · rw [hnext]
        exact hdequeued
      · exfalso
        split at htaking
        · cases htaking
        · cases htaking
  | testing current message =>
      dsimp only
      split
      · exact h.quiet rfl rfl rfl rfl rfl (by rw [hpc]; rfl) fun hnext => by cases hnext
      · refine h.quiet rfl rfl rfl rfl rfl ?_ fun hnext => ?_
        · rw [hpc]
          cases current <;> rfl
        · cases current <;> cases hnext
  | writing current message =>
      dsimp only
      refine h.quiet rfl rfl rfl rfl ?_ ?_ fun hnext => ?_
      · rw [taken_snoc]
        exact congrArg List.length (List.append_nil (taken w.trace))
      · rw [hpc]
        cases current <;> rfl
      · cases current <;> cases hnext
  | ending =>
      dsimp only
      refine h.quiet rfl rfl rfl rfl ?_ (by rw [hpc]; rfl) fun hnext => by cases hnext
      rw [taken_snoc]
      exact congrArg List.length (List.append_nil (taken w.trace))

theorem Counted.step (h : Counted w) {action : Action} (hstep : w.step action = some w') :
    Counted w' := by
  cases action with
  | connect other =>
      obtain rfl := Option.some.inj hstep
      refine h.quiet rfl rfl rfl rfl ?_ rfl h.ready
      exact congrArg List.length ((taken_snoc _ _).trans (List.append_nil (taken w.trace)))
  | disconnect other =>
      obtain rfl := Option.some.inj hstep
      refine h.quiet rfl rfl rfl rfl ?_ rfl h.ready
      exact congrArg List.length ((taken_snoc _ _).trans (List.append_nil (taken w.trace)))
  | receive message =>
      obtain rfl := Option.some.inj hstep
      exact ⟨h.enqueued, h.dequeued, h.front, h.ready⟩
  | readFails =>
      obtain ⟨hreading, hw⟩ := Option.ite_none_right_eq_some.mp hstep
      obtain rfl := Option.some.inj hw
      refine h.quiet rfl rfl rfl ?_ rfl rfl h.ready
      rw [hreading]
      rfl
  | producer room =>
      obtain rfl := Option.some.inj hstep
      exact h.producerStep room
  | consumer writeSucceeds =>
      obtain rfl := Option.some.inj hstep
      exact h.consumerStep writeSucceeds

/-! ## What is left to do -/

/-- The steps from here to the next `read_msg`, if there is room. -/
def ProducerPc.rank : ProducerPc → Nat
  | .enqueuing _ => 3
  | .counting _ => 2
  | .adding _ => 1
  | _ => 0

/-- The steps that the producer thread has to take. -/
def producerWork (w : World) : Nat := 4 * w.inbox.length + w.producer.rank

/-- The steps from here to the next look at the queue. -/
def rank : Pc → Nat
  | .taking => 0
  | .waiting => 1
  | .ending => 2
  | .writing .pub _ => 3
  | .testing .pub _ => 4
  | .writing .push _ => 5
  | .testing .push _ => 6
  | .counting _ => 7

/-- The steps that the consumer thread has to take before it can do nothing but
wait. -/
def consumerWork (w : World) : Nat := 8 * w.storage.pQueue.length + rank w.pc - 1

/-- A step of one of the threads. -/
def Action.OfThreads : Action → Prop
  | .producer _ | .consumer _ => True
  | _ => False

/-- A step of the producer thread that finds room. -/
def Action.stores : Action → Bool
  | .producer room => room
  | _ => false

/-- A step of the consumer thread. -/
def Action.consumes : Action → Bool
  | .consumer _ => true
  | _ => false

theorem run_threads (w : World) {actions : List Action} (h : ∀ a ∈ actions, a.OfThreads) :
    ∃ w', run World.step w actions = some w' := by
  induction actions generalizing w with
  | nil => exact ⟨w, rfl⟩
  | cons action actions ih =>
      have hnext : ∃ w₁, w.step action = some w₁ := by
        cases action with
        | producer room => exact ⟨_, rfl⟩
        | consumer writeSucceeds => exact ⟨_, rfl⟩
        | connect other => exact (h _ List.mem_cons_self).elim
        | disconnect other => exact (h _ List.mem_cons_self).elim
        | receive message => exact (h _ List.mem_cons_self).elim
        | readFails => exact (h _ List.mem_cons_self).elim
      obtain ⟨w₁, hstep⟩ := hnext
      obtain ⟨w', hrun⟩ := ih w₁ fun a ha => h a (List.mem_cons_of_mem _ ha)
      exact ⟨w', (run_cons_of_some hstep).trans hrun⟩

/-- The producer thread gets on if there is room. -/
theorem producerWork_step (hlooping : w.producer ≠ .returned) (room : Bool) :
    (w.producerStep room).producer ≠ .returned ∧ (w.producerStep room).received = w.received ∧
      producerWork (w.producerStep room) ≤ producerWork w ∧
      (room = true → 0 < producerWork w →
        producerWork (w.producerStep room) < producerWork w) := by
  rw [World.producerStep, producerWork, producerWork]
  cases hp : w.producer with
  | reading =>
      cases hi : w.inbox with
      | nil => simp [hp, hi, ProducerPc.rank]
      | cons message rest =>
          dsimp only
          rw [List.length_cons]
          split
          · simp only [ProducerPc.rank]
            exact ⟨by simp, trivial, by omega, fun _ _ => by omega⟩
          · simp only [ProducerPc.rank]
            exact ⟨by simp, trivial, by omega, fun _ _ => by omega⟩
  | enqueuing message =>
      cases room with
      | false => exact ⟨hlooping, rfl, by simp [hp], fun hroom => by cases hroom⟩
      | true => simp [ProducerPc.rank]
  | counting message => simp [ProducerPc.rank]
  | adding message => simp [ProducerPc.rank]
  | returned => exact absurd hp hlooping

theorem consumerWork_lt (hqueue : w'.storage.pQueue = w.storage.pQueue)
    (hrank : rank w'.pc < rank w.pc) (hleft : 1 < 8 * w.storage.pQueue.length + rank w.pc) :
    consumerWork w' < consumerWork w := by
  rw [consumerWork, consumerWork, hqueue]
  omega

theorem rank_turn (current : Socket) (message : Bytes) :
    rank (ProcessConsumers.World.after message current) < rank (.writing current message) ∧
      rank (.writing current message) < rank (.testing current message) ∧
      1 < rank (.writing current message) := by
  cases current with
  | push => simp [rank, ProcessConsumers.World.after]
  | pub => simp [rank, ProcessConsumers.World.after]

/-- The consumer thread gets on, or has nothing to do. -/
theorem consumerWork_step (h : Counted w) (hp : w.producer = .reading) (writeSucceeds : Bool) :
    consumerWork { w with toWorld := w.consumerStep writeSucceeds } < consumerWork w ∨
      (consumerWork w = 0 ∧
        consumerWork { w with toWorld := w.consumerStep writeSucceeds } = 0) := by
  have hlater : ∀ n, 1 < n → 1 < 8 * w.storage.pQueue.length + n :=
    fun n hn => hn.trans_le (Nat.le_add_left n _)
  rw [ProcessConsumers.World.consumerStep]
  cases hpc : w.pc with
  | waiting =>
      have hvalue := h.getQueueSize (by rw [hpc]; rfl)
      rw [hp] at hvalue
      change w.storage.getQueueSize = w.storage.pQueue.length at hvalue
      dsimp only
      split
      · next hsize =>
          have hwork : consumerWork w = 0 := by
            rw [consumerWork, hpc, ← hvalue, Nat.le_zero.mp hsize]
            rfl
          exact Or.inr ⟨hwork, hwork⟩
      · next hsize =>
          refine Or.inl (consumerWork_lt rfl ?_ ?_)
          · rw [hpc]
            exact Nat.zero_lt_one
          · rw [hpc, rank]
            omega
  | taking =>
      have hready := h.ready hpc
      dsimp only
      cases htake : w.storage.tryDequeue with
      | none =>
          rw [BrokerStorage.tryDequeue] at htake
          split at htake
          · next hempty =>
              rw [hempty] at hready
              exact absurd hready (Nat.not_lt_zero _)
          · cases htake
      | some r =>
          obtain ⟨message, storage⟩ := r
          obtain ⟨rest, hqueue, rfl⟩ := BrokerStorage.tryDequeue_some htake
          refine Or.inl ?_
          rw [consumerWork, consumerWork, hqueue, hpc, List.length_cons, rank, rank]
          dsimp only
          omega
  | counting message =>
      refine Or.inl (consumerWork_lt rfl ?_ ?_)
      · rw [hpc]
        dsimp only
        split
        · exact (by decide : 6 < 7)
        · exact (by decide : 2 < 7)
      · rw [hpc]
        exact hlater 7 (by decide)
  | testing current message =>
      obtain ⟨hafter, hwriting, hmore⟩ := rank_turn current message
      have hleft := hlater _ (hmore.trans hwriting)
      rw [← hpc] at hwriting hleft
      dsimp only
      split
      · exact Or.inl (consumerWork_lt rfl hwriting hleft)
      · exact Or.inl (consumerWork_lt rfl (hafter.trans hwriting) hleft)
  | writing current message =>
      obtain ⟨hafter, -, hmore⟩ := rank_turn current message
      have hleft := hlater _ hmore
      rw [← hpc] at hafter hleft
      exact Or.inl (consumerWork_lt rfl hafter hleft)
  | ending =>
      refine Or.inl (consumerWork_lt rfl ?_ ?_)
      · rw [hpc]
        exact Nat.lt_succ_self _
      · rw [hpc]
        exact hlater 2 (by decide)

/-! ## Both threads -/

theorem threads_cases {a : Action} (ha : a.OfThreads) (hstep : w.step a = some w') :
    (∃ room, a = .producer room ∧ w' = w.producerStep room) ∨
      ∃ writeSucceeds, a = .consumer writeSucceeds ∧
        w' = { w with toWorld := w.consumerStep writeSucceeds } := by
  cases a with
  | producer room => exact Or.inl ⟨room, rfl, (Option.some.inj hstep).symm⟩
  | consumer writeSucceeds => exact Or.inr ⟨writeSucceeds, rfl, (Option.some.inj hstep).symm⟩
  | connect other => exact ha.elim
  | disconnect other => exact ha.elim
  | receive message => exact ha.elim
  | readFails => exact ha.elim

/-- No read has failed, and nothing more has been received. -/
structure Looping (received : List Bytes) (w : World) : Prop where
  invariant : Invariant w
  counted : Counted w
  producer : w.producer ≠ .returned
  received : w.received = received

theorem Looping.step {received : List Bytes} {a : Action} (h : Looping received w)
    (ha : a.OfThreads) (hstep : w.step a = some w') : Looping received w' := by
  have hinv := (h.invariant.step .push hstep).1
  have hcounted := h.counted.step hstep
  rcases threads_cases ha hstep with ⟨room, rfl, rfl⟩ | ⟨writeSucceeds, rfl, rfl⟩
  · obtain ⟨hproducer, hreceived, -⟩ := producerWork_step h.producer room
    exact ⟨hinv, hcounted, hproducer, hreceived.trans h.received⟩
  · exact ⟨hinv, hcounted, h.producer, h.received⟩

/-- The producer thread waits in `read_msg`. -/
structure Drained (received : List Bytes) (w : World) : Prop extends Looping received w where
  reading : w.producer = .reading
  inbox : w.inbox = []

theorem Drained.producerStep {received : List Bytes} (h : Drained received w) (room : Bool) :
    w.producerStep room = w := by
  simp only [World.producerStep, h.reading, h.inbox]

theorem Drained.step {received : List Bytes} {a : Action} (h : Drained received w)
    (ha : a.OfThreads) (hstep : w.step a = some w') : Drained received w' := by
  have hlooping := h.toLooping.step ha hstep
  rcases threads_cases ha hstep with ⟨room, rfl, rfl⟩ | ⟨writeSucceeds, rfl, rfl⟩
  · rw [h.producerStep]
    exact h
  · exact ⟨hlooping, h.reading, h.inbox⟩

variable {received : List Bytes} {actions : List Action}

/-- With enough steps the producer thread reads all that has arrived. -/
theorem Looping.drains (h : Looping received w) (hthreads : ∀ a ∈ actions, a.OfThreads)
    (henough : producerWork w ≤ actions.countP Action.stores)
    (hrun : run World.step w actions = some w') : Drained received w' := by
  have hend : Looping received w' := run_invariant (P := fun _ a => a.OfThreads)
    (fun hI ha hstep => hI.step ha hstep) h (along_of_forall hthreads) hrun
  have hwork : producerWork w' ≤ producerWork w - actions.countP Action.stores := by
    refine potential_le (I := Looping received) (fun hI ha hstep => hI.step ha hstep)
      (fun hI ha hstep => ?_) (fun hI ha hstep hK hpos => ?_) h hthreads hrun
    · rcases threads_cases ha hstep with ⟨room, rfl, rfl⟩ | ⟨writeSucceeds, rfl, rfl⟩
      · exact (producerWork_step hI.producer room).2.2.1
      · exact Nat.le_refl _
    · rcases threads_cases ha hstep with ⟨room, rfl, rfl⟩ | ⟨writeSucceeds, rfl, rfl⟩
      · exact (producerWork_step hI.producer room).2.2.2 hK hpos
      · cases hK
  have hzero : 4 * w'.inbox.length + w'.producer.rank = 0 :=
    Nat.le_zero.mp (hwork.trans_eq (Nat.sub_eq_zero_of_le henough))
  refine ⟨hend, ?_, List.length_eq_zero_iff.mp (by omega)⟩
  have hrank : w'.producer.rank = 0 := by omega
  have hproducer := hend.producer
  cases hp : w'.producer with
  | reading => rfl
  | enqueuing message => rw [hp] at hrank; cases hrank
  | counting message => rw [hp] at hrank; cases hrank
  | adding message => rw [hp] at hrank; cases hrank
  | returned => exact absurd hp hproducer

theorem Drained.empties (h : Drained received w) (hthreads : ∀ a ∈ actions, a.OfThreads)
    (henough : consumerWork w ≤ actions.countP Action.consumes)
    (hrun : run World.step w actions = some w') :
    Drained received w' ∧ w'.pc = .waiting ∧ w'.storage.pQueue = [] := by
  have hend : Drained received w' := run_invariant (P := fun _ a => a.OfThreads)
    (fun hI ha hstep => hI.step ha hstep) h (along_of_forall hthreads) hrun
  have hcases : ∀ {v v' : World} {a : Action}, Drained received v → a.OfThreads →
      v.step a = some v' → (a.consumes = false ∧ v' = v) ∨
        (consumerWork v' < consumerWork v ∨ (consumerWork v = 0 ∧ consumerWork v' = 0)) := by
    intro v v' a hI ha hstep
    rcases threads_cases ha hstep with ⟨room, rfl, rfl⟩ | ⟨writeSucceeds, rfl, rfl⟩
    · exact Or.inl ⟨rfl, hI.producerStep room⟩
    · exact Or.inr (consumerWork_step hI.counted hI.reading writeSucceeds)
  have hwork : consumerWork w' ≤ consumerWork w - actions.countP Action.consumes := by
    refine potential_le (I := Drained received) (fun hI ha hstep => hI.step ha hstep)
      (fun hI ha hstep => ?_) (fun hI ha hstep hK hpos => ?_) h hthreads hrun
    · rcases hcases hI ha hstep with ⟨-, rfl⟩ | hlt | ⟨-, hzero⟩
      · exact Nat.le_refl _
      · exact hlt.le
      · exact hzero ▸ Nat.zero_le _
    · rcases hcases hI ha hstep with ⟨hno, -⟩ | hlt | ⟨hzero, -⟩
      · rw [hno] at hK
        cases hK
      · exact hlt
      · exact absurd hzero hpos.ne'
  have hzero : 8 * w'.storage.pQueue.length + rank w'.pc - 1 = 0 :=
    Nat.le_zero.mp (hwork.trans_eq (Nat.sub_eq_zero_of_le henough))
  have hempty : w'.storage.pQueue = [] := List.length_eq_zero_iff.mp (by omega)
  refine ⟨hend, ?_, hempty⟩
  have hrank : rank w'.pc ≤ 1 := by omega
  cases hpc : w'.pc with
  | waiting => rfl
  | taking =>
      have hready := hend.counted.ready hpc
      rw [hempty] at hready
      exact absurd hready (Nat.not_lt_zero _)
  | counting message => rw [hpc, rank] at hrank; omega
  | testing current message =>
      obtain ⟨-, hwriting, hmore⟩ := rank_turn current message
      rw [hpc] at hrank
      omega
  | writing current message =>
      obtain ⟨-, -, hmore⟩ := rank_turn current message
      rw [hpc] at hrank
      omega
  | ending => rw [hpc, rank] at hrank; omega

theorem Looping.consumerWork_le (h : Looping received w) :
    consumerWork w ≤ 8 * received.length + 6 := by
  have hqueue : w.storage.pQueue.length ≤ received.length := by
    have hflow := congrArg List.length h.invariant.flow
    simp only [List.length_append] at hflow
    have hle : (nonempty w.received).length ≤ w.received.length := List.length_filter_le _ _
    rw [h.received] at hflow hle
    omega
  have hrank : rank w.pc ≤ 7 := by
    cases hpc : w.pc with
    | testing current message => cases current <;> simp [rank]
    | writing current message => cases current <;> simp [rank]
    | _ => simp [rank]
  rw [consumerWork]
  omega

end Steps

/-- From every state of every run in which no read has failed: enough steps of
the producer thread, and then enough of the consumer thread, with any other
steps of the two between them, leave nothing at the producer socket and nothing
in the queue.  A socket has then been written all that was received, empty
messages apart, exactly once and in order, exactly if every step served it. -/
theorem drained_exactly_iff (outputDirectory id : Bytes) (sockets : Socket → Bool)
    {actions first second : List Action} {w : World}
    (hrun : run World.step (World.start outputDirectory id sockets) actions = some w)
    (hlooping : w.producer ≠ .returned) (hthreads : ∀ a ∈ first ++ second, a.OfThreads)
    (hfirst : 4 * w.inbox.length + 3 ≤ first.countP Action.stores)
    (hsecond : 8 * w.received.length + 6 ≤ second.countP Action.consumes) :
    ∃ w', run World.step (World.start outputDirectory id sockets) (actions ++ (first ++ second))
        = some w' ∧
      w'.inbox = [] ∧ w'.storage.pQueue = [] ∧ w'.pc = .waiting ∧ w'.received = w.received ∧
      ∀ socket, (sentOn socket w'.trace = nonempty w.received ↔
        Along World.step (Serving socket) (World.start outputDirectory id sockets)
          (actions ++ (first ++ second))) := by
  obtain ⟨hinv, -⟩ := run_complete_iff outputDirectory id sockets .push hrun
  have hcounted : Counted w := run_invariant (fun h _ hstep => h.step hstep)
    (counted_start outputDirectory id sockets) (along_of_forall (P := fun _ => True)
      fun _ _ => trivial) hrun
  have hloop : Looping w.received w := ⟨hinv, hcounted, hlooping, rfl⟩
  obtain ⟨hthreads₁, hthreads₂⟩ := List.forall_mem_append.mp hthreads
  obtain ⟨w₁, hrun₁⟩ := run_threads w hthreads₁
  obtain ⟨w', hrun₂⟩ := run_threads w₁ hthreads₂
  have hrank : w.producer.rank ≤ 3 := by
    cases w.producer <;> simp [ProducerPc.rank]
  have hdrained : Drained w.received w₁ :=
    hloop.drains hthreads₁ (Nat.le_trans (Nat.add_le_add_left hrank _) hfirst) hrun₁
  obtain ⟨hend, hpc, hempty⟩ :=
    hdrained.empties hthreads₂ (hdrained.consumerWork_le.trans hsecond) hrun₂
  have hwhole : run World.step (World.start outputDirectory id sockets)
      (actions ++ (first ++ second)) = some w' := by
    rw [run_append_of_some hrun, run_append_of_some hrun₁, hrun₂]
  refine ⟨w', hwhole, hend.inbox, hempty, hpc, hend.received, fun socket => ?_⟩
  obtain ⟨hinv', hcomplete⟩ := run_complete_iff outputDirectory id sockets socket hwhole
  rw [← hcomplete, hinv'.complete_iff, World.onTheWay, hpc, hempty, hend.reading, hend.inbox,
    hend.received]
  exact iff_of_eq (congrArg (· = nonempty w.received) (List.append_nil _).symm)

/-- The rest of `handing`, with other steps between. -/
def restFirst : List Action := .consumer true :: List.replicate 3 (.producer true)

def restSecond : List Action := List.replicate 30 (.consumer true) ++ [.producer false]

theorem drained_exactly_handing :
    ∃ w w', run World.step (World.start (ascii "/tmp") (ascii "t") fun _ => true) handing = some w ∧
      run World.step (World.start (ascii "/tmp") (ascii "t") fun _ => true)
          (handing ++ (restFirst ++ restSecond)) = some w' ∧
      w'.inbox = [] ∧ w'.storage.pQueue = [] ∧ w'.pc = .waiting ∧ w'.received = w.received ∧
      ∀ socket, (sentOn socket w'.trace = nonempty w.received ↔
        Along World.step (Serving socket) (World.start (ascii "/tmp") (ascii "t") fun _ => true)
          (handing ++ (restFirst ++ restSecond))) := by
  have hsome : (run World.step (World.start (ascii "/tmp") (ascii "t") fun _ => true)
      handing).isSome := by decide
  obtain ⟨w, hw⟩ := Option.isSome_iff_exists.mp hsome
  have hplaces : (run World.step (World.start (ascii "/tmp") (ascii "t") fun _ => true)
      handing).map (fun w => (w.producer, w.inbox, w.received)) =
        some (.adding (ascii "b"), [], [ascii "a", [], ascii "b"]) := by decide
  rw [hw] at hplaces
  obtain ⟨hproducer, hplaces⟩ := Prod.mk.inj (Option.some.inj hplaces)
  obtain ⟨hinbox, hreceived⟩ := Prod.mk.inj hplaces
  have hthreads : ∀ a ∈ restFirst ++ restSecond, a.OfThreads := by
    intro a ha
    simp only [restFirst, restSecond, List.mem_append, List.mem_cons, List.mem_replicate,
      List.not_mem_nil, or_false] at ha
    rcases ha with (rfl | ⟨-, rfl⟩) | ⟨-, rfl⟩ | rfl <;> trivial
  obtain ⟨w', hrest⟩ := drained_exactly_iff (ascii "/tmp") (ascii "t") (fun _ => true) hw
    (by rw [hproducer]; decide) hthreads (by rw [hinbox]; decide) (by rw [hreceived]; decide)
  exact ⟨w, w', hw, hrest⟩

end Forwarding

end LightQ
