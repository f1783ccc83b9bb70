/-
# `Queue.TopicQueueRuns` — every run of a queue topic on its real queue

The steps of a dequeue, and then whole runs.  A run is one of the topic on a
list (`runs_on_list`), the consumer never comes back without a message
(`never_empty_handed`), and the two sizes of the queue agree (`sizes_agree`).

A dequeue that is sure of its message is still to take it, or has
(`calling_or_done`), and so when it returns it returns the message
(`ret_cases`, `returns_message`): an empty-handed return would mean that the queue
was empty at an instant of the call, and it was not.  A step that does not return
is matched by nothing or by the dequeue of the list (`dequeuing_matched`), and one
that returns by what follows it (`dequeued_matched`).

Together with `Queue.TopicQueue` that is a simulation, by which `queue_accounting`
and all that is said of a topic on a list is true of the topic as it runs.
-/
import LightQ.Queue.TopicQueue

namespace LightQ

open MachineInt

namespace TopicQueue

open QueueThreads (Represents heldAt)

section Steps

variable {n : Nat} {a₀ a : Accounting.World} {w w' : World} {s : Fifo.State Bytes} {v : View Bytes}

/-! ## The steps of a dequeue -/

theorem ProducerShown.kept {q q' : QueueThreads.World Bytes} {p : ProducerPc}
    {pc : Accounting.ProducerPc} (h : ProducerShown p q pc) (hsame : q'.producer = q.producer)
    (hoffered : (Fifo.tally q'.history).offered = (Fifo.tally q.history).offered) :
    ProducerShown p q' pc := by
  cases p with
  | idle => exact ⟨hsame.trans h.1, h.2⟩
  | sizing l => exact ⟨hsame.trans h.1, h.2⟩
  | enqueuing message => exact ⟨fun hsome => hoffered.trans (h.1 (hsame ▸ hsome)), h.2⟩
  | enqueued message => exact ⟨hsame.trans h.1, h.2⟩
  | counted message => exact ⟨hsame.trans h.1, h.2⟩

theorem calling_or_done {q : QueueThreads.World Bytes} {pc : DequeuePc Bytes}
    (hrep : Represents n q s v) (hpc : q.consumer = some pc) (hsure : s.Sure) :
    s.consumer = .calling false ∨ ∃ x, s.consumer = .done x := by
  rcases hsure with ⟨hidle | hcalling, -⟩ | hdone
  · exact absurd hidle (hrep.calling_of_some hpc)
  · exact Or.inl hcalling
  · exact Or.inr hdone

theorem writeToQueue_matched (h : Matched n a₀ w) (hp : w.producer = .idle) (message : Bytes) :
    Matched n a₀ { w with producer := .enqueuing message } := by
  obtain ⟨s, v, actions, a, hreach, hrep, hrun, hstorage, hproducer, hconsumer, hacc, hdequeued⟩ := h
  rw [hp] at hproducer
  refine ⟨s, v, actions, a, hreach, hrep, hrun, hstorage, ⟨?_, hproducer.2⟩, hconsumer, hacc,
    hdequeued⟩
  intro hsome
  rw [show w.queue.producer = none from hproducer.1] at hsome
  exact absurd hsome nofun

theorem getMessageFromQueue_matched (ha₀ : Accounting.World.Invariant a₀) (h : Matched n a₀ w)
    (hc : w.consumer = .ready) {q' : QueueThreads.World Bytes}
    (hstep : w.queue.step maxBlockSize .dequeue = some q') :
    Matched n a₀ { w with queue := q', consumer := .dequeuing } := by
  obtain ⟨s, v, actions, a, hreach, hrep, hrun, hshows⟩ := h
  have hinv := Accounting.World.invariant_run ha₀ hrun
  have hready := ready_items hinv hshows
  obtain ⟨hstorage, hproducer, hconsumer, hacc, hdequeued⟩ := hshows
  rw [hc] at hconsumer hdequeued
  obtain ⟨hnone, hpc⟩ := hconsumer
  have hidle := hrep.consumer
  rw [hnone] at hidle
  obtain ⟨q'', hq'', s', v', hreach', hrep'⟩ : QueueThreads.Proceeds maxBlockSize n w.queue
    .dequeue s := QueueThreads.dequeue_proceeds hrep hnone
  obtain rfl := Option.some.inj (hstep.symm.trans hq'')
  have hnew : q' = { w.queue with
      consumer := some .entered
      history := w.queue.history ++ [.dequeue] } := by
    simpa only [QueueThreads.World.step, hnone, Option.some.injEq, eq_comm] using hstep
  have hentered : q'.consumer = some .entered := by rw [hnew]
  have hsure : s'.Sure := by
    refine hreach'.sure (Or.inl ⟨Or.inl hidle, hready hpc⟩) ?_
    rw [hrep'.history, hrep.history, hnew]
    exact Fifo.returns_append _ _
  have hcalling : s'.consumer = .calling false := by
    rcases calling_or_done hrep' hentered hsure with hcalling | ⟨x, hdone⟩
    · exact hcalling
    · have hheld := hrep'.held_eq
      rw [hdone, hentered] at hheld
      exact absurd hheld (List.cons_ne_nil x [])
  have hitems : [] ++ s'.items = s.items ++ [] := by
    refine items_eq hrep hrep' hreach hreach' ?_ ?_
    · rw [hnew, Fifo.tally_append, hnone]
      exact (List.append_nil _).symm
    · rw [hnew, Fifo.tally_append]
      exact (List.append_nil _).symm
  rw [List.append_nil, List.nil_append] at hitems
  refine ⟨s', v', actions, a, hreach.trans hreach', hrep', hrun, ?_, hproducer.kept ?_ ?_,
    ⟨by rw [hentered]; rfl, Or.inl ⟨hcalling, hpc⟩⟩, hacc, ?_⟩
  · rw [hstorage, hitems]
  · rw [hnew]
  · rw [hnew, Fifo.tally_append]
    rfl
  · rw [hdequeued, inHand, hentered]
    rfl

theorem ret_cases {q q' : ReaderWriterQueue Bytes} {pc : DequeuePc Bytes} {r : Option Bytes}
    (h : q.tryDequeue pc = some (q', .ret r)) :
    (∃ f, pc = .drained f ∧ f = q.tailBlock ∧ r = none) ∨
      ∃ x f b, pc = .moved x f b ∧ r = some x := by
  cases pc with
  | entered => simp [ReaderWriterQueue.tryDequeue] at h
  | atFront frontBlock_ =>
      simp only [ReaderWriterQueue.tryDequeue] at h
      split at h <;> simp at h
  | rereadTail frontBlock_ blockFront =>
      simp only [ReaderWriterQueue.tryDequeue] at h
      split at h <;> simp at h
  | nonEmptyFrontBlock frontBlock_ blockFront =>
      simp only [ReaderWriterQueue.tryDequeue] at h
      split at h <;> simp at h
  | moved result frontBlock_ blockFront =>
      simp only [ReaderWriterQueue.tryDequeue, Option.some.injEq, Prod.mk.injEq,
        Next.ret.injEq] at h
      exact Or.inr ⟨_, _, _, rfl, h.2.symm⟩
  | drained frontBlock_ =>
      simp only [ReaderWriterQueue.tryDequeue] at h
      split at h
      · simp at h
      · rename_i hsame
        simp only [Option.some.injEq, Prod.mk.injEq, Next.ret.injEq] at h
        exact Or.inl ⟨_, rfl, not_not.mp hsame, h.2.symm⟩
  | reread =>
      simp only [ReaderWriterQueue.tryDequeue] at h
      split at h <;> simp at h
  | leaving frontBlock_ => simp [ReaderWriterQueue.tryDequeue] at h
  | nextBlock nextBlock =>
      simp only [ReaderWriterQueue.tryDequeue] at h
      split at h <;> simp at h
  | advancing nextBlock nextBlockFront => simp [ReaderWriterQueue.tryDequeue] at h

theorem moved_of_held {pc : DequeuePc Bytes} {x : Bytes} (h : heldAt (some pc) = [x]) :
    ∃ f b, pc = .moved x f b := by
  cases pc with
  | moved result frontBlock_ blockFront =>
      obtain rfl : result = x := (List.cons.inj h).1
      exact ⟨_, _, rfl⟩
  | _ => exact absurd h nofun

/-- A dequeue that is sure of its message returns it. -/
theorem returns_message {q' : ReaderWriterQueue Bytes} {c : Accounting.ConsumerPc}
    {pc : DequeuePc Bytes} {r : Option Bytes} (hrep : Represents n w.queue s v)
    (hconsumer : ConsumerShown .dequeuing w.queue s c) (hpc : w.queue.consumer = some pc)
    (hnext : w.queue.queue.tryDequeue pc = some (q', .ret r)) :
    ∃ message f b, pc = .moved message f b ∧ r = some message := by
  rcases ret_cases hnext with ⟨f, rfl, htail, rfl⟩ | hmoved
  · have hat := hrep.consumer
    rw [hpc] at hat
    have hempty := hat.2.1 htail
    obtain ⟨-, ⟨hcalling, -⟩ | ⟨x, hdone, -⟩⟩ := hconsumer
    · exact absurd (hcalling.symm.trans hempty) nofun
    · exact absurd (hdone.symm.trans hempty) nofun
  · obtain ⟨message, f, b, hpc', hr⟩ := hmoved
    exact ⟨message, f, b, hpc', hr⟩

theorem dequeuing_matched {q' : QueueThreads.World Bytes} {s' : Fifo.State Bytes}
    {v' : View Bytes} {actions : List Accounting.Action} {pc pc' : DequeuePc Bytes}
    (hinv : Accounting.World.Invariant a) (hreach : Fifo.Reaches n Fifo.start s)
    (hrep : Represents n w.queue s v) (hrun : a₀.run actions = some a) (hshows : Shows w s a)
    (hreach' : Fifo.Reaches n s s') (hrep' : Represents n q' s' v')
    (hc : w.consumer = .dequeuing) (hpc : w.queue.consumer = some pc)
    (hnotmoved : ∀ x f b, pc ≠ .moved x f b) (hpc' : q'.consumer = some pc')
    (hproducer' : q'.producer = w.queue.producer) (hhistory : q'.history = w.queue.history) :
    Matched n a₀ { w with queue := q', consumer := .dequeuing } := by
  have hready := ready_items hinv hshows
  obtain ⟨hstorage, hproducer, hconsumer, hacc, hdequeued⟩ := hshows
  rw [hc] at hconsumer hdequeued
  have hproducer'' := hproducer.kept hproducer' (by rw [hhistory])
  obtain ⟨-, ⟨hcalling, ha⟩ | ⟨x, hdone, -⟩⟩ := hconsumer
  · have hnothing : heldAt w.queue.consumer = [] := by
      rw [← hrep.held_eq, hcalling]
      rfl
    have hsome : q'.consumer.isSome := by rw [hpc']; rfl
    have hsure : s'.Sure := by
      refine hreach'.sure (Or.inl ⟨Or.inr hcalling, hready ha⟩) ?_
      rw [hrep'.history, hrep.history, hhistory]
    have hitems : heldAt q'.consumer ++ s'.items = s.items ++ [] := by
      refine items_eq hrep hrep' hreach hreach' ?_ ?_
      · rw [hhistory, hnothing, List.append_nil]
      · rw [hhistory, List.append_nil]
    rw [List.append_nil] at hitems
    rw [inHand, hnothing, List.append_nil] at hdequeued
    rcases calling_or_done hrep' hpc' hsure with hstill | ⟨x, hdone⟩
    · have hnothing' : heldAt q'.consumer = [] := by
        rw [← hrep'.held_eq, hstill]
        rfl
      rw [hnothing', List.nil_append] at hitems
      refine ⟨s', v', actions, a, hreach.trans hreach', hrep', hrun, ?_, hproducer'',
        ⟨hsome, Or.inl ⟨hstill, ha⟩⟩, hacc, ?_⟩
      · rw [hstorage, hitems]
      · rw [hdequeued, inHand, hnothing', List.append_nil]
    · -- here the message is taken
      have hheld : heldAt q'.consumer = [x] := by
        rw [← hrep'.held_eq, hdone]
        rfl
      rw [hheld] at hitems
      have hact : a.step .tryDequeue = some { a with
          storage := { a.storage with pQueue := s'.items }
          consumer := .dequeued
          dequeued := a.dequeued ++ [x] } := by
        rw [Accounting.World.step, ha, hstorage, ← hitems]
        rfl
      have hrun' := run_snoc hrun hact
      refine ⟨s', v', _, _, hreach.trans hreach', hrep', hrun', ?_, hproducer'',
        ⟨hsome, Or.inr ⟨x, hdone, rfl⟩⟩, hacc, ?_⟩
      · rw [hstorage]
      · rw [hdequeued, inHand, hheld]
  · have hheld : heldAt (some pc) = [x] := by
      rw [← hpc, ← hrep.held_eq, hdone]
      rfl
    obtain ⟨f, b, hmoved⟩ := moved_of_held hheld
    exact absurd hmoved (hnotmoved x f b)

theorem dequeued_matched {q' : QueueThreads.World Bytes} {s' : Fifo.State Bytes}
    {v' : View Bytes} {actions : List Accounting.Action} {message : Bytes} {f b : Nat}
    (hreach : Fifo.Reaches n Fifo.start s) (hrep : Represents n w.queue s v)
    (hrun : a₀.run actions = some a) (hshows : Shows w s a) (hreach' : Fifo.Reaches n s s')
    (hrep' : Represents n q' s' v') (hc : w.consumer = .dequeuing)
    (hpc : w.queue.consumer = some (.moved message f b)) (hnone : q'.consumer = none)
    (hproducer' : q'.producer = w.queue.producer)
    (hhistory : q'.history = w.queue.history ++ [.dequeued (some message)]) :
    Matched n a₀ { w with queue := q', consumer := .dequeued message } := by
  obtain ⟨hstorage, hproducer, hconsumer, hacc, hdequeued⟩ := hshows
  rw [hc] at hconsumer hdequeued
  have hdone : s.consumer = .done message := by
    refine done_of_held ?_
    rw [hrep.held_eq, hpc]
    rfl
  have hitems : [] ++ s'.items = s.items ++ [] := by
    refine items_eq hrep hrep' hreach hreach' ?_ ?_
    · rw [hhistory, Fifo.tally_append, hnone, hpc]
      rfl
    · rw [hhistory, Fifo.tally_append]
      exact (List.append_nil _).symm
  rw [List.append_nil, List.nil_append] at hitems
  have hpc' : a.consumer = .dequeued := by
    obtain ⟨-, ⟨hcalling, -⟩ | ⟨x, -, ha⟩⟩ := hconsumer
    · exact absurd (hdone.symm.trans hcalling) nofun
    · exact ha
  refine ⟨s', v', actions, a, hreach.trans hreach', hrep', hrun, ?_, hproducer.kept hproducer' ?_,
    ⟨hnone, hpc'⟩, hacc, ?_⟩
  · rw [hstorage, hitems]
  · rw [hhistory, Fifo.tally_append]
    rfl
  · rw [hdequeued, inHand, hpc]
    rfl

theorem dequeueStep_matched (ha₀ : Accounting.World.Invariant a₀) (h : Matched n a₀ w)
    (hc : w.consumer = .dequeuing) (hstep : w.dequeueStep = some w') : Matched n a₀ w' := by
  obtain ⟨s, v, actions, a, hreach, hrep, hrun, hshows⟩ := h
  have hinv := Accounting.World.invariant_run ha₀ hrun
  cases hpc : w.queue.consumer with
  | none => simp only [World.dequeueStep, hpc, reduceCtorEq] at hstep
  | some pc =>
      obtain ⟨q', hq', s', v', hreach', hrep'⟩ : QueueThreads.Proceeds maxBlockSize n w.queue
        .consumer s := QueueThreads.consumer_proceeds hrep hpc
      simp only [World.dequeueStep, hpc] at hstep
      cases hnext : w.queue.queue.tryDequeue pc with
      | none => simp only [hnext, reduceCtorEq] at hstep
      | some out =>
          obtain ⟨q, next⟩ := out
          rw [hnext] at hstep
          simp only [hq'] at hstep
          obtain rfl := Option.some.inj hstep
          cases next with
          | goto pc' =>
              have hnew := Option.some.inj
                (hq'.symm.trans (QueueThreads.step_consumer_goto hpc hnext))
              refine dequeuing_matched hinv hreach hrep hrun hshows hreach' hrep' hc hpc ?_
                (show q'.consumer = some pc' by rw [hnew]) (by rw [hnew]) (by rw [hnew])
              rintro x f b rfl
              simp [ReaderWriterQueue.tryDequeue] at hnext
          | ret r =>
              have hnew := Option.some.inj
                (hq'.symm.trans (QueueThreads.step_consumer_ret hpc hnext))
              have hconsumer := hshows.consumer
              rw [hc] at hconsumer
              obtain ⟨message, f, b, rfl, rfl⟩ := returns_message hrep hconsumer hpc hnext
              exact dequeued_matched hreach hrep hrun hshows hreach' hrep' hc hpc
                (by rw [hnew]) (by rw [hnew]) (by rw [hnew])

/-! ## Every run -/

theorem Matched.step {action : Action} (h : Matched n a₀ w)
    (ha₀ : Accounting.World.Invariant a₀) (hstep : w.step action = some w') : Matched n a₀ w' := by
  cases action with
  | producerLoad first =>
      cases hp : w.producer <;> simp only [World.step, hp, reduceCtorEq, Option.some.injEq] at hstep
      exact hstep ▸ producerLoad_matched h hp first
  | producerSize =>
      cases hp : w.producer <;> simp only [World.step, hp, reduceCtorEq, Option.some.injEq] at hstep
      exact hstep ▸ producerSize_matched h hp
  | writeToQueue message =>
      cases hp : w.producer <;> simp only [World.step, hp, reduceCtorEq, Option.some.injEq] at hstep
      exact hstep ▸ writeToQueue_matched h hp message
  | producer =>
      cases hp : w.producer <;> simp only [World.step, hp, reduceCtorEq] at hstep
      exact enqueueStep_matched ha₀ h hp hstep
  | countEnqueued =>
      cases hp : w.producer <;> simp only [World.step, hp, reduceCtorEq, Option.some.injEq] at hstep
      exact hstep ▸ countEnqueued_matched h hp
  | countBytes =>
      cases hp : w.producer <;> simp only [World.step, hp, reduceCtorEq, Option.some.injEq] at hstep
      exact hstep ▸ countBytes_matched h hp
  | consumerLoad first =>
      cases hc : w.consumer <;> simp only [World.step, hc, reduceCtorEq, Option.some.injEq] at hstep
      exact hstep ▸ consumerLoad_matched h hc first
  | consumerSize =>
      cases hc : w.consumer <;> simp only [World.step, hc, reduceCtorEq, Option.some.injEq] at hstep
      exact hstep ▸ consumerSize_matched h hc
  | getMessageFromQueue =>
      cases hc : w.consumer <;> simp only [World.step, hc, reduceCtorEq, Option.map_eq_some_iff]
        at hstep
      obtain ⟨q', hq', rfl⟩ := hstep
      exact getMessageFromQueue_matched ha₀ h hc hq'
  | consumer =>
      cases hc : w.consumer <;> simp only [World.step, hc, reduceCtorEq] at hstep
      exact dequeueStep_matched ha₀ h hc hstep
  | countDequeued =>
      cases hc : w.consumer <;> simp only [World.step, hc, reduceCtorEq, Option.some.injEq] at hstep
      exact hstep ▸ countDequeued_matched h hc

end Steps

namespace World

variable {outputDirectory id : Bytes} {n : Nat} {actions : List Action} {w : World}

theorem matched_run (hs : QueueSizes maxBlockSize n)
    (hrun : (start outputDirectory id n).run actions = some w) :
    Matched n (Accounting.World.start outputDirectory id) w := by
  obtain ⟨v, hrep⟩ := QueueThreads.represents_start (α := Bytes) hs
  have hinv := Accounting.World.invariant_start outputDirectory id
  have hshows : Shows (start outputDirectory id n) Fifo.start
      (Accounting.World.start outputDirectory id) := ⟨rfl, ⟨rfl, rfl⟩, ⟨rfl, rfl⟩, rfl, rfl⟩
  have hstart : Matched n (Accounting.World.start outputDirectory id)
      (start outputDirectory id n) :=
    ⟨Fifo.start, v, [], _, Relation.ReflTransGen.refl, hrep, rfl, hshows⟩
  exact Runs.run_invariant (P := fun _ _ => True) (fun h _ hstep => h.step hinv hstep) hstart
    (Runs.along_of_forall fun _ _ => trivial) hrun

/-- Every run of the topic on its queue is one of the topic on a list: the
counters are the same, and so is what has been counted in and taken out. -/
theorem runs_on_list (hs : QueueSizes maxBlockSize n)
    (hrun : (start outputDirectory id n).run actions = some w) :
    ∃ actions' a, (Accounting.World.start outputDirectory id).run actions' = some a ∧
      a.storage = { w.storage with pQueue := a.storage.pQueue } ∧ a.accepted = w.accepted ∧
      a.dequeued = w.delivered ++ inHand w.consumer w.queue := by
  obtain ⟨s, v, actions', a, -, -, hrun', hshows⟩ := matched_run hs hrun
  refine ⟨actions', a, hrun', ?_, hshows.accepted, hshows.dequeued⟩
  rw [hshows.storage]

/-- A message is stored, and is not counted in full. -/
def storing : List Action :=
  [.writeToQueue (ascii "a"), .producer, .producer, .producer, .producer, .producer,
    .countEnqueued]

/-- The consumer sees it, and is taking it. -/
def taking : List Action :=
  storing ++ [.consumerLoad .enqueued, .consumerSize, .getMessageFromQueue, .consumer]

theorem queueSizes_one : QueueSizes maxBlockSize 1 :=
  ⟨⟨8, rfl⟩, by decide, Nat.one_pos, by decide⟩

theorem runs_on_list_taking :
    ∃ w, (start (ascii "/tmp") (ascii "t") 1).run taking = some w ∧
      ∃ actions' a, (Accounting.World.start (ascii "/tmp") (ascii "t")).run actions' = some a ∧
        a.storage = { w.storage with pQueue := a.storage.pQueue } ∧ a.accepted = w.accepted ∧
        a.dequeued = w.delivered ++ inHand w.consumer w.queue := by
  obtain ⟨w, hw⟩ := Option.isSome_iff_exists.mp
    (show ((start (ascii "/tmp") (ascii "t") 1).run taking).isSome by decide)
  exact ⟨w, hw, runs_on_list queueSizes_one hw⟩

/-- A call of `get_message_from_queue` that began on a positive queue size
goes on until it returns a message, whatever the producer does meanwhile. -/
theorem never_empty_handed (hs : QueueSizes maxBlockSize n)
    (hrun : (start outputDirectory id n).run actions = some w) (hc : w.consumer = .dequeuing) :
    ∃ w', w.step .consumer = some w' ∧
      (w'.consumer = .dequeuing ∨ ∃ message, w'.consumer = .dequeued message) := by
  obtain ⟨s, v, actions', a, hreach, hrep, hrun', hshows⟩ := matched_run hs hrun
  have hconsumer := hshows.consumer
  rw [hc] at hconsumer
  obtain ⟨pc, hpc⟩ := Option.isSome_iff_exists.mp hconsumer.1
  obtain ⟨q', hq', -⟩ : QueueThreads.Proceeds maxBlockSize n w.queue .consumer s :=
    QueueThreads.consumer_proceeds hrep hpc
  have hstep : w.step .consumer = w.dequeueStep := by simp only [step, hc]
  rw [hstep]
  cases hnext : w.queue.queue.tryDequeue pc with
  | none => simp only [QueueThreads.World.step, hpc, hnext, reduceCtorEq] at hq'
  | some out =>
      obtain ⟨q, next⟩ := out
      simp only [dequeueStep, hpc, hnext, hq', Option.map_some]
      cases next with
      | goto pc' => exact ⟨_, rfl, Or.inl rfl⟩
      | ret r =>
          obtain ⟨message, f, b, rfl, rfl⟩ := returns_message hrep hconsumer hpc hnext
          exact ⟨_, rfl, Or.inr ⟨message, rfl⟩⟩

theorem never_empty_handed_taking :
    ∃ w, (start (ascii "/tmp") (ascii "t") 1).run taking = some w ∧
      ∃ w', w.step .consumer = some w' ∧
        (w'.consumer = .dequeuing ∨ ∃ message, w'.consumer = .dequeued message) := by
  obtain ⟨w, hw, hc⟩ := Option.map_eq_some_iff.mp
    (show ((start (ascii "/tmp") (ascii "t") 1).run taking).map World.consumer = some .dequeuing by
      decide)
  exact ⟨w, hw, never_empty_handed queueSizes_one hw hc⟩

theorem step_brokerType {w' : World} {action : Action} (h : w.step action = some w') :
    w'.storage.brokerType = w.storage.brokerType := by
  cases action with
  | producerLoad first | producerSize | writeToQueue message | countEnqueued | countBytes =>
      cases hp : w.producer <;> simp only [step, hp, reduceCtorEq, Option.some.injEq] at h
      exact h ▸ rfl
  | consumerLoad first | consumerSize | countDequeued =>
      cases hc : w.consumer <;> simp only [step, hc, reduceCtorEq, Option.some.injEq] at h
      exact h ▸ rfl
  | getMessageFromQueue =>
      cases hc : w.consumer <;> simp only [step, hc, reduceCtorEq, Option.map_eq_some_iff] at h
      obtain ⟨q', -, rfl⟩ := h
      rfl
  | producer =>
      cases hp : w.producer <;> simp only [step, hp, reduceCtorEq] at h
      rw [enqueueStep] at h
      cases hq : w.queue.producer with
      | none =>
          simp only [hq, Option.map_eq_some_iff] at h
          obtain ⟨q', -, rfl⟩ := h
          rfl
      | some pc =>
          simp only [hq] at h
          cases hnext : w.queue.queue.innerEnqueue maxBlockSize false pc with
          | none => simp only [hnext, reduceCtorEq] at h
          | some out =>
              simp only [hnext, Option.map_eq_some_iff] at h
              obtain ⟨q', -, rfl⟩ := h
              rfl
  | consumer =>
      cases hc : w.consumer <;> simp only [step, hc, reduceCtorEq] at h
      rw [dequeueStep] at h
      cases hq : w.queue.consumer with
      | none => simp only [hq, reduceCtorEq] at h
      | some pc =>
          simp only [hq] at h
          cases hnext : w.queue.queue.tryDequeue pc with
          | none => simp only [hnext, reduceCtorEq] at h
          | some out =>
              simp only [hnext, Option.map_eq_some_iff] at h
              obtain ⟨q', -, rfl⟩ := h
              rfl

theorem brokerType_run (hrun : (start outputDirectory id n).run actions = some w) :
    w.storage.brokerType = .queue :=
  Runs.run_invariant (P := fun _ _ => True)
    (I := fun w : World => w.storage.brokerType = .queue)
    (fun h _ hstep => (step_brokerType hstep).trans h) rfl
    (Runs.along_of_forall fun _ _ => trivial) hrun

/-- Whenever no call on the queue is in progress, its approximate size is
exact, and is the queue size unless a thread has still to count. -/
theorem sizes_agree (hs : QueueSizes maxBlockSize n)
    (hrun : (start outputDirectory id n).run actions = some w) (hp : w.queue.producer = none)
    (hc : w.queue.consumer = none) :
    ∃ size, w.getQueueSizeApprox = some size ∧ w.storage.getQueueSize ≤ size + 1 ∧
      size ≤ w.storage.getQueueSize + 1 ∧
      ((∀ message, w.producer ≠ .enqueued message) → (∀ message, w.consumer ≠ .dequeued message) →
        size = w.storage.getQueueSize) := by
  obtain ⟨s, v, actions', a, hreach, hrep, hrun', hshows⟩ := matched_run hs hrun
  have hinv := Accounting.World.invariant_run
    (Accounting.World.invariant_start outputDirectory id) hrun'
  have happrox : w.getQueueSizeApprox = some s.items.length := by
    rw [getQueueSizeApprox, if_pos (brokerType_run hrun), hrep.sizeApprox hp hc, hrep.items]
  have hsize : a.storage.getQueueSize = w.storage.getQueueSize := by rw [hshows.storage]; rfl
  have hnear := hinv.size_near
  rw [hsize, hshows.storage] at hnear
  refine ⟨_, happrox, hnear.1, hnear.2, ?_⟩
  intro hcounted hcounted'
  have huncounted : Accounting.World.uncounted a.producer = [] := by
    have hproducer := hshows.producer
    cases hw : w.producer with
    | enqueued message => exact absurd hw (hcounted message)
    | _ => rw [hw] at hproducer; rw [hproducer.2]; rfl
  have hpending : Accounting.World.pending a.consumer = 0 := by
    have hconsumer := hshows.consumer
    cases hw : w.consumer with
    | dequeued message => exact absurd hw (hcounted' message)
    | dequeuing =>
        rw [hw] at hconsumer
        have hsome := hconsumer.1
        rw [hc] at hsome
        exact absurd hsome nofun
    | _ => rw [hw] at hconsumer; rw [hconsumer.2]; rfl
  have hfifo := congrArg List.length hinv.fifo
  have hdeq := hinv.dequeued_eq
  have hle := hinv.counters_le
  rw [huncounted, hshows.storage, List.append_nil, List.length_append] at hfifo
  rw [hpending, Nat.add_zero] at hdeq
  rw [← hsize, BrokerStorage.getQueueSize, subU64_of_le hle, hinv.enqueued_eq, hdeq]
  have hitems : a.dequeued.length + s.items.length = a.accepted.length := hfifo
  omega

theorem sizes_agree_storing :
    ∃ w, (start (ascii "/tmp") (ascii "t") 1).run storing = some w ∧
      ∃ size, w.getQueueSizeApprox = some size ∧ w.storage.getQueueSize ≤ size + 1 ∧
        size ≤ w.storage.getQueueSize + 1 ∧
        ((∀ message, w.producer ≠ .enqueued message) →
          (∀ message, w.consumer ≠ .dequeued message) → size = w.storage.getQueueSize) := by
  obtain ⟨w, hw, hidle⟩ := Option.map_eq_some_iff.mp
    (show ((start (ascii "/tmp") (ascii "t") 1).run storing).map
      (fun w => (w.queue.producer.isNone, w.queue.consumer.isNone)) = some (true, true) by decide)
  obtain ⟨hp, hc⟩ := Prod.mk.inj hidle
  exact ⟨w, hw, sizes_agree queueSizes_one hw (Option.isNone_iff_eq_none.mp hp)
    (Option.isNone_iff_eq_none.mp hc)⟩

end World

end TopicQueue

end LightQ
