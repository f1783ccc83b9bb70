/-
# `Queue.Stats` — what `stats` says about a queue topic

A `stats_resp` has three figures that come from the two counters of
`Queue.Accounting`.  `get_total_msg_received` and `get_total_msg_sent` pass
them through an `unsigned` (`toInt_u32`), `get_queue_size` does not; all three end
in an `int64_t`.  In a quiet topic the counters are exact (`Invariant.quiet`), and
`stats_agree_iff` says how far the figures of one can be trusted: up to 2^32
messages.

`get_queue_size` loads the counters one after the other, and the admin thread
is none of the two threads that count.  In the second half it takes its steps
between theirs; undisturbed, the two loads are `get_queue_size`, in either order
(`run_getQueueSize`).  What it has loaded first may be old when it loads the
second counter: an old number of dequeued messages does no harm, an old number of
enqueued ones does, since no step makes a counter smaller
(`World.Step.counter_le`).

A subtraction that does not wrap stays below the messages accepted
(`Invariant.size_le`), one that wraps is larger than any number of them
(`Invariant.lt_size`).  So a step reports a size that has wrapped exactly if it
fails the condition (`Invariant.bounded_iff`, below 2^63 messages), and
`reported_size_bounded` says of a run whose steps meet it, however long, that no
report has (`Invariant.bounded`).
-/
import LightQ.Queue.Accounting
import LightQ.Admin.BrokerManager

namespace LightQ

open MachineInt

namespace Accounting

namespace World

/-! ## A quiet topic -/

/-- No enqueue and no dequeue is in progress. -/
structure Quiet (w : World) : Prop where
  enqueued : ∀ message, w.producer ≠ .enqueued message
  counted : ∀ message, w.producer ≠ .counted message
  dequeued : w.consumer ≠ .dequeued

/-- The topic, as the broker manager sees it: its storage is that of the two
threads, the consumer socket apart, which a join sets. -/
def topic (w : World) (b : Broker) : Broker :=
  { b with storage := { w.storage with pConsumerSocket := b.storage.pConsumerSocket } }

/-- The figures of the reply are those of the queue. -/
structure Agrees (w : World) (resp : StatsResp) : Prop where
  received : resp.messagesReceived.toInt = w.accepted.length
  sent : resp.messagesSent.toInt = w.dequeued.length
  size : resp.queueSize.toInt = resp.messagesReceived.toInt - resp.messagesSent.toInt

theorem Quiet.pending {w : World} (h : w.Quiet) : pending w.consumer = 0 := by
  cases hc : w.consumer with
  | dequeued => exact absurd hc h.dequeued
  | _ => rfl

theorem Invariant.quiet {w : World} (h : Invariant w) (hquiet : w.Quiet) :
    w.storage.totalEnqueuedMessages = w.accepted.length ∧
      w.storage.totalDequeuedMessages = w.dequeued.length := by
  have hdeq := h.dequeued_eq
  rw [hquiet.pending] at hdeq
  exact ⟨h.enqueued_eq, hdeq⟩

theorem toInt_u32 (n : Nat) : (Int64.ofNat (u32 n)).toInt = u32 n :=
  Int64.toInt_ofNat_of_lt (Nat.lt_trans (u32_lt n) (by decide))

theorem u32_eq_iff {n : Nat} : u32 n = n ↔ n < 2 ^ 32 :=
  ⟨fun h => h ▸ u32_lt n, u32_of_lt⟩

/-- The figures, in terms of the queue. -/
theorem Invariant.agrees_iff {w : World} (h : Invariant w) (hquiet : w.Quiet) (env : AdminEnv)
    (name : Bytes) (b : Broker) :
    w.Agrees (BrokerManager.statsResp env name (w.topic b)) ↔ w.accepted.length < 2 ^ 32 := by
  obtain ⟨henq, hdeq⟩ := h.quiet hquiet
  have hreceived : (BrokerManager.statsResp env name (w.topic b)).messagesReceived.toInt =
      u32 w.accepted.length := by
    rw [← henq]
    exact toInt_u32 _
  have hsent : (BrokerManager.statsResp env name (w.topic b)).messagesSent.toInt =
      u32 w.dequeued.length := by
    rw [← hdeq]
    exact toInt_u32 _
  have htaken := h.taken
  constructor
  · intro hagrees
    exact u32_eq_iff.mp (Int.ofNat.inj (hreceived.symm.trans hagrees.received))
  · intro hlt
    have hall : u32 w.accepted.length = w.accepted.length := u32_eq_iff.mpr hlt
    have hout : u32 w.dequeued.length = w.dequeued.length :=
      u32_eq_iff.mpr (Nat.lt_of_le_of_lt htaken hlt)
    have hsize : (BrokerManager.statsResp env name (w.topic b)).queueSize.toInt =
        ((w.accepted.length - w.dequeued.length : Nat) : Int) := by
      have hqueue : (w.topic b).getQueueSize = w.accepted.length - w.dequeued.length := by
        show subU64 w.storage.totalEnqueuedMessages w.storage.totalDequeuedMessages = _
        rw [henq, hdeq, subU64_of_le htaken]
      show (Int64.ofNat (w.topic b).getQueueSize).toInt = _
      rw [hqueue]
      exact Int64.toInt_ofNat_of_lt (by omega)
    rw [hall] at hreceived
    rw [hout] at hsent
    exact ⟨hreceived, hsent, by rw [hsize, hreceived, hsent]; omega⟩

/-- The statistics of a quiet queue topic, after any run: they agree with the
queue up to 2^32 messages. -/
theorem stats_agree_iff {outputDirectory id : Bytes} {actions : List Action} {w : World}
    (hrun : (start outputDirectory id).run actions = some w) (hquiet : w.Quiet)
    {m : BrokerManager} {env : AdminEnv} {req : StatsReq} {b : Broker}
    (hfind : OrderedMap.find req.topic m.brokers = some (w.topic b))
    (hauth : BrokerManager.unauthorized b.config.userId b.config.password req.userId
      req.password = false) :
    ∃ resp, (m.replyToStats env req).replies = [.stats resp] ∧
      (w.Agrees resp ↔ w.accepted.length < 2 ^ 32) := by
  have hinv := invariant_run (invariant_start outputDirectory id) hrun
  refine ⟨BrokerManager.statsResp env req.topic (w.topic b), ?_, hinv.agrees_iff hquiet env _ b⟩
  have hauth' : BrokerManager.unauthorized (w.topic b).config.userId (w.topic b).config.password
      req.userId req.password = false := hauth
  simp only [BrokerManager.replyToStats, hfind, hauth', Bool.false_eq_true, if_false,
    BrokerManager.replyCmd]

/-- Two messages are accepted, one is taken. -/
def oneWaits : List Action :=
  [.tryEnqueue (ascii "a"), .countEnqueued, .countBytes, .tryEnqueue (ascii "b"),
    .countEnqueued, .countBytes, .consumerLoad .dequeued, .consumerSize, .tryDequeue,
    .countDequeued]

theorem stats_agree_iff_oneWaits :
    let b := (Broker.init (BrokerManager.topicConfig
      ⟨ascii "t", ascii "queue", [], [], [], []⟩)).2
    let env : AdminEnv := ⟨true, true, true, 0, 0, 0, fun reply => reply.length⟩
    ∃ w, (start (ascii "/tmp") (ascii "t")).run oneWaits = some w ∧
      ∃ resp, (BrokerManager.replyToStats ⟨[], [], [(ascii "t", w.topic b)], none⟩ env
          ⟨ascii "t", [], []⟩).replies = [.stats resp] ∧
        (w.Agrees resp ↔ w.accepted.length < 2 ^ 32) := by
  intro b env
  obtain ⟨w, hw⟩ := Option.isSome_iff_exists.mp
    (show ((start (ascii "/tmp") (ascii "t")).run oneWaits).isSome by decide)
  have hthreads : ((start (ascii "/tmp") (ascii "t")).run oneWaits).map
      (fun w => (w.producer, w.consumer)) = some (.idle, .idle) := by decide
  rw [hw] at hthreads
  obtain ⟨hproducer, hconsumer⟩ := Prod.mk.inj (Option.some.inj hthreads)
  have hquiet : w.Quiet := by
    constructor <;> simp [hproducer, hconsumer]
  exact ⟨w, hw, stats_agree_iff hw hquiet rfl rfl⟩

/-! A topic that has accepted any number of messages, for a run that passes
the bound. -/

/-- The steps of `write_to_queue`, again and again. -/
def writes (n : Nat) (message : Bytes) : List Action :=
  (List.replicate n [.tryEnqueue message, .countEnqueued, .countBytes]).flatten

theorem run_writes (message : Bytes) (n : Nat) {w : World} (hp : w.producer = .idle) :
    ∃ w', w.run (writes n message) = some w' ∧ w'.producer = .idle ∧ w'.consumer = w.consumer ∧
      w'.accepted = w.accepted ++ List.replicate n message ∧ w'.dequeued = w.dequeued := by
  induction n generalizing w with
  | zero => exact ⟨w, rfl, hp, rfl, (List.append_nil _).symm, rfl⟩
  | succ n ih =>
      have hsplit : w.run (writes (n + 1) message) =
          (w.run [.tryEnqueue message, .countEnqueued, .countBytes]).bind fun w =>
            w.run (writes n message) := by
        rw [writes, List.replicate_succ, List.flatten_cons, run, List.foldlM_append]
        rfl
      have hwrite := run_writeToQueue hp message
      obtain ⟨w', hrun, hp', hc', haccepted, hdequeued⟩ := ih (w :=
        { w with
          storage := w.storage.writeToQueue message
          accepted := w.accepted ++ [message] }) hp
      refine ⟨w', ?_, hp', hc', ?_, hdequeued⟩
      · rw [hsplit, hwrite]
        exact hrun
      · rw [haccepted, List.append_assoc, List.singleton_append, List.replicate_succ]

/-- 2^32 messages have been accepted and none has been taken: the reply says
that none was received. -/
theorem stats_disagree :
    let b := (Broker.init (BrokerManager.topicConfig
      ⟨ascii "t", ascii "queue", [], [], [], []⟩)).2
    let env : AdminEnv := ⟨true, true, true, 0, 0, 0, fun reply => reply.length⟩
    ∃ w resp, (start (ascii "/tmp") (ascii "t")).run (writes (2 ^ 32) (ascii "a")) = some w ∧
      w.Quiet ∧ w.accepted.length = 2 ^ 32 ∧ w.dequeued.length = 0 ∧
      (BrokerManager.replyToStats ⟨[], [], [(ascii "t", w.topic b)], none⟩ env
        ⟨ascii "t", [], []⟩).replies = [.stats resp] ∧
      resp.messagesReceived.toInt = 0 ∧ ¬ w.Agrees resp := by
  intro b env
  obtain ⟨w, hrun, hproducer, hconsumer, haccepted, hdequeued⟩ :=
    run_writes (ascii "a") (2 ^ 32) (w := start (ascii "/tmp") (ascii "t")) rfl
  have hinv := invariant_run (invariant_start (ascii "/tmp") (ascii "t")) hrun
  have hconsumer' : w.consumer = .idle := hconsumer
  have hquiet : w.Quiet := by
    constructor <;> simp [hproducer, hconsumer']
  have hlength : w.accepted.length = 2 ^ 32 := by
    rw [haccepted, List.length_append, List.length_replicate]
    rfl
  have hreceived :
      (BrokerManager.statsResp env (ascii "t") (w.topic b)).messagesReceived.toInt = 0 := by
    have hzero : u32 w.storage.totalEnqueuedMessages = 0 := by
      rw [hinv.enqueued_eq, hlength, u32, Nat.mod_self]
    show (Int64.ofNat (u32 w.storage.totalEnqueuedMessages)).toInt = 0
    rw [hzero]
    rfl
  refine ⟨w, _, hrun, hquiet, hlength, congrArg List.length hdequeued, rfl, hreceived, ?_⟩
  intro hagrees
  have hlt := (hinv.agrees_iff hquiet env (ascii "t") b).mp hagrees
  omega

end World

/-! ## The admin thread in between -/

theorem World.Step.counter_le {w w' : World} (h : World.Step w w') (counter : Counter) :
    counter.value w.storage ≤ counter.value w'.storage := by
  cases h with
  | countEnqueued message hp =>
      cases counter with
      | enqueued => exact Nat.le_succ _
      | dequeued => exact Nat.le_refl _
  | countDequeued hc =>
      cases counter with
      | enqueued => exact Nat.le_refl _
      | dequeued => exact Nat.le_succ _
  | tryEnqueue | countBytes | tryDequeue => cases counter <;> exact Nat.le_refl _
  | producerLoad | producerSize | consumerLoad | empty | ready | noMessage =>
      exact Nat.le_refl _

theorem World.Step.accepted_le {w w' : World} (h : World.Step w w') :
    w.accepted.length ≤ w'.accepted.length := by
  cases h with
  | countEnqueued message hp =>
      rw [List.length_append]
      exact Nat.le_add_right _ _
  | _ => exact Nat.le_refl _

/-- A queue size that was reported, and the number of messages accepted when
it was. -/
structure Report where
  size : Nat
  accepted : Nat
deriving DecidableEq, Repr

/-- The size has not wrapped below zero. -/
def Report.Bounded (r : Report) : Prop := r.size ≤ r.accepted

/-- The two threads, and the admin thread: the load it has made, if it is in
`get_queue_size`, and what it has reported. -/
structure Observed extends World where
  admin : Option Load
  reports : List Report

namespace Observed

inductive Action where
  | thread (action : Accounting.Action)
  | adminLoad (first : Counter)
  | adminSize
deriving DecidableEq, Repr

def start (outputDirectory id : Bytes) : Observed := ⟨World.start outputDirectory id, none, []⟩

def step (o : Observed) : Action → Option Observed
  | .thread action => (o.toWorld.step action).map fun w => { o with toWorld := w }
  | .adminLoad first =>
      match o.admin with
      | none => some { o with admin := some ⟨first, first.value o.storage⟩ }
      | some _ => none
  | .adminSize =>
      match o.admin with
      | some l =>
          some { o with
            admin := none
            reports := o.reports ++ [⟨l.size o.storage, o.accepted.length⟩] }
      | none => none

theorem run_getQueueSize {o : Observed} (ha : o.admin = none) (first : Counter) :
    Runs.run step o [.adminLoad first, .adminSize] =
      some { o with reports := o.reports ++ [⟨o.storage.getQueueSize, o.accepted.length⟩] } := by
  cases first with
  | enqueued => simp [Runs.run, step, ha, Load.size, Load.operands, Counter.value,
      BrokerStorage.getQueueSize]
  | dequeued => simp [Runs.run, step, ha, Load.size, Load.operands, Counter.value,
      BrokerStorage.getQueueSize]

/-- What one step can do. -/
inductive Step (o : Observed) : Action → Observed → Prop where
  | thread (action : Accounting.Action) (w : World) : World.Step o.toWorld w →
      Step o (.thread action) { o with toWorld := w }
  | adminLoad (first : Counter) : o.admin = none →
      Step o (.adminLoad first) { o with admin := some ⟨first, first.value o.storage⟩ }
  | adminSize (l : Load) : o.admin = some l →
      Step o .adminSize { o with
        admin := none
        reports := o.reports ++ [⟨l.size o.storage, o.accepted.length⟩] }

theorem step_cases {o o' : Observed} {action : Action} (h : o.step action = some o') :
    Step o action o' := by
  cases action with
  | thread action =>
      obtain ⟨w, hw, rfl⟩ := Option.map_eq_some_iff.mp h
      exact .thread action w (World.step_cases hw)
  | adminLoad first =>
      cases ha : o.admin <;> simp only [step, ha, reduceCtorEq, Option.some.injEq] at h
      exact h ▸ .adminLoad first ha
  | adminSize =>
      cases ha : o.admin <;> simp only [step, ha, reduceCtorEq, Option.some.injEq] at h
      exact h ▸ .adminSize _ ha

/-- The condition on a report: if the enqueued messages were loaded first, no
more have been dequeued by now than had been enqueued then. -/
def NotOvertaken (o : Observed) (action : Action) : Prop :=
  action = .adminSize → ∀ l, o.admin = some l → l.counter = .enqueued →
    o.storage.totalDequeuedMessages ≤ l.value

structure Invariant (o : Observed) : Prop where
  threads : World.Invariant o.toWorld
  load : ∀ l, o.admin = some l → l.value ≤ l.counter.value o.storage

theorem invariant_start (outputDirectory id : Bytes) : Invariant (start outputDirectory id) where
  threads := World.invariant_start outputDirectory id
  load := nofun

section Steps

variable {o o' : Observed} {action : Action}

theorem Invariant.step (h : Invariant o) (hstep : Step o action o') : Invariant o' := by
  obtain ⟨hthreads, hload⟩ := h
  cases hstep with
  | thread action w hw =>
      exact ⟨hthreads.step hw, fun l hl => Nat.le_trans (hload l hl) (hw.counter_le l.counter)⟩
  | adminLoad first ha =>
      refine ⟨hthreads, ?_⟩
      intro l hl
      obtain rfl := Option.some.inj hl
      exact Nat.le_refl _
  | adminSize l ha => exact ⟨hthreads, nofun⟩

theorem Invariant.size_le (h : Invariant o) {l : Load} (hl : o.admin = some l)
    (hcond : l.counter = .enqueued → o.storage.totalDequeuedMessages ≤ l.value) :
    l.size o.storage ≤ o.accepted.length := by
  have hload := h.load l hl
  have henq := h.threads.enqueued_eq
  have hle := h.threads.counters_le
  obtain ⟨counter, value⟩ := l
  cases counter with
  | enqueued =>
      have hvalue : value ≤ o.storage.totalEnqueuedMessages := hload
      have hfirst : o.storage.totalDequeuedMessages ≤ value := hcond rfl
      show subU64 value o.storage.totalDequeuedMessages ≤ _
      rw [subU64_of_le hfirst]
      omega
  | dequeued =>
      have hvalue : value ≤ o.storage.totalDequeuedMessages := hload
      show subU64 o.storage.totalEnqueuedMessages value ≤ _
      rw [subU64_of_le (Nat.le_trans hvalue hle)]
      omega

theorem Invariant.lt_size (h : Invariant o) {l : Load} (hcounter : l.counter = .enqueued)
    (hpassed : l.value < o.storage.totalDequeuedMessages) (hfew : o.accepted.length < 2 ^ 63) :
    o.accepted.length < l.size o.storage := by
  have henq := h.threads.enqueued_eq
  have hle := h.threads.counters_le
  obtain ⟨counter, value⟩ := l
  obtain rfl : counter = .enqueued := hcounter
  have hlt : value < o.storage.totalDequeuedMessages := hpassed
  show _ < subU64 value o.storage.totalDequeuedMessages
  rw [subU64, if_neg (by omega)]
  omega

/-- One step reports a size that has wrapped exactly if it fails the
condition. -/
theorem Invariant.bounded_iff (h : Invariant o) (hfew : o.accepted.length < 2 ^ 63)
    (hstep : Step o action o') :
    (∀ r ∈ o'.reports, r.Bounded) ↔ (∀ r ∈ o.reports, r.Bounded) ∧ NotOvertaken o action := by
  cases hstep with
  | thread action w hw => exact (and_iff_left nofun).symm
  | adminLoad first ha => exact (and_iff_left nofun).symm
  | adminSize l ha =>
      rw [List.forall_mem_append, List.forall_mem_singleton]
      refine and_congr_right fun _ => ⟨?_, fun hcond => h.size_le ha (hcond rfl l ha)⟩
      intro hsize _ l' hl' hcounter
      obtain rfl : l = l' := Option.some.inj (ha.symm.trans hl')
      by_contra hpassed
      exact absurd hsize (Nat.not_le.mpr (h.lt_size hcounter (Nat.not_le.mp hpassed) hfew))

theorem Invariant.bounded (h : Invariant o) (hall : ∀ r ∈ o.reports, r.Bounded)
    (hcond : NotOvertaken o action) (hstep : Step o action o') : ∀ r ∈ o'.reports, r.Bounded := by
  cases hstep with
  | thread action w hw => exact hall
  | adminLoad first ha => exact hall
  | adminSize l ha =>
      rw [List.forall_mem_append, List.forall_mem_singleton]
      exact ⟨hall, h.size_le ha (hcond rfl l ha)⟩

theorem accepted_le (h : o.step action = some o') : o.accepted.length ≤ o'.accepted.length := by
  cases step_cases h with
  | thread action w hw => exact hw.accepted_le
  | adminLoad first ha => exact Nat.le_refl _
  | adminSize l ha => exact Nat.le_refl _

end Steps

/-- The queue sizes that `stats` reports in the course of a run: none has
wrapped if no report is overtaken, and one that is overtaken has wrapped. -/
theorem reported_size_bounded {outputDirectory id : Bytes} {actions : List Action} {o : Observed}
    (hrun : Runs.run step (start outputDirectory id) actions = some o) :
    (Runs.Along step NotOvertaken (start outputDirectory id) actions →
        ∀ r ∈ o.reports, r.Bounded) ∧
      (o.accepted.length < 2 ^ 63 → (∀ r ∈ o.reports, r.Bounded) →
        Runs.Along step NotOvertaken (start outputDirectory id) actions) := by
  have hinit := invariant_start outputDirectory id
  constructor
  · intro hcond
    have hboth : Invariant o ∧ ∀ r ∈ o.reports, r.Bounded :=
      Runs.run_invariant (I := fun o => Invariant o ∧ ∀ r ∈ o.reports, r.Bounded)
        (fun hI hcond hstep => ⟨hI.1.step (step_cases hstep),
          hI.1.bounded hI.2 hcond (step_cases hstep)⟩) ⟨hinit, nofun⟩ hcond hrun
    exact hboth.2
  · intro hfew hall
    have halong := Runs.along_of_end (Q := fun o : Observed => o.accepted.length < 2 ^ 63)
      (fun hstep => Nat.lt_of_le_of_lt (accepted_le hstep)) hrun hfew
    exact (Runs.run_iff_along (Q := fun o : Observed => ∀ r ∈ o.reports, r.Bounded)
      (fun hI hfew hstep => ⟨hI.step (step_cases hstep), hI.bounded_iff hfew (step_cases hstep)⟩)
      hinit nofun halong hrun).mp hall

/-- A query, and a message that is accepted and taken between its loads. -/
def passing (first : Counter) : List Action :=
  [.adminLoad first, .thread (.tryEnqueue (ascii "a")), .thread .countEnqueued,
    .thread .countBytes, .thread (.consumerLoad .dequeued), .thread .consumerSize,
    .thread .tryDequeue, .thread .countDequeued, .adminSize]

/-- With the dequeued messages loaded first no harm is done. -/
theorem reported_size_bounded_passing :
    ∃ o, Runs.run step (start (ascii "/tmp") (ascii "t")) (passing .dequeued) = some o ∧
      (Runs.Along step NotOvertaken (start (ascii "/tmp") (ascii "t")) (passing .dequeued) →
        ∀ r ∈ o.reports, r.Bounded) ∧
      (o.accepted.length < 2 ^ 63 → (∀ r ∈ o.reports, r.Bounded) →
        Runs.Along step NotOvertaken (start (ascii "/tmp") (ascii "t")) (passing .dequeued)) := by
  obtain ⟨o, ho⟩ := Option.isSome_iff_exists.mp (show (Runs.run step
    (start (ascii "/tmp") (ascii "t")) (passing .dequeued)).isSome by decide)
  exact ⟨o, ho, reported_size_bounded ho⟩

/-- With the enqueued messages first, the size is 2^64 - 1 when one message has
been accepted; the reply shows it as -1. -/
theorem reported_size_wraps :
    (Runs.run step (start (ascii "/tmp") (ascii "t")) (passing .enqueued)).map Observed.reports =
      some [⟨2 ^ 64 - 1, 1⟩] ∧
    ¬ Report.Bounded ⟨2 ^ 64 - 1, 1⟩ ∧ (Int64.ofNat (2 ^ 64 - 1)).toInt = -1 :=
  ⟨by decide, by unfold Report.Bounded; decide, by decide⟩

end Observed

end Accounting

end LightQ
