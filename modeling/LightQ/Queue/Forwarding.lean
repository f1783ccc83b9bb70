/-
# `Queue.Forwarding` — a queue topic, from the producer socket to the consumers

Both threads of a queue topic at once.  `process_producers` reads a message
from the producer socket, passes an empty one over, and hands the others to
`write_to_queue`, which tries to enqueue until there is room and then counts.
`process_consumers` is that of `Queue.ProcessConsumers`: it takes a message and
writes it to the push and to the pub socket, if they count a client when it
gets there.

    inbox → producer's hand → queue → consumer's hand → push and pub socket

Nothing on this way is lost, added or reordered but at the sockets.  So
`forwarded_exactly_iff` can say for each socket what was written to it, and
when that is all: exactly if the thread never comes to a socket that counts no
client, and no write to it fails.

`received` is a ghost: what the producer socket has received.  The invariant says
where everything is that has been received, empty messages apart: nothing is
written to a socket but what was received, in that order and at most once
(`Invariant.sentOn_sublist`), and what is on its way completes it exactly if
nothing is missing (`Invariant.complete_iff`).

A step of the consumer thread touches nothing before the queue
(`Invariant.consumer`), and any other nothing behind it (`Invariant.quiet`,
`Invariant.client`).  When the turn of a socket is over the message was written to
it or was not (`Invariant.turn_over`), and all of what arrives is written exactly
if each step serves the socket (`Invariant.consumerStep`, `run_complete_iff`).
-/
import LightQ.Lib.Runs
import LightQ.Queue.ProcessConsumers

namespace LightQ

open MachineInt Runs

namespace Forwarding

open ProcessConsumers (Socket Event Pc)

/-- Where the producer thread is: in `read_msg`, in `write_to_queue` before a
`try_enqueue` has succeeded, before each of its counters, or returned. -/
inductive ProducerPc where
  | reading
  | enqueuing (message : Bytes)
  | counting (message : Bytes)
  | adding (message : Bytes)
  | returned
deriving DecidableEq, Repr

/-- The topic of `ProcessConsumers`, what the producer socket has received and
the thread has not read, and the thread. -/
structure World extends ProcessConsumers.World where
  inbox : List Bytes
  producer : ProducerPc
  received : List Bytes

/-- A client comes or goes; a message arrives at the producer socket; a read
from it fails; or one of the threads takes a step.  `room` says what
`try_enqueue` finds, `writeSucceeds` what `write_msg` does, if called. -/
inductive Action where
  | connect (socket : Socket)
  | disconnect (socket : Socket)
  | receive (message : Bytes)
  | readFails
  | producer (room : Bool)
  | consumer (writeSucceeds : Bool)
deriving DecidableEq, Repr

namespace World

def start (outputDirectory id : Bytes) (sockets : Socket → Bool) : World :=
  ⟨ProcessConsumers.World.start outputDirectory id sockets, [], .reading, []⟩

/-- The next step of the producer thread. -/
def producerStep (w : World) (room : Bool) : World :=
  match w.producer with
  | .reading =>
      match w.inbox with
      | [] => w
      | message :: rest =>
          { w with
            inbox := rest
            producer := if message.length = 0 then .reading else .enqueuing message }
  | .enqueuing message =>
      if room then
        { w with
          toWorld := w.toWorld.step (.tryEnqueue message)
          producer := .counting message }
      else w
  | .counting message =>
      { w with
        toWorld := w.toWorld.step .countEnqueued
        producer := .adding message }
  | .adding message =>
      { w with
        storage := w.storage.countBytes message
        producer := .reading }
  | .returned => w

def step (w : World) : Action → Option World
  | .connect socket => some { w with toWorld := w.toWorld.step (.connect socket) }
  | .disconnect socket => some { w with toWorld := w.toWorld.step (.disconnect socket) }
  | .receive message =>
      some { w with inbox := w.inbox ++ [message], received := w.received ++ [message] }
  | .readFails => if w.producer = .reading then some { w with producer := .returned } else none
  | .producer room => some (w.producerStep room)
  | .consumer writeSucceeds => some { w with toWorld := w.consumerStep writeSucceeds }

end World

/-! ## Where a message is -/

/-- The messages that are not empty. -/
def nonempty (messages : List Bytes) : List Bytes := messages.filter (· ≠ [])

/-- What was taken from the queue. -/
def taken (trace : List Event) : List Bytes :=
  trace.filterMap fun
    | .removed message => some message
    | _ => none

/-- What was written to a socket with success. -/
def sentOn (socket : Socket) (trace : List Event) : List Bytes :=
  trace.filterMap fun
    | .wrote other message true => if other = socket then some message else none
    | _ => none

/-- What the producer thread has read and not enqueued. -/
def ProducerPc.held : ProducerPc → List Bytes
  | .enqueuing message => [message]
  | _ => []

/-- The message in the consumer's hand, as long as the socket's turn is not
over. -/
def unwritten (socket : Socket) : Pc → List Bytes
  | .counting message => [message]
  | .testing current message | .writing current message =>
      if socket = .push ∧ current = .pub then [] else [message]
  | _ => []

/-- What was received and is still on its way to a socket. -/
def World.onTheWay (w : World) (socket : Socket) : List Bytes :=
  unwritten socket w.pc ++ w.storage.pQueue ++ w.producer.held ++ nonempty w.inbox

/-- The socket counts a client when the thread gets to it, and the write
succeeds. -/
def Serving (socket : Socket) (w : World) : Action → Prop
  | .consumer writeSucceeds =>
      match w.pc with
      | .testing current _ =>
          current = socket → w.sockets socket = true ∧ 0 < u32OfInt (w.clients socket)
      | .writing current _ => current = socket → writeSucceeds = true
      | _ => True
  | _ => True

section Lists

variable (trace : List Event) (socket : Socket)

@[simp] theorem taken_snoc (e : Event) : taken (trace ++ [e]) = taken trace ++ taken [e] :=
  List.filterMap_append

@[simp] theorem sentOn_snoc (e : Event) :
    sentOn socket (trace ++ [e]) = sentOn socket trace ++ sentOn socket [e] :=
  List.filterMap_append

@[simp] theorem nonempty_append (ms ns : List Bytes) :
    nonempty (ms ++ ns) = nonempty ms ++ nonempty ns := List.filter_append ..

theorem sentOn_wrote (current : Socket) (message : Bytes) (ok : Bool) :
    sentOn socket [.wrote current message ok] =
      if current = socket ∧ ok = true then [message] else [] := by
  cases ok with
  | true => by_cases h : current = socket <;> simp [sentOn, h]
  | false => simp [sentOn]

end Lists

/-! ## The invariant -/

/-- Everything is in one place, in order; and each socket has been written what
it was given a turn for, unless it missed it. -/
structure Invariant (w : World) : Prop where
  flow : taken w.trace ++ (w.storage.pQueue ++ w.producer.held ++ nonempty w.inbox) =
    nonempty w.received
  turns : ∀ socket, ∃ given, taken w.trace = given ++ unwritten socket w.pc ∧
    (sentOn socket w.trace).Sublist given

/-- The socket was written all that it was given a turn for. -/
def Complete (socket : Socket) (w : World) : Prop :=
  sentOn socket w.trace ++ unwritten socket w.pc = taken w.trace

theorem invariant_start (outputDirectory id : Bytes) (sockets : Socket → Bool) :
    Invariant (World.start outputDirectory id sockets) where
  flow := rfl
  turns _ := ⟨[], rfl, List.Sublist.refl _⟩

section Steps

variable {w w' : World}

theorem Invariant.taken_ne (h : Invariant w) {message : Bytes} (hm : message ∈ taken w.trace) :
    message ≠ [] := by
  have hreceived : message ∈ nonempty w.received := h.flow ▸ List.mem_append_left _ hm
  exact of_decide_eq_true (List.mem_filter.mp hreceived).2

theorem Invariant.quiet (h : Invariant w) (socket : Socket) (hpc : w'.pc = w.pc)
    (htaken : taken w'.trace = taken w.trace)
    (hsent : ∀ socket, sentOn socket w'.trace = sentOn socket w.trace)
    (hflow : ∃ more, nonempty w'.received = nonempty w.received ++ more ∧
      w'.storage.pQueue ++ w'.producer.held ++ nonempty w'.inbox =
        w.storage.pQueue ++ w.producer.held ++ nonempty w.inbox ++ more) :
    Invariant w' ∧ (Complete socket w' ↔ Complete socket w) := by
  refine ⟨⟨?_, fun other => ?_⟩, ?_⟩
  · obtain ⟨more, hreceived, hplaces⟩ := hflow
    rw [htaken, hplaces, hreceived, ← List.append_assoc, h.flow]
  · rw [htaken, hsent, hpc]
    exact h.turns other
  · rw [Complete, Complete, htaken, hsent, hpc]

theorem Invariant.producerStep (h : Invariant w) (socket : Socket) (room : Bool) :
    Invariant (w.producerStep room) ∧
      (Complete socket (w.producerStep room) ↔ Complete socket w) := by
  have hsame : ∀ {a b : List Bytes}, b = a → ∃ more, nonempty w.received =
      nonempty w.received ++ more ∧ b = a ++ more :=
    fun hab => ⟨[], (List.append_nil _).symm, by rw [hab, List.append_nil]⟩
  rw [World.producerStep]
  cases hp : w.producer with
  | reading =>
      cases hi : w.inbox with
      | nil => exact ⟨h, Iff.rfl⟩
      | cons message rest =>
          refine h.quiet socket rfl rfl (fun _ => rfl) (hsame ?_)
          dsimp only
          rw [hp, hi]
          split
          · next hempty =>
              rw [List.length_eq_zero_iff.mp hempty]
              rfl
          · next hne =>
              have hkeep : nonempty (message :: rest) = message :: nonempty rest :=
                List.filter_cons_of_pos
                  (decide_eq_true fun hnil => hne (congrArg List.length hnil))
              rw [hkeep]
              simp [ProducerPc.held]
  | enqueuing message =>
      cases room with
      | false => exact ⟨h, Iff.rfl⟩
      | true =>
          refine h.quiet socket rfl ?_ (fun other => ?_) (hsame ?_)
          · exact (taken_snoc _ _).trans (List.append_nil _)
          · exact (sentOn_snoc _ _ _).trans (List.append_nil _)
          · rw [hp]
            exact congrArg (· ++ nonempty w.inbox) (List.append_nil (w.storage.pQueue ++ [message]))
  | counting message =>
      refine h.quiet socket rfl rfl (fun _ => rfl) (hsame ?_)
      rw [hp]
      rfl
  | adding message =>
      refine h.quiet socket rfl rfl (fun _ => rfl) (hsame ?_)
      rw [hp]
      rfl
  | returned => exact ⟨h, Iff.rfl⟩

theorem Invariant.consumer (h : Invariant w)
    (hflow : taken w'.trace ++ w'.storage.pQueue = taken w.trace ++ w.storage.pQueue)
    (hrest : w'.producer = w.producer ∧ w'.inbox = w.inbox ∧ w'.received = w.received)
    (hturns : ∀ socket, ∃ given, taken w'.trace = given ++ unwritten socket w'.pc ∧
      (sentOn socket w'.trace).Sublist given) : Invariant w' := by
  obtain ⟨hproducer, hinbox, hreceived⟩ := hrest
  refine ⟨?_, hturns⟩
  have hsame := congrArg (· ++ (w.producer.held ++ nonempty w.inbox)) hflow
  rw [hproducer, hinbox, hreceived, ← h.flow]
  simpa only [List.append_assoc] using hsame

theorem unwritten_after (socket current : Socket) (message : Bytes) :
    unwritten socket (ProcessConsumers.World.after message current) =
      if current = socket then [] else unwritten socket (.testing current message) := by
  cases socket <;> cases current <;> rfl

theorem unwritten_self (socket : Socket) (message : Bytes) :
    unwritten socket (.testing socket message) = [message] := by
  cases socket <;> rfl

theorem Invariant.turn_over (h : Invariant w) (socket : Socket) {current : Socket}
    {message : Bytes} (ok : Bool)
    (hpc : ∀ socket, unwritten socket w.pc = unwritten socket (.testing current message))
    (hnext : w'.pc = ProcessConsumers.World.after message current)
    (htaken : taken w'.trace = taken w.trace) (hqueue : w'.storage = w.storage)
    (hsent : ∀ socket, sentOn socket w'.trace =
      sentOn socket w.trace ++ if current = socket ∧ ok = true then [message] else [])
    (hrest : w'.producer = w.producer ∧ w'.inbox = w.inbox ∧ w'.received = w.received) :
    Invariant w' ∧
      (Complete socket w' ↔ Complete socket w ∧ (current = socket → ok = true)) := by
  refine ⟨h.consumer (by rw [htaken, hqueue]) hrest fun other => ?_, ?_⟩
  · obtain ⟨given, hgiven, hsub⟩ := h.turns other
    rw [htaken, hsent, hnext, unwritten_after]
    by_cases hturn : current = other
    · subst hturn
      rw [hpc, unwritten_self] at hgiven
      refine ⟨given ++ [message], by rw [hgiven, if_pos rfl, List.append_nil], hsub.append ?_⟩
      split
      · exact List.Sublist.refl _
      · exact List.nil_sublist _
    · rw [if_neg hturn, if_neg fun hboth => hturn hboth.1, List.append_nil]
      exact ⟨given, by rw [hgiven, hpc], hsub⟩
  · rw [Complete, Complete, htaken, hsent, hnext, unwritten_after, hpc]
    by_cases hturn : current = socket
    · subst hturn
      obtain ⟨given, hgiven, hsub⟩ := h.turns current
      rw [hpc, unwritten_self] at hgiven
      rw [unwritten_self, if_pos rfl, List.append_nil]
      cases ok with
      | true => simp
      | false =>
          have hmissed : sentOn current w.trace ≠ taken w.trace := by
            intro heq
            have hle := hsub.length_le
            rw [heq, hgiven, List.length_append, List.length_singleton] at hle
            omega
          simp [hmissed]
    · simp [hturn]

/-- The thread takes its turn with the message; for each socket, what was
written is all exactly if the step serves it. -/
theorem Invariant.consumerStep (h : Invariant w) (socket : Socket) (writeSucceeds : Bool) :
    let w' := { w with toWorld := w.consumerStep writeSucceeds }
    Invariant w' ∧
      (Complete socket w' ↔ Complete socket w ∧ Serving socket w (.consumer writeSucceeds)) := by
  have hturns := h.turns
  rw [Serving, ProcessConsumers.World.consumerStep]
  cases hpc : w.pc with
  | waiting =>
      rw [hpc] at hturns
      dsimp only
      split
      · exact ⟨h, (and_iff_left trivial).symm⟩
      · refine ⟨h.consumer rfl ⟨rfl, rfl, rfl⟩ hturns, ?_⟩
        rw [Complete, Complete, hpc]
        exact (and_iff_left trivial).symm
  | taking =>
      rw [hpc] at hturns
      dsimp only
      cases htake : w.storage.tryDequeue with
      | none =>
          refine ⟨h.consumer rfl ⟨rfl, rfl, rfl⟩ hturns, ?_⟩
          rw [Complete, Complete, hpc]
          exact (and_iff_left trivial).symm
      | some r =>
          obtain ⟨message, storage⟩ := r
          obtain ⟨rest, hqueue, rfl⟩ := BrokerStorage.tryDequeue_some htake
          refine ⟨h.consumer ?_ ⟨rfl, rfl, rfl⟩ fun other => ?_, ?_⟩
          · rw [hqueue, taken_snoc, List.append_assoc]
            rfl
          · obtain ⟨given, hgiven, hsub⟩ := hturns other
            refine ⟨given, ?_, ?_⟩
            · rw [taken_snoc, hgiven]
              exact congrArg (· ++ [message]) (List.append_nil given)
            · rw [sentOn_snoc]
              exact (List.append_nil (sentOn other w.trace)).symm ▸ hsub
          · rw [Complete, Complete, hpc, taken_snoc, sentOn_snoc]
            refine Iff.trans ?_ (and_iff_left trivial).symm
            show sentOn socket w.trace ++ [] ++ [message] = taken w.trace ++ [message] ↔
              sentOn socket w.trace ++ [] = taken w.trace
            exact List.append_left_inj [message]
  | counting message =>
      rw [hpc] at hturns
      dsimp only
      -- the producer enqueues no empty message
      have hne : message ≠ [] := by
        obtain ⟨given, hgiven, -⟩ := hturns .push
        exact h.taken_ne (hgiven ▸ List.mem_append_right _ (List.mem_singleton_self message))
      rw [if_pos (List.length_pos_iff.mpr hne)]
      have hsame : ∀ other : Socket, unwritten other (.testing .push message) = [message] := by
        intro other
        cases other <;> rfl
      refine ⟨h.consumer rfl ⟨rfl, rfl, rfl⟩ fun other => ?_, ?_⟩
      · rw [hsame]
        exact hturns other
      · rw [Complete, Complete, hpc, hsame]
        exact (and_iff_left trivial).symm
  | testing current message =>
      dsimp only
      split
      · next hcounts =>
          rw [Bool.and_eq_true, decide_eq_true_iff] at hcounts
          rw [hpc] at hturns
          refine ⟨h.consumer rfl ⟨rfl, rfl, rfl⟩ hturns, ?_⟩
          rw [Complete, Complete, hpc]
          refine (and_iff_left fun hturn => ?_).symm
          subst hturn
          exact hcounts
      · next hpassed =>
          rw [Bool.and_eq_true, decide_eq_true_iff] at hpassed
          refine And.imp_right (fun hcomplete => hcomplete.trans (and_congr_right fun _ => ?_))
            (h.turn_over socket false (fun other => by rw [hpc]) rfl rfl rfl (fun other => by simp)
              ⟨rfl, rfl, rfl⟩)
          refine imp_congr_right ?_
          rintro rfl
          exact iff_of_false Bool.false_ne_true hpassed
  | writing current message =>
      dsimp only
      refine h.turn_over socket writeSucceeds (fun other => by rw [hpc]; rfl) rfl ?_ rfl ?_
        ⟨rfl, rfl, rfl⟩
      · exact (taken_snoc _ _).trans (List.append_nil _)
      · intro other
        rw [sentOn_snoc, sentOn_wrote]
  | ending =>
      rw [hpc] at hturns
      dsimp only
      refine ⟨h.consumer ?_ ⟨rfl, rfl, rfl⟩ fun other => ?_, ?_⟩
      · rw [taken_snoc]
        exact congrArg (· ++ w.storage.pQueue) (List.append_nil (taken w.trace))
      · obtain ⟨given, hgiven, hsub⟩ := hturns other
        refine ⟨given, ?_, ?_⟩
        · rw [taken_snoc]
          exact (List.append_nil _).trans hgiven
        · rw [sentOn_snoc]
          exact (List.append_nil (sentOn other w.trace)).symm ▸ hsub
      · rw [Complete, Complete, hpc, taken_snoc, sentOn_snoc]
        simp [taken, sentOn, unwritten]

theorem Invariant.client (h : Invariant w) (socket : Socket) (clients : Socket → Int) {e : Event}
    (htaken : taken [e] = []) (hsent : ∀ socket, sentOn socket [e] = []) :
    let w' := { w with clients := clients, trace := w.trace ++ [e] }
    Invariant w' ∧ (Complete socket w' ↔ Complete socket w) := by
  refine h.quiet socket rfl ?_ (fun other => ?_) ⟨[], ?_, ?_⟩
  · rw [taken_snoc, htaken, List.append_nil]
  · rw [sentOn_snoc, hsent, List.append_nil]
  · exact (List.append_nil _).symm
  · exact (List.append_nil _).symm

theorem Invariant.step (h : Invariant w) (socket : Socket) {action : Action}
    (hstep : w.step action = some w') :
    Invariant w' ∧ (Complete socket w' ↔ Complete socket w ∧ Serving socket w action) := by
  have hserved : ∀ {v : World}, Invariant v ∧ (Complete socket v ↔ Complete socket w) →
      Invariant v ∧ (Complete socket v ↔ Complete socket w ∧ True) :=
    fun h => h.imp_right fun hcomplete => hcomplete.trans (and_iff_left trivial).symm
  cases action with
  | connect other =>
      obtain rfl := Option.some.inj hstep
      exact hserved (h.client socket _ rfl fun _ => rfl)
  | disconnect other =>
      obtain rfl := Option.some.inj hstep
      exact hserved (h.client socket _ rfl fun _ => rfl)
  | receive message =>
      obtain rfl := Option.some.inj hstep
      refine hserved (h.quiet socket rfl rfl (fun _ => rfl)
        ⟨nonempty [message], nonempty_append _ _, ?_⟩)
      dsimp only
      rw [nonempty_append, List.append_assoc, List.append_assoc, List.append_assoc]
  | readFails =>
      obtain ⟨hreading, hw⟩ := Option.ite_none_right_eq_some.mp hstep
      obtain rfl := Option.some.inj hw
      refine hserved (h.quiet socket rfl rfl (fun _ => rfl) ⟨[], (List.append_nil _).symm, ?_⟩)
      rw [hreading]
      exact (List.append_nil _).symm
  | producer room =>
      obtain rfl := Option.some.inj hstep
      exact hserved (h.producerStep socket room)
  | consumer writeSucceeds =>
      obtain rfl := Option.some.inj hstep
      exact h.consumerStep socket writeSucceeds

theorem run_complete_iff (outputDirectory id : Bytes) (sockets : Socket → Bool) (socket : Socket)
    {actions : List Action}
    (hrun : run World.step (World.start outputDirectory id sockets) actions = some w) :
    Invariant w ∧ (Complete socket w ↔
      Along World.step (Serving socket) (World.start outputDirectory id sockets) actions) := by
  have hstart := invariant_start outputDirectory id sockets
  have hstep : ∀ {w a w'}, Invariant w → True → World.step w a = some w' →
      Invariant w' ∧ (Complete socket w' ↔ Complete socket w ∧ Serving socket w a) :=
    fun h _ hstep => h.step socket hstep
  refine ⟨?_, run_iff_along hstep hstart rfl (along_of_forall (P := fun _ => True) ?_) hrun⟩
  · exact run_invariant (fun h _ hstep => (h.step socket hstep).1) hstart
      (along_of_forall (P := fun _ => True) fun _ _ => trivial) hrun
  · exact fun _ _ => trivial

/-- What is on its way completes what was written exactly if nothing is
missing. -/
theorem Invariant.complete_iff (h : Invariant w) (socket : Socket) :
    Complete socket w ↔
      sentOn socket w.trace ++ w.onTheWay socket = nonempty w.received := by
  rw [Complete, World.onTheWay, ← h.flow]
  simp only [← List.append_assoc, List.append_left_inj]

theorem Invariant.sentOn_sublist (h : Invariant w) (socket : Socket) :
    (sentOn socket w.trace).Sublist (nonempty w.received) := by
  obtain ⟨given, hgiven, hsub⟩ := h.turns socket
  rw [← h.flow, hgiven, List.append_assoc]
  exact hsub.trans (List.sublist_append_left _ _)

end Steps

/-- In every run of the two threads, whatever arrives, whoever connects, and
whether there is room and writes succeed: what was written to a socket is a
part of what was received, empty messages apart, in the same order.  With what
is still on its way it is all of it, exactly if every step serves the
socket. -/
theorem forwarded_exactly_iff (outputDirectory id : Bytes) (sockets : Socket → Bool)
    {actions : List Action} {w : World}
    (hrun : run World.step (World.start outputDirectory id sockets) actions = some w)
    (socket : Socket) :
    (sentOn socket w.trace).Sublist (nonempty w.received) ∧
      (sentOn socket w.trace ++ w.onTheWay socket = nonempty w.received ↔
        Along World.step (Serving socket) (World.start outputDirectory id sockets) actions) := by
  obtain ⟨hinv, hcomplete⟩ := run_complete_iff outputDirectory id sockets socket hrun
  exact ⟨hinv.sentOn_sublist socket, (hinv.complete_iff socket).symm.trans hcomplete⟩

/-- A puller, no subscriber, and three messages, one of them empty: two go
through the queue, and the second is in the consumer's hand. -/
def handing : List Action :=
  [.connect .push, .receive (ascii "a"), .receive [], .receive (ascii "b")] ++
    List.replicate 4 (.producer true) ++ List.replicate 8 (.consumer true) ++
    List.replicate 4 (.producer true) ++ List.replicate 3 (.consumer true)

theorem forwarded_exactly_handing :
    ∃ w, run World.step (World.start (ascii "/tmp") (ascii "t") fun _ => true) handing = some w ∧
      sentOn .push w.trace = [ascii "a"] ∧ w.onTheWay .push = [ascii "b"] ∧
      (sentOn .push w.trace).Sublist (nonempty w.received) ∧
      (sentOn .push w.trace ++ w.onTheWay .push = nonempty w.received ↔
        Along World.step (Serving .push) (World.start (ascii "/tmp") (ascii "t") fun _ => true)
          handing) := by
  have hsome : (run World.step (World.start (ascii "/tmp") (ascii "t") fun _ => true)
      handing).isSome := by decide
  obtain ⟨w, hw⟩ := Option.isSome_iff_exists.mp hsome
  have hplaces : (run World.step (World.start (ascii "/tmp") (ascii "t") fun _ => true)
      handing).map (fun w => (sentOn .push w.trace, w.onTheWay .push)) =
        some ([ascii "a"], [ascii "b"]) := by decide
  rw [hw] at hplaces
  obtain ⟨hsent, hway⟩ := Prod.mk.inj (Option.some.inj hplaces)
  exact ⟨w, hw, hsent, hway, forwarded_exactly_iff (ascii "/tmp") (ascii "t") _ hw .push⟩

end Forwarding

end LightQ
