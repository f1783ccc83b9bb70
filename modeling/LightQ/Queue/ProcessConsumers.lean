/-
# `Queue.ProcessConsumers` — what becomes of a message taken from the queue

`process_consumers` on a topic of type queue with ZeroMQ sockets, one step
at a time, while clients come and go, messages arrive and writes fail.  A
message is taken from the queue before either socket is looked at.  A socket
that counts no client is passed over (`No clients are connected to push
socket. Not sending message`), so that leaving the queue does not mean being
sent; `removed_not_sent` is such a run.

What the code does see to is `removed_accounted`: an iteration that takes a
message hands it to every socket that counts a client when it is tested.

The trace of a run is the list of what happened, clients included.  Numbers
of clients are those `monitor_zmq` keeps, an `int32_t` that is tested as a
`uint32_t`; a client that comes or goes is counted for its socket and for no
other (`Invariant.addClients_eq`), and an event that is not about clients leaves
the number as it is (`Invariant.clients_snoc`).

An iteration is an episode of the trace (`Lib.Episodes`).  What the surroundings
do leaves the consumer where it is (`Phase.snoc`), and an event during an
iteration leaves it an iteration (`During.snoc`).  A socket that is written to is
served or missed (`tried_of_wrote`), one that is passed over is missed or does not
exist (`tried_of_passed`), and with both done with the message is accounted for
(`accounted_of_tried`).  `Invariant.consumerStep` takes the thread through its
loop; in every state every iteration that is over is accounted for
(`Invariant.over`).
-/
import LightQ.Lib.Episodes
import LightQ.Storage.BrokerStorage

namespace LightQ

open MachineInt Episodes

namespace ProcessConsumers

/-- `p_consumer_socket_` and `p_consumer_pub_socket`. -/
inductive Socket where
  | push
  | pub
deriving DecidableEq, Repr

inductive Event where
  | connected (socket : Socket)
  | disconnected (socket : Socket)
  | enqueued (message : Bytes)
  | removed (message : Bytes)
  | wrote (socket : Socket) (message : Bytes) (ok : Bool)
  | iterationEnd
deriving DecidableEq, Repr

/-- Where the consumer thread is: in its wait loop, past it, behind
`try_dequeue`, at the test of a socket, at `write_msg`, at the end of the
loop body. -/
inductive Pc where
  | waiting
  | taking
  | counting (message : Bytes)
  | testing (socket : Socket) (message : Bytes)
  | writing (socket : Socket) (message : Bytes)
  | ending
deriving DecidableEq, Repr

/-- The topic: which sockets exist, how many clients their monitors count,
the consumer thread, and the trace. -/
structure World where
  storage : BrokerStorage
  sockets : Socket → Bool
  clients : Socket → Int
  pc : Pc
  trace : List Event

inductive Action where
  | connect (socket : Socket)
  | disconnect (socket : Socket)
  | tryEnqueue (message : Bytes)
  | countEnqueued
  | consumer (writeSucceeds : Bool)
deriving DecidableEq, Repr

namespace World

def start (outputDirectory id : Bytes) (sockets : Socket → Bool) : World :=
  ⟨(BrokerStorage.init .queue outputDirectory id).2, sockets, fun _ => 0, .waiting, []⟩

def addClients (w : World) (socket : Socket) (n : Int) : Socket → Int :=
  fun other => if other = socket then w.clients other + n else w.clients other

/-- The socket after this one. -/
def after (message : Bytes) : Socket → Pc
  | .push => .testing .pub message
  | .pub => .ending

/-- The next step of the consumer thread; `writeSucceeds` says what
`write_msg` does if it is called. -/
def consumerStep (w : World) (writeSucceeds : Bool) : World :=
  match w.pc with
  | .waiting => if w.storage.getQueueSize ≤ 0 then w else { w with pc := .taking }
  | .taking =>
      match w.storage.tryDequeue with
      | none => { w with pc := .ending }
      | some (message, storage) =>
          { w with
            storage := storage
            pc := .counting message
            trace := w.trace ++ [.removed message] }
  | .counting message =>
      { w with
        storage := w.storage.countDequeued
        pc := if 0 < message.length then .testing .push message else .ending }
  | .testing socket message =>
      if w.sockets socket && 0 < u32OfInt (w.clients socket) then
        { w with pc := .writing socket message }
      else { w with pc := after message socket }
  | .writing socket message =>
      { w with
        pc := after message socket
        trace := w.trace ++ [.wrote socket message writeSucceeds] }
  | .ending => { w with pc := .waiting, trace := w.trace ++ [.iterationEnd] }

def step (w : World) : Action → World
  | .connect socket =>
      { w with
        clients := w.addClients socket 1
        trace := w.trace ++ [.connected socket] }
  | .disconnect socket =>
      { w with
        clients := w.addClients socket (-1)
        trace := w.trace ++ [.disconnected socket] }
  | .tryEnqueue message =>
      { w with
        storage := w.storage.tryEnqueue message
        trace := w.trace ++ [.enqueued message] }
  | .countEnqueued => { w with storage := w.storage.countEnqueued }
  | .consumer writeSucceeds => w.consumerStep writeSucceeds

def run (w : World) (actions : List Action) : World := actions.foldl step w

end World

/-! ## What a trace says -/

/-- What an event adds to the clients of a socket. -/
def Event.delta (socket : Socket) : Event → Int
  | .connected other => if other = socket then 1 else 0
  | .disconnected other => if other = socket then -1 else 0
  | _ => 0

/-- The number of clients of a socket after a trace. -/
def clientsAfter (socket : Socket) (trace : List Event) : Int :=
  (trace.map (Event.delta socket)).sum

/-- During an iteration that took `message`, the socket was written to in
vain, or there was a moment at which it counted no client. -/
def Missed (socket : Socket) (pre : List Event) (message : Bytes) (iter : List Event) : Prop :=
  .wrote socket message false ∈ iter ∨
    ∃ before rest, iter = before ++ rest ∧
      u32OfInt (clientsAfter socket (pre ++ .removed message :: before)) = 0

/-- What is seen to for a message taken from the queue. -/
def Accounted (sockets : Socket → Bool) (pre : List Event) (message : Bytes)
    (iter : List Event) : Prop :=
  message = [] ∨ (∃ socket, .wrote socket message true ∈ iter) ∨
    ∀ socket, sockets socket = true → Missed socket pre message iter

/-- The episodes of a trace are the iterations that take a message. -/
def iterations (sockets : Socket → Bool) : Spec Event where
  opens := fun e => match e with | .removed _ => true | _ => false
  closes := fun e => match e with | .iterationEnd => true | _ => false
  Good := fun pre e iter => match e with
    | .removed message => Accounted sockets pre message iter
    | _ => True

theorem clientsAfter_snoc (socket : Socket) (trace : List Event) (e : Event) :
    clientsAfter socket (trace ++ [e]) = clientsAfter socket trace + e.delta socket := by
  simp [clientsAfter]

/-- A socket is done with: it does not exist, it was written to, or missed. -/
def Tried (sockets : Socket → Bool) (socket : Socket) (pre : List Event) (message : Bytes)
    (iter : List Event) : Prop :=
  sockets socket = false ∨ .wrote socket message true ∈ iter ∨ Missed socket pre message iter

theorem Tried.snoc {sockets : Socket → Bool} {socket : Socket} {pre iter : List Event}
    {message : Bytes} (h : Tried sockets socket pre message iter) (e : Event) :
    Tried sockets socket pre message (iter ++ [e]) := by
  rcases h with h | h | h | ⟨before, rest, rfl, h⟩
  · exact Or.inl h
  · exact Or.inr (Or.inl (List.mem_append_left _ h))
  · exact Or.inr (Or.inr (Or.inl (List.mem_append_left _ h)))
  · exact Or.inr (Or.inr (Or.inr ⟨before, rest ++ [e], List.append_assoc _ _ _, h⟩))

theorem Accounted.snoc {sockets : Socket → Bool} {pre iter : List Event} {message : Bytes}
    (h : Accounted sockets pre message iter) (e : Event) :
    Accounted sockets pre message (iter ++ [e]) := by
  rcases h with h | ⟨socket, h⟩ | h
  · exact Or.inl h
  · exact Or.inr (Or.inl ⟨socket, List.mem_append_left _ h⟩)
  · refine Or.inr (Or.inr fun socket hexists => ?_)
    rcases h socket hexists with hfail | ⟨before, rest, rfl, hnone⟩
    · exact Or.inl (List.mem_append_left _ hfail)
    · exact Or.inr ⟨before, rest ++ [e], List.append_assoc _ _ _, hnone⟩

theorem accounted_of_tried {sockets : Socket → Bool} {pre iter : List Event} {message : Bytes}
    (h : ∀ socket, Tried sockets socket pre message iter) :
    Accounted sockets pre message iter := by
  by_cases hwrote : ∃ socket, .wrote socket message true ∈ iter
  · exact Or.inr (Or.inl hwrote)
  · refine Or.inr (Or.inr fun socket hexists => ?_)
    rcases h socket with h | h | h
    · rw [h] at hexists
      exact absurd hexists (by decide)
    · exact absurd ⟨socket, h⟩ hwrote
    · exact h

/-! ## The invariant -/

namespace World

/-- The consumer is inside an iteration that took `message`, of which `P`
holds so far. -/
def During (w : World) (message : Bytes) (P : List Event → List Event → Prop) : Prop :=
  ∃ pre iter, w.trace = pre ++ .removed message :: iter ∧
    Open (iterations w.sockets) pre (.removed message) iter ∧ P pre iter

/-- What the consumer has done with the message, by where it is. -/
def Phase (w : World) : Prop :=
  match w.pc with
  | .waiting | .taking => Closed (iterations w.sockets) w.trace
  | .counting message | .testing .push message | .writing .push message =>
      w.During message fun _ _ => True
  | .testing .pub message | .writing .pub message =>
      w.During message fun pre iter => Tried w.sockets .push pre message iter
  | .ending =>
      Closed (iterations w.sockets) w.trace ∨
        ∃ message, w.During message fun pre iter => Accounted w.sockets pre message iter

structure Invariant (w : World) : Prop where
  clients_eq : ∀ socket, w.clients socket = clientsAfter socket w.trace
  phase : Phase w

theorem invariant_start (outputDirectory id : Bytes) (sockets : Socket → Bool) :
    Invariant (start outputDirectory id sockets) where
  clients_eq := fun _ => rfl
  phase := Closed.nil

theorem During.snoc {w w' : World} {message : Bytes} {P Q : List Event → List Event → Prop}
    {e : Event} (h : w.During message P) (hsockets : w'.sockets = w.sockets)
    (htrace : w'.trace = w.trace ++ [e]) (he : (iterations w.sockets).Inside e)
    (hPQ : ∀ pre iter, w.trace = pre ++ .removed message :: iter → P pre iter →
      Q pre (iter ++ [e])) :
    w'.During message Q := by
  obtain ⟨pre, iter, hsplit, hopen, hP⟩ := h
  refine ⟨pre, iter ++ [e], ?_, hsockets ▸ hopen.snoc he, hPQ pre iter hsplit hP⟩
  rw [htrace, hsplit, List.append_assoc]
  rfl

theorem During.mono {w w' : World} {message : Bytes} {P Q : List Event → List Event → Prop}
    (h : w.During message P) (hsockets : w'.sockets = w.sockets) (htrace : w'.trace = w.trace)
    (hPQ : ∀ pre iter, w.trace = pre ++ .removed message :: iter → P pre iter → Q pre iter) :
    w'.During message Q := by
  obtain ⟨pre, iter, hsplit, hopen, hP⟩ := h
  exact ⟨pre, iter, htrace.trans hsplit, hsockets ▸ hopen, hPQ pre iter hsplit hP⟩

theorem Phase.snoc {w w' : World} {e : Event} (h : w.Phase) (hpc : w'.pc = w.pc)
    (hsockets : w'.sockets = w.sockets) (htrace : w'.trace = w.trace ++ [e])
    (he : (iterations w.sockets).Inside e) : w'.Phase := by
  rw [Phase] at h ⊢
  rw [hpc, hsockets]
  cases hcase : w.pc with
  | waiting =>
      rw [hcase] at h
      exact htrace ▸ Closed.outside h he.1
  | taking =>
      rw [hcase] at h
      exact htrace ▸ Closed.outside h he.1
  | counting message =>
      rw [hcase] at h
      exact During.snoc h hsockets htrace he fun _ _ _ _ => trivial
  | testing socket message =>
      rw [hcase] at h
      cases socket with
      | push => exact During.snoc h hsockets htrace he fun _ _ _ _ => trivial
      | pub => exact During.snoc h hsockets htrace he fun _ _ _ htried => htried.snoc e
  | writing socket message =>
      rw [hcase] at h
      cases socket with
      | push => exact During.snoc h hsockets htrace he fun _ _ _ _ => trivial
      | pub => exact During.snoc h hsockets htrace he fun _ _ _ htried => htried.snoc e
  | ending =>
      rw [hcase] at h
      rcases h with hclosed | ⟨message, hduring⟩
      · exact Or.inl (htrace ▸ Closed.outside hclosed he.1)
      · exact Or.inr ⟨message, During.snoc hduring hsockets htrace he
          fun _ _ _ haccounted => haccounted.snoc e⟩

section Steps

variable {w : World}

theorem During.closed {message : Bytes} (h : w.During message fun pre iter =>
    Accounted w.sockets pre message iter) :
    Closed (iterations w.sockets) (w.trace ++ [.iterationEnd]) := by
  obtain ⟨pre, iter, hsplit, hopen, haccounted⟩ := h
  rw [hsplit, List.append_assoc]
  exact Closed.episode hopen.closed hopen.opens hopen.inside rfl rfl haccounted

theorem tried_of_passed {socket : Socket} {message : Bytes} {pre iter : List Event}
    (h : Invariant w) (hsplit : w.trace = pre ++ .removed message :: iter)
    (hpassed : ¬ (w.sockets socket && 0 < u32OfInt (w.clients socket)) = true) :
    Tried w.sockets socket pre message iter := by
  cases hexists : w.sockets socket with
  | false => exact Or.inl hexists
  | true =>
      have hnone : u32OfInt (w.clients socket) = 0 := by
        simpa [hexists] using hpassed
      rw [h.clients_eq, hsplit] at hnone
      exact Or.inr (Or.inr (Or.inr ⟨iter, [], (List.append_nil iter).symm, hnone⟩))

theorem tried_of_wrote (sockets : Socket → Bool) (socket : Socket) (message : Bytes)
    (pre iter : List Event) (ok : Bool) :
    Tried sockets socket pre message (iter ++ [.wrote socket message ok]) := by
  have hmem : Event.wrote socket message ok ∈ iter ++ [.wrote socket message ok] :=
    List.mem_append_right _ List.mem_cons_self
  cases ok with
  | true => exact Or.inr (Or.inl hmem)
  | false => exact Or.inr (Or.inr (Or.inl hmem))

theorem accounted_of_both {sockets : Socket → Bool} {pre iter : List Event} {message : Bytes}
    (hpush : Tried sockets .push pre message iter) (hpub : Tried sockets .pub pre message iter) :
    Accounted sockets pre message iter := by
  refine accounted_of_tried ?_
  intro socket
  cases socket with
  | push => exact hpush
  | pub => exact hpub

theorem Invariant.clients_snoc (h : Invariant w) {e : Event} (hdelta : ∀ socket, e.delta socket = 0)
    (socket : Socket) : w.clients socket = clientsAfter socket (w.trace ++ [e]) := by
  rw [clientsAfter_snoc, h.clients_eq, hdelta, Int.add_zero]

theorem Invariant.addClients_eq (h : Invariant w) {socket : Socket} {change : Int} {e : Event}
    (hdelta : ∀ other, e.delta other = if socket = other then change else 0) (other : Socket) :
    w.addClients socket change other = clientsAfter other (w.trace ++ [e]) := by
  rw [clientsAfter_snoc, addClients, h.clients_eq, hdelta]
  by_cases hsame : other = socket
  · subst hsame
    simp
  · simp [hsame, Ne.symm hsame]

/-- The consumer's own steps. -/
theorem Invariant.consumerStep (h : Invariant w) (writeSucceeds : Bool) :
    Invariant (w.consumerStep writeSucceeds) := by
  have hphase := h.phase
  rw [Phase] at hphase
  rw [World.consumerStep]
  cases hpc : w.pc with
  | waiting =>
      rw [hpc] at hphase
      simp only
      split
      · exact h
      · exact ⟨h.clients_eq, hphase⟩
  | taking =>
      rw [hpc] at hphase
      simp only
      cases htake : w.storage.tryDequeue with
      | none => exact ⟨h.clients_eq, Or.inl hphase⟩
      | some taken =>
          exact ⟨h.clients_snoc fun _ => rfl, w.trace, [], rfl, ⟨hphase, rfl, nofun⟩, trivial⟩
  | counting message =>
      rw [hpc] at hphase
      simp only
      refine ⟨h.clients_eq, ?_⟩
      split
      · exact During.mono hphase rfl rfl fun _ _ _ _ => trivial
      · rename_i hempty
        have hnil : message = [] := List.length_eq_zero_iff.mp (Nat.eq_zero_of_not_pos hempty)
        exact Or.inr ⟨message, During.mono hphase rfl rfl fun _ _ _ _ => Or.inl hnil⟩
  | testing socket message =>
      rw [hpc] at hphase
      simp only
      split
      · refine ⟨h.clients_eq, ?_⟩
        cases socket with
        | push => exact During.mono hphase rfl rfl fun _ _ _ _ => trivial
        | pub => exact During.mono hphase rfl rfl fun _ _ _ htried => htried
      · rename_i hpassed
        refine ⟨h.clients_eq, ?_⟩
        cases socket with
        | push =>
            exact During.mono hphase rfl rfl fun _ _ hsplit _ => tried_of_passed (w := w) h hsplit hpassed
        | pub =>
            exact Or.inr ⟨message, During.mono hphase rfl rfl fun _ _ hsplit htried =>
              accounted_of_both htried (tried_of_passed (w := w) h hsplit hpassed)⟩
  | writing socket message =>
      rw [hpc] at hphase
      simp only
      refine ⟨h.clients_snoc fun _ => rfl, ?_⟩
      cases socket with
      | push =>
          exact During.snoc hphase rfl rfl ⟨rfl, rfl⟩ fun _ _ _ _ => tried_of_wrote _ _ _ _ _ _
      | pub =>
          exact Or.inr ⟨message, During.snoc hphase rfl rfl ⟨rfl, rfl⟩ fun _ _ _ htried =>
            accounted_of_both (htried.snoc _) (tried_of_wrote _ _ _ _ _ _)⟩
  | ending =>
      rw [hpc] at hphase
      simp only
      refine ⟨h.clients_snoc fun _ => rfl, ?_⟩
      rcases hphase with hclosed | ⟨message, hduring⟩
      · exact Closed.outside hclosed rfl
      · exact During.closed hduring

theorem Invariant.step (h : Invariant w) (action : Action) : Invariant (w.step action) := by
  cases action with
  | connect socket =>
      exact ⟨h.addClients_eq (e := .connected socket) fun _ => rfl,
        Phase.snoc h.phase rfl rfl rfl ⟨rfl, rfl⟩⟩
  | disconnect socket =>
      exact ⟨h.addClients_eq (e := .disconnected socket) fun _ => rfl,
        Phase.snoc h.phase rfl rfl rfl ⟨rfl, rfl⟩⟩
  | tryEnqueue message =>
      exact ⟨h.clients_snoc fun _ => rfl, Phase.snoc h.phase rfl rfl rfl ⟨rfl, rfl⟩⟩
  | countEnqueued => exact ⟨h.clients_eq, h.phase⟩
  | consumer writeSucceeds => exact h.consumerStep writeSucceeds

theorem invariant_run (h : Invariant w) (actions : List Action) : Invariant (w.run actions) := by
  induction actions generalizing w with
  | nil => exact h
  | cons action actions ih => exact ih (h.step action)

theorem consumerStep_frame (writeSucceeds : Bool) :
    (w.consumerStep writeSucceeds).sockets = w.sockets ∧
      (w.consumerStep writeSucceeds).storage.pFile = w.storage.pFile ∧
      (w.consumerStep writeSucceeds).storage.brokerType = w.storage.brokerType := by
  rw [World.consumerStep]
  split
  · split
    · exact ⟨rfl, rfl, rfl⟩
    · exact ⟨rfl, rfl, rfl⟩
  · split
    · exact ⟨rfl, rfl, rfl⟩
    · next htake =>
        obtain ⟨rest, -, rfl⟩ := BrokerStorage.tryDequeue_some htake
        exact ⟨rfl, rfl, rfl⟩
  · exact ⟨rfl, rfl, rfl⟩
  · split
    · exact ⟨rfl, rfl, rfl⟩
    · exact ⟨rfl, rfl, rfl⟩
  · exact ⟨rfl, rfl, rfl⟩
  · exact ⟨rfl, rfl, rfl⟩

theorem run_sockets (actions : List Action) : (w.run actions).sockets = w.sockets := by
  induction actions generalizing w with
  | nil => rfl
  | cons action actions ih =>
      refine Eq.trans (b := (w.step action).sockets) ih ?_
      cases action with
      | consumer writeSucceeds => exact (w.consumerStep_frame writeSucceeds).1
      | _ => rfl

/-- In every state of the loop, every iteration that is over. -/
theorem Invariant.over (h : Invariant w) {pre post : List Event} {message : Bytes}
    (hsplit : w.trace = pre ++ .removed message :: post) (hend : .iterationEnd ∈ post) :
    Over (iterations w.sockets) pre (.removed message) post := by
  have hphase := h.phase
  have hopen : ∀ m P, w.During m P → Over (iterations w.sockets) pre (.removed message) post := by
    rintro m P ⟨pre', iter, hsplit', hopen, -⟩
    exact hopen.good (hsplit'.symm.trans hsplit) rfl ⟨_, hend, rfl⟩
  rw [Phase] at hphase
  cases hpc : w.pc with
  | waiting =>
      rw [hpc] at hphase
      exact Closed.good hphase hsplit rfl
  | taking =>
      rw [hpc] at hphase
      exact Closed.good hphase hsplit rfl
  | counting m =>
      rw [hpc] at hphase
      exact hopen _ _ hphase
  | testing socket m =>
      rw [hpc] at hphase
      cases socket with
      | push => exact hopen _ _ hphase
      | pub => exact hopen _ _ hphase
  | writing socket m =>
      rw [hpc] at hphase
      cases socket with
      | push => exact hopen _ _ hphase
      | pub => exact hopen _ _ hphase
  | ending =>
      rw [hpc] at hphase
      rcases hphase with hclosed | ⟨m, hduring⟩
      · exact hclosed.good hsplit rfl
      · exact hopen _ _ hduring

end Steps

end World

/-- Every message taken from the queue, in an iteration that is over: unless
it is empty, it was written successfully to one of the sockets, or each
socket that exists was written to in vain or counted no client at a moment
of the iteration. -/
theorem removed_accounted {outputDirectory id : Bytes} {sockets : Socket → Bool}
    {actions : List Action} {pre iter post : List Event} {message : Bytes}
    (htrace : ((World.start outputDirectory id sockets).run actions).trace
      = pre ++ .removed message :: (iter ++ .iterationEnd :: post))
    (hiter : .iterationEnd ∉ iter) : Accounted sockets pre message iter := by
  have hinv := World.invariant_run (World.invariant_start outputDirectory id sockets) actions
  have hover := hinv.over htrace (by simp)
  rw [World.run_sockets] at hover
  refine hover.good (fun e he => ?_) rfl
  cases e with
  | iterationEnd => exact absurd he hiter
  | _ => rfl

/-- A client of the push socket is sent the message. -/
theorem removed_accounted_pushed :
    Accounted (fun _ => true) [.connected .push, .enqueued (ascii "a")] (ascii "a")
      [.wrote .push (ascii "a") true] := by
  have htrace : ((World.start (ascii "/tmp") (ascii "t") fun _ => true).run
      [.connect .push, .tryEnqueue (ascii "a"), .countEnqueued, .consumer true, .consumer true,
        .consumer true, .consumer true, .consumer true, .consumer true, .consumer true]).trace
      = [.connected .push, .enqueued (ascii "a")] ++ .removed (ascii "a") ::
        ([.wrote .push (ascii "a") true] ++ .iterationEnd :: []) := by decide
  exact removed_accounted htrace (by decide)

/-- With no client connected a message is taken from the queue and written
to neither socket. -/
theorem removed_not_sent :
    ¬ ∀ (outputDirectory id : Bytes) (sockets : Socket → Bool) (actions : List Action)
        (pre iter post : List Event) (message : Bytes),
        ((World.start outputDirectory id sockets).run actions).trace
          = pre ++ .removed message :: (iter ++ .iterationEnd :: post) →
        .iterationEnd ∉ iter → ∃ socket, .wrote socket message true ∈ iter := by
  intro h
  obtain ⟨socket, hwrote⟩ := h (ascii "/tmp") (ascii "t") (fun _ => true)
    [.tryEnqueue (ascii "a"), .countEnqueued, .consumer true, .consumer true, .consumer true,
      .consumer true, .consumer true, .consumer true]
    [.enqueued (ascii "a")] [] [] (ascii "a") (by decide) (by decide)
  exact absurd hwrote List.not_mem_nil

end ProcessConsumers

end LightQ
