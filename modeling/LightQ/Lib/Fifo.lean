/-
# `Lib.Fifo` — a bounded queue between two threads, as its callers see it

One thread enqueues and one dequeues.  A call begins, takes effect at one
instant, and returns; `history` lists the beginnings and the returns in order.
An enqueue may be refused if at some instant during it the queue held at least
`capacity` items, and a dequeue may come back with nothing if at some instant
during it the queue was empty.  An item counts as held until the dequeue that
took it has returned.

    producer    idle → calling x → done x → idle      (or back from calling x)
    consumer    idle → calling → done x → idle        (or back from calling)

`Histories capacity` are the histories of this machine.  An implementation
whose histories are all among them is linearizable to a queue; what holds of
them, such as `Histories.in_order`, holds of it.

`Histories.in_order` is the use of it: what has been received is what was
accepted, from the first item on, without a gap and in order, and at most the
item of the call in progress besides.  It is proved of the machine by an
invariant of its steps, and an implementation gets it from the inclusion
alone.
-/
import Mathlib.Logic.Relation

namespace Fifo

variable {α : Type*}

inductive Event (α : Type*) where
  | enqueue (x : α)
  | enqueued (ok : Bool)
  | dequeue
  | dequeued (r : Option α)
deriving DecidableEq

/-- The call of the enqueuing thread; `full` once a full queue was seen. -/
inductive Producer (α : Type*) where
  | idle
  | calling (x : α) (full : Bool)
  | done (x : α)

/-- The call of the dequeuing thread; `empty` once an empty queue was seen. -/
inductive Consumer (α : Type*) where
  | idle
  | calling (empty : Bool)
  | done (x : α)

structure State (α : Type*) where
  items : List α
  producer : Producer α
  consumer : Consumer α
  history : List (Event α)

def start : State α := ⟨[], .idle, .idle, []⟩

/-- What the consumer has taken and not returned. -/
def Consumer.held : Consumer α → List α
  | .done x => [x]
  | _ => []

/-- What the producer has put in and not returned from. -/
def Producer.landed : Producer α → List α
  | .done x => [x]
  | _ => []

/-- What the call in progress may still put in, or has. -/
def Producer.offered : Producer α → List α
  | .idle => []
  | .calling x _ => [x]
  | .done x => [x]

def State.occupied (s : State α) : Nat := s.consumer.held.length + s.items.length

inductive Step (capacity : Nat) (s : State α) : State α → Prop
  | enqueue (x : α) : s.producer = .idle →
      Step capacity s { s with
        producer := .calling x false
        history := s.history ++ [.enqueue x] }
  | put (x : α) (full : Bool) : s.producer = .calling x full →
      Step capacity s { s with items := s.items ++ [x], producer := .done x }
  | full (x : α) (full : Bool) : s.producer = .calling x full → capacity ≤ s.occupied →
      Step capacity s { s with producer := .calling x true }
  | enqueued (x : α) : s.producer = .done x →
      Step capacity s { s with producer := .idle, history := s.history ++ [.enqueued true] }
  | refused (x : α) : s.producer = .calling x true →
      Step capacity s { s with producer := .idle, history := s.history ++ [.enqueued false] }
  | dequeue : s.consumer = .idle →
      Step capacity s { s with consumer := .calling false, history := s.history ++ [.dequeue] }
  | take (x : α) (rest : List α) (empty : Bool) : s.consumer = .calling empty →
      s.items = x :: rest → Step capacity s { s with items := rest, consumer := .done x }
  | empty (empty : Bool) : s.consumer = .calling empty → s.items = [] →
      Step capacity s { s with consumer := .calling true }
  | dequeued (x : α) : s.consumer = .done x →
      Step capacity s { s with consumer := .idle, history := s.history ++ [.dequeued (some x)] }
  | nothing : s.consumer = .calling true →
      Step capacity s { s with consumer := .idle, history := s.history ++ [.dequeued none] }

def Reaches (capacity : Nat) : State α → State α → Prop := Relation.ReflTransGen (Step capacity)

/-- What the callers of the queue can see. -/
def Histories (capacity : Nat) (h : List (Event α)) : Prop :=
  ∃ s, Reaches capacity start s ∧ s.history = h

/-! ## What a history says -/

/-- What has come of the calls so far: the element of an enqueue that has not
returned, those accepted, and those received. -/
structure Tally (α : Type*) where
  offered : List α
  accepted : List α
  received : List α

def Tally.add (t : Tally α) : Event α → Tally α
  | .enqueue x => { t with offered := [x] }
  | .enqueued ok =>
      { t with offered := [], accepted := if ok then t.accepted ++ t.offered else t.accepted }
  | .dequeue => t
  | .dequeued r => { t with received := t.received ++ r.toList }

def tally (h : List (Event α)) : Tally α := h.foldl Tally.add ⟨[], [], []⟩

theorem tally_append (h : List (Event α)) (e : Event α) : tally (h ++ [e]) = (tally h).add e := by
  rw [tally, List.foldl_append]
  rfl

structure Conserved (s : State α) : Prop where
  offered_eq : (tally s.history).offered = s.producer.offered
  conserved : (tally s.history).received ++ s.consumer.held ++ s.items =
    (tally s.history).accepted ++ s.producer.landed

theorem Conserved.step {capacity : Nat} {s s' : State α} (h : Conserved s)
    (hstep : Step capacity s s') : Conserved s' := by
  obtain ⟨hoff, hcons⟩ := h
  cases hstep with
  | enqueue x hp =>
      refine ⟨by rw [tally_append]; rfl, ?_⟩
      rw [hp] at hcons
      rw [tally_append]
      exact hcons
  | put x full hp =>
      rw [hp] at hoff hcons
      refine ⟨hoff, ?_⟩
      simp only [Producer.landed, List.append_nil] at hcons
      simp only [Producer.landed, ← List.append_assoc, hcons]
  | full x full hp =>
      rw [hp] at hoff hcons
      exact ⟨hoff, hcons⟩
  | enqueued x hp =>
      rw [hp] at hoff hcons
      refine ⟨by rw [tally_append]; rfl, ?_⟩
      simp only [tally_append, Tally.add, hoff]
      simpa [Producer.landed, Producer.offered] using hcons
  | refused x hp =>
      rw [hp] at hcons
      refine ⟨by rw [tally_append]; rfl, ?_⟩
      rw [tally_append]
      exact hcons
  | dequeue hc =>
      rw [hc] at hcons
      exact ⟨by rw [tally_append]; exact hoff, by rw [tally_append]; exact hcons⟩
  | take x rest empty hc hitems =>
      rw [hc, hitems] at hcons
      refine ⟨hoff, ?_⟩
      simpa [Consumer.held] using hcons
  | empty empty hc hitems =>
      rw [hc] at hcons
      exact ⟨hoff, hcons⟩
  | dequeued x hc =>
      rw [hc] at hcons
      refine ⟨by rw [tally_append]; exact hoff, ?_⟩
      simp only [tally_append, Tally.add]
      simpa [Consumer.held] using hcons
  | nothing hc =>
      rw [hc] at hcons
      refine ⟨by rw [tally_append]; exact hoff, ?_⟩
      simp only [tally_append, Tally.add]
      simpa [Consumer.held] using hcons

theorem conserved_of_reaches {capacity : Nat} {s : State α} (h : Reaches capacity start s) :
    Conserved s := by
  induction h with
  | refl => exact ⟨rfl, rfl⟩
  | tail _ hstep ih => exact ih.step hstep

/-- What has been received is what was accepted, from the first item on, and
at most the item of the call in progress besides. -/
theorem Histories.in_order {capacity : Nat} {h : List (Event α)} (hh : Histories capacity h) :
    (tally h).received <+: (tally h).accepted ++ (tally h).offered := by
  obtain ⟨s, hreach, rfl⟩ := hh
  have hcons := conserved_of_reaches hreach
  rw [hcons.offered_eq]
  have hlanded : s.producer.landed <+: s.producer.offered := by
    cases s.producer with
    | idle => exact List.prefix_rfl
    | calling x full => exact List.nil_prefix
    | done x => exact List.prefix_rfl
  have htaken : (tally s.history).received <+: (tally s.history).accepted ++ s.producer.landed := by
    rw [← hcons.conserved, List.append_assoc]
    exact List.prefix_append _ _
  exact htaken.trans (List.prefix_append_right_inj _ |>.mpr hlanded)

/-! ## A dequeue that cannot fail -/

/-- How many dequeues have returned. -/
def returns (h : List (Event α)) : Nat :=
  h.countP fun e => match e with
    | .dequeued _ => true
    | _ => false

theorem returns_append (h : List (Event α)) (e : Event α) :
    returns (h ++ [e]) = returns h + returns [e] := List.countP_append

/-- A dequeue that begins with something in the queue: it has not seen the
queue empty, and will not. -/
def State.Sure (s : State α) : Prop :=
  (s.consumer = .idle ∨ s.consumer = .calling false) ∧ s.items ≠ [] ∨ ∃ x, s.consumer = .done x

theorem Step.returns_le {capacity : Nat} {s s' : State α} (h : Step capacity s s') :
    returns s.history ≤ returns s'.history := by
  cases h with
  | put | full | take | empty => exact Nat.le_refl _
  | enqueue | enqueued | refused | dequeue | dequeued | nothing =>
      rw [returns_append]
      exact Nat.le_add_right _ _

theorem Reaches.returns_le {capacity : Nat} {s s' : State α} (h : Reaches capacity s s') :
    returns s.history ≤ returns s'.history := by
  induction h with
  | refl => exact Nat.le_refl _
  | tail _ hstep ih => exact Nat.le_trans ih hstep.returns_le

theorem Step.sure {capacity : Nat} {s s' : State α} (h : Step capacity s s') (hsure : s.Sure)
    (hreturns : returns s'.history = returns s.history) : s'.Sure := by
  cases h with
  | put x full hp =>
      rcases hsure with ⟨hc, hitems⟩ | hdone
      · exact Or.inl ⟨hc, List.append_ne_nil_of_left_ne_nil hitems _⟩
      · exact Or.inr hdone
  | enqueue | full | enqueued | refused => exact hsure
  | dequeue hc =>
      rcases hsure with ⟨-, hitems⟩ | ⟨x, hc'⟩
      · exact Or.inl ⟨Or.inr rfl, hitems⟩
      · exact absurd (hc.symm.trans hc') nofun
  | take x rest empty hc hitems => exact Or.inr ⟨x, rfl⟩
  | empty empty hc hitems =>
      rcases hsure with ⟨-, hne⟩ | ⟨x, hc'⟩
      · exact absurd hitems hne
      · exact absurd (hc.symm.trans hc') nofun
  | dequeued x hc =>
      rw [returns_append] at hreturns
      exact absurd hreturns (Nat.ne_of_gt (Nat.lt_succ_self _))
  | nothing hc =>
      rw [returns_append] at hreturns
      exact absurd hreturns (Nat.ne_of_gt (Nat.lt_succ_self _))

theorem Reaches.sure {capacity : Nat} {s s' : State α} (h : Reaches capacity s s')
    (hsure : s.Sure) (hreturns : returns s'.history = returns s.history) : s'.Sure := by
  induction h with
  | refl => exact hsure
  | tail hreach hstep ih =>
      have hle := Reaches.returns_le hreach
      have hle' := hstep.returns_le
      exact hstep.sure (ih (by omega)) (by omega)

end Fifo
