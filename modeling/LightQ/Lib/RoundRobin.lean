/-
# `Lib.RoundRobin` — turns taken from a list with a cursor

A cursor moves through a list and goes back to its start at the end.  `queue` is
the order in which the elements have their turn from here on (a cursor past the
end is one at the start, `queue_of_le`); an element that has had its turn goes to
the end of it.

`served` is what has had its turn so far, and `Since served x y` says that `y` has
had one since `x` had its last, if `x` had one at all.  Of two that were served one
was served later (`not_mem_of_since`), the one served last is found at the end or
the other before it (`snoc_split`), and serving a third one changes nothing between
two (`since_snoc`).

Turns are fair for good when this holds of any two elements in the order of the
queue: `InTurn`.  `inTurn_iff` says that this is no more than is needed: it is
fairness for as long as everybody stays.  Taking turns keeps it
(`InTurn.turn`: the first one goes to the end), and so does leaving when one's turn
comes (`InTurn.left`).  An element that is passed over keeps it only if no other
was served before: `inTurn_passed_iff`.
-/
import Mathlib.Data.List.Nodup

namespace RoundRobin

variable {α : Type*} {served q rest items pre post : List α} {x y z : α} {cursor : Nat}

/-! ## The order of the turns -/

/-- From the cursor to the end, and then from the start. -/
def queue (items : List α) (cursor : Nat) : List α := items.drop cursor ++ items.take cursor

theorem queue_append (pre post : List α) : queue (pre ++ post) pre.length = post ++ pre := by
  rw [queue, List.drop_left, List.take_left]

theorem queue_of_le (h : items.length ≤ cursor) : queue items cursor = items := by
  rw [queue, List.drop_of_length_le h, List.take_of_length_le h, List.nil_append]

theorem mem_queue (cursor : Nat) : x ∈ queue items cursor ↔ x ∈ items := by
  rw [queue, List.mem_append, or_comm, ← List.mem_append, List.take_append_drop]

theorem nodup_queue (cursor : Nat) : (queue items cursor).Nodup ↔ items.Nodup := by
  rw [queue, List.nodup_append_comm, List.take_append_drop]

/-! ## Who has been served since -/

/-- `y` has been served since `x` was served last. -/
def Since (served : List α) (x y : α) : Prop :=
  ∀ pre post, served = pre ++ x :: post → x ∉ post → y ∈ post

theorem since_of_not_mem (h : x ∉ served) (y : α) : Since served x y := by
  rintro pre post rfl -
  exact absurd (List.mem_append_right pre List.mem_cons_self) h

theorem exists_last (h : x ∈ served) : ∃ pre post, served = pre ++ x :: post ∧ x ∉ post := by
  obtain ⟨front, back, hsplit, hno⟩ := List.eq_append_cons_of_mem (List.mem_reverse.mpr h)
  refine ⟨back.reverse, front.reverse, ?_, ?_⟩
  · have heq := congrArg List.reverse hsplit
    rw [List.reverse_reverse, List.reverse_append, List.reverse_cons, List.append_assoc] at heq
    exact heq
  · rw [List.mem_reverse]
    exact hno

theorem not_mem_of_since (hxy : Since served x y) (hyx : Since served y x) : x ∉ served := by
  intro hx
  obtain ⟨pre, post, rfl, hno⟩ := exists_last hx
  obtain ⟨mid, last, rfl, hlast⟩ := exists_last (hxy pre post rfl hno)
  have hx := hyx (pre ++ x :: mid) last (by rw [List.append_assoc, List.cons_append]) hlast
  exact hno (List.mem_append_right mid (List.mem_cons_of_mem y hx))

theorem snoc_split (h : served ++ [z] = pre ++ x :: post) :
    z = x ∨ ∃ post', post = post' ++ [z] ∧ served = pre ++ x :: post' := by
  rcases List.eq_nil_or_concat post with rfl | ⟨post', w, rfl⟩
  · exact Or.inl (List.cons.inj (List.append_inj' h rfl).2).1
  · rw [List.concat_eq_append, ← List.cons_append, ← List.append_assoc] at h
    obtain ⟨hserved, hlast⟩ := List.append_inj' h rfl
    obtain rfl := (List.cons.inj hlast).1
    exact Or.inr ⟨post', List.concat_eq_append, hserved⟩

theorem since_snoc_self (h : x ≠ y) : Since (served ++ [y]) x y := by
  intro pre post hsplit _
  rcases snoc_split hsplit with heq | ⟨post', rfl, -⟩
  · exact absurd heq.symm h
  · exact List.mem_append_right post' List.mem_cons_self

theorem since_snoc (hx : x ≠ z) (hy : y ≠ z) : Since (served ++ [z]) x y ↔ Since served x y := by
  constructor
  · rintro h pre post rfl hno
    have hin := h pre (post ++ [z]) (by rw [List.append_assoc, List.cons_append])
      (by rw [List.mem_append, List.mem_singleton, not_or]; exact ⟨hno, hx⟩)
    rcases List.mem_append.mp hin with hin | hin
    · exact hin
    · exact absurd (List.mem_singleton.mp hin) hy
  · intro h pre post hsplit hno
    rcases snoc_split hsplit with heq | ⟨post', rfl, hserved⟩
    · exact absurd heq.symm hx
    · exact List.mem_append_left _ (h pre post' hserved fun hmem => hno (List.mem_append_left _ hmem))

theorem since_append (hx : x ∉ q) (hy : y ∉ q) : Since (served ++ q) x y ↔ Since served x y := by
  induction q generalizing served with
  | nil => rw [List.append_nil]
  | cons z q ih =>
      rw [List.append_cons, ih (List.not_mem_of_not_mem_cons hx) (List.not_mem_of_not_mem_cons hy),
        since_snoc (List.ne_of_not_mem_cons hx) (List.ne_of_not_mem_cons hy)]

theorem since_append_of_mem (hx : x ∉ q) (hy : y ∈ q) : Since (served ++ q) x y := by
  intro pre post hsplit hno
  rcases List.append_eq_append_iff.mp hsplit with ⟨front, -, hq⟩ | ⟨front, -, hpost⟩
  · exact absurd (hq ▸ List.mem_append_right front List.mem_cons_self) hx
  · cases front with
    | nil => exact absurd (hpost ▸ List.mem_cons_self : x ∈ [] ++ q) hx
    | cons z front =>
        rw [(List.cons.inj hpost).2]
        exact List.mem_append_right front hy

/-! ## Turns -/

/-- Nobody has to wait for a second turn of another. -/
def InTurn (served q : List α) : Prop := q.Pairwise (Since served)

theorem inTurn_nil (q : List α) : InTurn ([] : List α) q :=
  List.pairwise_of_forall fun _ y => since_of_not_mem List.not_mem_nil y

theorem InTurn.left (h : InTurn served (x :: rest)) (hnodup : (x :: rest).Nodup) :
    InTurn (served ++ [x]) rest := by
  have hx := (List.nodup_cons.mp hnodup).1
  refine (List.pairwise_cons.mp h).2.imp_of_mem ?_
  intro y z hy hz hsince
  refine (since_snoc ?_ ?_).mpr hsince
  · rintro rfl
    exact hx hy
  · rintro rfl
    exact hx hz

theorem InTurn.turn (h : InTurn served (x :: rest)) (hnodup : (x :: rest).Nodup) :
    InTurn (served ++ [x]) (rest ++ [x]) := by
  refine List.pairwise_append.mpr ⟨h.left hnodup, List.pairwise_singleton _ _, ?_⟩
  intro y hy z hz
  obtain rfl := List.mem_singleton.mp hz
  refine since_snoc_self ?_
  rintro rfl
  exact (List.nodup_cons.mp hnodup).1 hy

/-- The first one has its turn and leaves, and the one behind it is passed over. -/
theorem inTurn_passed_iff (h : InTurn served (x :: y :: rest)) (hnodup : (x :: y :: rest).Nodup) :
    InTurn (served ++ [x]) (rest ++ [y]) ↔ ∀ z ∈ rest, z ∉ served := by
  have hleft := h.left hnodup
  obtain ⟨hx, hnodup⟩ := List.nodup_cons.mp hnodup
  have hy := (List.nodup_cons.mp hnodup).1
  obtain ⟨hafter, hrest⟩ := List.pairwise_cons.mp hleft
  have hne : ∀ {z}, z ∈ rest → z ≠ x ∧ z ≠ y := by
    intro z hz
    refine ⟨?_, ?_⟩
    · rintro rfl
      exact hx (List.mem_cons_of_mem y hz)
    · rintro rfl
      exact hy hz
  rw [InTurn, List.pairwise_append, and_iff_right hrest,
    and_iff_right (List.pairwise_singleton _ _)]
  constructor
  · intro hlast z hz hmem
    have hno := not_mem_of_since (hlast z hz y (List.mem_singleton_self y)) (hafter z hz)
    exact hno (List.mem_append_left _ hmem)
  · intro hnone z hz w hw
    obtain rfl := List.mem_singleton.mp hw
    refine since_of_not_mem ?_ w
    rw [List.mem_append, List.mem_singleton, not_or]
    exact ⟨hnone z hz, (hne hz).1⟩

/-- The turns are fair for as long as everybody stays. -/
theorem inTurn_iff (hnodup : q.Nodup) : InTurn served q ↔
    ∀ front x back, q = front ++ x :: back → ∀ y ∈ back ++ front, Since (served ++ front) x y := by
  constructor
  · rintro h front x back rfl y hy
    have hx : x ∉ front := by
      intro hmem
      exact (List.nodup_append.mp hnodup).2.2 x hmem x List.mem_cons_self rfl
    rcases List.mem_append.mp hy with hback | hfront
    · have hyfront : y ∉ front := by
        intro hmem
        exact (List.nodup_append.mp hnodup).2.2 y hmem y (List.mem_cons_of_mem x hback) rfl
      rw [since_append hx hyfront]
      exact (List.pairwise_cons.mp (List.pairwise_append.mp h).2.1).1 y hback
    · exact since_append_of_mem hx hfront
  · intro h
    induction q generalizing served with
    | nil => exact List.Pairwise.nil
    | cons x q ih =>
        obtain ⟨hx, hnodup⟩ := List.nodup_cons.mp hnodup
        have htail : InTurn (served ++ [x]) q := by
          refine ih hnodup fun front y back hsplit z hz => ?_
          have hmem : z ∈ back ++ x :: front := by
            rw [List.mem_append, List.mem_cons]
            exact (List.mem_append.mp hz).imp_right Or.inr
          have hsince := h (x :: front) y back (congrArg (List.cons x) hsplit) z hmem
          rw [List.append_cons] at hsince
          exact hsince
        refine List.pairwise_cons.mpr ⟨fun y hy => ?_, htail.imp_of_mem fun {y z} hy hz hsince => ?_⟩
        · have hsince := h [] x q rfl y (List.mem_append_left [] hy)
          rw [List.append_nil] at hsince
          exact hsince
        · refine (since_snoc ?_ ?_).mp hsince
          · rintro rfl
            exact hx hy
          · rintro rfl
            exact hx hz

end RoundRobin
