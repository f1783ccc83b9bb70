/-
# `Lib.LinkedRing` — nodes linked in a circle

`Linked next l z` says that following `next` leads through the nodes of `l` in
order and out of the last of them to `z`.  A ring is a list linked to its own
first node.

A ring may be turned, so that it is seen from its second node
(`Linked.turn`); the last node before a part leads to its first
(`Linked.next_of_append`); and a new node may be put in behind another, which
takes two assignments to `next` (`Linked.insert`).

`loop` is the `do .. while` that goes once round a ring, with a bound on the
turns that its caller need not know: on a ring it visits every node once, in
order, and ends (`loop_eq`).  What its body does is a fold over the nodes;
`next` does not change while the loop runs.
-/
import Mathlib.Data.List.Basic

namespace LinkedRing

variable {ι σ : Type*} {next next' : ι → ι} {l m : List ι} {a z : ι}

/-- Following `next` leads through `l` and then to `z`. -/
def Linked (next : ι → ι) : List ι → ι → Prop
  | [], _ => True
  | a :: l, z => next a = l.headD z ∧ Linked next l z

theorem headD_append (l m : List ι) (z : ι) : (l ++ m).headD z = l.headD (m.headD z) := by
  cases l <;> rfl

theorem linked_append : Linked next (l ++ m) z ↔ Linked next l (m.headD z) ∧ Linked next m z := by
  induction l with
  | nil => exact (and_iff_right trivial).symm
  | cons a l ih =>
      rw [List.cons_append, Linked, Linked, ih, headD_append, and_assoc]

theorem Linked.congr (h : Linked next l z) (hsame : ∀ a ∈ l, next' a = next a) :
    Linked next' l z := by
  induction l with
  | nil => trivial
  | cons a l ih =>
      refine ⟨(hsame a List.mem_cons_self).trans h.1, ih h.2 ?_⟩
      intro b hb
      exact hsame b (List.mem_cons_of_mem a hb)

theorem Linked.turn (h : Linked next (a :: l) a) :
    Linked next (l ++ [a]) (l.headD a) := by
  refine linked_append.mpr ⟨h.2, ?_, trivial⟩
  exact h.1

theorem Linked.next_of_append (h : Linked next (l ++ a :: m) z) : next a = m.headD z :=
  (linked_append.mp h).2.1

/-- A new node `b` goes in behind `a`. -/
theorem Linked.insert {b : ι} (h : Linked next (l ++ a :: m) z) (ha : next' a = b)
    (hb : next' b = next a) (hsame : ∀ c ∈ l ++ m, next' c = next c) :
    Linked next' (l ++ a :: b :: m) z := by
  obtain ⟨hl, hnext, hm⟩ := linked_append.mp h
  refine linked_append.mpr ⟨hl.congr ?_, ha, hb.trans hnext, hm.congr ?_⟩
  · intro c hc
    exact hsame c (List.mem_append_left m hc)
  · intro c hc
    exact hsame c (List.mem_append_right l hc)

/-- `do { body } while (node != start)`, along `next`. -/
def loop [DecidableEq ι] (next : ι → ι) (start : ι) (body : σ → ι → σ) : Nat → σ → ι → Option σ
  | 0, _, _ => none
  | fuel + 1, acc, a =>
      let acc := body acc a
      let a := next a
      if a ≠ start then loop next start body fuel acc a else some acc

/-- The loop visits every node of the ring once, in order. -/
theorem loop_eq [DecidableEq ι] {start : ι} {body : σ → ι → σ} {fuel : Nat} {acc : σ}
    (h : Linked next (a :: l) start) (hstart : start ∉ l) (hfuel : l.length < fuel) :
    loop next start body fuel acc a = some ((a :: l).foldl body acc) := by
  induction l generalizing a fuel acc with
  | nil =>
      obtain ⟨n, rfl⟩ := Nat.exists_eq_add_of_lt hfuel
      have hnext : next a = start := h.1
      rw [loop, hnext, if_neg (not_not.mpr rfl)]
      rfl
  | cons b l ih =>
      cases fuel with
      | zero => exact absurd hfuel (Nat.not_lt_zero _)
      | succ fuel =>
          have hnext : next a = b := h.1
          have hb : b ≠ start := fun heq => hstart (heq ▸ List.mem_cons_self)
          have hrest : start ∉ l := fun hmem => hstart (List.mem_cons_of_mem b hmem)
          rw [loop, hnext, if_pos hb, ih h.2 hrest (Nat.lt_of_succ_lt_succ hfuel)]
          rfl

end LinkedRing
