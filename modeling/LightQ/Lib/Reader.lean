/-
# `Lib.Reader` — readers that take their input from the front

A reader takes some of its input and returns a value with what is left, or
it fails.  A loop of readers has no bound of its own on the number of turns:
`loop` takes one, and fails with a given failure when it is used up.

`loop_avoids` is what makes the bound harmless: a body that takes something
each turn cannot turn more often than the input is long, so that with more
fuel than input the failure is not the one of the fuel, and the loop fails
only as its body does.

`loop_pieces` is for inputs that were written piece by piece, a piece for each
turn: a turn takes one piece and the last one ends the loop.  There are no more
pieces than input (`length_le_pieces`), so the input's length is fuel enough
there as well.  Inputs with which the body does the same are the same to the
loop (`loop_congr`).
-/
import Mathlib.Data.List.Basic

/-- The type of readers. -/
abbrev Reader (ι ε α : Type) := List ι → Except ε (α × List ι)

namespace Reader

variable {ι ε α β σ : Type}

/-! ## Sequences of steps that may fail -/

theorem bind_ok {x : Except ε α} {f : α → Except ε β} {b : β}
    (h : x >>= f = .ok b) : ∃ a, x = .ok a ∧ f a = .ok b := by
  cases x with
  | error e => cases h
  | ok a => exact ⟨a, rfl, h⟩

theorem bind_error {x : Except ε α} {f : α → Except ε β} {e : ε}
    (h : x >>= f = .error e) : x = .error e ∨ ∃ a, x = .ok a ∧ f a = .error e := by
  cases x with
  | error e' =>
      cases h
      exact Or.inl rfl
  | ok a => exact Or.inr ⟨a, rfl, h⟩

/-! ## Readers -/

/-- A success leaves less than there was. -/
def Consumes (r : Reader ι ε α) : Prop :=
  ∀ {inp a rest}, r inp = .ok (a, rest) → rest.length < inp.length

/-- On inputs shorter than `n`, the reader does not fail with `e`. -/
def Avoids (r : Reader ι ε α) (e : ε) (n : Nat) : Prop :=
  ∀ {inp}, inp.length < n → r inp ≠ .error e

/-- `body` again and again, as long as it returns `true`; `fuel` bounds the
number of turns and `e` is the failure when it is used up. -/
def loop (e : ε) (body : σ → Reader ι ε (Bool × σ)) : Nat → σ → Reader ι ε σ
  | 0, _, _ => .error e
  | fuel + 1, s, inp =>
      match body s inp with
      | .error e' => .error e'
      | .ok ((true, s'), rest) => loop e body fuel s' rest
      | .ok ((false, s'), rest) => .ok (s', rest)

theorem Consumes.loop {e : ε} {body : σ → Reader ι ε (Bool × σ)}
    (hbody : ∀ s, Consumes (body s)) (fuel : Nat) (s : σ) :
    Consumes (loop e body fuel s) := by
  induction fuel generalizing s with
  | zero =>
      intro inp a rest h
      cases h
  | succ fuel ih =>
      intro inp a rest h
      simp only [Reader.loop] at h
      split at h
      · cases h
      · next s' rest' hturn => exact Nat.lt_trans (ih s' h) (hbody s hturn)
      · next s' rest' hturn =>
          cases h
          exact hbody s hturn

/-- With more fuel than input, the loop fails only as its body does. -/
theorem loop_avoids {e : ε} {n : Nat} {body : σ → Reader ι ε (Bool × σ)}
    (hbody : ∀ s, Consumes (body s)) (havoid : ∀ s, Avoids (body s) e n)
    {fuel : Nat} (s : σ) {inp : List ι} (hn : inp.length < n) (hfuel : inp.length < fuel) :
    loop e body fuel s inp ≠ .error e := by
  induction fuel generalizing s inp with
  | zero => exact absurd hfuel (Nat.not_lt_zero _)
  | succ fuel ih =>
      simp only [loop]
      split
      · next e' hturn =>
          intro h
          cases h
          exact havoid s hn hturn
      · next s' rest hturn =>
          have hrest := hbody s hturn
          exact ih s' (Nat.lt_trans hrest hn) (Nat.lt_of_lt_of_le hrest (Nat.lt_succ_iff.mp hfuel))
      · intro h
        cases h

theorem loop_pieces {e : ε} {body : σ → Reader ι ε (Bool × σ)} {piece : α → List ι}
    {next : σ → α → σ}
    (hturn : ∀ s a rest, body s (piece a ++ rest) = .ok ((true, next s a), rest))
    (as : List α) {s t : σ} {inp rest : List ι} {fuel : Nat}
    (hstop : body (as.foldl next s) inp = .ok ((false, t), rest)) (hfuel : as.length < fuel) :
    loop e body fuel s (as.flatMap piece ++ inp) = .ok (t, rest) := by
  induction as generalizing s fuel with
  | nil =>
      obtain ⟨fuel, rfl⟩ := Nat.exists_eq_add_one.mpr hfuel
      rw [List.flatMap_nil, List.nil_append, loop, show body s inp = _ from hstop]
  | cons a as ih =>
      obtain ⟨fuel, rfl⟩ := Nat.exists_eq_add_one.mpr (Nat.zero_lt_of_lt hfuel)
      rw [List.flatMap_cons, List.append_assoc, loop, hturn]
      exact ih hstop (Nat.lt_of_succ_lt_succ hfuel)

theorem length_le_pieces {piece : α → List ι} (hpiece : ∀ a, 0 < (piece a).length)
    (as : List α) : as.length ≤ (as.flatMap piece).length := by
  induction as with
  | nil => exact Nat.le_refl 0
  | cons a as ih =>
      have hpos := hpiece a
      rw [List.flatMap_cons, List.length_append, List.length_cons]
      omega

theorem loop_congr {e : ε} {body : σ → Reader ι ε (Bool × σ)} {s : σ} {inp inp' : List ι}
    (h : body s inp = body s inp') (fuel : Nat) :
    loop e body fuel s inp = loop e body fuel s inp' := by
  cases fuel with
  | zero => rfl
  | succ fuel => simp only [loop, h]

end Reader
