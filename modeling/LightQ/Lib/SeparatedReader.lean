/-
# `Lib.SeparatedReader` — loops over pieces with a separator between them

A loop of `Lib.Reader` whose turn reads a piece and then asks whether a
separator follows; if one does, it is taken and there is another turn.  On
pieces joined by the separator such a loop reads every piece
(`loop_separated`), and it reads nothing else: a loop whose turns read texts
has read texts with separators between them (`separated_of_loop`, and
`loop_of_separated` back, for turns that read what there is before a separator
and a last one that reads what there is before the end).

For the bound on the turns there are three counts.  No piece is longer than the
whole (`length_le_intercalate`), there are no more pieces than input
(`count_le_intercalate`), and there is a separator for all but one
(`Separated.count_le`).

What every turn keeps, the loop keeps (`loop_keeps`); and where each turn but
the last has read a piece, the loop has read pieces (`pieces_of_loop`).
-/
import LightQ.Lib.Reader

namespace Reader

variable {ι ε α σ : Type}

/-- Each turn reads a piece and asks for a separator. -/
theorem loop_separated {e : ε} {body : σ → Reader ι ε (Bool × σ)} {piece : α → List ι}
    {sep : List ι} {ask : List ι → Bool × List ι} {Ends : List ι → Prop} {next : σ → α → σ}
    (hask : ∀ inp, ask (sep ++ inp) = (true, inp)) (hends : ∀ inp, Ends (sep ++ inp))
    {as : List α}
    (hturn : ∀ a ∈ as, ∀ s inp, Ends inp →
      body s (piece a ++ inp) = .ok (((ask inp).1, next s a), (ask inp).2))
    (hne : as ≠ []) {s : σ} {tail rest : List ι} {fuel : Nat} (htail : ask tail = (false, rest))
    (htailEnds : Ends tail) (hfuel : as.length ≤ fuel) :
    loop e body fuel s (sep.intercalate (as.map piece) ++ tail) = .ok (as.foldl next s, rest) := by
  induction as generalizing s fuel with
  | nil => exact absurd rfl hne
  | cons a as ih =>
      obtain ⟨fuel, rfl⟩ := Nat.exists_eq_add_one.mpr (Nat.lt_of_lt_of_le (Nat.succ_pos _) hfuel)
      have hfirst := hturn a List.mem_cons_self s
      cases as with
      | nil =>
          rw [List.map_singleton, List.intercalate_singleton, loop, hfirst tail htailEnds, htail]
          rfl
      | cons b as =>
          have hlater := ih (fun c hc => hturn c (List.mem_cons_of_mem a hc))
            (List.cons_ne_nil b as) (s := next s a) (Nat.le_of_succ_le_succ hfuel)
          rw [List.map_cons, List.map_cons, List.intercalate_cons_cons, List.append_assoc,
            List.append_assoc, loop, hfirst _ (hends _), hask]
          exact hlater

theorem length_le_intercalate {sep p : List ι} {l : List (List ι)} (hp : p ∈ l) :
    p.length ≤ (sep.intercalate l).length := by
  induction l with
  | nil => exact absurd hp List.not_mem_nil
  | cons a l ih =>
      cases l with
      | nil =>
          obtain rfl := List.mem_singleton.mp hp
          exact Nat.le_of_eq (congrArg List.length List.intercalate_singleton.symm)
      | cons b l =>
          rw [List.intercalate_cons_cons, List.length_append, List.length_append]
          rcases List.mem_cons.mp hp with rfl | hp
          · omega
          · have hle := ih hp
            omega

theorem count_le_intercalate {sep : List ι} {l : List (List ι)} (hpos : ∀ p ∈ l, 0 < p.length) :
    l.length ≤ (sep.intercalate l).length := by
  induction l with
  | nil => exact Nat.le_refl 0
  | cons a l ih =>
      have ha := hpos a List.mem_cons_self
      cases l with
      | nil =>
          rw [List.intercalate_singleton]
          exact ha
      | cons b l =>
          have hle := ih fun p hp => hpos p (List.mem_cons_of_mem a hp)
          rw [List.intercalate_cons_cons, List.length_append, List.length_append, List.length_cons]
          omega

theorem loop_keeps {e : ε} {body : σ → Reader ι ε (Bool × σ)} {I : σ → Prop}
    (hbody : ∀ {s inp more s' rest}, I s → body s inp = .ok ((more, s'), rest) → I s')
    {fuel : Nat} {s s' : σ} {inp rest : List ι} (hs : I s)
    (hloop : loop e body fuel s inp = .ok (s', rest)) : I s' := by
  induction fuel generalizing s inp with
  | zero => cases hloop
  | succ fuel ih =>
      rw [loop] at hloop
      cases hturn : body s inp with
      | error e' =>
          rw [hturn] at hloop
          cases hloop
      | ok out =>
          obtain ⟨⟨more, t⟩, rest'⟩ := out
          rw [hturn] at hloop
          have ht := hbody hs hturn
          cases more with
          | true => exact ih ht hloop
          | false =>
              obtain ⟨rfl, -⟩ := Prod.mk.inj (Except.ok.inj hloop)
              exact ht

theorem pieces_of_loop {e : ε} {body : σ → Reader ι ε (Bool × σ)} {piece : α → List ι}
    {next : σ → α → σ}
    (hturn : ∀ s inp s' rest, body s inp = .ok ((true, s'), rest) →
      ∃ a, inp = piece a ++ rest ∧ s' = next s a)
    {fuel : Nat} {s t : σ} {inp rest : List ι} (hloop : loop e body fuel s inp = .ok (t, rest)) :
    ∃ (as : List α) (inp' : List ι), inp = as.flatMap piece ++ inp' ∧
      body (as.foldl next s) inp' = .ok ((false, t), rest) := by
  induction fuel generalizing s inp with
  | zero => cases hloop
  | succ fuel ih =>
      rw [loop] at hloop
      cases hbody : body s inp with
      | error e' =>
          rw [hbody] at hloop
          cases hloop
      | ok out =>
          obtain ⟨⟨more, s'⟩, rest'⟩ := out
          rw [hbody] at hloop
          cases more with
          | true =>
              obtain ⟨a, rfl, rfl⟩ := hturn s inp s' rest' hbody
              obtain ⟨as, inp', rfl, hlast⟩ := ih hloop
              exact ⟨a :: as, inp', by rw [List.flatMap_cons, List.append_assoc], hlast⟩
          | false =>
              obtain ⟨rfl, rfl⟩ := Prod.mk.inj (Except.ok.inj hloop)
              exact ⟨[], inp, rfl, hbody⟩

/-- Texts of some things, one or more, with a separator between them. -/
inductive Separated (sep : ι) (P : α → List ι → Prop) : List α → List ι → Prop
  | one {a : α} {t : List ι} : P a t → Separated sep P [a] t
  | cons {a : α} {as : List α} {t ts : List ι} :
      P a t → Separated sep P as ts → Separated sep P (a :: as) (t ++ sep :: ts)

theorem Separated.count_le {sep : ι} {P : α → List ι → Prop} {as : List α} {t : List ι}
    (h : Separated sep P as t) : as.length ≤ t.length + 1 := by
  induction h with
  | one _ => exact Nat.le_add_left _ _
  | cons _ _ ih =>
      rw [List.length_cons, List.length_append, List.length_cons]
      omega

theorem loop_of_separated {e : ε} {body : σ → Reader ι ε (Bool × σ)} {next : σ → α → σ} {sep : ι}
    {P : α → List ι → Prop} {n : Nat} {tail : List ι}
    (hmore : ∀ a t s inp, P a t → t.length ≤ n →
      body s (t ++ sep :: inp) = .ok ((true, next s a), inp))
    (hlast : ∀ a t s, P a t → t.length ≤ n → body s (t ++ tail) = .ok ((false, next s a), tail))
    {as : List α} {t : List ι} (h : Separated sep P as t) (hn : t.length ≤ n) {fuel : Nat}
    (hfuel : as.length ≤ fuel) (s : σ) :
    loop e body fuel s (t ++ tail) = .ok (as.foldl next s, tail) := by
  induction h generalizing s fuel with
  | @one a t ha =>
      obtain ⟨fuel, rfl⟩ := Nat.exists_eq_add_one.mpr hfuel
      rw [loop, hlast a t s ha hn]
      rfl
  | @cons a as t ts ha _ ih =>
      obtain ⟨fuel, rfl⟩ := Nat.exists_eq_add_one.mpr (Nat.lt_of_lt_of_le (Nat.succ_pos _) hfuel)
      rw [List.length_append, List.length_cons] at hn
      rw [List.append_assoc, List.cons_append, loop, hmore a t s _ ha (by omega)]
      exact ih (by omega) (Nat.le_of_succ_le_succ hfuel) (next s a)

/-- A loop whose turns read texts has read texts with separators. -/
theorem separated_of_loop {e : ε} {body : σ → Reader ι ε (Bool × σ)} {next : σ → α → σ} {sep : ι}
    {P : α → List ι → Prop} {Stop : List ι → Prop}
    (hmore : ∀ s inp s' rest, body s inp = .ok ((true, s'), rest) →
      ∃ a t, P a t ∧ inp = t ++ sep :: rest ∧ s' = next s a)
    (hlast : ∀ s inp s' rest, body s inp = .ok ((false, s'), rest) →
      ∃ a t, P a t ∧ inp = t ++ rest ∧ s' = next s a ∧ Stop rest)
    {fuel : Nat} {s s' : σ} {inp rest : List ι} (hloop : loop e body fuel s inp = .ok (s', rest)) :
    ∃ as t, Separated sep P as t ∧ inp = t ++ rest ∧ s' = as.foldl next s ∧ Stop rest := by
  induction fuel generalizing s inp with
  | zero => cases hloop
  | succ fuel ih =>
      rw [loop] at hloop
      cases hbody : body s inp with
      | error e' =>
          rw [hbody] at hloop
          cases hloop
      | ok out =>
          obtain ⟨⟨more, s₁⟩, rest₁⟩ := out
          rw [hbody] at hloop
          cases more with
          | true =>
              obtain ⟨a, t, ha, rfl, rfl⟩ := hmore s inp s₁ rest₁ hbody
              obtain ⟨as, ts, has, rfl, rfl, hstop⟩ := ih hloop
              exact ⟨a :: as, _, .cons ha has, (List.append_assoc t (sep :: ts) rest).symm, rfl,
                hstop⟩
          | false =>
              obtain ⟨rfl, rfl⟩ := Prod.mk.inj (Except.ok.inj hloop)
              obtain ⟨a, t, ha, rfl, rfl, hstop⟩ := hlast s inp s₁ rest₁ hbody
              exact ⟨[a], t, .one ha, rfl, rfl, hstop⟩

end Reader
