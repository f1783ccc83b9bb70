/-
# `Lib.Runs` — runs of a step function

A step function `σ → α → Option σ` says what an action does to a state, or
that it cannot happen there.  `run` takes actions one after the other.

Conditions on a run are conditions on its steps: `Along step P s as` says
that every action of the run satisfies `P` in the state where it is taken.
Every step of a run can happen (`along_isSome`); a condition on the actions
alone holds of each of them (`forall_of_along`); what no step ends held all
along every run, or all along one that ends in it (`along_of_kept`,
`along_of_end`).

`run_invariant` is the induction on runs.  The other rules turn a condition on
steps and a property of states into each other:

  * `everywhere_iff_along` is for a property `Q` that is lost at exactly those
    steps that violate a condition: the states of a run all have `Q` if and
    only if its steps all meet the condition;
  * `run_iff_along` says it of the last state, for a property that does not
    come back;
  * `along_iff_along` says it of the steps themselves, where inside an
    invariant a step has one property exactly if it has the other;
  * `run_splits` is for two classes of states, the second of which no step
    leaves: where a run ends depends on whether all its steps met the
    condition.

For progress there is `potential_le`: a potential that no step raises, and
that the steps of one kind lower, is used up by enough of these, whatever
other steps come between them.
-/
import Mathlib.Data.List.Basic
import Mathlib.Data.List.Count

namespace Runs

variable {σ α : Type*} {step : σ → α → Option σ} {s s' : σ} {a : α} {as : List α}

/-- The state after a list of actions, if each can happen. -/
def run (step : σ → α → Option σ) (s : σ) (as : List α) : Option σ := as.foldlM step s

/-- Every action of a run satisfies `P` where it is taken. -/
def Along (step : σ → α → Option σ) (P : σ → α → Prop) : σ → List α → Prop
  | _, [] => True
  | s, a :: as => P s a ∧ ∀ s', step s a = some s' → Along step P s' as

/-- Every state of a run satisfies `Q`. -/
def Everywhere (step : σ → α → Option σ) (Q : σ → Prop) (s : σ) (as : List α) : Prop :=
  ∀ pre s', pre <+: as → run step s pre = some s' → Q s'

@[simp] theorem run_nil : run step s [] = some s := rfl

theorem run_cons : run step s (a :: as) = (step s a).bind fun s' => run step s' as := by
  rw [run, List.foldlM_cons]
  rfl

theorem run_cons_of_some (h : step s a = some s') : run step s (a :: as) = run step s' as := by
  rw [run_cons, h, Option.bind_some]

theorem run_append (bs : List α) :
    run step s (as ++ bs) = (run step s as).bind fun s' => run step s' bs :=
  List.foldlM_append

theorem run_append_of_some {bs : List α} (h : run step s as = some s') :
    run step s (as ++ bs) = run step s' bs := by
  rw [run_append, h, Option.bind_some]

theorem along_of_forall {P : α → Prop} (h : ∀ a ∈ as, P a) :
    Along step (fun _ a => P a) s as := by
  induction as generalizing s with
  | nil => trivial
  | cons a as ih =>
      exact ⟨h a List.mem_cons_self, fun s' _ => ih fun b hb => h b (List.mem_cons_of_mem _ hb)⟩

theorem Along.cons {P : σ → α → Prop} (ha : P s a) (hstep : step s a = some s')
    (h : Along step P s' as) : Along step P s (a :: as) := by
  refine ⟨ha, ?_⟩
  intro s₁ hs₁
  obtain rfl := Option.some.inj (hstep.symm.trans hs₁)
  exact h

theorem Along.mono {P P' : σ → α → Prop} (h : Along step P s as) (hPP' : ∀ s a, P s a → P' s a) :
    Along step P' s as := by
  induction as generalizing s with
  | nil => trivial
  | cons a as ih => exact ⟨hPP' s a h.1, fun s' hstep => ih (h.2 s' hstep)⟩

/-- What can be decided for a step can be decided for a run. -/
instance Along.decidable {P : σ → α → Prop} [∀ s a, Decidable (P s a)] :
    ∀ (s : σ) (as : List α), Decidable (Along step P s as)
  | _, [] => isTrue trivial
  | s, a :: as =>
      match hstep : step s a with
      | none => decidable_of_iff (P s a)
          ⟨fun ha => ⟨ha, fun _ hs => absurd (hstep.symm.trans hs) (Option.some_ne_none _).symm⟩,
            And.left⟩
      | some s' =>
          have : Decidable (Along step P s' as) := Along.decidable s' as
          decidable_of_iff (P s a ∧ Along step P s' as)
            ⟨fun h => ⟨h.1, fun _ hs => Option.some.inj (hstep.symm.trans hs) ▸ h.2⟩,
              fun h => ⟨h.1, h.2 s' hstep⟩⟩

theorem along_isSome (h : run step s as = some s') :
    Along step (fun s a => (step s a).isSome) s as := by
  induction as generalizing s with
  | nil => trivial
  | cons a as ih =>
      rw [run_cons] at h
      obtain ⟨s₁, hs₁, hrest⟩ := Option.bind_eq_some_iff.mp h
      exact Along.cons (by rw [hs₁]; rfl) hs₁ (ih hrest)

theorem along_of_end {Q : σ → Prop} (hback : ∀ {s a s'}, step s a = some s' → Q s' → Q s)
    (hrun : run step s as = some s') (hQ : Q s') : Along step (fun s _ => Q s) s as := by
  have hall : Q s ∧ Along step (fun s _ => Q s) s as := by
    induction as generalizing s with
    | nil =>
        obtain rfl : s = s' := Option.some.inj hrun
        exact ⟨hQ, trivial⟩
    | cons a as ih =>
        rw [run_cons] at hrun
        obtain ⟨s₁, hs₁, hrest⟩ := Option.bind_eq_some_iff.mp hrun
        obtain ⟨hnext, halong⟩ := ih hrest
        have hhere := hback hs₁ hnext
        exact ⟨hhere, Along.cons hhere hs₁ halong⟩
  exact hall.2

theorem Along.and {P P' : σ → α → Prop} (h : Along step P s as) (h' : Along step P' s as) :
    Along step (fun s a => P s a ∧ P' s a) s as := by
  induction as generalizing s with
  | nil => trivial
  | cons a as ih => exact ⟨⟨h.1, h'.1⟩, fun s' hstep => ih (h.2 s' hstep) (h'.2 s' hstep)⟩

theorem along_of_kept {I : σ → Prop} (hkeep : ∀ {s a s'}, I s → step s a = some s' → I s')
    (hI : I s) : Along step (fun s _ => I s) s as := by
  induction as generalizing s with
  | nil => trivial
  | cons a as ih => exact ⟨hI, fun s' hstep => ih (hkeep hI hstep)⟩

/-- What every step keeps, a run keeps. -/
theorem run_invariant {I : σ → Prop} {P : σ → α → Prop}
    (hstep : ∀ {s a s'}, I s → P s a → step s a = some s' → I s') (hI : I s)
    (hP : Along step P s as) (hrun : run step s as = some s') : I s' := by
  induction as generalizing s with
  | nil =>
      obtain rfl : s = s' := Option.some.inj hrun
      exact hI
  | cons a as ih =>
      rw [run_cons] at hrun
      obtain ⟨s₁, hs₁, hrest⟩ := Option.bind_eq_some_iff.mp hrun
      exact ih (hstep hI hP.1 hs₁) (hP.2 s₁ hs₁) hrest

/-- A potential that no step raises, and that the steps of kind `K` lower as
long as there is something left. -/
theorem potential_le {I : σ → Prop} {P : α → Prop} {K : α → Bool} {μ : σ → Nat}
    (hkeep : ∀ {s a s'}, I s → P a → step s a = some s' → I s')
    (hle : ∀ {s a s'}, I s → P a → step s a = some s' → μ s' ≤ μ s)
    (hlt : ∀ {s a s'}, I s → P a → step s a = some s' → K a = true → 0 < μ s → μ s' < μ s)
    (hI : I s) (hP : ∀ a ∈ as, P a) (hrun : run step s as = some s') :
    μ s' ≤ μ s - as.countP K := by
  induction as generalizing s with
  | nil =>
      obtain rfl : s = s' := Option.some.inj hrun
      exact Nat.le_refl _
  | cons a as ih =>
      rw [run_cons] at hrun
      obtain ⟨s₁, hs₁, hrest⟩ := Option.bind_eq_some_iff.mp hrun
      have ha : P a := hP a List.mem_cons_self
      have hnext := ih (hkeep hI ha hs₁) (fun b hb => hP b (List.mem_cons_of_mem _ hb)) hrest
      have hraised := hle hI ha hs₁
      rw [List.countP_cons]
      split
      · next hK =>
          rcases Nat.eq_zero_or_pos (μ s) with hzero | hpos
          · omega
          · have hlowered := hlt hI ha hs₁ hK hpos
            omega
      · omega

/-- When the steps that meet `cond` keep the invariant, the invariant gives
`Q`, and every other step leads out of `Q`, the runs inside `Q` are those
whose steps meet `cond`. -/
theorem everywhere_iff_along {I Q : σ → Prop} {P cond : σ → α → Prop}
    (hgood : ∀ {s a s'}, I s → P s a → cond s a → step s a = some s' → I s')
    (hQ : ∀ {s}, I s → Q s)
    (hbad : ∀ {s a}, I s → P s a → ¬ cond s a → ∃ s', step s a = some s' ∧ ¬ Q s')
    (hI : I s) (hP : Along step P s as) :
    Everywhere step Q s as ↔ Along step cond s as := by
  induction as generalizing s with
  | nil =>
      refine iff_of_true (fun pre s' hpre hrun => ?_) trivial
      rw [List.prefix_nil.mp hpre] at hrun
      obtain rfl : s = s' := Option.some.inj hrun
      exact hQ hI
  | cons a as ih =>
      constructor
      · intro h
        have hcond : cond s a := by
          by_contra hno
          obtain ⟨s₁, hs₁, hout⟩ := hbad hI hP.1 hno
          exact hout (h [a] s₁ ⟨as, rfl⟩ (run_cons_of_some hs₁))
        refine ⟨hcond, ?_⟩
        intro s₁ hs₁
        refine (ih (hgood hI hP.1 hcond hs₁) (hP.2 s₁ hs₁)).mp ?_
        intro pre s' hpre hrun
        exact h (a :: pre) s' (List.cons_prefix_cons.mpr ⟨rfl, hpre⟩)
          ((run_cons_of_some hs₁).trans hrun)
      · rintro ⟨hcond, hrest⟩ pre s' hpre hrun
        cases pre with
        | nil =>
            obtain rfl : s = s' := Option.some.inj hrun
            exact hQ hI
        | cons b pre =>
            obtain ⟨rfl, htail⟩ := List.cons_prefix_cons.mp hpre
            rw [run_cons] at hrun
            obtain ⟨s₁, hs₁, hrun⟩ := Option.bind_eq_some_iff.mp hrun
            exact (ih (hgood hI hP.1 hcond hs₁) (hP.2 s₁ hs₁)).mpr (hrest s₁ hs₁) pre s' htail hrun

theorem along_iff_along {I : σ → Prop} {P P' cond : σ → α → Prop}
    (hkeep : ∀ {s a s'}, I s → P s a → cond s a → step s a = some s' → I s')
    (hiff : ∀ {s a}, I s → P s a → (P' s a ↔ cond s a)) (hI : I s) (hP : Along step P s as) :
    Along step P' s as ↔ Along step cond s as := by
  induction as generalizing s with
  | nil => exact Iff.rfl
  | cons a as ih =>
      have hnext : cond s a → ∀ s', step s a = some s' →
          (Along step P' s' as ↔ Along step cond s' as) :=
        fun hcond s' hs' => ih (hkeep hI hP.1 hcond hs') (hP.2 s' hs')
      constructor
      · rintro ⟨ha, hrest⟩
        have hcond : cond s a := (hiff hI hP.1).mp ha
        exact ⟨hcond, fun s' hs' => (hnext hcond s' hs').mp (hrest s' hs')⟩
      · rintro ⟨hcond, hrest⟩
        exact ⟨(hiff hI hP.1).mpr hcond, fun s' hs' => (hnext hcond s' hs').mpr (hrest s' hs')⟩

/-- When the steps that meet `cond` keep `I`, every other step leads from `I`
to `J`, and no step leads out of `J`, a run ends in `I` or in `J`: that depends
on whether its steps all meet the condition. -/
theorem run_splits {I J : σ → Prop} {P cond : σ → α → Prop}
    (hgood : ∀ {s a s'}, I s → P s a → cond s a → step s a = some s' → I s')
    (hbad : ∀ {s a s'}, I s → P s a → ¬ cond s a → step s a = some s' → J s')
    (hkeep : ∀ {s a s'}, J s → P s a → step s a = some s' → J s')
    (hI : I s) (hP : Along step P s as) (hrun : run step s as = some s') :
    (Along step cond s as ∧ I s') ∨ (¬ Along step cond s as ∧ J s') := by
  induction as generalizing s with
  | nil =>
      obtain rfl : s = s' := Option.some.inj hrun
      exact Or.inl ⟨trivial, hI⟩
  | cons a as ih =>
      rw [run_cons] at hrun
      obtain ⟨s₁, hs₁, hrest⟩ := Option.bind_eq_some_iff.mp hrun
      by_cases hcond : cond s a
      · rcases ih (hgood hI hP.1 hcond hs₁) (hP.2 s₁ hs₁) hrest with ⟨halong, hend⟩ | ⟨hno, hend⟩
        · exact Or.inl ⟨Along.cons hcond hs₁ halong, hend⟩
        · exact Or.inr ⟨fun halong => hno (halong.2 s₁ hs₁), hend⟩
      · refine Or.inr ⟨fun halong => hcond halong.1, ?_⟩
        exact run_invariant hkeep (hbad hI hP.1 hcond hs₁) (hP.2 s₁ hs₁) hrest

theorem run_iff_along {I Q : σ → Prop} {P cond : σ → α → Prop}
    (hstep : ∀ {s a s'}, I s → P s a → step s a = some s' → I s' ∧ (Q s' ↔ Q s ∧ cond s a))
    (hI : I s) (hQ : Q s) (hP : Along step P s as) (hrun : run step s as = some s') :
    Q s' ↔ Along step cond s as := by
  have hall : Q s' ↔ Q s ∧ Along step cond s as := by
    clear hQ
    induction as generalizing s with
    | nil =>
        obtain rfl : s = s' := Option.some.inj hrun
        exact (and_iff_left trivial).symm
    | cons a as ih =>
        rw [run_cons] at hrun
        obtain ⟨s₁, hs₁, hrest⟩ := Option.bind_eq_some_iff.mp hrun
        obtain ⟨hI₁, hiff⟩ := hstep hI hP.1 hs₁
        rw [ih hI₁ (hP.2 s₁ hs₁) hrest, hiff, and_assoc]
        refine and_congr_right fun _ => ⟨fun ⟨hcond, halong⟩ => Along.cons hcond hs₁ halong, ?_⟩
        exact fun halong => ⟨halong.1, halong.2 s₁ hs₁⟩
  exact hall.trans (and_iff_right hQ)

end Runs
