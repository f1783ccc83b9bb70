/-
# `Lib.Episodes` — traces made of episodes

A trace is a list of events.  Some events open an episode, some close one;
in a `Closed` trace every episode that was opened has been closed, with no
other opening or closing in between, and satisfied `Good`, which may also
look at the trace before it.

A run that keeps its trace `Closed` outside of episodes and `Open` inside of
one has proved `Good` of every episode that is over, wherever it lies in the
trace: `Closed.good` and `Open.good`.

Both rest on two facts about lists.  An event in a concatenation lies in its
left part or in its right part (`split_append`); and an episode ends where it
is closed first (`Over.good`), so that the episode which a reader of the
trace cuts out of it, from an opening to a closing with neither in between,
is the one that the run went through.

Nothing is assumed of the events but that one can tell an opening and a
closing: a call and its return, a lock and its release, a session.
-/
import Mathlib.Data.List.Basic

namespace Episodes

variable {ε : Type*}

/-- The kinds of events and what is asked of an episode: of the trace before
it, its opening event and the events in it. -/
structure Spec (ε : Type*) where
  opens : ε → Bool
  closes : ε → Bool
  Good : List ε → ε → List ε → Prop

variable {S : Spec ε}

/-- An event that neither opens nor closes. -/
def Spec.Inside (S : Spec ε) (e : ε) : Prop := S.opens e = false ∧ S.closes e = false

/-- A trace in which every episode is over. -/
inductive Closed (S : Spec ε) : List ε → Prop
  | nil : Closed S []
  | outside {t : List ε} {e : ε} : Closed S t → S.opens e = false → Closed S (t ++ [e])
  | episode {t body : List ε} {e c : ε} : Closed S t → S.opens e = true →
      (∀ b ∈ body, S.Inside b) → S.closes c = true → S.opens c = false → S.Good t e body →
      Closed S (t ++ e :: (body ++ [c]))

/-- The episode that `e` opens, as far as `post` goes, is over and good. -/
def Over (S : Spec ε) (pre : List ε) (e : ε) (post : List ε) : Prop :=
  ∃ body c rest, post = body ++ c :: rest ∧ (∀ b ∈ body, S.closes b = false) ∧
    S.closes c = true ∧ S.Good pre e body

theorem Over.append {pre post : List ε} {e : ε} (h : Over S pre e post) (more : List ε) :
    Over S pre e (post ++ more) := by
  obtain ⟨body, c, rest, rfl, hbody, hc, hgood⟩ := h
  exact ⟨body, c, rest ++ more, by simp, hbody, hc, hgood⟩

theorem split_append {s t pre post : List ε} {e : ε} (h : s ++ t = pre ++ e :: post) :
    (∃ rest, s = pre ++ e :: rest ∧ post = rest ++ t) ∨
      ∃ more, pre = s ++ more ∧ t = more ++ e :: post := by
  rcases List.append_eq_append_iff.mp h with ⟨more, hpre, ht⟩ | ⟨rest, hs, hpost⟩
  · exact Or.inr ⟨more, hpre, ht⟩
  · cases rest with
    | nil => exact Or.inr ⟨[], by simpa using hs.symm, hpost.symm⟩
    | cons x rest =>
        obtain ⟨rfl, hrest⟩ := List.cons.inj hpost
        exact Or.inl ⟨rest, hs, hrest⟩

theorem Closed.good {t pre post : List ε} {e : ε} (h : Closed S t) (hsplit : t = pre ++ e :: post)
    (he : S.opens e = true) : Over S pre e post := by
  induction h generalizing pre post with
  | nil => exact absurd hsplit (by simp)
  | outside _ hout ih =>
      rcases split_append hsplit with ⟨rest, hs, rfl⟩ | ⟨more, -, ht⟩
      · exact (ih hs).append _
      · have hmem : e ∈ more ++ e :: post := List.mem_append_right _ List.mem_cons_self
        rw [← ht, List.mem_singleton] at hmem
        rw [hmem, hout] at he
        exact absurd he (by simp)
  | @episode t body e₀ c _ _ hbody hc hout hgood ih =>
      rcases split_append hsplit with ⟨rest, hs, rfl⟩ | ⟨more, rfl, ht⟩
      · exact (ih hs).append _
      · cases more with
        | nil =>
            obtain ⟨rfl, rfl⟩ := List.cons.inj ht
            rw [List.append_nil]
            exact ⟨body, c, [], rfl, fun b hb => (hbody b hb).2, hc, hgood⟩
        | cons x more =>
            -- nothing after the opening event opens
            have hrest : body ++ [c] = more ++ e :: post := (List.cons.inj ht).2
            have hmem : e ∈ more ++ e :: post := List.mem_append_right _ List.mem_cons_self
            rw [← hrest] at hmem
            rcases List.mem_append.mp hmem with hb | hc'
            · rw [(hbody e hb).1] at he
              exact absurd he (by simp)
            · rw [List.mem_singleton.mp hc', hout] at he
              exact absurd he (by simp)

/-- A trace that ends inside an episode. -/
structure Open (S : Spec ε) (t : List ε) (e : ε) (body : List ε) : Prop where
  closed : Closed S t
  opens : S.opens e = true
  inside : ∀ b ∈ body, S.Inside b

theorem Open.snoc {t body : List ε} {e b : ε} (h : Open S t e body) (hb : S.Inside b) :
    Open S t e (body ++ [b]) where
  closed := h.closed
  opens := h.opens
  inside := by
    intro x hx
    rcases List.mem_append.mp hx with hx | hx
    · exact h.inside x hx
    · exact List.mem_singleton.mp hx ▸ hb

/-- An episode of an open trace that is over is good. -/
theorem Open.good {t body pre post : List ε} {e e' : ε} (h : Open S t e body)
    (hsplit : t ++ e :: body = pre ++ e' :: post) (he' : S.opens e' = true)
    (hover : ∃ c ∈ post, S.closes c = true) : Over S pre e' post := by
  rcases split_append hsplit with ⟨rest, hs, rfl⟩ | ⟨more, -, ht⟩
  · exact (h.closed.good hs he').append _
  · obtain ⟨c, hmem, hc⟩ := hover
    cases more with
    | nil =>
        obtain ⟨-, rfl⟩ := List.cons.inj ht
        rw [(h.inside c hmem).2] at hc
        exact absurd hc (by simp)
    | cons x more =>
        obtain ⟨-, rfl⟩ := List.cons.inj ht
        rw [(h.inside e' (by simp)).1] at he'
        exact absurd he' (by simp)

theorem Over.good {pre body rest : List ε} {e c : ε} (h : Over S pre e (body ++ c :: rest))
    (hbody : ∀ b ∈ body, S.closes b = false) (hc : S.closes c = true) : S.Good pre e body := by
  obtain ⟨body', c', rest', hsplit, hbody', hc', hgood⟩ := h
  rcases split_append hsplit with ⟨more, hs, -⟩ | ⟨more, hs, ht⟩
  · rw [hbody c' (by rw [hs]; simp)] at hc'
    exact absurd hc' (by simp)
  · cases more with
    | nil =>
        rw [List.append_nil] at hs
        exact hs ▸ hgood
    | cons x more =>
        obtain ⟨rfl, -⟩ := List.cons.inj ht
        rw [hbody' c (by rw [hs]; simp)] at hc
        exact absurd hc (by simp)

end Episodes
