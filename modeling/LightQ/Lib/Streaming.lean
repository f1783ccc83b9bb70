/-
# `Lib.Streaming` — transducers that are called window by window

A transducer is called with a window of its input and some room for its output.
It reports how much of the window it has consumed, what it has produced, and how
it stands.  `Reached` is what calls one after the other come to, whatever windows
and room they are given; the state is told together with all that has been
consumed and produced.

What has been consumed of a window and what is left of it make up the input
(`take_append_drop_append`), so that a caller who hands in the rest again, or a
new window behind it, hands in the same stream.

A loop of calls comes to an end when each of them moves something: `left` is what
there still is to move, the rest of the window and of the output, and a call that
moves something leaves less (`left_lt`).  No call has to fill its room or to empty
its window.  A computation that is given fuel `Returns` a value if there is enough
of it; there is at most one such value (`Returns.unique`).
-/
import Mathlib.Data.List.Basic

namespace Streaming

variable {σ α β R : Type*}

/-- What a call reports, and the state behind it. -/
structure Call (σ β R : Type*) where
  res : R
  consumed : Nat
  produced : List β
  state : σ

/-- It has not moved more than it was asked to. -/
structure Call.Fits (c : Call σ β R) (window : List α) (room : Nat) : Prop where
  consumed_le : c.consumed ≤ window.length
  length_produced_le : c.produced.length ≤ room

/-- What is reached from `s₀` by calls that all report `ok`; `i₀` and `o₀` are what
was consumed and produced before. -/
inductive Reached (call : σ → List α → Nat → Call σ β R) (ok : R) (s₀ : σ) (i₀ : List α)
    (o₀ : List β) : σ → List α → List β → Prop where
  | start : Reached call ok s₀ i₀ o₀ s₀ i₀ o₀
  | next {s : σ} {i : List α} {o : List β} (window : List α) (room : Nat) :
      Reached call ok s₀ i₀ o₀ s i o → (call s window room).res = ok →
      Reached call ok s₀ i₀ o₀ (call s window room).state
        (i ++ window.take (call s window room).consumed) (o ++ (call s window room).produced)

/-- A computation that is given fuel returns `a` if there is enough of it. -/
def Returns {γ : Type*} (f : Nat → Option γ) (a : γ) : Prop :=
  ∃ enough, ∀ fuel, enough ≤ fuel → f fuel = some a

theorem Returns.unique {γ : Type*} {f : Nat → Option γ} {a b : γ} (ha : Returns f a)
    (hb : Returns f b) : a = b := by
  obtain ⟨n, hn⟩ := ha
  obtain ⟨m, hm⟩ := hb
  exact Option.some.inj
    ((hn _ (Nat.le_max_left n m)).symm.trans (hm _ (Nat.le_max_right n m)))

theorem Returns.now {γ : Type*} {f : Nat → Option γ} {a : γ} (h : ∀ fuel, f (fuel + 1) = some a) :
    Returns f a := by
  refine ⟨1, fun fuel hfuel => ?_⟩
  obtain ⟨fuel, rfl⟩ := Nat.exists_eq_add_one.mpr hfuel
  exact h fuel

theorem Returns.later {γ : Type*} {f g : Nat → Option γ} {a : γ} (hg : Returns g a)
    (h : ∀ fuel, f (fuel + 1) = g fuel) : Returns f a := by
  obtain ⟨enough, hg⟩ := hg
  refine ⟨enough + 1, fun fuel hfuel => ?_⟩
  obtain ⟨fuel, rfl⟩ := Nat.exists_eq_add_one.mpr (Nat.lt_of_lt_of_le (Nat.succ_pos _) hfuel)
  rw [h, hg fuel (Nat.le_of_succ_le_succ hfuel)]

/-- What there is to move: the rest of the window and of the output. -/
def left (window : List α) (o output : List β) : Nat :=
  window.length + (output.length - o.length)

/-- A call that moves something leaves less. -/
theorem left_lt {window : List α} {o output p : List β} {k : Nat} (hk : k ≤ window.length)
    (ho : o ++ p <+: output) (hmoves : 0 < k ∨ p ≠ []) :
    left (window.drop k) (o ++ p) output < left window o output := by
  have hle := ho.length_le
  rw [List.length_append] at hle
  rw [left, left, List.length_drop, List.length_append]
  rcases hmoves with hpos | hne
  · omega
  · have hpos := List.length_pos_iff.mpr hne
    omega

theorem take_append_drop_append {i window input : List α} (h : i ++ window = input) (k : Nat) :
    i ++ window.take k ++ window.drop k = input := by
  rw [List.append_assoc, List.take_append_drop, h]

end Streaming
