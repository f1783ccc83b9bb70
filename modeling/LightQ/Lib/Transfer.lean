/-
# `Lib.Transfer` — loops that move a buffer piece by piece

A stream is written and read by calls that move some of what they are asked
to.  `put` is the loop that writes until nothing is left, `get` the one that
reads until it has enough.  What the calls do is a list of outcomes; behind
its end they move everything they can.

A loop that writes sends everything, or comes to a failure before
(`put_cases`), and a failure at the end is the last call that is used
(`put_failed_last`).  For a loop that reads, what is read and what is left make
up the stream (`get_append`), and a call that moves something takes it from the
front (`get_moved`).

  * As long as every call moves something the loops do not show how the stream
    was cut: everything is written (`put_positive`), and what is asked for is
    read, and no more (`get_positive`, `length_of_complete`).
  * With too little to read the loop comes to the end of the stream
    (`get_short`) and has read what there was (`get_short_rest`).
  * A failure that strikes a loop in its course does show.  A loop none of
    whose calls fails reads what it is asked for (`get_smooth`); one with a
    call that does has read less (`get_disturbed`), though something if its
    first call moved something (`get_data_pos`).

A loop that reads uses up a call, or some of the stream, as long as there is
either (`get_progress`), so that one that is taken up again and again gets to
its end; the first call that does not fail moves something (`resumed_head`).
-/
import Mathlib.Data.List.Basic

namespace Transfer

variable {α ε : Type*}

/-- One call moves at most `count` elements, or it fails. -/
inductive Outcome (ε : Type*) where
  | moved (count : Nat)
  | failed (e : ε)
deriving DecidableEq, Repr

/-- Every call moves something. -/
def Positive (calls : List (Outcome ε)) : Prop := ∀ r ∈ calls, ∃ k, r = .moved (k + 1)

/-- How a loop that writes ends: what it sent, the failure, if any, and the
calls to come. -/
structure Put (α ε : Type*) where
  sent : List α
  failed : Option ε
  calls : List (Outcome ε)

/-- How a loop that reads ends: with enough, with a call that moved nothing,
or with a failure. -/
inductive Status (ε : Type*) where
  | complete
  | ended
  | failed (e : ε)
deriving DecidableEq, Repr

structure Got (α ε : Type*) where
  data : List α
  rest : List α
  status : Status ε
  calls : List (Outcome ε)

/-- `while (remaining > 0)` over calls that write. -/
def put (buf : List α) : List (Outcome ε) → Put α ε
  | [] => ⟨buf, none, []⟩
  | r :: calls =>
      match buf with
      | [] => ⟨[], none, r :: calls⟩
      | _ :: _ =>
          match r with
          | .failed e => ⟨[], some e, calls⟩
          | .moved k =>
              let p := put (buf.drop k) calls
              { p with sent := buf.take k ++ p.sent }

/-- `while (remaining > 0)` over calls that read.  A call that moves nothing
ends the loop if `stop` is set. -/
def get (stop : Bool) (need : Nat) (inp : List α) : List (Outcome ε) → Got α ε
  | [] =>
      if need ≤ inp.length then ⟨inp.take need, inp.drop need, .complete, []⟩
      else ⟨inp, [], .ended, []⟩
  | r :: calls =>
      match need with
      | 0 => ⟨[], inp, .complete, r :: calls⟩
      | _ + 1 =>
          match r with
          | .failed e => ⟨[], inp, .failed e, calls⟩
          | .moved k =>
              let data := inp.take (min k need)
              if stop ∧ data = [] then ⟨[], inp, .ended, calls⟩
              else
                let g := get stop (need - data.length) (inp.drop data.length) calls
                { g with data := data ++ g.data }

theorem put_cases (buf : List α) (calls : List (Outcome ε)) :
    ((put buf calls).failed = none ∧ (put buf calls).sent = buf) ∨
      ∃ e, (put buf calls).failed = some e ∧ .failed e ∈ calls ∧
        (put buf calls).sent.length < buf.length := by
  induction calls generalizing buf with
  | nil => exact Or.inl ⟨rfl, rfl⟩
  | cons r calls ih =>
      cases buf with
      | nil => exact Or.inl ⟨rfl, rfl⟩
      | cons a buf =>
          cases r with
          | failed e => exact Or.inr ⟨e, rfl, List.mem_cons_self, Nat.succ_pos _⟩
          | moved k =>
              rcases ih ((a :: buf).drop k) with ⟨hnone, hsent⟩ | ⟨e, hfailed, hmem, hless⟩
              · refine Or.inl ⟨hnone, ?_⟩
                rw [put, hsent]
                exact List.take_append_drop k (a :: buf)
              · refine Or.inr ⟨e, hfailed, List.mem_cons_of_mem _ hmem, ?_⟩
                rw [List.length_drop] at hless
                rw [put, List.length_append, List.length_take]
                omega

/-- What is read and what is left make up the stream. -/
theorem get_append (stop : Bool) (need : Nat) (inp : List α) (calls : List (Outcome ε)) :
    (get stop need inp calls).data ++ (get stop need inp calls).rest = inp := by
  induction calls generalizing need inp with
  | nil =>
      rw [get]
      split
      · exact List.take_append_drop need inp
      · exact List.append_nil inp
  | cons r calls ih =>
      cases need with
      | zero => rfl
      | succ need =>
          cases r with
          | failed e => rfl
          | moved k =>
              simp only [get]
              split
              · rfl
              · rw [List.append_assoc, ih]
                exact List.prefix_iff_eq_append.mp (List.take_prefix _ _)

/-- How many of `avail` elements the calls deliver before one of them fails. -/
def reach (avail : Nat) : List (Outcome ε) → Nat
  | [] => avail
  | .failed _ :: _ => 0
  | .moved k :: calls => min k avail + reach (avail - min k avail) calls

theorem reach_le (avail : Nat) (calls : List (Outcome ε)) : reach avail calls ≤ avail := by
  induction calls generalizing avail with
  | nil => exact Nat.le_refl _
  | cons r calls ih =>
      cases r with
      | failed e => exact Nat.zero_le _
      | moved k =>
          have hrest := ih (avail - min k avail)
          rw [reach]
          omega

theorem length_get_data (need : Nat) (inp : List α) (calls : List (Outcome ε)) :
    (get false need inp calls).data.length = min need (reach inp.length calls) := by
  induction calls generalizing need inp with
  | nil =>
      rw [get, reach]
      split
      · rw [List.length_take]
      · next hshort => exact (Nat.min_eq_right (Nat.le_of_not_le hshort)).symm
  | cons r calls ih =>
      cases need with
      | zero => exact (Nat.zero_min _).symm
      | succ need =>
          cases r with
          | failed e => exact (Nat.min_zero _).symm
          | moved k =>
              have hle := reach_le (inp.length - min k inp.length) calls
              simp only [get, reach, Bool.false_eq_true, false_and, if_false]
              rw [List.length_append, ih, List.length_take, List.length_drop]
              rcases Nat.lt_or_ge k (need + 1) with hless | hall
              · rw [Nat.min_eq_left (Nat.le_of_lt hless)]
                omega
              · have hnone := reach_le (inp.length - min (need + 1) inp.length) calls
                rw [Nat.min_eq_right hall]
                omega

section Smooth

variable {calls : List (Outcome ε)}

/-- No call comes back with nothing. -/
def Moving (calls : List (Outcome ε)) : Prop := ∀ r ∈ calls, r ≠ .moved 0

/-- The calls that are left when `need` elements have been moved, if none fails
on the way. -/
def smooth (need : Nat) : List (Outcome ε) → Option (List (Outcome ε))
  | [] => some []
  | r :: calls =>
      match need with
      | 0 => some (r :: calls)
      | _ + 1 =>
          match r with
          | .failed _ => none
          | .moved k => smooth (need - k) calls

theorem Moving.tail {r : Outcome ε} (h : Moving (r :: calls)) : Moving calls :=
  fun r' hr' => h r' (List.mem_cons_of_mem r hr')

theorem get_moved (stop : Bool) {need k : Nat} {inp : List α} (hneed : need + 1 ≤ inp.length)
    (calls : List (Outcome ε)) :
    ∃ front back, inp = front ++ back ∧ front.length = min (k + 1) (need + 1) ∧
      need - k ≤ back.length ∧
      get stop (need + 1) inp (.moved (k + 1) :: calls)
        = { get stop (need - k) back calls with
            data := front ++ (get stop (need - k) back calls).data } := by
  have hlen : (inp.take (min (k + 1) (need + 1))).length = min (k + 1) (need + 1) :=
    List.length_take_of_le (by omega)
  have hsome : inp.take (min (k + 1) (need + 1)) ≠ [] := by
    intro hnil
    rw [hnil, List.length_nil] at hlen
    omega
  have hleft : need + 1 - min (k + 1) (need + 1) = need - k := by omega
  refine ⟨inp.take (min (k + 1) (need + 1)), inp.drop (min (k + 1) (need + 1)),
    (List.take_append_drop _ _).symm, hlen, ?_, ?_⟩
  · rw [List.length_drop]
    omega
  · simp only [get, hlen, hsome, and_false, if_false, hleft]

/-- A loop none of whose calls fails reads what it is asked for, and no more. -/
theorem get_smooth (stop : Bool) {need : Nat} {inp : List α} {calls' : List (Outcome ε)}
    (h : Moving calls) (hneed : need ≤ inp.length) (hsmooth : smooth need calls = some calls') :
    get stop need inp calls = ⟨inp.take need, inp.drop need, .complete, calls'⟩ := by
  induction calls generalizing need inp with
  | nil =>
      obtain rfl := Option.some.inj hsmooth
      rw [get, if_pos hneed]
  | cons r calls ih =>
      cases need with
      | zero =>
          obtain rfl := Option.some.inj hsmooth
          rfl
      | succ need =>
          cases r with
          | failed e => cases hsmooth
          | moved k =>
              cases k with
              | zero => exact absurd rfl (h (.moved 0) List.mem_cons_self)
              | succ k =>
                  rw [smooth, Nat.succ_sub_succ] at hsmooth
                  obtain ⟨front, back, rfl, hfront, hback, hget⟩ := get_moved stop (k := k) hneed calls
                  have hneeded : need + 1 = front.length + (need - k) := by omega
                  rw [hget, ih h.tail hback hsmooth, hneeded, List.take_length_add_append,
                    List.drop_length_add_append]

theorem get_disturbed (stop : Bool) {need : Nat} {inp : List α} (h : Moving calls)
    (hneed : need ≤ inp.length) (hsmooth : smooth need calls = none) :
    (∃ e, .failed e ∈ calls ∧ (get stop need inp calls).status = .failed e) ∧
      (get stop need inp calls).data.length < need := by
  induction calls generalizing need inp with
  | nil => cases hsmooth
  | cons r calls ih =>
      cases need with
      | zero => cases hsmooth
      | succ need =>
          cases r with
          | failed e => exact ⟨⟨e, List.mem_cons_self, rfl⟩, Nat.succ_pos need⟩
          | moved k =>
              cases k with
              | zero => exact absurd rfl (h (.moved 0) List.mem_cons_self)
              | succ k =>
                  rw [smooth, Nat.succ_sub_succ] at hsmooth
                  obtain ⟨front, back, rfl, hfront, hback, hget⟩ := get_moved stop (k := k) hneed calls
                  obtain ⟨⟨e, hmem, hstatus⟩, hless⟩ := ih h.tail hback hsmooth
                  rw [hget, List.length_append]
                  exact ⟨⟨e, List.mem_cons_of_mem _ hmem, hstatus⟩, by omega⟩

theorem get_data_pos (stop : Bool) {need k : Nat} {inp : List α} (hneed : need + 1 ≤ inp.length)
    (calls : List (Outcome ε)) :
    0 < (get stop (need + 1) inp (.moved (k + 1) :: calls)).data.length := by
  obtain ⟨front, back, -, hfront, -, hget⟩ := get_moved stop (k := k) hneed calls
  rw [hget, List.length_append]
  omega

end Smooth

section Positive

variable {calls : List (Outcome ε)} {r : Outcome ε}

theorem positive_map (ks : List Nat) :
    Positive (ks.map fun k => (.moved (k + 1) : Outcome ε)) := by
  intro r hr
  obtain ⟨k, -, rfl⟩ := List.mem_map.mp hr
  exact ⟨k, rfl⟩

theorem Positive.tail (h : Positive (r :: calls)) : Positive calls :=
  fun r' hr' => h r' (List.mem_cons_of_mem r hr')

theorem Positive.head (h : Positive (r :: calls)) : ∃ k, r = .moved (k + 1) :=
  h r List.mem_cons_self

theorem put_failed_last (h : Positive calls) {buf : List α} {e : ε}
    (hfailed : (put buf (calls ++ [.failed e])).failed ≠ none) :
    (put buf (calls ++ [.failed e])).calls = [] := by
  induction calls generalizing buf with
  | nil =>
      cases buf with
      | nil => exact absurd rfl hfailed
      | cons a buf => rfl
  | cons r calls ih =>
      cases buf with
      | nil => exact absurd rfl hfailed
      | cons a buf =>
          obtain ⟨k, rfl⟩ := h.head
          exact ih h.tail hfailed

/-- Everything is written. -/
theorem put_positive (h : Positive calls) (buf : List α) :
    ∃ calls', put buf calls = ⟨buf, none, calls'⟩ ∧ Positive calls' := by
  induction calls generalizing buf with
  | nil => exact ⟨[], rfl, h⟩
  | cons r calls ih =>
      cases buf with
      | nil => exact ⟨r :: calls, rfl, h⟩
      | cons a buf =>
          obtain ⟨k, rfl⟩ := h.head
          obtain ⟨calls', heq, hpos⟩ := ih h.tail ((a :: buf).drop (k + 1))
          exact ⟨calls', by simp only [put, heq, List.take_append_drop], hpos⟩

theorem Positive.moving (h : Positive calls) : Moving calls := by
  intro r hr
  obtain ⟨k, rfl⟩ := h r hr
  intro hzero
  cases hzero

theorem smooth_positive (h : Positive calls) (need : Nat) :
    ∃ calls', smooth need calls = some calls' ∧ Positive calls' := by
  induction calls generalizing need with
  | nil => exact ⟨[], rfl, h⟩
  | cons r calls ih =>
      cases need with
      | zero => exact ⟨r :: calls, rfl, h⟩
      | succ need =>
          obtain ⟨k, rfl⟩ := h.head
          exact ih h.tail _

/-- What is asked for is read, and no more. -/
theorem get_positive (h : Positive calls) (stop : Bool) {need : Nat} {inp : List α}
    (hneed : need ≤ inp.length) :
    ∃ calls', get stop need inp calls = ⟨inp.take need, inp.drop need, .complete, calls'⟩ ∧
      Positive calls' := by
  obtain ⟨calls', hsmooth, hpos⟩ := smooth_positive h need
  exact ⟨calls', get_smooth stop h.moving hneed hsmooth, hpos⟩

theorem get_short (h : Positive calls) (stop : Bool) {need : Nat} {inp : List α}
    (hshort : inp.length < need) : (get stop need inp calls).status = .ended := by
  induction calls generalizing need inp with
  | nil => rw [get, if_neg (Nat.not_le.mpr hshort)]
  | cons r calls ih =>
      cases need with
      | zero => exact absurd hshort (Nat.not_lt_zero _)
      | succ need =>
          obtain ⟨k, rfl⟩ := h.head
          simp only [get]
          split
          · rfl
          · exact ih h.tail (by rw [List.length_drop, List.length_take]; omega)

theorem get_short_rest (h : Positive calls) {need : Nat} {inp : List α}
    (hshort : inp.length < need) :
    ∃ data calls', get true need inp calls = ⟨data, [], .ended, calls'⟩ ∧ Positive calls' := by
  induction calls generalizing need inp with
  | nil => exact ⟨inp, [], by rw [get, if_neg (Nat.not_le.mpr hshort)], h⟩
  | cons r calls ih =>
      cases need with
      | zero => exact absurd hshort (Nat.not_lt_zero _)
      | succ need =>
          obtain ⟨k, rfl⟩ := h.head
          simp only [get]
          split
          · next hnone =>
              have hempty : inp = [] := by
                rcases List.take_eq_nil_iff.mp hnone.2 with hzero | hnil
                · omega
                · exact hnil
              exact ⟨[], calls, by rw [hempty], h.tail⟩
          · have hleft : (inp.drop (inp.take (min (k + 1) (need + 1))).length).length
                < need + 1 - (inp.take (min (k + 1) (need + 1))).length := by
              rw [List.length_drop, List.length_take]
              omega
            obtain ⟨data, calls', heq, hpos⟩ := ih h.tail hleft
            exact ⟨_, calls', by rw [heq], hpos⟩

end Positive

section Progress

variable (stop : Bool) {calls : List (Outcome ε)}

theorem get_le (need : Nat) (inp : List α) (calls : List (Outcome ε)) :
    (get stop need inp calls).rest.length ≤ inp.length ∧
      (get stop need inp calls).calls.length ≤ calls.length := by
  induction calls generalizing need inp with
  | nil =>
      rw [get]
      split
      · exact ⟨by rw [List.length_drop]; omega, Nat.le_refl _⟩
      · exact ⟨Nat.zero_le _, Nat.le_refl _⟩
  | cons r calls ih =>
      cases need with
      | zero => exact ⟨Nat.le_refl _, Nat.le_refl _⟩
      | succ need =>
          cases r with
          | failed e => exact ⟨Nat.le_refl _, Nat.le_succ _⟩
          | moved k =>
              simp only [get]
              split
              · exact ⟨Nat.le_refl _, Nat.le_succ _⟩
              · obtain ⟨hrest, hcalls⟩ := ih (need + 1 - (inp.take (min k (need + 1))).length)
                  (inp.drop (inp.take (min k (need + 1))).length)
                refine ⟨Nat.le_trans hrest ?_, Nat.le_succ_of_le hcalls⟩
                rw [List.length_drop]
                omega

theorem get_progress {need : Nat} {inp : List α} (hneed : 0 < need)
    (hsome : 0 < inp.length + calls.length) :
    (get stop need inp calls).rest.length + (get stop need inp calls).calls.length
      < inp.length + calls.length := by
  cases calls with
  | nil =>
      rw [List.length_nil, Nat.add_zero] at hsome
      rw [get]
      split
      · rw [List.length_drop]
        show inp.length - need + 0 < inp.length + 0
        omega
      · show 0 + 0 < inp.length + 0
        omega
  | cons r calls =>
      obtain ⟨need, rfl⟩ := Nat.exists_eq_succ_of_ne_zero (Nat.ne_of_gt hneed)
      cases r with
      | failed e =>
          show inp.length + calls.length < inp.length + (calls.length + 1)
          omega
      | moved k =>
          simp only [get]
          split
          · show inp.length + calls.length < inp.length + (calls.length + 1)
            omega
          · obtain ⟨hrest, hcalls⟩ := get_le stop (need.succ - (inp.take (min k need.succ)).length)
              (inp.drop (inp.take (min k need.succ)).length) calls
            rw [List.length_drop] at hrest
            rw [List.length_cons]
            dsimp only
            omega

theorem length_of_complete {need : Nat} {inp : List α}
    (h : (get stop need inp calls).status = .complete) :
    (get stop need inp calls).data.length = need := by
  induction calls generalizing need inp with
  | nil =>
      rw [get] at h ⊢
      split at h
      · next hle =>
          rw [if_pos hle]
          exact List.length_take_of_le hle
      · cases h
  | cons r calls ih =>
      cases need with
      | zero => rfl
      | succ need =>
          cases r with
          | failed e => cases h
          | moved k =>
              simp only [get] at h ⊢
              split at h
              · cases h
              · next hgo =>
                  rw [if_neg hgo, List.length_append, ih h, List.length_take]
                  omega

end Progress

section Interrupted

variable {e : ε} {calls : List (Outcome ε)} {r : Outcome ε}

/-- Every call moves something, or fails with `e`. -/
def Interrupted (e : ε) (calls : List (Outcome ε)) : Prop :=
  ∀ r ∈ calls, (∃ k, r = .moved (k + 1)) ∨ r = .failed e

theorem Positive.interrupted (h : Positive calls) (e : ε) : Interrupted e calls :=
  fun r hr => Or.inl (h r hr)

theorem Interrupted.moving (h : Interrupted e calls) : Moving calls := by
  intro r hr hzero
  rcases h r hr with ⟨k, rfl⟩ | rfl
  · cases hzero
  · cases hzero

theorem Interrupted.tail (h : Interrupted e (r :: calls)) : Interrupted e calls :=
  fun r' hr' => h r' (List.mem_cons_of_mem r hr')

theorem interrupted_failed {e' : ε} (h : Interrupted e calls) (hmem : .failed e' ∈ calls) :
    e' = e := by
  rcases h _ hmem with ⟨k, hmoved⟩ | hfailed
  · cases hmoved
  · exact Outcome.failed.inj hfailed

theorem interrupted_smooth {need : Nat} {calls' : List (Outcome ε)} (h : Interrupted e calls)
    (hsmooth : smooth need calls = some calls') : Interrupted e calls' := by
  induction calls generalizing need with
  | nil =>
      obtain rfl := Option.some.inj hsmooth
      exact h
  | cons r calls ih =>
      cases need with
      | zero =>
          obtain rfl := Option.some.inj hsmooth
          exact h
      | succ need =>
          cases r with
          | failed e' => cases hsmooth
          | moved k => exact ih h.tail hsmooth

variable [DecidableEq ε]

/-- The calls without those that fail with `e`. -/
def without (e : ε) (calls : List (Outcome ε)) : List (Outcome ε) :=
  calls.filter (· ≠ .failed e)

/-- The calls from the first that does not fail with `e`. -/
def resumed (e : ε) (calls : List (Outcome ε)) : List (Outcome ε) :=
  calls.dropWhile (· = .failed e)

theorem positive_without (h : Interrupted e calls) : Positive (without e calls) := by
  intro r hr
  obtain ⟨hmem, hne⟩ := List.mem_filter.mp hr
  exact (h r hmem).resolve_right (of_decide_eq_true hne)

theorem interrupted_resumed (h : Interrupted e calls) : Interrupted e (resumed e calls) :=
  fun r hr => h r ((List.dropWhile_sublist _).mem hr)

theorem resumed_head (h : Interrupted e calls) {rest : List (Outcome ε)}
    (hcons : resumed e calls = r :: rest) : ∃ k, r = .moved (k + 1) := by
  have hmem : r ∈ resumed e calls := hcons ▸ List.mem_cons_self
  have hne : ¬ decide (r = .failed e) = true := by
    have hhead := List.head?_dropWhile_not (· = Outcome.failed e) calls
    rw [show calls.dropWhile (· = Outcome.failed e) = r :: rest from hcons] at hhead
    simpa using hhead
  exact (interrupted_resumed h r hmem).resolve_right fun heq => hne (decide_eq_true heq)

theorem positive_resumed (e : ε) (h : Positive calls) : Positive (resumed e calls) :=
  fun r hr => h r ((List.dropWhile_sublist _).mem hr)

end Interrupted

end Transfer
