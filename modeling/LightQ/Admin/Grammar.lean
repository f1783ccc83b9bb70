/-
# `Admin.Grammar` — the texts that the JSON reader accepts (`thirdparty/picojson.h`)

The grammar of the values, as the parser has it, with what each text stands
for.  `parse` succeeds exactly on the texts that start with one of them
(`parse_eq_some`), and its value is the one of the grammar: there is no other
way to read the text.  Where it differs from JSON: what follows the value is
free, a numeral is whatever `strtoimax` or `strtod` takes, and of equal keys
the last one counts.

A number ends where no byte can belong to it; within an array or an object
this is always so, since white space, a comma or the closing byte follows.

The grammar is an inductive relation between texts and values, with a
constructor for each kind of value and the loops of the parser as lists of
elements.  Both directions go by the parser's own recursion.  That every text of
the grammar is read is by induction on the derivation.  That nothing else is, is
by induction on the fuel: an element is read with the space behind it
(`item_of_sound`; what is skipped is white space, `skipWs_split`), a group is empty
or consists of what its turns read (`parseGroup_sound`), and a number is read as far
as its bytes go (`parseNumber_sound`).  Strings are `Admin.StringText`.
-/
import LightQ.Admin.JsonText
import LightQ.Admin.StringText

namespace LightQ

namespace Picojson

/-! ## The grammar -/

def Ws (w : Bytes) : Prop := ∀ b ∈ w, isWs b = true

/-- The object of some members, each assigned after the ones before it. -/
def assignAll (es : List (Bytes × Value)) : List (Bytes × Value) :=
  es.foldl (fun o e => OrderedMap.assign e.1 e.2 o) []

mutual

/-- The text of a value. -/
inductive Text : Value → Bytes → Prop
  | null : Text .null (ascii "null")
  | true : Text (.boolean true) (ascii "true")
  | false : Text (.boolean false) (ascii "false")
  | number {v : Value} {ch : UInt8} {ds : Bytes} : (isDigit ch || ch = 0x2d) = true →
      (∀ b ∈ ds, isNumberByte b = true) → numberValue (ch :: ds) = .ok v → Text v (ch :: ds)
  | string {s t : Bytes} : StringText t s → Text (.string s) (quote :: (t ++ [quote]))
  | emptyArray {w : Bytes} : Ws w → Text (.array []) (0x5b :: (w ++ [0x5d]))
  | array {a : List Value} {t : Bytes} : Reader.Separated 0x2c Item a t →
      Text (.array a) (0x5b :: (t ++ [0x5d]))
  | emptyObject {w : Bytes} : Ws w → Text (.object []) (0x7b :: (w ++ [0x7d]))
  | object {es : List (Bytes × Value)} {t : Bytes} : Reader.Separated 0x2c Pair es t →
      Text (.object (assignAll es)) (0x7b :: (t ++ [0x7d]))

/-- An element of an array, with the space around it. -/
inductive Item : Value → Bytes → Prop
  | mk {v : Value} {w t w' : Bytes} : Ws w → Text v t → Ws w' → Item v (w ++ (t ++ w'))

/-- A key and its value. -/
inductive Pair : Bytes × Value → Bytes → Prop
  | mk {key k : Bytes} {v : Value} {w w' t : Bytes} : Ws w → StringText k key → Ws w' →
      Item v t → Pair (key, v) (w ++ quote :: (k ++ quote :: (w' ++ 0x3a :: t)))

end

/-- `is<double>()`, which an integer is as well. -/
def Value.isDouble : Value → Bool
  | .int64 _ | .number _ => true
  | _ => false

/-- A number has to be followed by a byte that cannot belong to it. -/
def Ends (v : Value) (inp : Bytes) : Prop := v.isDouble = true → EndsNumber inp

theorem ends_of_eq_false {v : Value} (h : v.isDouble = false) (inp : Bytes) : Ends v inp :=
  fun hd => absurd (h.symm.trans hd) Bool.false_ne_true

/-! ## White space -/

theorem skipWs_append {w : Bytes} (h : Ws w) (inp : Bytes) : skipWs (w ++ inp) = skipWs inp :=
  List.dropWhile_append_of_pos h

theorem skipWs_split (inp : Bytes) : ∃ w, Ws w ∧ inp = w ++ skipWs inp :=
  ⟨inp.takeWhile isWs, fun _ hb => List.mem_takeWhile_imp hb,
    List.takeWhile_append_dropWhile.symm⟩

theorem expect_eq_true {ch : UInt8} {inp rest : Bytes} (h : expect ch inp = (true, rest)) :
    skipWs inp = ch :: rest := by
  unfold expect at h
  split at h
  · cases h
  · next b rest' hskip =>
      split at h
      · next hb =>
          cases h
          rw [hskip, hb]
      · cases h

theorem expect_eq_false {ch : UInt8} {inp rest : Bytes} (h : expect ch inp = (false, rest)) :
    rest = skipWs inp := by
  unfold expect at h
  split at h
  · next hskip =>
      cases h
      exact hskip.symm
  · next b rest' hskip =>
      split at h
      · cases h
      · cases h
        exact hskip.symm

theorem expect_ws {ch : UInt8} (hch : isWs ch = false) {w : Bytes} (h : Ws w) (inp : Bytes) :
    expect ch (w ++ ch :: inp) = (true, inp) := by
  rw [expect_of_skipWs ((skipWs_append h _).trans (skipWs_cons hch inp)), if_pos rfl]

theorem endsNumber_ws {w inp : Bytes} (hw : Ws w) (h : EndsNumber inp) : EndsNumber (w ++ inp) := by
  cases w with
  | nil => exact h
  | cons b w =>
      refine endsNumber_cons ?_ _
      have hb : isWs b = true := hw b List.mem_cons_self
      simp only [isWs, Bool.or_eq_true, decide_eq_true_eq] at hb
      rcases hb with ((rfl | rfl) | rfl) | rfl <;> rfl

/-! ## What is accepted is in the grammar -/

/-- What is known of the elements: they are read as the grammar says. -/
def Sound (item : Reader UInt8 Failure Value) : Prop :=
  ∀ inp v rest, item inp = .ok (v, rest) →
    ∃ w t, Ws w ∧ Text v t ∧ Ends v rest ∧ inp = w ++ (t ++ rest)

theorem matchText_sound {text inp rest : Bytes} (h : matchText text inp = some rest) :
    inp = text ++ rest := by
  induction text generalizing inp with
  | nil => exact Option.some.inj h
  | cons p text ih =>
      cases inp with
      | nil => cases h
      | cons b inp =>
          rw [matchText] at h
          split at h
          · next hb => rw [hb, ih h, List.cons_append]
          · cases h

theorem word_sound {text inp rest : Bytes} {v w : Value} (h : word text w inp = .ok (v, rest)) :
    v = w ∧ inp = text ++ rest := by
  unfold word at h
  split at h
  · next rest' hmatch =>
      obtain ⟨rfl, rfl⟩ := Prod.mk.inj (Except.ok.inj h)
      exact ⟨rfl, matchText_sound hmatch⟩
  · cases h

section Groups

variable {item : Reader UInt8 Failure Value}

theorem item_of_sound (hitem : Sound item) {inp rest : Bytes} {v : Value}
    (h : item inp = .ok (v, rest)) : ∃ t, Item v t ∧ inp = t ++ skipWs rest := by
  obtain ⟨w, t, hw, ht, -, rfl⟩ := hitem inp v rest h
  obtain ⟨w', hw', hrest⟩ := skipWs_split rest
  refine ⟨w ++ (t ++ w'), .mk hw ht hw', ?_⟩
  rw [List.append_assoc, List.append_assoc, ← hrest]

theorem arrayTurn_sound (hitem : Sound item) {items items' : List Value} {inp rest : Bytes}
    {more : Bool} (h : arrayTurn item items inp = .ok ((more, items'), rest)) :
    ∃ v t, Item v t ∧ items' = items ++ [v] ∧
      if more then inp = t ++ 0x2c :: rest else inp = t ++ rest ∧ skipWs rest = rest := by
  obtain ⟨⟨v, rest₁⟩, hv, hlast⟩ := Reader.bind_ok h
  obtain ⟨t, ht, rfl⟩ := item_of_sound hitem hv
  cases hcomma : expect 0x2c rest₁ with
  | mk found rest₂ =>
      dsimp only at hlast
      rw [hcomma] at hlast
      cases hlast
      refine ⟨v, t, ht, rfl, ?_⟩
      cases found with
      | true => exact congrArg (t ++ ·) (expect_eq_true hcomma)
      | false =>
          obtain rfl := expect_eq_false hcomma
          exact ⟨rfl, skipWs_skipWs rest₁⟩

theorem objectTurn_sound (hitem : Sound item) {o o' : List (Bytes × Value)} {inp rest : Bytes}
    {more : Bool} (h : objectTurn item o inp = .ok ((more, o'), rest)) :
    ∃ e t, Pair e t ∧ o' = OrderedMap.assign e.1 e.2 o ∧
      if more then inp = t ++ 0x2c :: rest else inp = t ++ rest ∧ skipWs rest = rest := by
  obtain ⟨w, hw, hinp⟩ := skipWs_split inp
  unfold objectTurn at h
  split at h
  · cases h
  next rest₁ hquote =>
  obtain ⟨⟨key, rest₂⟩, hkey, hread⟩ := Reader.bind_ok h
  obtain ⟨k, hk, hrest₁⟩ := parseString_sound hkey
  dsimp only at hread
  split at hread
  · cases hread
  next rest₃ hcolon =>
  obtain ⟨w', hw', hrest₂⟩ := skipWs_split rest₂
  rw [expect_eq_true hcolon] at hrest₂
  rw [expect_eq_true hquote, hrest₁, hrest₂] at hinp
  obtain ⟨⟨v, rest₄⟩, hv, hlast⟩ := Reader.bind_ok hread
  obtain ⟨t, ht, hrest₃⟩ := item_of_sound hitem hv
  rw [hrest₃] at hinp
  cases hcomma : expect 0x2c rest₄ with
  | mk found rest₅ =>
      dsimp only at hlast
      rw [hcomma] at hlast
      cases hlast
      refine ⟨(key, v), _, .mk hw hk hw' ht, rfl, ?_⟩
      cases found with
      | true =>
          rw [expect_eq_true hcomma] at hinp
          simpa using hinp
      | false =>
          obtain rfl := expect_eq_false hcomma
          exact ⟨by simpa using hinp, skipWs_skipWs rest₄⟩

/-- A group is empty, or it consists of what its turns read. -/
theorem parseGroup_sound {σ α : Type} {close : UInt8} {turn : σ → Reader UInt8 Failure (Bool × σ)}
    {next : σ → α → σ} {P : α → Bytes → Prop} {empty s : σ} {fuel : Nat} {inp rest : Bytes}
    (hskip : ∀ inp, turn empty (skipWs inp) = turn empty inp)
    (hturn : ∀ s inp more s' rest, turn s inp = .ok ((more, s'), rest) →
      ∃ a t, P a t ∧ s' = next s a ∧
        if more then inp = t ++ 0x2c :: rest else inp = t ++ rest ∧ skipWs rest = rest)
    (h : parseGroup close turn empty fuel inp = .ok (s, rest)) :
    (∃ w, Ws w ∧ s = empty ∧ inp = w ++ close :: rest) ∨
      ∃ as t, Reader.Separated 0x2c P as t ∧ s = as.foldl next empty ∧
        inp = t ++ close :: rest := by
  unfold parseGroup at h
  split at h
  · next rest' hclose =>
      cases h
      obtain ⟨w, hw, hinp⟩ := skipWs_split inp
      exact Or.inl ⟨w, hw, rfl, by rw [← expect_eq_true hclose]; exact hinp⟩
  · next rest₁ hopen =>
      obtain ⟨⟨s', rest₂⟩, hloop, h⟩ := Reader.bind_ok h
      rw [expect_eq_false hopen, Reader.loop_congr (hskip inp)] at hloop
      dsimp only at h
      split at h
      · next rest₃ hclose =>
          cases h
          refine Or.inr ?_
          have hmore : ∀ s inp s' rest, turn s inp = .ok ((true, s'), rest) →
              ∃ a t, P a t ∧ inp = t ++ 0x2c :: rest ∧ s' = next s a := by
            intro s inp s' rest h
            obtain ⟨a, t, ha, hs, hinp⟩ := hturn s inp true s' rest h
            exact ⟨a, t, ha, hinp, hs⟩
          have hlast : ∀ s inp s' rest, turn s inp = .ok ((false, s'), rest) →
              ∃ a t, P a t ∧ inp = t ++ rest ∧ s' = next s a ∧ skipWs rest = rest := by
            intro s inp s' rest h
            obtain ⟨a, t, ha, hs, hinp, hrest⟩ := hturn s inp false s' rest h
            exact ⟨a, t, ha, hinp, hs, hrest⟩
          obtain ⟨as, t, has, rfl, rfl, hstop⟩ := Reader.separated_of_loop hmore hlast hloop
          refine ⟨as, t, has, rfl, ?_⟩
          rw [← hstop, expect_eq_true hclose]
      · cases h

end Groups

theorem foldl_append_singleton (a b : List Value) :
    a.foldl (fun items v => items ++ [v]) b = b ++ a := by
  induction a generalizing b with
  | nil => exact (List.append_nil b).symm
  | cons v a ih => rw [List.foldl_cons, ih, List.append_assoc, List.singleton_append]

theorem arrayTurn_skipWs (fuel : Nat) (items : List Value) (inp : Bytes) :
    arrayTurn (parseValue fuel) items (skipWs inp) = arrayTurn (parseValue fuel) items inp := by
  simp only [arrayTurn, parseValue_skipWs]

theorem parseArray_sound {fuel : Nat} (hitem : Sound (parseValue fuel)) {a : List Value}
    {inp rest : Bytes} (h : parseArray (parseValue fuel) fuel inp = .ok (a, rest)) :
    ∃ t, Text (.array a) (0x5b :: t) ∧ inp = t ++ rest := by
  rcases parseGroup_sound (arrayTurn_skipWs fuel [])
    (fun _ _ _ _ _ h => arrayTurn_sound hitem h) h with
    ⟨w, hw, rfl, rfl⟩ | ⟨as, t, has, rfl, rfl⟩
  · exact ⟨w ++ [0x5d], .emptyArray hw, by rw [List.append_assoc, List.singleton_append]⟩
  · rw [foldl_append_singleton, List.nil_append]
    exact ⟨t ++ [0x5d], .array has, by rw [List.append_assoc, List.singleton_append]⟩

theorem parseObject_sound {fuel : Nat} (hitem : Sound (parseValue fuel))
    {o : List (Bytes × Value)} {inp rest : Bytes}
    (h : parseObject (parseValue fuel) fuel inp = .ok (o, rest)) :
    ∃ t, Text (.object o) (0x7b :: t) ∧ inp = t ++ rest := by
  rcases parseGroup_sound (objectTurn_skipWs _ [])
    (fun _ _ _ _ _ h => objectTurn_sound hitem h) h with
    ⟨w, hw, rfl, rfl⟩ | ⟨es, t, hes, rfl, rfl⟩
  · exact ⟨w ++ [0x7d], .emptyObject hw, by rw [List.append_assoc, List.singleton_append]⟩
  · exact ⟨t ++ [0x7d], .object hes, by rw [List.append_assoc, List.singleton_append]⟩

theorem numberValue_isDouble {numStr : Bytes} {v : Value} (h : numberValue numStr = .ok v) :
    v.isDouble = true := by
  unfold numberValue at h
  split at h
  · cases h
  split at h
  · cases h
    rfl
  split at h
  · split at h
    · cases h
    · cases h
      rfl
  · cases h

theorem parseNumber_sound {ch : UInt8} (hch : isNumberByte ch = true) {inp numStr rest : Bytes}
    (h : parseNumber (ch :: inp) = (numStr, rest)) :
    ∃ ds, numStr = ch :: ds ∧ (∀ b ∈ ds, isNumberByte b = true) ∧ inp = ds ++ rest ∧
      EndsNumber rest := by
  rw [parseNumber, List.span_eq_takeWhile_dropWhile, List.takeWhile_cons_of_pos hch,
    List.dropWhile_cons_of_pos hch] at h
  obtain ⟨rfl, rfl⟩ := Prod.mk.inj h
  refine ⟨inp.takeWhile isNumberByte, rfl, fun b hb => List.mem_takeWhile_imp hb,
    List.takeWhile_append_dropWhile.symm, ?_⟩
  intro b hb
  have hnot := List.head?_dropWhile_not isNumberByte inp
  rw [hb] at hnot
  exact hnot

theorem parseValue_sound (fuel : Nat) : Sound (parseValue fuel) := by
  induction fuel with
  | zero =>
      intro inp v rest h
      cases h
  | succ fuel ih =>
      intro inp v rest h
      obtain ⟨w, hw, hinp⟩ := skipWs_split inp
      -- the value starts behind the white space
      suffices htext : ∃ t, Text v t ∧ Ends v rest ∧ skipWs inp = t ++ rest by
        obtain ⟨t, ht, hends, hskip⟩ := htext
        exact ⟨w, t, hw, ht, hends, hskip ▸ hinp⟩
      clear hinp
      unfold parseValue at h
      split at h
      · cases h
      next ch inp' hskip =>
      rw [hskip]
      split at h
      · next hch =>
          obtain ⟨rfl, rfl⟩ := word_sound h
          exact ⟨_, .null, ends_of_eq_false rfl _, hch ▸ rfl⟩
      split at h
      · next hch =>
          obtain ⟨rfl, rfl⟩ := word_sound h
          exact ⟨_, .false, ends_of_eq_false rfl _, hch ▸ rfl⟩
      split at h
      · next hch =>
          obtain ⟨rfl, rfl⟩ := word_sound h
          exact ⟨_, .true, ends_of_eq_false rfl _, hch ▸ rfl⟩
      split at h
      · next hch =>
          obtain ⟨⟨s, rest'⟩, hs, h⟩ := Reader.bind_ok h
          cases h
          obtain ⟨t, ht, rfl⟩ := parseString_sound hs
          refine ⟨_, .string ht, ends_of_eq_false rfl _, ?_⟩
          simp [hch]
      split at h
      · next hch =>
          obtain ⟨⟨a, rest'⟩, ha, h⟩ := Reader.bind_ok h
          cases h
          obtain ⟨t, ht, rfl⟩ := parseArray_sound ih ha
          exact ⟨_, ht, ends_of_eq_false rfl _, hch ▸ rfl⟩
      split at h
      · next hch =>
          obtain ⟨⟨o, rest'⟩, ho, h⟩ := Reader.bind_ok h
          cases h
          obtain ⟨t, ht, rfl⟩ := parseObject_sound ih ho
          exact ⟨_, ht, ends_of_eq_false rfl _, hch ▸ rfl⟩
      split at h
      · next hch =>
          cases hnumber : parseNumber (ch :: inp') with
          | mk numStr rest' =>
              rw [hnumber] at h
              obtain ⟨v', hv, h⟩ := Reader.bind_ok h
              cases h
              obtain ⟨ds, rfl, hds, rfl, hends⟩ :=
                parseNumber_sound (isNumberByte_of_start hch) hnumber
              exact ⟨_, .number hch hds hv, fun _ => hends, rfl⟩
      · cases h

/-! ## What is in the grammar is accepted -/

/-- What is known of the elements: texts shorter than the fuel are read. -/
def Complete (item : Reader UInt8 Failure Value) (fuel : Nat) : Prop :=
  ∀ v t inp, Text v t → t.length < fuel → Ends v inp → item (t ++ inp) = .ok (v, inp)

theorem text_opens {v : Value} {t : Bytes} (h : Text v t) :
    ∃ ch tl, t = ch :: tl ∧ isWs ch = false ∧ ch ≠ 0x5d := by
  cases h with
  | null => exact ⟨0x6e, _, rfl, rfl, by decide⟩
  | true => exact ⟨0x74, _, rfl, rfl, by decide⟩
  | false => exact ⟨0x66, _, rfl, rfl, by decide⟩
  | number hch _ _ => exact ⟨_, _, rfl, isWs_start hch, start_ne hch rfl⟩
  | string _ => exact ⟨quote, _, rfl, rfl, by decide⟩
  | emptyArray _ => exact ⟨0x5b, _, rfl, rfl, by decide⟩
  | array _ => exact ⟨0x5b, _, rfl, rfl, by decide⟩
  | emptyObject _ => exact ⟨0x7b, _, rfl, rfl, by decide⟩
  | object _ => exact ⟨0x7b, _, rfl, rfl, by decide⟩

theorem expect_congr {ch : UInt8} {inp inp' : Bytes} (h : skipWs inp = skipWs inp') :
    expect ch inp = expect ch inp' := by rw [← expect_skipWs, h, expect_skipWs]

theorem item_opens {v : Value} {t : Bytes} (h : Item v t) (inp : Bytes) :
    ∃ ch tl, skipWs (t ++ inp) = ch :: tl ∧ ch ≠ 0x5d := by
  cases h with
  | mk hw ht _ =>
      obtain ⟨ch, tl, rfl, hch, hclose⟩ := text_opens ht
      rw [List.append_assoc, skipWs_append hw, List.append_assoc]
      exact ⟨ch, _, skipWs_cons hch _, hclose⟩

theorem pair_opens {e : Bytes × Value} {t : Bytes} (h : Pair e t) (inp : Bytes) :
    ∃ tl, skipWs (t ++ inp) = quote :: tl := by
  cases h with
  | mk hw _ _ _ =>
      rw [List.append_assoc, skipWs_append hw]
      exact ⟨_, skipWs_cons rfl _⟩

theorem item_complete {fuel : Nat} (hitem : Complete (parseValue fuel) fuel) {v : Value}
    {t : Bytes} (h : Item v t) (hfuel : t.length < fuel) {inp : Bytes} (hends : EndsNumber inp) :
    ∃ rest, parseValue fuel (t ++ inp) = .ok (v, rest) ∧ skipWs rest = skipWs inp := by
  cases h with
  | @mk _ w t w' hw ht hw' =>
      rw [List.length_append, List.length_append] at hfuel
      refine ⟨w' ++ inp, ?_, skipWs_append hw' inp⟩
      rw [← parseValue_skipWs, List.append_assoc, skipWs_append hw, parseValue_skipWs,
        List.append_assoc]
      exact hitem v t (w' ++ inp) ht (by omega) fun _ => endsNumber_ws hw' hends

theorem arrayTurn_complete {fuel : Nat} (hitem : Complete (parseValue fuel) fuel) {v : Value}
    {t : Bytes} (h : Item v t) (hfuel : t.length < fuel) {inp : Bytes} (hends : EndsNumber inp)
    (items : List Value) :
    arrayTurn (parseValue fuel) items (t ++ inp) =
      .ok (((expect 0x2c inp).1, items ++ [v]), (expect 0x2c inp).2) := by
  obtain ⟨rest, hread, hrest⟩ := item_complete hitem h hfuel hends
  rw [← expect_congr hrest]
  simp only [arrayTurn, hread, bind, Except.bind, pure, Except.pure]

theorem objectTurn_complete {fuel : Nat} (hitem : Complete (parseValue fuel) fuel)
    {e : Bytes × Value} {t : Bytes} (h : Pair e t) (hfuel : t.length < fuel) {inp : Bytes}
    (hends : EndsNumber inp) (o : List (Bytes × Value)) :
    objectTurn (parseValue fuel) o (t ++ inp) =
      .ok (((expect 0x2c inp).1, OrderedMap.assign e.1 e.2 o), (expect 0x2c inp).2) := by
  cases h with
  | @mk key k v w w' t hw hk hw' ht =>
      have hlen : t.length < fuel := by
        rw [List.length_append, List.length_cons, List.length_append, List.length_cons,
          List.length_append, List.length_cons] at hfuel
        omega
      obtain ⟨rest, hread, hrest⟩ := item_complete hitem ht hlen hends
      have hquote : expect quote (w ++ quote :: (k ++ quote :: (w' ++ 0x3a :: t)) ++ inp) =
          (true, k ++ quote :: (w' ++ 0x3a :: (t ++ inp))) := by
        rw [List.append_assoc, List.cons_append, expect_ws rfl hw]
        simp
      have hkey : parseString (k ++ quote :: (w' ++ 0x3a :: (t ++ inp))) =
          .ok (key, w' ++ 0x3a :: (t ++ inp)) := parseString_complete hk _
      have hcolon : expect 0x3a (w' ++ 0x3a :: (t ++ inp)) = (true, t ++ inp) :=
        expect_ws rfl hw' (t ++ inp)
      rw [← expect_congr hrest]
      simp only [objectTurn, hquote, hkey, hcolon, hread, bind, Except.bind, pure, Except.pure]

theorem parseGroup_complete {σ α : Type} {close : UInt8}
    {turn : σ → Reader UInt8 Failure (Bool × σ)} {next : σ → α → σ} {P : α → Bytes → Prop}
    {empty : σ} {fuel : Nat} (hclose : close ≠ 0x2c) (hws : isWs close = false)
    (hends : isNumberByte close = false)
    (hskip : ∀ inp, turn empty (skipWs inp) = turn empty inp)
    (hturn : ∀ a t, P a t → t.length < fuel → ∀ inp, EndsNumber inp → ∀ s,
      turn s (t ++ inp) = .ok (((expect 0x2c inp).1, next s a), (expect 0x2c inp).2))
    (hopen : ∀ a t inp, P a t → ∃ ch tl, skipWs (t ++ inp) = ch :: tl ∧ ch ≠ close)
    {as : List α} {t : Bytes} (h : Reader.Separated 0x2c P as t) (hfuel : t.length < fuel)
    (rest : Bytes) :
    parseGroup close turn empty fuel (t ++ close :: rest) = .ok (as.foldl next empty, rest) := by
  have hnot : ∃ ch tl, skipWs (t ++ close :: rest) = ch :: tl ∧ ch ≠ close := by
    cases h with
    | one ha => exact hopen _ _ _ ha
    | cons ha _ =>
        rw [List.append_assoc]
        exact hopen _ _ _ ha
  have hmore : ∀ a t s inp, P a t → t.length ≤ fuel - 1 →
      turn s (t ++ 0x2c :: inp) = .ok ((true, next s a), inp) := by
    intro a t s inp ha hlen
    rw [hturn a t ha (by omega) _ (endsNumber_cons rfl inp), expect_self rfl]
  have hlast : ∀ a t s, P a t → t.length ≤ fuel - 1 →
      turn s (t ++ close :: rest) = .ok ((false, next s a), close :: rest) := by
    intro a t s ha hlen
    rw [hturn a t ha (by omega) _ (endsNumber_cons hends rest),
      expect_of_skipWs (skipWs_cons hws rest), if_neg hclose]
  have hcount := h.count_le
  have hloop : Reader.loop .outOfFuel turn fuel empty (t ++ close :: rest) =
      .ok (as.foldl next empty, close :: rest) :=
    Reader.loop_of_separated hmore hlast h (by omega) (by omega) empty
  obtain ⟨ch, tl, htext, hch⟩ := hnot
  have hfalse : expect close (t ++ close :: rest) = (false, ch :: tl) := by
    rw [expect_of_skipWs htext, if_neg hch]
  rw [Reader.loop_congr (hskip _).symm, htext] at hloop
  rw [parseGroup, hfalse]
  simp only [hloop, bind, Except.bind, expect_self hws]

theorem parseGroup_ws {σ : Type} {close : UInt8} (hws : isWs close = false)
    (turn : σ → Reader UInt8 Failure (Bool × σ)) (empty : σ) (fuel : Nat) {w : Bytes} (hw : Ws w)
    (rest : Bytes) : parseGroup close turn empty fuel (w ++ close :: rest) = .ok (empty, rest) := by
  rw [parseGroup, expect_ws hws hw]

theorem parseValue_complete (fuel : Nat) : Complete (parseValue fuel) fuel := by
  induction fuel with
  | zero =>
      intro v t inp _ hfuel
      exact absurd hfuel (Nat.not_lt_zero _)
  | succ fuel ih =>
      intro v t inp h hfuel hends
      cases h with
      | null => exact word_append (ascii "ull") .null inp
      | true => exact word_append (ascii "rue") (.boolean true) inp
      | false => exact word_append (ascii "alse") (.boolean false) inp
      | number hch hall hv =>
          exact parseValue_number fuel hch hall hv (hends (numberValue_isDouble hv))
      | @string s t ht =>
          have hs : parseString (t ++ quote :: inp) = .ok (s, inp) :=
            parseString_complete ht inp
          rw [List.cons_append, List.append_assoc]
          exact parseValue_quote hs
      | @emptyArray w hw =>
          rw [List.cons_append, List.append_assoc]
          exact parseValue_array (parseGroup_ws rfl _ [] fuel hw inp)
      | @array a t ha =>
          rw [List.length_cons, List.length_append, List.length_singleton] at hfuel
          have hturn : ∀ v t, Item v t → t.length < fuel → ∀ inp, EndsNumber inp → ∀ items,
              arrayTurn (parseValue fuel) items (t ++ inp) =
                .ok (((expect 0x2c inp).1, items ++ [v]), (expect 0x2c inp).2) :=
            fun v t hv hlen inp hends => arrayTurn_complete ih hv hlen hends
          have hopen : ∀ v t inp, Item v t → ∃ ch tl, skipWs (t ++ inp) = ch :: tl ∧ ch ≠ 0x5d :=
            fun v t inp hv => item_opens hv inp
          have hread : parseArray (parseValue fuel) fuel (t ++ 0x5d :: inp) = .ok (a, inp) := by
            rw [parseArray, parseGroup_complete (by decide) rfl rfl (arrayTurn_skipWs fuel []) hturn
              hopen ha (by omega) inp, foldl_append_singleton, List.nil_append]
          rw [List.cons_append, List.append_assoc]
          exact parseValue_array hread
      | @emptyObject w hw =>
          rw [List.cons_append, List.append_assoc]
          exact parseValue_object (parseGroup_ws rfl _ [] fuel hw inp)
      | @object es t hes =>
          rw [List.length_cons, List.length_append, List.length_singleton] at hfuel
          have hopen : ∀ e t inp, Pair e t → ∃ ch tl, skipWs (t ++ inp) = ch :: tl ∧ ch ≠ 0x7d := by
            intro e t inp he
            obtain ⟨tl, htl⟩ := pair_opens he inp
            exact ⟨quote, tl, htl, by decide⟩
          have hturn : ∀ e t, Pair e t → t.length < fuel → ∀ inp, EndsNumber inp → ∀ o,
              objectTurn (parseValue fuel) o (t ++ inp) =
                .ok (((expect 0x2c inp).1, OrderedMap.assign e.1 e.2 o), (expect 0x2c inp).2) :=
            fun e t he hlen inp hends => objectTurn_complete ih he hlen hends
          have hread : parseObject (parseValue fuel) fuel (t ++ 0x7d :: inp) =
              .ok (assignAll es, inp) :=
            parseGroup_complete (by decide) rfl rfl (objectTurn_skipWs _ []) hturn hopen hes
              (by omega) inp
          rw [List.cons_append, List.append_assoc]
          exact parseValue_object hread

/-- `parse` accepts the texts that start with one of the grammar, and no
others; there is one value that they stand for. -/
theorem parse_eq_some {s : Bytes} {v : Value} :
    parse s = .ok (some v) ↔ ∃ w t rest, Ws w ∧ Text v t ∧ Ends v rest ∧ s = w ++ (t ++ rest) := by
  have hiff : parse s = .ok (some v) ↔ ∃ rest, parseValue (s.length + 1) s = .ok (v, rest) := by
    constructor
    · intro h
      rw [parse] at h
      split at h
      · next v' rest hread =>
          obtain rfl := Option.some.inj (Except.ok.inj h)
          exact ⟨rest, hread⟩
      · cases h
      · cases h
      · cases h
    · rintro ⟨rest, hread⟩
      simp only [parse, hread]
  rw [hiff]
  constructor
  · rintro ⟨rest, hread⟩
    obtain ⟨w, t, hw, ht, hends, hs⟩ := parseValue_sound _ s v rest hread
    exact ⟨w, t, rest, hw, ht, hends, hs⟩
  · rintro ⟨w, t, rest, hw, ht, hends, rfl⟩
    refine ⟨rest, ?_⟩
    rw [← parseValue_skipWs, skipWs_append hw, parseValue_skipWs]
    refine parseValue_complete _ v t rest ht ?_ hends
    rw [List.length_append, List.length_append]
    omega

end Picojson

end LightQ
