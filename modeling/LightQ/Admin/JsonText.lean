/-
# `Admin.JsonText` — writing any JSON value (`thirdparty/picojson.h`)

`value::serialize` of values of every depth, on one line or prettified.
`Admin.AdminCmd` writes objects of strings and integers; `serialize_object`
says that this is the same text.

What is written is read back as the value (`parse_serialize_value`), provided
that the keys of each object are in their order, as in a `std::map` they
always are, and that there is no `double` in it: 3.0 is written as an integer.
Since whatever is read has its keys in order (`parse_keyed`), a text that was
accepted once can be replaced by the one that is written for it
(`parse_serialize_parse`).

The induction is on the value; an element of an array is followed by a comma
or by the line of the closing bracket, which both end a number.  A value starts
with a byte that is no white space and closes nothing (`serializeAt_opens`), by
which the reader knows what comes (`start_ne`: a byte that starts a number starts
nothing else).  Behind a key comes the colon, and then the value
(`expect_colon`); elements with commas between them and a closing byte are a
group for the reader (`parseGroup_separated`), whose fuel is enough since a group
is longer than each of its parts and than their number (`bounds_of_group`).

For `parse_keyed` the induction is on the fuel of the reader: each turn of a loop
adds a value that is read with less of it (`parseValue_keyed`).
-/
import LightQ.Admin.Serialize
import LightQ.Lib.SeparatedReader

namespace LightQ

namespace Picojson

/-! ## The writer -/

/-- `_indent`; without an indent there are no lines. -/
def newline : Option Nat → Bytes
  | none => []
  | some indent => 0x0a :: List.replicate (indent * 2) 0x20

/-- `if (indent == 0) *oi++ = '\n';` -/
def lastLine (indent : Option Nat) : Bytes := if indent = some 0 then [0x0a] else []

/-- What stands between a key and its value. -/
def colon (indent : Option Nat) : Bytes := if indent = none then [0x3a] else [0x3a, 0x20]

mutual

/-- `_serialize`; `none` is the indent -1.  How a `double` is written is left
open. -/
def Value.serializeAt (numberToStr : Decimal → Bytes) (indent : Option Nat) (v : Value) : Bytes :=
  (match v with
    | .null => ascii "null"
    | .boolean b => if b then ascii "true" else ascii "false"
    | .number n => numberToStr n
    | .int64 i => int64ToStr i
    | .string s => serializeStr s
    | .array a =>
        [0x5b] ++ serializeItems numberToStr (indent.map (· + 1)) true a ++
          (if a.isEmpty then [] else newline indent) ++ [0x5d]
    | .object o =>
        [0x7b] ++ serializeMembers numberToStr (indent.map (· + 1)) true o ++
          (if o.isEmpty then [] else newline indent) ++ [0x7d]) ++
    lastLine indent

/-- The loop over an array; `first` is `i == begin()`. -/
def serializeItems (numberToStr : Decimal → Bytes) (indent : Option Nat) (first : Bool) :
    List Value → Bytes
  | [] => []
  | v :: a =>
      (if first then [] else [0x2c]) ++ newline indent ++ v.serializeAt numberToStr indent ++
        serializeItems numberToStr indent false a

/-- The loop over an object. -/
def serializeMembers (numberToStr : Decimal → Bytes) (indent : Option Nat) (first : Bool) :
    List (Bytes × Value) → Bytes
  | [] => []
  | (key, v) :: o =>
      (if first then [] else [0x2c]) ++ newline indent ++ serializeStr key ++ colon indent ++
        v.serializeAt numberToStr indent ++ serializeMembers numberToStr indent false o

end

/-- `serialize(prettify)`. -/
def Value.serialize (numberToStr : Decimal → Bytes) (prettify : Bool) (v : Value) : Bytes :=
  v.serializeAt numberToStr (if prettify then some 0 else none)

/-! ## The values -/

/-- The keys of each object are in their order, each of them once. -/
inductive Value.Keyed : Value → Prop
  | null : Keyed .null
  | boolean (b : Bool) : Keyed (.boolean b)
  | number (n : Decimal) : Keyed (.number n)
  | int64 (i : Int64) : Keyed (.int64 i)
  | string (s : Bytes) : Keyed (.string s)
  | array (a : List Value) : (∀ v ∈ a, Keyed v) → Keyed (.array a)
  | object (o : List (Bytes × Value)) : OrderedMap.Ordered o → (∀ e ∈ o, Keyed e.2) →
      Keyed (.object o)

/-- There is no `double` in the value. -/
inductive Value.NoDouble : Value → Prop
  | null : NoDouble .null
  | boolean (b : Bool) : NoDouble (.boolean b)
  | int64 (i : Int64) : NoDouble (.int64 i)
  | string (s : Bytes) : NoDouble (.string s)
  | array (a : List Value) : (∀ v ∈ a, NoDouble v) → NoDouble (.array a)
  | object (o : List (Bytes × Value)) : (∀ e ∈ o, NoDouble e.2) → NoDouble (.object o)

/-! ## Reading single values -/

/-- What follows a number does not belong to it. -/
def EndsNumber (inp : Bytes) : Prop := ∀ b ∈ inp.head?, isNumberByte b = false

theorem endsNumber_cons {b : UInt8} (h : isNumberByte b = false) (inp : Bytes) :
    EndsNumber (b :: inp) := by
  rintro c hc
  obtain rfl := Option.some.inj hc
  exact h

theorem endsNumber_newline {indent : Option Nat} {inp : Bytes} (h : EndsNumber inp) :
    EndsNumber (newline indent ++ inp) := by
  cases indent with
  | none => exact h
  | some n => exact endsNumber_cons rfl _

theorem skipWs_newline (indent : Option Nat) (inp : Bytes) :
    skipWs (newline indent ++ inp) = skipWs inp := by
  cases indent with
  | none => rfl
  | some n =>
      have hspaces : ∀ b ∈ List.replicate (n * 2) (0x20 : UInt8), isWs b = true := by
        intro b hb
        rw [List.eq_of_mem_replicate hb]
        rfl
      rw [newline, List.cons_append, skipWs_cons_ws rfl]
      exact List.dropWhile_append_of_pos hspaces

theorem parseValue_skipWs (fuel : Nat) (inp : Bytes) :
    parseValue fuel (skipWs inp) = parseValue fuel inp := by
  cases fuel with
  | zero => rfl
  | succ fuel => simp only [parseValue, skipWs_skipWs]

theorem matchText_append (pattern inp : Bytes) : matchText pattern (pattern ++ inp) = some inp := by
  induction pattern with
  | nil => rfl
  | cons b pattern ih => rw [List.cons_append, matchText, if_pos rfl, ih]

theorem word_append (pattern : Bytes) (v : Value) (inp : Bytes) :
    word pattern v (pattern ++ inp) = .ok (v, inp) := by rw [word, matchText_append]

theorem start_ne {ch c : UInt8} (hch : (isDigit ch || ch = 0x2d) = true)
    (hc : (isDigit c || c = 0x2d) = false) : ch ≠ c := by
  rintro rfl
  rw [hch] at hc
  cases hc

theorem isWs_start {ch : UInt8} (hch : (isDigit ch || ch = 0x2d) = true) : isWs ch = false := by
  simp only [isWs, start_ne (c := 0x20) hch rfl, start_ne (c := 0x09) hch rfl,
    start_ne (c := 0x0a) hch rfl, start_ne (c := 0x0d) hch rfl, decide_false, Bool.or_self]

theorem parseNumber_append {numStr inp : Bytes} (hall : ∀ b ∈ numStr, isNumberByte b = true)
    (h : EndsNumber inp) : parseNumber (numStr ++ inp) = (numStr, inp) := by
  rw [parseNumber, List.span_eq_takeWhile_dropWhile, List.takeWhile_append_of_pos hall,
    List.dropWhile_append_of_pos hall]
  cases inp with
  | nil => rw [List.takeWhile_nil, List.dropWhile_nil, List.append_nil]
  | cons ch inp =>
      have hch := h ch rfl
      rw [List.takeWhile_cons_of_neg (by rw [hch]; exact Bool.false_ne_true),
        List.dropWhile_cons_of_neg (by rw [hch]; exact Bool.false_ne_true), List.append_nil]

theorem parseValue_number (fuel : Nat) {ch : UInt8} {ds : Bytes} {v : Value}
    (hch : (isDigit ch || ch = 0x2d) = true) (hall : ∀ b ∈ ds, isNumberByte b = true)
    (hv : numberValue (ch :: ds) = .ok v) {inp : Bytes} (h : EndsNumber inp) :
    parseValue (fuel + 1) (ch :: ds ++ inp) = .ok (v, inp) := by
  have hbytes : ∀ b ∈ ch :: ds, isNumberByte b = true := by
    intro b hb
    rcases List.mem_cons.mp hb with rfl | hb
    · exact isNumberByte_of_start hch
    · exact hall b hb
  have hnumber := parseNumber_append hbytes h
  rw [List.cons_append] at hnumber ⊢
  rw [parseValue, skipWs_cons (isWs_start hch)]
  simp only [start_ne (c := 0x6e) hch rfl, start_ne (c := 0x66) hch rfl,
    start_ne (c := 0x74) hch rfl, start_ne (c := quote) hch rfl, start_ne (c := 0x5b) hch rfl,
    start_ne (c := 0x7b) hch rfl, if_false, hch, if_true, hnumber, hv]
  rfl

theorem parseValue_int64 (fuel : Nat) (i : Int64) {inp : Bytes} (h : EndsNumber inp) :
    parseValue (fuel + 1) (int64ToStr i ++ inp) = .ok (.int64 i, inp) := by
  obtain ⟨first, ds, heq, hstart⟩ := int64ToStr_cons i
  have hall : ∀ b ∈ ds, isNumberByte b = true := fun b hb =>
    isNumberByte_int64ToStr (heq ▸ List.mem_cons_of_mem first hb)
  have hvalue : numberValue (first :: ds) = .ok (.int64 i) := by
    rw [numberValue, if_neg (List.cons_ne_nil _ _), ← heq, strtoimax_int64ToStr]
  rw [heq]
  exact parseValue_number fuel hstart hall hvalue h

theorem parseValue_quote {fuel : Nat} {inp s rest : Bytes} (h : parseString inp = .ok (s, rest)) :
    parseValue (fuel + 1) (quote :: inp) = .ok (.string s, rest) := by
  rw [parseValue, skipWs_cons rfl]
  simp only [show ¬ quote = 0x6e by decide, show ¬ quote = 0x66 by decide,
    show ¬ quote = 0x74 by decide, if_false, if_true, h]
  rfl

theorem parseValue_string (fuel : Nat) (s inp : Bytes) :
    parseValue (fuel + 1) (serializeStr s ++ inp) = .ok (.string s, inp) := by
  have htext : serializeStr s ++ inp = quote :: (s.flatMap escape ++ quote :: inp) := by
    simp [serializeStr]
  rw [htext]
  exact parseValue_quote (parseString_escape s inp)

theorem parseValue_array {fuel : Nat} {inp rest : Bytes} {a : List Value}
    (h : parseArray (parseValue fuel) fuel inp = .ok (a, rest)) :
    parseValue (fuel + 1) (0x5b :: inp) = .ok (.array a, rest) := by
  rw [parseValue, skipWs_cons rfl]
  simp only [show ¬ (0x5b : UInt8) = 0x6e by decide, show ¬ (0x5b : UInt8) = 0x66 by decide,
    show ¬ (0x5b : UInt8) = 0x74 by decide, show ¬ (0x5b : UInt8) = quote by decide, if_false,
    if_true, h]
  rfl

theorem parseValue_object {fuel : Nat} {inp rest : Bytes} {o : List (Bytes × Value)}
    (h : parseObject (parseValue fuel) fuel inp = .ok (o, rest)) :
    parseValue (fuel + 1) (0x7b :: inp) = .ok (.object o, rest) := by
  rw [parseValue, skipWs_cons rfl]
  simp only [show ¬ (0x7b : UInt8) = 0x6e by decide, show ¬ (0x7b : UInt8) = 0x66 by decide,
    show ¬ (0x7b : UInt8) = 0x74 by decide, show ¬ (0x7b : UInt8) = quote by decide,
    show ¬ (0x7b : UInt8) = 0x5b by decide, if_false, if_true, h]
  rfl

/-! ## Groups -/

theorem expect_of_skipWs {ch b : UInt8} {inp rest : Bytes} (h : skipWs inp = b :: rest) :
    expect ch inp = if b = ch then (true, rest) else (false, b :: rest) := by
  simp only [expect, h]

theorem parseGroup_empty {σ : Type} {close : UInt8} (h : isWs close = false)
    (turn : σ → Reader UInt8 Failure (Bool × σ)) (empty : σ) (fuel : Nat) (rest : Bytes) :
    parseGroup close turn empty fuel (close :: rest) = .ok (empty, rest) := by
  rw [parseGroup, expect_self h]

theorem parseGroup_separated {σ α : Type} {close : UInt8}
    {turn : σ → Reader UInt8 Failure (Bool × σ)} {empty : σ} {fuel : Nat} {piece : α → Bytes}
    {next : σ → α → σ} {as : List α} {tail rest : Bytes} (hcomma : close ≠ 0x2c) (hne : as ≠ [])
    (hturn : ∀ a ∈ as, ∀ s inp, EndsNumber inp →
      turn s (piece a ++ inp) = .ok (((expect 0x2c inp).1, next s a), (expect 0x2c inp).2))
    (hskip : ∀ inp, turn empty (skipWs inp) = turn empty inp)
    (hopen : ∀ a ∈ as, ∀ inp, ∃ ch t, skipWs (piece a ++ inp) = ch :: t ∧ ch ≠ close)
    (htail : skipWs tail = close :: rest) (hends : EndsNumber tail) (hfuel : as.length ≤ fuel) :
    parseGroup close turn empty fuel (List.intercalate [0x2c] (as.map piece) ++ tail) =
      .ok (as.foldl next empty, rest) := by
  have hstart : ∃ ch t, skipWs (List.intercalate [0x2c] (as.map piece) ++ tail) = ch :: t ∧
      ch ≠ close := by
    cases as with
    | nil => exact absurd rfl hne
    | cons a as =>
        have ha := hopen a List.mem_cons_self
        cases as with
        | nil =>
            rw [List.map_singleton, List.intercalate_singleton]
            exact ha tail
        | cons b as =>
            rw [List.map_cons, List.map_cons, List.intercalate_cons_cons, List.append_assoc,
              List.append_assoc]
            exact ha _
  have hclose : expect 0x2c tail = (false, close :: rest) := by
    rw [expect_of_skipWs htail, if_neg hcomma]
  have hloop : Reader.loop .outOfFuel turn fuel empty
      (List.intercalate [0x2c] (as.map piece) ++ tail) = .ok (as.foldl next empty, close :: rest) :=
    Reader.loop_separated (expect_self rfl) (endsNumber_cons rfl) hturn hne hclose hends hfuel
  obtain ⟨ch, t, htext, hch⟩ := hstart
  have hnot : expect close (List.intercalate [0x2c] (as.map piece) ++ tail) = (false, ch :: t) := by
    rw [expect_of_skipWs htext, if_neg hch]
  have hend : expect close (close :: rest) = (true, rest) := by
    rw [← htail, expect_skipWs, expect_of_skipWs htail, if_pos rfl]
  rw [Reader.loop_congr (hskip _).symm, htext] at hloop
  rw [parseGroup, hnot]
  simp only [hloop, bind, Except.bind, hend]

section Writer

variable {numberToStr : Decimal → Bytes}

/-- What is written for an element, with its line. -/
def itemText (numberToStr : Decimal → Bytes) (indent : Option Nat) (v : Value) : Bytes :=
  newline indent ++ v.serializeAt numberToStr indent

/-- What is written for a member, with its line. -/
def pairText (numberToStr : Decimal → Bytes) (indent : Option Nat) (e : Bytes × Value) : Bytes :=
  newline indent ++ serializeStr e.1 ++ colon indent ++ e.2.serializeAt numberToStr indent

theorem serializeItems_eq (indent : Option Nat) (a : List Value) :
    serializeItems numberToStr indent true a =
      List.intercalate [0x2c] (a.map (itemText numberToStr indent)) := by
  induction a with
  | nil => rfl
  | cons v a ih =>
      cases a with
      | nil =>
          rw [List.map_singleton, List.intercalate_singleton]
          exact List.append_nil _
      | cons w a =>
          rw [List.map_cons, List.map_cons, List.intercalate_cons_cons, ← List.map_cons, ← ih,
            List.append_assoc]
          rfl

theorem serializeMembers_eq (indent : Option Nat) (o : List (Bytes × Value)) :
    serializeMembers numberToStr indent true o =
      List.intercalate [0x2c] (o.map (pairText numberToStr indent)) := by
  induction o with
  | nil => rfl
  | cons e o ih =>
      cases o with
      | nil =>
          rw [List.map_singleton, List.intercalate_singleton]
          exact List.append_nil _
      | cons e' o =>
          rw [List.map_cons, List.map_cons, List.intercalate_cons_cons, ← List.map_cons, ← ih,
            List.append_assoc]
          rfl

variable (numberToStr) in
theorem serializeAt_array (indent : Option Nat) (a : List Value) (inp : Bytes) :
    (Value.array a).serializeAt numberToStr indent ++ inp =
      0x5b :: (List.intercalate [0x2c] (a.map (itemText numberToStr (indent.map (· + 1)))) ++
        ((if a.isEmpty then [] else newline indent) ++ 0x5d :: (lastLine indent ++ inp))) := by
  rw [← serializeItems_eq]
  show ([0x5b] ++ _ ++ _ ++ [0x5d]) ++ _ ++ inp = _
  simp only [List.append_assoc, List.cons_append, List.nil_append]

variable (numberToStr) in
theorem serializeAt_object (indent : Option Nat) (o : List (Bytes × Value)) (inp : Bytes) :
    (Value.object o).serializeAt numberToStr indent ++ inp =
      0x7b :: (List.intercalate [0x2c] (o.map (pairText numberToStr (indent.map (· + 1)))) ++
        ((if o.isEmpty then [] else newline indent) ++ 0x7d :: (lastLine indent ++ inp))) := by
  rw [← serializeMembers_eq]
  show ([0x7b] ++ _ ++ _ ++ [0x7d]) ++ _ ++ inp = _
  simp only [List.append_assoc, List.cons_append, List.nil_append]

variable (numberToStr) in
theorem serializeAt_opens {v : Value} (h : v.NoDouble) (indent : Option Nat) (inp : Bytes) :
    ∃ ch t, v.serializeAt numberToStr indent ++ inp = ch :: t ∧ isWs ch = false ∧ ch ≠ 0x5d := by
  cases h with
  | null => exact ⟨0x6e, _, rfl, rfl, by decide⟩
  | boolean b =>
      cases b with
      | true => exact ⟨0x74, _, rfl, rfl, by decide⟩
      | false => exact ⟨0x66, _, rfl, rfl, by decide⟩
  | int64 i =>
      obtain ⟨first, ds, heq, hstart⟩ := int64ToStr_cons i
      refine ⟨first, ds ++ lastLine indent ++ inp, ?_, isWs_start hstart, start_ne hstart rfl⟩
      show int64ToStr i ++ lastLine indent ++ inp = _
      rw [heq]
      rfl
  | string s => exact ⟨quote, _, rfl, rfl, by decide⟩
  | array a h => exact ⟨0x5b, _, serializeAt_array numberToStr indent a inp, rfl, by decide⟩
  | object o h => exact ⟨0x7b, _, serializeAt_object numberToStr indent o inp, rfl, by decide⟩

theorem lastLine_succ (indent : Option Nat) : lastLine (indent.map (· + 1)) = [] := by
  cases indent with
  | none => rfl
  | some n => exact if_neg fun h => Nat.succ_ne_zero n (Option.some.inj h)

/-- What is known of the parts of a group: each is read back behind its
line. -/
def ReadBack (numberToStr : Decimal → Bytes) (v : Value) : Prop :=
  ∀ indent fuel inp, EndsNumber (lastLine indent ++ inp) →
    (v.serializeAt numberToStr indent).length < fuel →
    parseValue fuel (v.serializeAt numberToStr indent ++ inp) = .ok (v, lastLine indent ++ inp)

theorem ReadBack.item {v : Value} (h : ReadBack numberToStr v) {indent : Option Nat} {fuel : Nat}
    {inp : Bytes} (hends : EndsNumber inp)
    (hfuel : (itemText numberToStr (indent.map (· + 1)) v).length < fuel) :
    parseValue fuel (itemText numberToStr (indent.map (· + 1)) v ++ inp) = .ok (v, inp) := by
  have hread := h (indent.map (· + 1)) fuel inp
  rw [lastLine_succ] at hread
  rw [itemText, List.length_append] at hfuel
  rw [itemText, List.append_assoc, ← parseValue_skipWs, skipWs_newline, parseValue_skipWs]
  exact hread hends (by omega)

theorem arrayTurn_item {v : Value} (h : ReadBack numberToStr v) {indent : Option Nat} {fuel : Nat}
    {inp : Bytes} (hends : EndsNumber inp)
    (hfuel : (itemText numberToStr (indent.map (· + 1)) v).length < fuel) (items : List Value) :
    arrayTurn (parseValue fuel) items (itemText numberToStr (indent.map (· + 1)) v ++ inp) =
      .ok (((expect 0x2c inp).1, items ++ [v]), (expect 0x2c inp).2) := by
  simp only [arrayTurn, h.item hends hfuel, bind, Except.bind, pure, Except.pure]

theorem skipWs_pairText (indent : Option Nat) (e : Bytes × Value) (inp : Bytes) :
    skipWs (pairText numberToStr indent e ++ inp) = quote :: (e.1.flatMap escape ++
      quote :: (colon indent ++ (e.2.serializeAt numberToStr indent ++ inp))) := by
  simp only [pairText, List.append_assoc, skipWs_newline, serializeStr, List.cons_append,
    List.nil_append, skipWs_cons (show isWs quote = false from rfl)]

theorem expect_colon (indent : Option Nat) (inp : Bytes) :
    ∃ rest, expect 0x3a (colon indent ++ inp) = (true, rest) ∧ skipWs rest = skipWs inp := by
  by_cases h : indent = none
  · exact ⟨inp, by rw [colon, if_pos h]; exact expect_self rfl inp, rfl⟩
  · refine ⟨0x20 :: inp, ?_, skipWs_cons_ws rfl inp⟩
    rw [colon, if_neg h]
    exact expect_self rfl (0x20 :: inp)

theorem objectTurn_pair {e : Bytes × Value} (h : ReadBack numberToStr e.2) {indent : Option Nat}
    {fuel : Nat} {inp : Bytes} (hends : EndsNumber inp)
    (hfuel : (pairText numberToStr (indent.map (· + 1)) e).length < fuel)
    (o : List (Bytes × Value)) :
    objectTurn (parseValue fuel) o (pairText numberToStr (indent.map (· + 1)) e ++ inp) =
      .ok (((expect 0x2c inp).1, OrderedMap.assign e.1 e.2 o), (expect 0x2c inp).2) := by
  obtain ⟨rest₀, hquote, hrest₀⟩ : ∃ rest,
      expect quote (pairText numberToStr (indent.map (· + 1)) e ++ inp) = (true, rest) ∧
        parseString rest = .ok (e.1, colon (indent.map (· + 1)) ++
          (e.2.serializeAt numberToStr (indent.map (· + 1)) ++ inp)) := by
    refine ⟨_, ?_, parseString_escape e.1 _⟩
    rw [expect_of_skipWs (skipWs_pairText _ e inp), if_pos rfl]
  obtain ⟨rest, hcolon, hrest⟩ := expect_colon (indent.map (· + 1))
    (e.2.serializeAt numberToStr (indent.map (· + 1)) ++ inp)
  have hvalue : parseValue fuel rest = .ok (e.2, inp) := by
    have hread := h (indent.map (· + 1)) fuel inp
    rw [lastLine_succ] at hread
    rw [pairText, List.length_append] at hfuel
    rw [← parseValue_skipWs, hrest, parseValue_skipWs]
    exact hread hends (by omega)
  simp only [objectTurn, hquote, hrest₀, hcolon, hvalue, bind, Except.bind, pure,
    Except.pure]

theorem bounds_of_group {α : Type} {as : List α} {piece : α → Bytes} {fuel : Nat}
    (hpos : ∀ a ∈ as, 0 < (piece a).length)
    (hfuel : (List.intercalate [0x2c] (as.map piece)).length < fuel) :
    as.length ≤ fuel ∧ ∀ a ∈ as, (piece a).length < fuel := by
  constructor
  · have hcount : (as.map piece).length ≤ (List.intercalate [0x2c] (as.map piece)).length := by
      refine Reader.count_le_intercalate ?_
      intro p hp
      obtain ⟨a, ha, rfl⟩ := List.mem_map.mp hp
      exact hpos a ha
    rw [List.length_map] at hcount
    omega
  · intro a ha
    exact Nat.lt_of_le_of_lt (Reader.length_le_intercalate (List.mem_map_of_mem ha)) hfuel

theorem skipWs_itemText {v : Value} (hd : v.NoDouble) (indent : Option Nat) (inp : Bytes) :
    ∃ ch t, skipWs (itemText numberToStr indent v ++ inp) = ch :: t ∧ ch ≠ 0x5d := by
  obtain ⟨ch, t, htext, hws, hch⟩ := serializeAt_opens numberToStr hd indent inp
  exact ⟨ch, t, by rw [itemText, List.append_assoc, skipWs_newline, htext, skipWs_cons hws], hch⟩

theorem itemText_pos {v : Value} (hd : v.NoDouble) (indent : Option Nat) :
    0 < (itemText numberToStr indent v).length := by
  obtain ⟨ch, t, htext, -⟩ := serializeAt_opens numberToStr hd indent []
  rw [List.append_nil] at htext
  rw [itemText, List.length_append, htext, List.length_cons]
  omega

theorem readBack_array {a : List Value} (hd : ∀ v ∈ a, v.NoDouble)
    (h : ∀ v ∈ a, ReadBack numberToStr v) : ReadBack numberToStr (.array a) := by
  intro indent fuel inp hends hfuel
  obtain ⟨fuel, rfl⟩ := Nat.exists_eq_add_one.mpr (Nat.zero_lt_of_lt hfuel)
  have htext := congrArg List.length (serializeAt_array numberToStr indent a [])
  rw [List.append_nil, List.length_cons, List.length_append] at htext
  rw [serializeAt_array]
  refine parseValue_array ?_
  by_cases hempty : a = []
  · subst hempty
    exact parseGroup_empty rfl _ _ _ _
  · have hline : (if a.isEmpty then [] else newline indent) = newline indent :=
      if_neg (by rw [List.isEmpty_iff]; exact hempty)
    have hpos : ∀ v ∈ a, 0 < (itemText numberToStr (indent.map (· + 1)) v).length :=
      fun v hv => itemText_pos (hd v hv) _
    obtain ⟨hcount, hshort⟩ : a.length ≤ fuel ∧
        ∀ v ∈ a, (itemText numberToStr (indent.map (· + 1)) v).length < fuel :=
      bounds_of_group hpos (by omega)
    have hgroup : parseArray (parseValue fuel) fuel (List.intercalate [0x2c]
        (a.map (itemText numberToStr (indent.map (· + 1)))) ++
          (newline indent ++ 0x5d :: (lastLine indent ++ inp))) =
        .ok (a.foldl (fun items v => items ++ [v]) [], lastLine indent ++ inp) := by
      refine parseGroup_separated (by decide) hempty ?_ ?_ ?_ ?_ ?_ hcount
      · intro v hv items inp' hinp'
        exact arrayTurn_item (h v hv) hinp' (hshort v hv) items
      · intro inp'
        simp only [arrayTurn, parseValue_skipWs]
      · intro v hv inp'
        exact skipWs_itemText (hd v hv) _ inp'
      · rw [skipWs_newline, skipWs_cons rfl]
      · exact endsNumber_newline (endsNumber_cons rfl _)
    rw [← List.flatMap_eq_foldl, List.flatMap_singleton'] at hgroup
    rw [hline]
    exact hgroup

theorem readBack_object {o : List (Bytes × Value)} (ho : OrderedMap.Ordered o)
    (h : ∀ e ∈ o, ReadBack numberToStr e.2) : ReadBack numberToStr (.object o) := by
  intro indent fuel inp hends hfuel
  obtain ⟨fuel, rfl⟩ := Nat.exists_eq_add_one.mpr (Nat.zero_lt_of_lt hfuel)
  have htext := congrArg List.length (serializeAt_object numberToStr indent o [])
  rw [List.append_nil, List.length_cons, List.length_append] at htext
  rw [serializeAt_object]
  refine parseValue_object ?_
  by_cases hempty : o = []
  · subst hempty
    exact parseGroup_empty rfl _ _ _ _
  · have hline : (if o.isEmpty then [] else newline indent) = newline indent :=
      if_neg (by rw [List.isEmpty_iff]; exact hempty)
    have hopen : ∀ e ∈ o, ∀ inp', ∃ ch t,
        skipWs (pairText numberToStr (indent.map (· + 1)) e ++ inp') = ch :: t ∧ ch ≠ 0x7d :=
      fun e _ inp' => ⟨quote, _, skipWs_pairText _ e inp', by decide⟩
    have hpos : ∀ e ∈ o, 0 < (pairText numberToStr (indent.map (· + 1)) e).length := by
      intro e _
      simp only [pairText, serializeStr, List.length_append, List.length_singleton]
      omega
    obtain ⟨hcount, hshort⟩ : o.length ≤ fuel ∧
        ∀ e ∈ o, (pairText numberToStr (indent.map (· + 1)) e).length < fuel :=
      bounds_of_group hpos (by omega)
    have hgroup : parseObject (parseValue fuel) fuel (List.intercalate [0x2c]
        (o.map (pairText numberToStr (indent.map (· + 1)))) ++
          (newline indent ++ 0x7d :: (lastLine indent ++ inp))) =
        .ok (o.foldl (fun o e => OrderedMap.assign e.1 e.2 o) [], lastLine indent ++ inp) := by
      refine parseGroup_separated (by decide) hempty ?_ ?_ hopen ?_ ?_ hcount
      · intro e he o' inp' hinp'
        exact objectTurn_pair (h e he) hinp' (hshort e he) o'
      · exact fun inp' => objectTurn_skipWs _ _ inp'
      · rw [skipWs_newline, skipWs_cons rfl]
      · exact endsNumber_newline (endsNumber_cons rfl _)
    have hall : o.foldl (fun o e => OrderedMap.assign e.1 e.2 o) [] = o :=
      OrderedMap.assignAll_ordered ho
    rw [hall] at hgroup
    rw [hline]
    exact hgroup

theorem readBack_value {v : Value} (hk : v.Keyed) (hd : v.NoDouble) : ReadBack numberToStr v := by
  induction hk with
  | null =>
      intro indent fuel inp hends hfuel
      obtain ⟨fuel, rfl⟩ := Nat.exists_eq_add_one.mpr (Nat.zero_lt_of_lt hfuel)
      exact word_append (ascii "ull") .null (lastLine indent ++ inp)
  | boolean b =>
      intro indent fuel inp hends hfuel
      obtain ⟨fuel, rfl⟩ := Nat.exists_eq_add_one.mpr (Nat.zero_lt_of_lt hfuel)
      cases b with
      | true => exact word_append (ascii "rue") (.boolean true) (lastLine indent ++ inp)
      | false => exact word_append (ascii "alse") (.boolean false) (lastLine indent ++ inp)
  | number n => cases hd
  | int64 i =>
      intro indent fuel inp hends hfuel
      obtain ⟨fuel, rfl⟩ := Nat.exists_eq_add_one.mpr (Nat.zero_lt_of_lt hfuel)
      have hread := parseValue_int64 fuel i hends
      rwa [← List.append_assoc] at hread
  | string s =>
      intro indent fuel inp hends hfuel
      obtain ⟨fuel, rfl⟩ := Nat.exists_eq_add_one.mpr (Nat.zero_lt_of_lt hfuel)
      have hread := parseValue_string fuel s (lastLine indent ++ inp)
      rwa [← List.append_assoc] at hread
  | array a _ ih =>
      cases hd with
      | array _ hd => exact readBack_array hd fun v hv => ih v hv (hd v hv)
  | object o ho _ ih =>
      cases hd with
      | object _ hd => exact readBack_object ho fun e he => ih e he (hd e he)

variable (numberToStr) in
theorem read_serialize (prettify : Bool) {v : Value} (hk : v.Keyed) (hd : v.NoDouble) :
    parse (v.serialize numberToStr prettify) = .ok (some v) := by
  let indent : Option Nat := if prettify then some 0 else none
  have hends : EndsNumber (lastLine indent ++ []) := by
    rw [List.append_nil, lastLine]
    split
    · exact endsNumber_cons rfl []
    · exact fun b hb => absurd hb (Option.not_mem_none b)
  have hback : ReadBack numberToStr v := readBack_value hk hd
  have hread := hback indent _ [] hends (Nat.lt_succ_self _)
  rw [List.append_nil] at hread
  rw [parse, show v.serialize numberToStr prettify = v.serializeAt numberToStr indent from rfl, hread]

end Writer

/-- `parse` undoes `serialize`, on one line and prettified, at every depth. -/
theorem parse_serialize_value (numberToStr : Decimal → Bytes) (prettify : Bool) {v : Value}
    (hk : v.Keyed) (hd : v.NoDouble) : parse (v.serialize numberToStr prettify) = .ok (some v) :=
  read_serialize numberToStr prettify hk hd

/-- An array in an object, with an array and an object in it. -/
def nested : Value :=
  .object [(ascii "a", .array [.null, .array [], .object [(ascii "k", .boolean true)], .int64 (-7)]),
    (ascii "b", .string (ascii "x/y"))]

theorem nested_keyed : nested.Keyed := by
  refine .object _ (by unfold OrderedMap.Ordered; decide) ?_
  simp only [List.forall_mem_cons, List.not_mem_nil, false_imp_iff, implies_true, and_true]
  refine ⟨.array _ ?_, .string _⟩
  simp only [List.forall_mem_cons, List.not_mem_nil, false_imp_iff, implies_true, and_true]
  refine ⟨.null, .array _ fun v hv => absurd hv List.not_mem_nil, .object _ (List.pairwise_singleton _ _) ?_, .int64 _⟩
  simp only [List.forall_mem_cons, List.not_mem_nil, false_imp_iff, implies_true, and_true]
  exact .boolean _

theorem nested_noDouble : nested.NoDouble := by
  refine .object _ ?_
  simp only [List.forall_mem_cons, List.not_mem_nil, false_imp_iff, implies_true, and_true]
  refine ⟨.array _ ?_, .string _⟩
  simp only [List.forall_mem_cons, List.not_mem_nil, false_imp_iff, implies_true, and_true]
  refine ⟨.null, .array _ fun v hv => absurd hv List.not_mem_nil, .object _ ?_, .int64 _⟩
  simp only [List.forall_mem_cons, List.not_mem_nil, false_imp_iff, implies_true, and_true]
  exact .boolean _

theorem parse_serialize_value_nested :
    parse (nested.serialize (fun _ => []) true) = .ok (some nested) :=
  parse_serialize_value (fun _ => []) true nested_keyed nested_noDouble

/-- The texts of `Admin.AdminCmd` are written by `serialize`. -/
theorem serialize_object (numberToStr : Decimal → Bytes) (obj : List (Bytes × Member)) :
    serialize obj =
      (Value.object (obj.map fun e => (e.1, e.2.value))).serialize numberToStr true := by
  have hpair : ∀ e : Bytes × Member,
      pairText numberToStr (some 1) (e.1, e.2.value) = memberText e := by
    intro e
    have hvalue : e.2.value.serializeAt numberToStr (some 1) = e.2.serialize := by
      cases e.2 with
      | string s => exact List.append_nil _
      | int64 i => exact List.append_nil _
    rw [pairText, hvalue]
    rfl
  have htext := serializeAt_object numberToStr (some 0) (obj.map fun e => (e.1, e.2.value)) []
  rw [List.append_nil, List.map_map] at htext
  rw [Value.serialize, if_pos rfl, htext]
  have hmap : pairText numberToStr (some 1) ∘ (fun e : Bytes × Member => (e.1, e.2.value)) =
      memberText := funext hpair
  show _ = 0x7b :: (List.intercalate [0x2c] (obj.map (pairText numberToStr (some 1) ∘ _)) ++ _)
  rw [hmap, List.isEmpty_map]
  show [0x7b] ++ ((obj.map memberText).intersperse (ascii ",")).flatten ++
    (if obj = [] then [] else ascii "\n") ++ [0x7d] ++ ascii "\n" = _
  cases obj with
  | nil => rfl
  | cons e obj =>
      rw [if_neg (List.cons_ne_nil e obj), List.append_assoc, List.append_assoc, List.append_assoc]
      rfl

/-! ## What is read -/

theorem parseGroup_keeps {σ : Type} {close : UInt8} {turn : σ → Reader UInt8 Failure (Bool × σ)}
    {empty s : σ} {fuel : Nat} {inp rest : Bytes} {I : σ → Prop} (hempty : I empty)
    (hturn : ∀ {s inp more s' rest}, I s → turn s inp = .ok ((more, s'), rest) → I s')
    (h : parseGroup close turn empty fuel inp = .ok (s, rest)) : I s := by
  unfold parseGroup at h
  split at h
  · obtain ⟨rfl, -⟩ := Prod.mk.inj (Except.ok.inj h)
    exact hempty
  · obtain ⟨⟨s', rest'⟩, hloop, h⟩ := Reader.bind_ok h
    dsimp only at h
    split at h
    · obtain ⟨rfl, -⟩ := Prod.mk.inj (Except.ok.inj h)
      exact Reader.loop_keeps hturn hempty hloop
    · cases h

theorem word_value {text inp rest : Bytes} {w v : Value} (h : word text w inp = .ok (v, rest)) :
    v = w := by
  unfold word at h
  split at h
  · exact (Prod.mk.inj (Except.ok.inj h)).1.symm
  · cases h

theorem numberValue_keyed {numStr : Bytes} {v : Value} (h : numberValue numStr = .ok v) :
    v.Keyed := by
  unfold numberValue at h
  split at h
  · cases h
  · split at h
    · exact Except.ok.inj h ▸ .int64 _
    · split at h
      · split at h
        · cases h
        · exact Except.ok.inj h ▸ .number _
      · cases h

/-- Whatever is read has its keys in order: the induction is on the fuel, and
each turn of a loop adds a value that is read with less of it. -/
theorem parseValue_keyed {fuel : Nat} {inp rest : Bytes} {v : Value}
    (h : parseValue fuel inp = .ok (v, rest)) : v.Keyed := by
  induction fuel generalizing inp v rest with
  | zero => cases h
  | succ fuel ih =>
      unfold parseValue at h
      split at h
      · cases h
      split at h
      · exact word_value h ▸ .null
      split at h
      · exact word_value h ▸ .boolean false
      split at h
      · exact word_value h ▸ .boolean true
      split at h
      · obtain ⟨⟨s, rest'⟩, -, h⟩ := Reader.bind_ok h
        exact (Prod.mk.inj (Except.ok.inj h)).1 ▸ .string s
      split at h
      · obtain ⟨⟨a, rest'⟩, ha, h⟩ := Reader.bind_ok h
        have hall : ∀ v ∈ a, v.Keyed := by
          refine parseGroup_keeps (I := fun a => ∀ v ∈ a, v.Keyed) (fun v hv => absurd hv
            List.not_mem_nil) ?_ ha
          intro items inp more items' rest hitems hturn
          obtain ⟨⟨v, rest''⟩, hv, hturn⟩ := Reader.bind_ok hturn
          obtain ⟨⟨-, rfl⟩, -⟩ := Prod.mk.inj (Except.ok.inj hturn) |>.imp_left Prod.mk.inj
          intro w hw
          rcases List.mem_append.mp hw with hw | hw
          · exact hitems w hw
          · exact List.mem_singleton.mp hw ▸ ih hv
        exact (Prod.mk.inj (Except.ok.inj h)).1 ▸ .array a hall
      split at h
      · obtain ⟨⟨o, rest'⟩, ho, h⟩ := Reader.bind_ok h
        have hall : OrderedMap.Ordered o ∧ ∀ e ∈ o, e.2.Keyed := by
          refine parseGroup_keeps (I := fun o => OrderedMap.Ordered o ∧ ∀ e ∈ o, e.2.Keyed)
            ⟨List.Pairwise.nil, fun e he => absurd he List.not_mem_nil⟩ ?_ ho
          intro o inp more o' rest hkeys hturn
          obtain herr | ⟨rest', -, e, -, herr⟩ | ⟨key, rest', -, heq⟩ :=
            objectTurn_eq (parseValue fuel) o inp
          · cases herr.symm.trans hturn
          · cases herr.symm.trans hturn
          · obtain ⟨⟨v, rest''⟩, hv, hturn⟩ := Reader.bind_ok (heq.symm.trans hturn)
            obtain ⟨⟨-, rfl⟩, -⟩ := Prod.mk.inj (Except.ok.inj hturn) |>.imp_left Prod.mk.inj
            refine ⟨OrderedMap.ordered_assign hkeys.1 key v, ?_⟩
            intro e he
            rcases OrderedMap.mem_assign he with rfl | he
            · exact ih hv
            · exact hkeys.2 e he
        exact (Prod.mk.inj (Except.ok.inj h)).1 ▸ .object o hall.1 hall.2
      split at h
      · obtain ⟨w, hw, h⟩ := Reader.bind_ok h
        exact (Prod.mk.inj (Except.ok.inj h)).1 ▸ numberValue_keyed hw
      · cases h

theorem parse_keyed {s : Bytes} {v : Value} (h : parse s = .ok (some v)) : v.Keyed := by
  rw [parse] at h
  split at h
  · next hread =>
      obtain rfl := Option.some.inj (Except.ok.inj h)
      exact parseValue_keyed hread
  · cases h
  · cases h
  · cases h

/-- A text that is accepted can be written anew: in the order of the keys,
each of them once, on one line or prettified. -/
theorem parse_serialize_parse (numberToStr : Decimal → Bytes) (prettify : Bool) {s : Bytes}
    {v : Value} (h : parse s = .ok (some v)) (hd : v.NoDouble) :
    parse (v.serialize numberToStr prettify) = .ok (some v) :=
  read_serialize numberToStr prettify (parse_keyed h) hd

/-- A key that comes twice, white space and an escape. -/
def untidy : Bytes := ascii " \x7b\"k\":[ ], \"a\" : [-0,\"\\u0041\"] , \"k\":null\x7d tail"

theorem parse_serialize_parse_untidy :
    ∃ v, parse untidy = .ok (some v) ∧
      parse (v.serialize (fun _ => []) false) = .ok (some v) := by
  have hread : parse untidy = .ok (some (.object
      [(ascii "a", .array [.int64 0, .string (ascii "A")]), (ascii "k", .null)])) := by rfl
  refine ⟨_, hread, parse_serialize_parse (fun _ => []) false hread (.object _ ?_)⟩
  simp only [List.forall_mem_cons, List.not_mem_nil, false_imp_iff, implies_true, and_true]
  refine ⟨.array _ ?_, .null⟩
  simp only [List.forall_mem_cons, List.not_mem_nil, false_imp_iff, implies_true, and_true]
  exact ⟨.int64 _, .string _⟩

end Picojson

end LightQ
