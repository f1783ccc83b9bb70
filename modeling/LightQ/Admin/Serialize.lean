/-
# `Admin.Serialize` — what is written as JSON is read back

`serialize` writes an object of strings and integers, `parse` reads any JSON.
Each step of the writer is undone by a step of the reader: an escape by one
turn of `_parse_string`, the digits of an integer by `strtoimax`, a member
with its comma by one turn of `_parse_object`.  The members come in the order
of their keys, so that the assignments of the reader make up the same map.

There is no condition on the bytes of a string; a number has to be followed by
something that cannot belong to it, and in an object it always is.

  * Strings.  For a byte there is written a letter that is read as the byte, the
    code point of a control byte (`parseCodepoint_control`), or the byte itself
    (`escape_cases`); one turn reads it (`stringTurn_escape`), and so
    `_parse_string` undoes `serialize_str` (`parseString_escape`).
  * Integers.  The value of the digits of a number is the number
    (`digitsValue_decimal`), a digit is no sign (`sign_decimal`), and `strtoimax`
    undoes `to_str` for every `int64_t` (`strtoimax_int64ToStr`).  What is written
    starts as a number and consists of the bytes of one (`int64ToStr_cons`), so
    that `_parse_number` takes all of it and no more (`parseNumber_int64ToStr`).
  * Members.  `_parse` undoes `_serialize` of a member, behind a space
    (`parseValue_member`); behind the white space of a line a member starts with
    its key (`skipWs_memberText`); and one turn of `_parse_object` undoes a member,
    where what follows decides whether there is another turn
    (`objectTurn_member`).  All of them are `parseObject_members`, and
    `parse_serialize` is the whole text.
-/
import Mathlib.Data.List.DropRight
import LightQ.Admin.AdminCmd

namespace LightQ

namespace Picojson

/-! ## Strings -/

theorem hexValue_hexDigit : ∀ n < 16, hexValue (hexDigit n) = some n := by decide

theorem parseCodepoint_control {b : UInt8} (h : b < 0x20 ∨ b = 0x7f) (rest : Bytes) :
    parseCodepoint (0x30 :: 0x30 :: hexDigit (b.toNat / 16) :: hexDigit (b.toNat % 16) :: rest) =
      some ([b], rest) := by
  have hsmall : b.toNat < 128 := by
    rcases h with h | rfl
    · exact Nat.lt_trans (UInt8.lt_iff_toNat_lt.mp h) (by decide)
    · decide
  have hhigh := hexValue_hexDigit (b.toNat / 16) (by omega)
  have hlow := hexValue_hexDigit (b.toNat % 16) (by omega)
  have hzero : hexValue 0x30 = some 0 := by decide
  have hvalue : b.toNat / 16 * 16 + b.toNat % 16 = b.toNat := Nat.div_add_mod' _ _
  have hquad : parseQuadhex
      (0x30 :: 0x30 :: hexDigit (b.toNat / 16) :: hexDigit (b.toNat % 16) :: rest) =
        some (b.toNat, rest) := by
    simp [parseQuadhex, quadhexFrom, hzero, hhigh, hlow, hvalue]
  have hutf8 : utf8 b.toNat = [b] := by
    rw [utf8, if_pos hsmall, UInt8.ofNat_toNat]
  simp only [parseCodepoint, hquad, Option.bind_eq_bind, Option.bind_some]
  rw [if_neg (by omega), hutf8]

theorem escape_cases (b : UInt8) :
    (∃ ch, unescape ch = some b ∧ escape b = [backslash, ch]) ∨
      ((b < 0x20 ∨ b = 0x7f) ∧ escape b =
        [backslash, 0x75, 0x30, 0x30, hexDigit (b.toNat / 16), hexDigit (b.toNat % 16)]) ∨
      (b ≠ quote ∧ b ≠ backslash ∧ ¬ b < 0x20 ∧ escape b = [b]) := by
  unfold escape
  by_cases hquote : b = quote
  · exact Or.inl ⟨quote, by rw [hquote]; rfl, if_pos hquote⟩
  rw [if_neg hquote]
  by_cases hbackslash : b = backslash
  · exact Or.inl ⟨backslash, by rw [hbackslash]; rfl, if_pos hbackslash⟩
  rw [if_neg hbackslash]
  by_cases hslash : b = 0x2f
  · exact Or.inl ⟨0x2f, by rw [hslash]; rfl, if_pos hslash⟩
  rw [if_neg hslash]
  by_cases hb : b = 0x08
  · exact Or.inl ⟨0x62, hb ▸ rfl, if_pos hb⟩
  rw [if_neg hb]
  by_cases hf : b = 0x0c
  · exact Or.inl ⟨0x66, hf ▸ rfl, if_pos hf⟩
  rw [if_neg hf]
  by_cases hn : b = 0x0a
  · exact Or.inl ⟨0x6e, hn ▸ rfl, if_pos hn⟩
  rw [if_neg hn]
  by_cases hr : b = 0x0d
  · exact Or.inl ⟨0x72, hr ▸ rfl, if_pos hr⟩
  rw [if_neg hr]
  by_cases ht : b = 0x09
  · exact Or.inl ⟨0x74, ht ▸ rfl, if_pos ht⟩
  rw [if_neg ht]
  by_cases hcontrol : b < 0x20 ∨ b = 0x7f
  · exact Or.inr (Or.inl ⟨hcontrol, if_pos hcontrol⟩)
  · exact Or.inr (Or.inr ⟨hquote, hbackslash, fun h => hcontrol (Or.inl h), if_neg hcontrol⟩)

theorem stringTurn_escape (out : Bytes) (b : UInt8) (rest : Bytes) :
    stringTurn out (escape b ++ rest) = .ok ((true, out ++ [b]), rest) := by
  obtain ⟨ch, hch, hescape⟩ | ⟨hcontrol, hescape⟩ | ⟨hquote, hbackslash, hge, hescape⟩ :=
    escape_cases b
  · rw [hescape]
    show stringTurn out (backslash :: ch :: rest) = _
    rw [stringTurn, if_neg (by decide), if_neg (by decide), if_pos rfl]
    simp only [hch]
  · rw [hescape]
    show stringTurn out (backslash :: 0x75 :: 0x30 :: 0x30 :: hexDigit (b.toNat / 16) ::
      hexDigit (b.toNat % 16) :: rest) = _
    rw [stringTurn, if_neg (by decide), if_neg (by decide), if_pos rfl]
    simp only [show unescape 0x75 = none by decide, if_true, parseCodepoint_control hcontrol rest]
  · rw [hescape]
    show stringTurn out (b :: rest) = _
    simp only [stringTurn, if_neg hge, if_neg hquote, if_neg hbackslash]

theorem length_escape_pos (b : UInt8) : 0 < (escape b).length := by
  obtain ⟨ch, -, hescape⟩ | ⟨-, hescape⟩ | ⟨-, -, -, hescape⟩ := escape_cases b <;>
    rw [hescape] <;> exact Nat.succ_pos _

/-- `_parse_string` undoes `serialize_str`. -/
theorem parseString_escape (s rest : Bytes) :
    parseString (s.flatMap escape ++ quote :: rest) = .ok (s, rest) := by
  have hquote : stringTurn (s.foldl (fun out b => out ++ [b]) []) (quote :: rest) =
      .ok ((false, s), rest) := by
    rw [← List.flatMap_eq_foldl, List.flatMap_singleton']
    simp only [stringTurn, if_neg (by decide : ¬ quote < 0x20), if_true]
  refine Reader.loop_pieces stringTurn_escape s hquote ?_
  have := Reader.length_le_pieces length_escape_pos s
  rw [List.length_append]
  omega

/-! ## Integers -/

theorem digitCode_value : ∀ d < 10,
    (UInt8.ofNat (Nat.digitChar d).toNat).toNat - 0x30 = d := by decide

theorem digitsValue_decimal (n : Nat) : digitsValue (decimal n) = n := by
  induction n using Nat.strongRecOn with
  | ind n ih =>
      rw [decimal, Nat.toDigits_eq_if (by decide)]
      by_cases hn : n < 10
      · rw [if_pos hn]
        have hdigit := digitCode_value n hn
        simp only [List.map_cons, List.map_nil, digitsValue, List.foldl_cons, List.foldl_nil,
          hdigit]
        omega
      · rw [if_neg hn]
        have hdigit := digitCode_value (n % 10) (Nat.mod_lt n (by decide))
        have hquotient : digitsValue ((Nat.toDigits 10 (n / 10)).map
            fun c => UInt8.ofNat c.toNat) = n / 10 := ih (n / 10) (by omega)
        rw [List.map_append, digitsValue, List.foldl_append, ← digitsValue, hquotient]
        simp only [List.map_cons, List.map_nil, List.foldl_cons, List.foldl_nil, hdigit]
        omega

theorem isDigit_decimal {b : UInt8} {n : Nat} (h : b ∈ decimal n) : isDigit b = true := by
  obtain ⟨hlow, hhigh⟩ := digit_of_mem_decimal h
  have hge : (0x30 : UInt8) ≤ b := UInt8.le_iff_toNat_le.mpr hlow
  have hle : b ≤ (0x39 : UInt8) := UInt8.le_iff_toNat_le.mpr hhigh
  simp only [isDigit, hge, hle, decide_true, Bool.and_self]

theorem decimal_ne_nil (n : Nat) : decimal n ≠ [] := by
  rw [decimal, ne_eq, List.map_eq_nil_iff]
  exact Nat.toDigits_ne_nil

theorem sign_decimal (n : Nat) : sign (decimal n) = (false, decimal n) := by
  cases hd : decimal n with
  | nil => rfl
  | cons b ds =>
      have hdigit : isDigit b = true := isDigit_decimal (hd ▸ List.mem_cons_self)
      unfold sign
      split
      · next heq =>
          obtain rfl := (List.cons.inj heq).1
          exact absurd hdigit (by decide)
      · next heq =>
          obtain rfl := (List.cons.inj heq).1
          exact absurd hdigit (by decide)
      · rfl

theorem strtoimax_int64ToStr (i : Int64) : strtoimax (int64ToStr i) = some i := by
  have hdigits : (decimal i.toInt.natAbs).all isDigit = true :=
    List.all_eq_true.mpr fun b hb => isDigit_decimal hb
  have hne := decimal_ne_nil i.toInt.natAbs
  have hlow := i.le_toInt
  have hhigh := i.toInt_lt
  have hvalue := digitsValue_decimal i.toInt.natAbs
  by_cases hneg : i.toInt < 0
  · have hival : -(i.toInt.natAbs : Int) = i.toInt := by omega
    have hsign : sign (0x2d :: decimal i.toInt.natAbs) = (true, decimal i.toInt.natAbs) := rfl
    rw [int64ToStr, if_pos hneg]
    simp only [strtoimax, hsign, if_true, hvalue, hival]
    rw [if_pos ⟨hne, hdigits, hlow, hhigh⟩, Int64.ofInt_toInt]
  · have hival : (i.toInt.natAbs : Int) = i.toInt := by omega
    rw [int64ToStr, if_neg hneg]
    simp only [strtoimax, sign_decimal, Bool.false_eq_true, if_false, hvalue, hival]
    rw [if_pos ⟨hne, hdigits, hlow, hhigh⟩, Int64.ofInt_toInt]

theorem int64ToStr_cons (i : Int64) :
    ∃ ch ds, int64ToStr i = ch :: ds ∧ (isDigit ch || ch = 0x2d) = true := by
  unfold int64ToStr
  split
  · exact ⟨_, _, rfl, by decide⟩
  · cases hd : decimal i.toInt.natAbs with
    | nil => exact absurd hd (decimal_ne_nil _)
    | cons ch ds =>
        have hdigit : isDigit ch = true := isDigit_decimal (hd ▸ List.mem_cons_self)
        exact ⟨ch, ds, rfl, by rw [hdigit, Bool.true_or]⟩

theorem isNumberByte_int64ToStr {i : Int64} {b : UInt8} (h : b ∈ int64ToStr i) :
    isNumberByte b = true := by
  refine isNumberByte_of_start ?_
  unfold int64ToStr at h
  split at h
  · rcases List.mem_cons.mp h with rfl | h
    · rfl
    · rw [isDigit_decimal h, Bool.true_or]
  · rw [isDigit_decimal h, Bool.true_or]

theorem parseNumber_int64ToStr (i : Int64) {ch : UInt8} (h : isNumberByte ch = false)
    (rest : Bytes) : parseNumber (int64ToStr i ++ ch :: rest) = (int64ToStr i, ch :: rest) := by
  have hall : ∀ b ∈ int64ToStr i, isNumberByte b = true := fun b hb => isNumberByte_int64ToStr hb
  rw [parseNumber, List.span_eq_takeWhile_dropWhile, List.takeWhile_append_of_pos hall,
    List.dropWhile_append_of_pos hall, List.takeWhile_cons, List.dropWhile_cons, h]
  simp only [Bool.false_eq_true, if_false, List.append_nil]

/-! ## White space -/

@[simp] theorem skipWs_cons_ws {b : UInt8} (h : isWs b = true) (inp : Bytes) :
    skipWs (b :: inp) = skipWs inp :=
  List.dropWhile_cons_of_pos h

@[simp] theorem skipWs_cons {b : UInt8} (h : isWs b = false) (inp : Bytes) :
    skipWs (b :: inp) = b :: inp :=
  List.dropWhile_cons_of_neg (by rw [h]; exact Bool.false_ne_true)

theorem skipWs_skipWs (inp : Bytes) : skipWs (skipWs inp) = skipWs inp :=
  List.dropWhile_idempotent isWs inp

theorem expect_skipWs (ch : UInt8) (inp : Bytes) : expect ch (skipWs inp) = expect ch inp := by
  simp only [expect, skipWs_skipWs]

theorem expect_self {ch : UInt8} (h : isWs ch = false) (inp : Bytes) :
    expect ch (ch :: inp) = (true, inp) := by
  simp only [expect, skipWs_cons h, if_true]

end Picojson

open Picojson

/-! ## Members -/

/-- The value that is written for a member. -/
def Member.value : Member → Value
  | .string s => .string s
  | .int64 i => .int64 i

theorem parseValue_member (fuel : Nat) (m : Member) {ch : UInt8} (h : isNumberByte ch = false)
    (rest : Bytes) :
    parseValue (fuel + 1) (0x20 :: (m.serialize ++ ch :: rest)) = .ok (m.value, ch :: rest) := by
  cases m with
  | string s =>
      have htext : Member.serialize (.string s) ++ ch :: rest =
          quote :: (s.flatMap escape ++ quote :: ch :: rest) := by
        simp [Member.serialize, serializeStr]
      rw [htext, parseValue, skipWs_cons_ws rfl, skipWs_cons rfl]
      simp only [show ¬ quote = 0x6e by decide, show ¬ quote = 0x66 by decide,
        show ¬ quote = 0x74 by decide, if_false, if_true, parseString_escape]
      rfl
  | int64 i =>
      obtain ⟨first, ds, heq, hstart⟩ := int64ToStr_cons i
      have hnumber := parseNumber_int64ToStr i h rest
      have hvalue : numberValue (int64ToStr i) = .ok (.int64 i) := by
        rw [numberValue, if_neg (by rw [heq]; exact List.cons_ne_nil _ _), strtoimax_int64ToStr]
      have hne : ∀ c : UInt8, (isDigit c || c = 0x2d) = false → first ≠ c := by
        rintro c hc rfl
        rw [hstart] at hc
        cases hc
      have hws : isWs first = false := by
        simp only [isWs, hne 0x20 rfl, hne 0x09 rfl, hne 0x0a rfl, hne 0x0d rfl, decide_false,
          Bool.or_self]
      have htext : Member.serialize (.int64 i) ++ ch :: rest = first :: (ds ++ ch :: rest) := by
        show int64ToStr i ++ _ = _
        rw [heq]
        rfl
      have hnumber' : parseNumber (first :: (ds ++ ch :: rest)) = (int64ToStr i, ch :: rest) := by
        rw [← hnumber, heq]
        rfl
      rw [htext, parseValue, skipWs_cons_ws rfl, skipWs_cons hws]
      simp only [hne 0x6e rfl, hne 0x66 rfl, hne 0x74 rfl, hne quote rfl, hne 0x5b rfl,
        hne 0x7b rfl, if_false, hstart, if_true, hnumber', hvalue]
      rfl

/-! ## Objects -/

/-- What is written for a member and its key. -/
def memberText (e : Bytes × Member) : Bytes :=
  ascii "\n  " ++ serializeStr e.1 ++ ascii ": " ++ e.2.serialize

theorem skipWs_memberText (e : Bytes × Member) (rest : Bytes) :
    skipWs (memberText e ++ rest) = quote ::
      (e.1.flatMap escape ++ quote :: 0x3a :: 0x20 :: (e.2.serialize ++ rest)) := by
  have hindent : ascii "\n  " = [0x0a, 0x20, 0x20] := by decide
  have hcolon : ascii ": " = [0x3a, 0x20] := by decide
  simp only [memberText, serializeStr, hindent, hcolon, List.append_assoc, List.cons_append,
    List.nil_append]
  rw [skipWs_cons_ws rfl, skipWs_cons_ws rfl, skipWs_cons_ws rfl, skipWs_cons rfl]

theorem objectTurn_member (fuel : Nat) (o : List (Bytes × Value)) (e : Bytes × Member) {ch : UInt8}
    (h : isNumberByte ch = false) (rest : Bytes) :
    objectTurn (parseValue (fuel + 1)) o (memberText e ++ ch :: rest) =
      .ok (((expect 0x2c (ch :: rest)).1, OrderedMap.assign e.1 e.2.value o),
        (expect 0x2c (ch :: rest)).2) := by
  have hquote : expect quote (memberText e ++ ch :: rest) =
      (true, e.1.flatMap escape ++ quote :: 0x3a :: 0x20 :: (e.2.serialize ++ ch :: rest)) := by
    simp only [expect, skipWs_memberText, if_true]
  have hcolon : ∀ inp, expect 0x3a (0x3a :: inp) = (true, inp) := expect_self rfl
  have hvalue := parseValue_member fuel e.2 h rest
  simp only [objectTurn, hquote, parseString_escape, hcolon, bind, Except.bind, hvalue, pure,
    Except.pure]

theorem objectTurn_skipWs (item : Reader UInt8 Failure Value) (o : List (Bytes × Value))
    (inp : Bytes) : objectTurn item o (skipWs inp) = objectTurn item o inp := by
  simp only [objectTurn, expect_skipWs]

theorem flatten_intersperse_concat {α : Type} (sep x : List α) (l : List (List α)) :
    ((l ++ [x]).intersperse sep).flatten = l.flatMap (· ++ sep) ++ x := by
  induction l with
  | nil => simp only [List.nil_append, List.intersperse_singleton, List.flatten_singleton,
      List.flatMap_nil]
  | cons a l ih =>
      obtain ⟨b, rest, hb⟩ := List.exists_cons_of_ne_nil (List.concat_ne_nil x l)
      rw [hb] at ih
      rw [List.cons_append, hb, List.intersperse_cons_cons, List.flatten_cons, List.flatten_cons, ih,
        List.flatMap_cons, List.append_assoc, List.append_assoc]

theorem serialize_concat (init : List (Bytes × Member)) (last : Bytes × Member) :
    serialize (init ++ [last]) =
      0x7b :: (init.flatMap (fun e => memberText e ++ [0x2c]) ++
        (memberText last ++ [0x0a, 0x7d, 0x0a])) := by
  have hne : init ++ [last] ≠ [] := List.append_ne_nil_of_right_ne_nil _ (List.cons_ne_nil _ _)
  have hbody : (((init ++ [last]).map memberText).intersperse (ascii ",")).flatten =
      init.flatMap (fun e => memberText e ++ [0x2c]) ++ memberText last := by
    rw [List.map_append, List.map_singleton, flatten_intersperse_concat, List.flatMap_map]
    rfl
  show [0x7b] ++ (((init ++ [last]).map memberText).intersperse (ascii ",")).flatten ++
    (if init ++ [last] = [] then [] else ascii "\n") ++ [0x7d] ++ ascii "\n" = _
  rw [hbody, if_neg hne]
  simp only [List.append_assoc, List.cons_append, List.nil_append]
  rfl

theorem parseObject_members (fuel : Nat) (init : List (Bytes × Member)) (last : Bytes × Member)
    {bound : Nat} (hbound : init.length < bound) :
    parseObject (parseValue (fuel + 1)) bound
        (init.flatMap (fun e => memberText e ++ [0x2c]) ++ (memberText last ++ [0x0a, 0x7d, 0x0a])) =
      .ok (OrderedMap.assign last.1 last.2.value
        (init.foldl (fun o e => OrderedMap.assign e.1 e.2.value o) []), [0x0a]) := by
  have hmember : ∀ o (e : Bytes × Member) rest,
      objectTurn (parseValue (fuel + 1)) o (memberText e ++ [0x2c] ++ rest) =
        .ok ((true, OrderedMap.assign e.1 e.2.value o), rest) := by
    intro o e rest
    rw [List.append_assoc, List.singleton_append, objectTurn_member fuel o e rfl,
      expect_self rfl]
  have hlast : objectTurn (parseValue (fuel + 1))
      (init.foldl (fun o e => OrderedMap.assign e.1 e.2.value o) [])
      (memberText last ++ [0x0a, 0x7d, 0x0a]) = .ok ((false, OrderedMap.assign last.1 last.2.value
        (init.foldl (fun o e => OrderedMap.assign e.1 e.2.value o) [])), [0x7d, 0x0a]) :=
    objectTurn_member fuel _ last rfl _
  have hloop := Reader.loop_pieces (e := .outOfFuel) hmember init hlast hbound
  -- `expect` has taken the white space before the first member
  have hopen : ∃ text, skipWs (init.flatMap (fun e => memberText e ++ [0x2c]) ++
      (memberText last ++ [0x0a, 0x7d, 0x0a])) = quote :: text := by
    cases init with
    | nil => exact ⟨_, skipWs_memberText last _⟩
    | cons e init =>
        rw [List.flatMap_cons, List.append_assoc, List.append_assoc, skipWs_memberText]
        exact ⟨_, rfl⟩
  obtain ⟨text, htext⟩ := hopen
  have hclose : expect 0x7d (init.flatMap (fun e => memberText e ++ [0x2c]) ++
      (memberText last ++ [0x0a, 0x7d, 0x0a])) = (false, quote :: text) := by
    simp only [expect, htext, show ¬ quote = 0x7d by decide, if_false]
  rw [Reader.loop_congr (objectTurn_skipWs _ _ _).symm, htext] at hloop
  rw [parseObject, parseGroup, hclose]
  simp only [hloop, bind, Except.bind]
  rfl

/-- What is written for an object is read as this object. -/
theorem parse_serialize {obj : List (Bytes × Member)} (h : OrderedMap.Ordered obj) :
    parse (serialize obj) = .ok (some (.object (obj.map fun e => (e.1, e.2.value)))) := by
  rcases List.eq_nil_or_concat obj with rfl | ⟨init, last, rfl⟩
  · rfl
  · rw [List.concat_eq_append] at h ⊢
    have hlength : init.length < (init.flatMap (fun e => memberText e ++ [0x2c]) ++
        (memberText last ++ [0x0a, 0x7d, 0x0a])).length + 1 := by
      have hpiece : ∀ e : Bytes × Member, 0 < (memberText e ++ [0x2c]).length := by
        intro e
        rw [List.length_append]
        exact Nat.succ_pos _
      have := Reader.length_le_pieces hpiece init
      rw [List.length_append]
      omega
    have hread := parseObject_members (init.flatMap (fun e => memberText e ++ [0x2c]) ++
        (memberText last ++ [0x0a, 0x7d, 0x0a])).length init last hlength
    have hmap : OrderedMap.assign last.1 last.2.value
        (init.foldl (fun o e => OrderedMap.assign e.1 e.2.value o) []) =
          (init ++ [last]).map fun e => (e.1, e.2.value) := by
      have hall := OrderedMap.assignAll_ordered (m := []) (OrderedMap.Ordered.map Member.value h)
      rw [List.nil_append, OrderedMap.assignAll, List.foldl_map, List.foldl_append] at hall
      exact hall
    rw [serialize_concat, parse, List.length_cons, parseValue, skipWs_cons rfl]
    simp only [show ¬ (0x7b : UInt8) = 0x6e by decide, show ¬ (0x7b : UInt8) = 0x66 by decide,
      show ¬ (0x7b : UInt8) = 0x74 by decide, show ¬ (0x7b : UInt8) = quote by decide,
      show ¬ (0x7b : UInt8) = 0x5b by decide, if_false, if_true, hread, hmap, bind, Except.bind,
      pure, Except.pure]

end LightQ
