/-
# `Admin.Picojson` — reading JSON (`thirdparty/picojson.h`)

The vendored parser, as the admin commands use it: `picojson::parse` on a
whole string, and `get`, `is` and `get<T>` on the value.  It is
built with `PICOJSON_USE_INT64`, and no locale is set.

`input` is the list of the bytes still to come.  Every `ungetc` of the source
gives back the byte just read, so that a byte is looked at before it is taken
and the assertion in `ungetc` cannot fail.  What follows the first value is
not looked at.

A `double` is never read by the callers; `Decimal` is the numeral it was made
from, kept because `value(double)` throws when `strtod` overflows.

`_parse` is recursive, and its loops have no bound; both get fuel here, and
`parse_outOfFuel` shows that one more than the length is always enough: the
model's own failure never shows.  The induction is on the fuel.  A value takes at
least the byte it looks at (`parseValue_consumes`), and a group is read with one
unit less, behind at least one byte (`parseValue_avoids`).

The loops of strings, arrays and objects are loops of readers (`Lib.Reader`); a
turn of the string loop fails in one way only (`stringTurn_error`), and what a turn
of the object loop reads before the value is the key with its colon
(`objectTurn_eq`).
-/
import LightQ.Lib.Reader
import LightQ.Lib.OrderedMap
import LightQ.Storage.FileDetails

namespace LightQ

/-- The exceptions that picojson throws. -/
inductive Thrown where
  | runtimeError
  | overflowError
deriving DecidableEq, Repr

namespace Picojson

/-! ## Values -/

/-- `(-1)^neg * mantissa * 10^exponent`. -/
structure Decimal where
  neg : Bool
  mantissa : Nat
  exponent : Int
deriving DecidableEq, Repr

/-- `value`. -/
inductive Value where
  | null
  | boolean (b : Bool)
  | number (n : Decimal)
  | string (s : Bytes)
  | array (a : List Value)
  | object (o : List (Bytes × Value))
  | int64 (i : Int64)

namespace Value

/-- `get(key)`: the value of a key, `s_null` if there is none. -/
def get (v : Value) (key : Bytes) : Except Thrown Value :=
  match v with
  | .object o => .ok ((OrderedMap.find key o).getD .null)
  | _ => .error .runtimeError

/-- `is<std::string>()`. -/
def isString : Value → Bool
  | .string _ => true
  | _ => false

/-- `get<std::string>()`. -/
def getString : Value → Except Thrown Bytes
  | .string s => .ok s
  | _ => .error .runtimeError

/-- `is<int64_t>()`. -/
def isInt64 : Value → Bool
  | .int64 _ => true
  | _ => false

/-- `get<int64_t>()`. -/
def getInt64 : Value → Except Thrown Int64
  | .int64 i => .ok i
  | _ => .error .runtimeError

end Value

/-! ## Bytes and words -/

/-- How `_parse` fails: it returns false, something throws, or the bound of
the model is used up. -/
inductive Failure where
  | rejected
  | threw (e : Thrown)
  | outOfFuel
deriving DecidableEq, Repr

/-- `"` -/
def quote : UInt8 := 0x22

/-- `\` -/
def backslash : UInt8 := 0x5c

def isWs (ch : UInt8) : Bool := ch = 0x20 || ch = 0x09 || ch = 0x0a || ch = 0x0d

def isDigit (ch : UInt8) : Bool := 0x30 ≤ ch && ch ≤ 0x39

/-- `skip_ws`. -/
def skipWs (inp : Bytes) : Bytes := inp.dropWhile isWs

/-- `expect`: its value, and what is left. -/
def expect (ch : UInt8) (inp : Bytes) : Bool × Bytes :=
  match skipWs inp with
  | [] => (false, [])
  | b :: rest => if b = ch then (true, rest) else (false, b :: rest)

/-- `match`: what is left behind the pattern. -/
def matchText : Bytes → Bytes → Option Bytes
  | [], inp => some inp
  | _ :: _, [] => none
  | p :: pattern, b :: rest => if b = p then matchText pattern rest else none

/-! ## Strings -/

def hexValue (ch : UInt8) : Option Nat :=
  if 0x30 ≤ ch ∧ ch ≤ 0x39 then some (ch.toNat - 0x30)
  else if 0x41 ≤ ch ∧ ch ≤ 0x46 then some (ch.toNat - 0x41 + 0xa)
  else if 0x61 ≤ ch ∧ ch ≤ 0x66 then some (ch.toNat - 0x61 + 0xa)
  else none

/-- The loop of `_parse_quadhex`, with `i` digits to go. -/
def quadhexFrom : Nat → Nat → Bytes → Option (Nat × Bytes)
  | 0, uniCh, inp => some (uniCh, inp)
  | _ + 1, _, [] => none
  | i + 1, uniCh, ch :: rest => do
      let hex ← hexValue ch
      quadhexFrom i (uniCh * 16 + hex) rest

/-- `_parse_quadhex`. -/
def parseQuadhex (inp : Bytes) : Option (Nat × Bytes) := quadhexFrom 4 0 inp

/-- The bytes that `_parse_codepoint` pushes for a code point. -/
def utf8 (uniCh : Nat) : Bytes :=
  let last := UInt8.ofNat (0x80 ||| (uniCh &&& 0x3f))
  if uniCh < 0x80 then [UInt8.ofNat uniCh]
  else if uniCh < 0x800 then [UInt8.ofNat (0xc0 ||| (uniCh >>> 6)), last]
  else
    let third := UInt8.ofNat (0x80 ||| ((uniCh >>> 6) &&& 0x3f))
    if uniCh < 0x10000 then [UInt8.ofNat (0xe0 ||| (uniCh >>> 12)), third, last]
    else
      [UInt8.ofNat (0xf0 ||| (uniCh >>> 18)), UInt8.ofNat (0x80 ||| ((uniCh >>> 12) &&& 0x3f)),
        third, last]

/-- `_parse_codepoint`: the bytes it pushes, and what is left. -/
def parseCodepoint (inp : Bytes) : Option (Bytes × Bytes) := do
  let (uniCh, rest) ← parseQuadhex inp
  if 0xd800 ≤ uniCh ∧ uniCh ≤ 0xdfff then
    if 0xdc00 ≤ uniCh then none
    else
      match rest with
      | 0x5c :: 0x75 :: rest =>
          let (second, rest) ← parseQuadhex rest
          if 0xdc00 ≤ second ∧ second ≤ 0xdfff then
            some (utf8 ((((uniCh - 0xd800) <<< 10) ||| ((second - 0xdc00) &&& 0x3ff)) + 0x10000),
              rest)
          else none
      | _ => none
  else some (utf8 uniCh, rest)

/-- The escapes of one letter. -/
def unescape (ch : UInt8) : Option UInt8 :=
  if ch = quote then some quote
  else if ch = backslash then some backslash
  else if ch = 0x2f then some 0x2f       -- `/`
  else if ch = 0x62 then some 0x08       -- `b`
  else if ch = 0x66 then some 0x0c       -- `f`
  else if ch = 0x6e then some 0x0a       -- `n`
  else if ch = 0x72 then some 0x0d       -- `r`
  else if ch = 0x74 then some 0x09       -- `t`
  else none

/-- One turn of the loop of `_parse_string`. -/
def stringTurn (out : Bytes) : Reader UInt8 Failure (Bool × Bytes)
  | [] => .error .rejected
  | ch :: rest =>
      if ch < 0x20 then .error .rejected
      else if ch = quote then .ok ((false, out), rest)
      else if ch = backslash then
        match rest with
        | [] => .error .rejected
        | ch :: rest =>
            match unescape ch with
            | some b => .ok ((true, out ++ [b]), rest)
            | none =>
                if ch = 0x75 then
                  match parseCodepoint rest with
                  | some (bytes, rest) => .ok ((true, out ++ bytes), rest)
                  | none => .error .rejected
                else .error .rejected
      else .ok ((true, out ++ [ch]), rest)

/-- `_parse_string`, behind the opening quote. -/
def parseString : Reader UInt8 Failure Bytes := fun inp =>
  Reader.loop .outOfFuel stringTurn (inp.length + 1) [] inp

/-! ## Numbers -/

/-- The bytes that `_parse_number` collects. -/
def isNumberByte (ch : UInt8) : Bool :=
  isDigit ch || ch = 0x2b || ch = 0x2d || ch = 0x65 || ch = 0x45 || ch = 0x2e

/-- `_parse_number`. -/
def parseNumber (inp : Bytes) : Bytes × Bytes := inp.span isNumberByte

def digitsValue (ds : Bytes) : Nat := ds.foldl (fun n d => 10 * n + (d.toNat - 0x30)) 0

/-- An optional sign: whether it is a minus, and what follows. -/
def sign : Bytes → Bool × Bytes
  | 0x2d :: s => (true, s)
  | 0x2b :: s => (false, s)
  | s => (false, s)

/-- `strtoimax`, when it takes the whole string without `ERANGE`. -/
def strtoimax (numStr : Bytes) : Option Int64 :=
  let (neg, ds) := sign numStr
  let ival : Int := if neg then -(digitsValue ds) else digitsValue ds
  if ds ≠ [] ∧ ds.all isDigit ∧ -2 ^ 63 ≤ ival ∧ ival < 2 ^ 63 then some (Int64.ofInt ival)
  else none

/-- `strtod`, when it takes the whole string. -/
def strtod (numStr : Bytes) : Option Decimal :=
  let (neg, s) := sign numStr
  let (int, s) := s.span isDigit
  let (frac, s) := match s with
    | 0x2e :: s => s.span isDigit
    | s => ([], s)
  let mantissa := digitsValue (int ++ frac)
  if int ++ frac = [] then none
  else
    match s with
    | [] => some ⟨neg, mantissa, -frac.length⟩
    | ch :: s =>
        let (negExp, ds) := sign s
        let exponent : Int := if negExp then -(digitsValue ds) else digitsValue ds
        if (ch = 0x65 ∨ ch = 0x45) ∧ ds ≠ [] ∧ ds.all isDigit then
          some ⟨neg, mantissa, exponent - frac.length⟩
        else none

/-- Whether `strtod` rounds the numeral to an infinity: it is at least half
way from the largest `double` to `2^1024`.  Past an exponent of 309 every
mantissa but zero is. -/
def Decimal.overflows (n : Decimal) : Bool :=
  (2 ^ 1024 - 2 ^ 970) * 10 ^ (-n.exponent).toNat ≤ n.mantissa * 10 ^ (min n.exponent.toNat 309)

/-- The branch of `_parse` for numbers. -/
def numberValue (numStr : Bytes) : Except Failure Value :=
  if numStr = [] then .error .rejected
  else
    match strtoimax numStr with
    | some ival => .ok (.int64 ival)
    | none =>
        match strtod numStr with
        | some f => if f.overflows then .error (.threw .overflowError) else .ok (.number f)
        | none => .error .rejected

/-! ## Arrays, objects and the parser -/

/-- One turn of the loop of `_parse_array`. -/
def arrayTurn (item : Reader UInt8 Failure Value) (items : List Value) :
    Reader UInt8 Failure (Bool × List Value) := fun inp => do
  let (v, rest) ← item inp
  let (more, rest) := expect 0x2c rest
  return ((more, items ++ [v]), rest)

/-- One turn of the loop of `_parse_object`. -/
def objectTurn (item : Reader UInt8 Failure Value) (o : List (Bytes × Value)) :
    Reader UInt8 Failure (Bool × List (Bytes × Value)) := fun inp =>
  match expect quote inp with
  | (false, _) => .error .rejected
  | (true, rest) => do
      let (key, rest) ← parseString rest
      match expect 0x3a rest with
      | (false, _) => .error .rejected
      | (true, rest) =>
          let (v, rest) ← item rest
          let (more, rest) := expect 0x2c rest
          return ((more, OrderedMap.assign key v o), rest)

/-- `_parse_array` and `_parse_object` have one shape: nothing before the
closing byte, or turns of a loop and then the closing byte. -/
def parseGroup {σ : Type} (close : UInt8) (turn : σ → Reader UInt8 Failure (Bool × σ)) (empty : σ)
    (fuel : Nat) : Reader UInt8 Failure σ := fun inp =>
  match expect close inp with
  | (true, rest) => .ok (empty, rest)
  | (false, rest) => do
      let (s, rest) ← Reader.loop .outOfFuel turn fuel empty rest
      match expect close rest with
      | (true, rest) => .ok (s, rest)
      | (false, _) => .error .rejected

def parseArray (item : Reader UInt8 Failure Value) (fuel : Nat) :
    Reader UInt8 Failure (List Value) :=
  parseGroup 0x5d (arrayTurn item) [] fuel

def parseObject (item : Reader UInt8 Failure Value) (fuel : Nat) :
    Reader UInt8 Failure (List (Bytes × Value)) :=
  parseGroup 0x7d (objectTurn item) [] fuel

/-- `match(text)` and the value it stands for. -/
def word (text : Bytes) (v : Value) : Reader UInt8 Failure Value := fun inp =>
  match matchText text inp with
  | some rest => .ok (v, rest)
  | none => .error .rejected

/-- `_parse`. -/
def parseValue : Nat → Reader UInt8 Failure Value
  | 0, _ => .error .outOfFuel
  | fuel + 1, inp =>
      match skipWs inp with
      | [] => .error .rejected
      | ch :: rest =>
          if ch = 0x6e then word (ascii "ull") .null rest
          else if ch = 0x66 then word (ascii "alse") (.boolean false) rest
          else if ch = 0x74 then word (ascii "rue") (.boolean true) rest
          else if ch = quote then do
            let (s, rest) ← parseString rest
            return (.string s, rest)
          else if ch = 0x5b then do
            let (a, rest) ← parseArray (parseValue fuel) fuel rest
            return (.array a, rest)
          else if ch = 0x7b then do
            let (o, rest) ← parseObject (parseValue fuel) fuel rest
            return (.object o, rest)
          else if isDigit ch || ch = 0x2d then do
            let (numStr, rest) := parseNumber (ch :: rest)
            let v ← numberValue numStr
            return (v, rest)
          else .error .rejected

/-- `parse(out, s)`: `none` is an error text, which is never empty.  The last
case does not occur, by `parse_outOfFuel`. -/
def parse (s : Bytes) : Except Thrown (Option Value) :=
  match parseValue (s.length + 1) s with
  | .ok (v, _) => .ok (some v)
  | .error .rejected => .ok none
  | .error (.threw e) => .error e
  | .error .outOfFuel => .ok none

/-! ## The fuel is enough -/

theorem length_skipWs (inp : Bytes) : (skipWs inp).length ≤ inp.length :=
  (List.dropWhile_sublist _).length_le

theorem expect_true {ch : UInt8} {inp rest : Bytes} (h : expect ch inp = (true, rest)) :
    rest.length < inp.length := by
  have hskip := length_skipWs inp
  simp only [expect] at h
  split at h
  · cases h
  · next b rest' hws =>
      rw [hws] at hskip
      split at h
      · cases h
        exact hskip
      · cases h

theorem length_expect (ch : UInt8) (inp : Bytes) : (expect ch inp).2.length ≤ inp.length := by
  have hskip := length_skipWs inp
  simp only [expect]
  split
  · exact Nat.zero_le _
  · next b rest hws =>
      rw [hws] at hskip
      split
      · exact Nat.le_of_succ_le hskip
      · exact hskip

theorem length_matchText {pattern inp rest : Bytes} (h : matchText pattern inp = some rest) :
    rest.length ≤ inp.length := by
  induction pattern generalizing inp with
  | nil =>
      cases h
      exact Nat.le_refl _
  | cons p pattern ih =>
      cases inp with
      | nil => cases h
      | cons b inp =>
          simp only [matchText] at h
          split at h
          · exact Nat.le_succ_of_le (ih h)
          · cases h

theorem length_quadhexFrom {i uniCh n : Nat} {inp rest : Bytes}
    (h : quadhexFrom i uniCh inp = some (n, rest)) : rest.length ≤ inp.length := by
  induction i generalizing uniCh inp with
  | zero =>
      cases h
      exact Nat.le_refl _
  | succ i ih =>
      cases inp with
      | nil => cases h
      | cons ch inp =>
          obtain ⟨hex, -, h⟩ := Option.bind_eq_some_iff.mp h
          exact Nat.le_succ_of_le (ih h)

theorem length_parseCodepoint {inp bytes rest : Bytes}
    (h : parseCodepoint inp = some (bytes, rest)) : rest.length ≤ inp.length := by
  obtain ⟨⟨uniCh, rest₁⟩, h₁, h⟩ := Option.bind_eq_some_iff.mp h
  have hfirst : rest₁.length ≤ inp.length := length_quadhexFrom h₁
  dsimp only at h
  split at h
  · split at h
    · cases h
    · split at h
      · next rest₂ =>
          obtain ⟨⟨second, rest₃⟩, h₂, h⟩ := Option.bind_eq_some_iff.mp h
          have hsecond : rest₃.length ≤ rest₂.length := length_quadhexFrom h₂
          dsimp only at h
          split at h
          · have hrest : rest₃ = rest := congrArg Prod.snd (Option.some.inj h)
            rw [← hrest]
            exact Nat.le_trans hsecond (Nat.le_trans (Nat.le_add_right _ 2) hfirst)
          · cases h
      · cases h
  · cases h
    exact hfirst

theorem stringTurn_consumes (out : Bytes) : Reader.Consumes (stringTurn out) := by
  intro inp a rest h
  cases inp with
  | nil => cases h
  | cons ch inp =>
      simp only [stringTurn] at h
      split at h
      · cases h
      · split at h
        · cases h
          exact Nat.lt_succ_self _
        · split at h
          · -- an escape
            cases inp with
            | nil => cases h
            | cons ch inp =>
                dsimp only at h
                split at h
                · cases h
                  exact Nat.lt_succ_of_lt (Nat.lt_succ_self _)
                · split at h
                  · split at h
                    · next hcode =>
                        cases h
                        have := length_parseCodepoint hcode
                        exact Nat.lt_succ_of_lt (Nat.lt_succ_of_le this)
                    · cases h
                  · cases h
          · cases h
            exact Nat.lt_succ_self _

theorem stringTurn_error {out inp : Bytes} {e : Failure} (h : stringTurn out inp = .error e) :
    e = .rejected := by
  unfold stringTurn at h
  repeat' split at h
  all_goals
    cases h
    try rfl

theorem parseString_consumes : Reader.Consumes parseString :=
  fun h => Reader.Consumes.loop stringTurn_consumes _ _ h

theorem parseString_avoids (n : Nat) : Reader.Avoids parseString .outOfFuel n := by
  intro inp _
  refine Reader.loop_avoids stringTurn_consumes (n := inp.length + 1) ?_ [] ?_ ?_
  · intro out inp _ h
    exact absurd (stringTurn_error h) (by decide)
  · exact Nat.lt_succ_self _
  · exact Nat.lt_succ_self _

section Turns

variable {item : Reader UInt8 Failure Value} {n : Nat}

theorem arrayTurn_consumes (hitem : Reader.Consumes item) (items : List Value) :
    Reader.Consumes (arrayTurn item items) := by
  intro inp a rest h
  obtain ⟨⟨v, rest'⟩, hv, h⟩ := Reader.bind_ok h
  cases h
  exact Nat.lt_of_le_of_lt (length_expect _ _) (hitem hv)

theorem arrayTurn_avoids (hitem : Reader.Avoids item .outOfFuel n) (items : List Value) :
    Reader.Avoids (arrayTurn item items) .outOfFuel n := by
  intro inp hn h
  rcases Reader.bind_error h with hv | ⟨p, -, h⟩
  · exact hitem hn hv
  · cases h

variable (item) in
theorem objectTurn_eq (o : List (Bytes × Value)) (inp : Bytes) :
    objectTurn item o inp = .error .rejected ∨
      (∃ rest, rest.length < inp.length ∧ ∃ e, parseString rest = .error e ∧
        objectTurn item o inp = .error e) ∨
      ∃ key rest, rest.length < inp.length ∧
        objectTurn item o inp = (do
          let (v, rest) ← item rest
          let (more, rest) := expect 0x2c rest
          return ((more, OrderedMap.assign key v o), rest)) := by
  unfold objectTurn
  cases hquote : expect quote inp with
  | mk found rest₁ =>
      cases found with
      | false => exact Or.inl rfl
      | true =>
          have h₁ := expect_true hquote
          cases hkey : parseString rest₁ with
          | error e => exact Or.inr (Or.inl ⟨rest₁, h₁, e, hkey, by simp only [hkey]; rfl⟩)
          | ok p =>
              obtain ⟨key, rest₂⟩ := p
              have h₂ : rest₂.length < rest₁.length := parseString_consumes hkey
              simp only [hkey, bind, Except.bind]
              cases hcolon : expect 0x3a rest₂ with
              | mk found rest₃ =>
                  cases found with
                  | false => exact Or.inl rfl
                  | true =>
                      have h₃ := expect_true hcolon
                      exact Or.inr (Or.inr
                        ⟨key, rest₃, Nat.lt_trans h₃ (Nat.lt_trans h₂ h₁), rfl⟩)

theorem objectTurn_consumes (hitem : Reader.Consumes item) (o : List (Bytes × Value)) :
    Reader.Consumes (objectTurn item o) := by
  intro inp a rest h
  obtain herr | ⟨rest', -, e, -, herr⟩ | ⟨key, rest', hrest, heq⟩ := objectTurn_eq item o inp
  · cases herr.symm.trans h
  · cases herr.symm.trans h
  · obtain ⟨⟨v, rest''⟩, hv, hturn⟩ := Reader.bind_ok (heq.symm.trans h)
    cases hturn
    exact Nat.lt_of_le_of_lt (length_expect _ _) (Nat.lt_trans (hitem hv) hrest)

theorem objectTurn_avoids (hitem : Reader.Avoids item .outOfFuel n) (o : List (Bytes × Value)) :
    Reader.Avoids (objectTurn item o) .outOfFuel n := by
  intro inp hn h
  obtain herr | ⟨rest, hrest, e, hkey, herr⟩ | ⟨key, rest, hrest, heq⟩ := objectTurn_eq item o inp
  · cases herr.symm.trans h
  · cases herr.symm.trans h
    exact parseString_avoids n (Nat.lt_trans hrest hn) hkey
  · rcases Reader.bind_error (heq.symm.trans h) with hv | ⟨p, -, hturn⟩
    · exact hitem (Nat.lt_trans hrest hn) hv
    · cases hturn

end Turns

section Groups

variable {σ : Type} {close : UInt8} {turn : σ → Reader UInt8 Failure (Bool × σ)}

theorem parseGroup_consumes (hturn : ∀ s, Reader.Consumes (turn s)) (empty : σ) (fuel : Nat) :
    Reader.Consumes (parseGroup close turn empty fuel) := by
  intro inp a rest h
  unfold parseGroup at h
  split at h
  · next rest' hclose =>
      cases h
      exact expect_true hclose
  · next rest₁ hopen =>
      have h₁ : rest₁.length ≤ inp.length := by
        have := length_expect close inp
        rwa [hopen] at this
      obtain ⟨⟨s, rest₂⟩, hloop, h⟩ := Reader.bind_ok h
      have h₂ : rest₂.length < rest₁.length := Reader.Consumes.loop hturn fuel empty hloop
      dsimp only at h
      split at h
      · next rest₃ hclose =>
          cases h
          exact Nat.lt_trans (expect_true hclose) (Nat.lt_of_lt_of_le h₂ h₁)
      · cases h

theorem parseGroup_avoids {n : Nat} (hturn : ∀ s, Reader.Consumes (turn s))
    (havoid : ∀ s, Reader.Avoids (turn s) .outOfFuel n) (empty : σ) :
    Reader.Avoids (parseGroup close turn empty n) .outOfFuel n := by
  intro inp hn h
  unfold parseGroup at h
  split at h
  · cases h
  · next rest₁ hopen =>
      have h₁ : rest₁.length < n := by
        have := length_expect close inp
        rw [hopen] at this
        exact Nat.lt_of_le_of_lt this hn
      rcases Reader.bind_error h with hloop | ⟨⟨s, rest₂⟩, -, h⟩
      · exact Reader.loop_avoids hturn havoid empty h₁ h₁ hloop
      · dsimp only at h
        split at h
        · cases h
        · cases h

end Groups

theorem word_consumes {text inp rest : Bytes} {w v : Value} (h : word text w inp = .ok (v, rest)) :
    rest.length ≤ inp.length := by
  unfold word at h
  split at h
  · next hmatch =>
      cases h
      exact length_matchText hmatch
  · cases h

theorem word_error {text inp : Bytes} {w : Value} {e : Failure} (h : word text w inp = .error e) :
    e = .rejected := by
  unfold word at h
  split at h
  · cases h
  · cases h
    rfl

theorem length_parseNumber {ch : UInt8} (h : isNumberByte ch = true) (rest : Bytes) :
    (parseNumber (ch :: rest)).2.length ≤ rest.length := by
  rw [parseNumber, List.span_eq_takeWhile_dropWhile, List.dropWhile_cons_of_pos h]
  exact (List.dropWhile_sublist _).length_le

theorem numberValue_ne (numStr : Bytes) : numberValue numStr ≠ .error .outOfFuel := by
  unfold numberValue
  repeat' split
  all_goals
    intro h
    cases h

theorem isNumberByte_of_start {ch : UInt8} (h : (isDigit ch || ch = 0x2d) = true) :
    isNumberByte ch = true := by
  simp only [Bool.or_eq_true] at h
  rcases h with hdigit | hminus
  · simp only [isNumberByte, hdigit, Bool.true_or]
  · simp only [isNumberByte, hminus, Bool.true_or, Bool.or_true]

/-- The cases are those of `_parse`; each takes at least the byte it looks
at. -/
theorem parseValue_consumes (fuel : Nat) : Reader.Consumes (parseValue fuel) := by
  induction fuel with
  | zero =>
      intro inp a rest h
      cases h
  | succ fuel ih =>
      intro inp a rest h
      have hskip := length_skipWs inp
      unfold parseValue at h
      split at h
      · cases h
      · next ch rest₁ hws =>
          rw [hws] at hskip
          have hlt : ∀ {r : Bytes}, r.length ≤ rest₁.length → r.length < inp.length :=
            fun hr => Nat.lt_of_le_of_lt hr hskip
          split at h
          · exact hlt (word_consumes h)
          split at h
          · exact hlt (word_consumes h)
          split at h
          · exact hlt (word_consumes h)
          split at h
          · obtain ⟨⟨s, rest₂⟩, hs, h⟩ := Reader.bind_ok h
            cases h
            exact hlt (Nat.le_of_lt (parseString_consumes hs))
          split at h
          · obtain ⟨⟨a, rest₂⟩, ha, h⟩ := Reader.bind_ok h
            cases h
            exact hlt (Nat.le_of_lt
              (parseGroup_consumes (fun _ => arrayTurn_consumes ih _) _ _ ha))
          split at h
          · obtain ⟨⟨o, rest₂⟩, ho, h⟩ := Reader.bind_ok h
            cases h
            exact hlt (Nat.le_of_lt
              (parseGroup_consumes (fun _ => objectTurn_consumes ih _) _ _ ho))
          split at h
          · next hstart =>
              obtain ⟨v, hv, h⟩ := Reader.bind_ok h
              cases h
              exact hlt (length_parseNumber (isNumberByte_of_start hstart) rest₁)
          · cases h

theorem parseValue_avoids (fuel : Nat) : Reader.Avoids (parseValue fuel) .outOfFuel fuel := by
  induction fuel with
  | zero =>
      intro inp hn
      exact absurd hn (Nat.not_lt_zero _)
  | succ fuel ih =>
      intro inp hn h
      have hskip := length_skipWs inp
      unfold parseValue at h
      split at h
      · cases h
      · next ch rest hws =>
          rw [hws] at hskip
          have hrest : rest.length < fuel :=
            Nat.lt_of_lt_of_le hskip (Nat.lt_succ_iff.mp hn)
          split at h
          · cases word_error h
          split at h
          · cases word_error h
          split at h
          · cases word_error h
          split at h
          · rcases Reader.bind_error h with hs | ⟨p, -, h⟩
            · exact parseString_avoids fuel hrest hs
            · cases h
          split at h
          · rcases Reader.bind_error h with ha | ⟨p, -, h⟩
            · exact parseGroup_avoids (fun _ => arrayTurn_consumes (parseValue_consumes fuel) _)
                (fun _ => arrayTurn_avoids ih _) _ hrest ha
            · cases h
          split at h
          · rcases Reader.bind_error h with ho | ⟨p, -, h⟩
            · exact parseGroup_avoids (fun _ => objectTurn_consumes (parseValue_consumes fuel) _)
                (fun _ => objectTurn_avoids ih _) _ hrest ho
            · cases h
          split at h
          · rcases Reader.bind_error h with hv | ⟨v, -, h⟩
            · exact numberValue_ne _ hv
            · cases h
          · cases h

/-- One more than the length is enough: the model's own failure never shows. -/
theorem parse_outOfFuel (s : Bytes) : parseValue (s.length + 1) s ≠ .error .outOfFuel :=
  parseValue_avoids (s.length + 1) (Nat.lt_succ_self _)

end Picojson

end LightQ
