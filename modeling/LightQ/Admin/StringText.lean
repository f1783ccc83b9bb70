/-
# `Admin.StringText` — the strings of JSON (`thirdparty/picojson.h`)

What stands between the quotes of a string, as pieces: a byte that stands for
itself, an escape of one letter, or a character as four hexadecimal digits for
each of its units.  `_parse_string` accepts this and nothing else
(`parseString_complete`, `parseString_sound`): a low surrogate by itself is
refused, and a high one without its partner.

The value of a character written so is its encoding as UTF-8.  A byte that
stands for itself is not looked at; whether these bytes are UTF-8 is up to
whoever wrote them.

`_parse_quadhex` reads one unit (`parseQuadhex_eq_some`), and `_parse_codepoint`
puts a pair of them together (`join_or`) as `Lib.Utf16` does: what it reads is a
character (`parseCodepoint_sound`), and every character is read
(`parseCodepoint_complete`).  The bytes that are pushed for a code point are its
UTF-8 (`utf8_toNat`): a marker above `k` bits is added to them, where the source
has an or (`marker_or`).

A turn of the loop that goes on has read a piece (`stringTurn_piece`), and one that
ends it the quote (`stringTurn_quote`); pieces one after the other are the text of
a string (`stringText_pieces`), and each has a byte, so that the fuel is enough
(`loop_stringText`).
-/
import LightQ.Admin.Serialize
import LightQ.Lib.SeparatedReader
import LightQ.Lib.Utf16

namespace LightQ

namespace Picojson

/-! ## Digits -/

/-- The value of hexadecimal digits, the highest first. -/
def hexNumber (hs : List Nat) : Nat := hs.foldl (fun n h => n * 16 + h) 0

/-- Four digits, of either case, for a unit. -/
def HexText (u : UInt16) (q : Bytes) : Prop :=
  ∃ hs : List Nat, hs.length = 4 ∧ q.map hexValue = hs.map some ∧ hexNumber hs = u.toNat

theorem hexValue_lt {ch : UInt8} {h : Nat} (hch : hexValue ch = some h) : h < 16 := by
  simp only [hexValue, UInt8.le_iff_toNat_le, UInt8.reduceToNat] at hch
  split at hch
  · obtain rfl := Option.some.inj hch
    omega
  split at hch
  · obtain rfl := Option.some.inj hch
    omega
  split at hch
  · obtain rfl := Option.some.inj hch
    omega
  · cases hch

theorem quadhexFrom_eq_some {i n m : Nat} {inp rest : Bytes} :
    quadhexFrom i n inp = some (m, rest) ↔
      ∃ q, ∃ hs : List Nat, hs.length = i ∧ q.map hexValue = hs.map some ∧ inp = q ++ rest ∧
        hs.foldl (fun n h => n * 16 + h) n = m := by
  induction i generalizing n inp with
  | zero =>
      constructor
      · intro h
        obtain ⟨rfl, rfl⟩ := Prod.mk.inj (Option.some.inj h)
        exact ⟨[], [], rfl, rfl, rfl, rfl⟩
      · rintro ⟨q, hs, hlen, hq, rfl, rfl⟩
        obtain rfl := List.length_eq_zero_iff.mp hlen
        obtain rfl := List.map_eq_nil_iff.mp hq
        rfl
  | succ i ih =>
      constructor
      · intro h
        cases inp with
        | nil => cases h
        | cons ch inp =>
            rw [quadhexFrom] at h
            obtain ⟨d, hd, h⟩ := Option.bind_eq_some_iff.mp h
            obtain ⟨q, hs, hlen, hq, rfl, hm⟩ := ih.mp h
            refine ⟨ch :: q, d :: hs, congrArg _ hlen, ?_, rfl, hm⟩
            rw [List.map_cons, List.map_cons, hd, hq]
      · rintro ⟨q, hs, hlen, hq, rfl, hm⟩
        cases hs with
        | nil => cases hlen
        | cons d hs =>
            obtain ⟨ch, q, rfl, hd, hq⟩ := List.map_eq_cons_iff.mp hq
            rw [List.cons_append, quadhexFrom, hd]
            exact ih.mpr ⟨q, hs, Nat.succ.inj hlen, hq, rfl, hm⟩

theorem foldl_hex_lt {hs : List Nat} (h : ∀ d ∈ hs, d < 16) (n : Nat) :
    hs.foldl (fun n d => n * 16 + d) n < (n + 1) * 16 ^ hs.length := by
  induction hs generalizing n with
  | nil => simp
  | cons d hs ih =>
      have hd := h d List.mem_cons_self
      calc hs.foldl (fun n d => n * 16 + d) (n * 16 + d)
          < (n * 16 + d + 1) * 16 ^ hs.length := ih (fun d hd => h d (List.mem_cons_of_mem _ hd)) _
        _ ≤ (n + 1) * 16 * 16 ^ hs.length := Nat.mul_le_mul_right _ (by omega)
        _ = (n + 1) * 16 ^ (d :: hs).length := by
          rw [List.length_cons, Nat.pow_succ, Nat.mul_assoc, Nat.mul_comm 16]

theorem parseQuadhex_eq_some {n : Nat} {inp rest : Bytes} :
    parseQuadhex inp = some (n, rest) ↔
      ∃ u q, HexText u q ∧ inp = q ++ rest ∧ n = u.toNat := by
  rw [parseQuadhex, quadhexFrom_eq_some]
  constructor
  · rintro ⟨q, hs, hlen, hq, hinp, hn⟩
    have hdigit : ∀ d ∈ hs, d < 16 := by
      intro d hd
      obtain ⟨ch, -, hch⟩ := List.mem_map.mp (hq ▸ List.mem_map_of_mem hd)
      exact hexValue_lt hch
    have hsmall : n < 0x10000 := by
      have hlt := foldl_hex_lt hdigit 0
      rw [hlen, hn] at hlt
      exact hlt
    have hunit : (UInt16.ofNat n).toNat = n := by
      rw [UInt16.toNat_ofNat']
      exact Nat.mod_eq_of_lt hsmall
    exact ⟨UInt16.ofNat n, q, ⟨hs, hlen, hq, by rw [hunit]; exact hn⟩, hinp, hunit.symm⟩
  · rintro ⟨u, q, ⟨hs, hlen, hq, hu⟩, hinp, hn⟩
    exact ⟨q, hs, hlen, hq, hinp, hn ▸ hu⟩

/-! ## Characters -/

theorem marker_or {k b : Nat} (h : b < 2 ^ k) (a : Nat) : 2 ^ k * a ||| b = b + 2 ^ k * a := by
  rw [← Nat.two_pow_add_eq_or_of_lt h, Nat.add_comm]

theorem tail_or (n : Nat) : 0x80 ||| (n &&& 0x3f) = n % 0x40 + 0x80 := by
  have hmask : n &&& 0x3f = n % 0x40 := Nat.and_two_pow_sub_one_eq_mod n 6
  rw [hmask]
  exact marker_or (k := 6) (Nat.mod_lt n (by decide)) 2

theorem utf8_toNat (c : Char) : utf8 c.toNat = String.utf8EncodeChar c := by
  have hvalid : c.toNat < 0x110000 := by
    rcases c.valid with hlow | ⟨-, hhigh⟩
    · exact Nat.lt_trans hlow (by decide)
    · exact hhigh
  show utf8 c.toNat = if c.toNat ≤ 0x7f then [UInt8.ofNat c.toNat]
    else if c.toNat ≤ 0x7ff then
      [UInt8.ofNat (c.toNat / 64 % 0x20 + 0xc0), UInt8.ofNat (c.toNat % 0x40 + 0x80)]
    else if c.toNat ≤ 0xffff then
      [UInt8.ofNat (c.toNat / 4096 % 0x10 + 0xe0), UInt8.ofNat (c.toNat / 64 % 0x40 + 0x80),
        UInt8.ofNat (c.toNat % 0x40 + 0x80)]
    else
      [UInt8.ofNat (c.toNat / 262144 % 0x08 + 0xf0), UInt8.ofNat (c.toNat / 4096 % 0x40 + 0x80),
        UInt8.ofNat (c.toNat / 64 % 0x40 + 0x80), UInt8.ofNat (c.toNat % 0x40 + 0x80)]
  generalize c.toNat = n at hvalid ⊢
  have hshift₆ : n >>> 6 = n / 64 := Nat.shiftRight_eq_div_pow n 6
  have hshift₁₂ : n >>> 12 = n / 4096 := Nat.shiftRight_eq_div_pow n 12
  have hshift₁₈ : n >>> 18 = n / 262144 := Nat.shiftRight_eq_div_pow n 18
  simp only [utf8, hshift₆, hshift₁₂, hshift₁₈, tail_or]
  by_cases h₁ : n < 0x80
  · rw [if_pos h₁, if_pos (Nat.lt_succ_iff.mp h₁)]
  have h₁' : ¬ n ≤ 0x7f := fun h => h₁ (Nat.lt_succ_of_le h)
  rw [if_neg h₁, if_neg h₁']
  by_cases h₂ : n < 0x800
  · have hfirst : 0xc0 ||| n / 64 = n / 64 % 0x20 + 0xc0 := by
      rw [Nat.mod_eq_of_lt (by omega)]
      exact marker_or (k := 5) (by omega) 6
    rw [if_pos h₂, if_pos (Nat.lt_succ_iff.mp h₂), hfirst]
  have h₂' : ¬ n ≤ 0x7ff := fun h => h₂ (Nat.lt_succ_of_le h)
  rw [if_neg h₂, if_neg h₂']
  by_cases h₃ : n < 0x10000
  · have hfirst : 0xe0 ||| n / 4096 = n / 4096 % 0x10 + 0xe0 := by
      rw [Nat.mod_eq_of_lt (by omega)]
      exact marker_or (k := 4) (by omega) 14
    rw [if_pos h₃, if_pos (Nat.lt_succ_iff.mp h₃), hfirst]
  · have h₃' : ¬ n ≤ 0xffff := fun h => h₃ (Nat.lt_succ_of_le h)
    have hfirst : 0xf0 ||| n / 262144 = n / 262144 % 0x08 + 0xf0 := by
      rw [Nat.mod_eq_of_lt (by omega)]
      exact marker_or (k := 3) (by omega) 30
    rw [if_neg h₃, if_neg h₃', hfirst]

theorem join_or {u v : UInt16} (h : Utf16.Pair u v) :
    (((u.toNat - 0xd800) <<< 10) ||| ((v.toNat - 0xdc00) &&& 0x3ff)) + 0x10000 =
      Utf16.join u v := by
  obtain ⟨-, hv, hv'⟩ := h
  have hmask : (v.toNat - 0xdc00) &&& 0x3ff = (v.toNat - 0xdc00) % 0x400 :=
    Nat.and_two_pow_sub_one_eq_mod _ 10
  have hlow : (v.toNat - 0xdc00) % 0x400 = v.toNat - 0xdc00 := Nat.mod_eq_of_lt (by omega)
  have hor := Nat.shiftLeft_add_eq_or_of_lt (i := 10) (b := v.toNat - 0xdc00) (by omega)
    (u.toNat - 0xd800)
  have hjoin := Utf16.join_eq u v
  rw [hmask, hlow, ← hor, Nat.shiftLeft_eq]
  omega

/-- The digits of a unit, behind their escape. -/
def unitEscape (q : Bytes) : Bytes := backslash :: 0x75 :: q

/-- How the units of a character are written. -/
def CharText (c : Char) (t : Bytes) : Prop :=
  ∃ qs, List.Forall₂ HexText (Utf16.encode c) qs ∧ t = qs.flatMap unitEscape

theorem charText_single {u : UInt16} (h : Utf16.Single u) {q : Bytes} (hq : HexText u q) :
    CharText (Char.ofNat u.toNat) (unitEscape q) := by
  refine ⟨[q], ?_, (List.flatMap_singleton _ _).symm⟩
  rw [Utf16.encode_single h]
  exact .cons hq .nil

theorem charText_pair {u v : UInt16} (h : Utf16.Pair u v) {q q' : Bytes} (hq : HexText u q)
    (hq' : HexText v q') :
    CharText (Char.ofNat (Utf16.join u v)) (unitEscape q ++ unitEscape q') := by
  refine ⟨[q, q'], ?_, by simp⟩
  rw [Utf16.encode_join h]
  exact .cons hq (.cons hq' .nil)

/-- What `_parse_codepoint` reads behind the first `\\u` is a character. -/
theorem parseCodepoint_sound {inp bytes rest : Bytes}
    (h : parseCodepoint inp = some (bytes, rest)) :
    ∃ c t, CharText c t ∧ unitEscape inp = t ++ rest ∧ bytes = String.utf8EncodeChar c := by
  obtain ⟨⟨n, rest₁⟩, hunit, h⟩ := Option.bind_eq_some_iff.mp h
  obtain ⟨u, q, hq, rfl, rfl⟩ := parseQuadhex_eq_some.mp hunit
  dsimp only at h
  split at h
  · next hsurrogate =>
      by_cases hhigh : 0xdc00 ≤ u.toNat
      · rw [if_pos hhigh] at h
        cases h
      rw [if_neg hhigh] at h
      split at h
      · next rest₂ =>
          obtain ⟨⟨m, rest₃⟩, hsecond, h⟩ := Option.bind_eq_some_iff.mp h
          obtain ⟨v, q', hq', rfl, rfl⟩ := parseQuadhex_eq_some.mp hsecond
          dsimp only at h
          split at h
          · next hlow =>
              obtain ⟨rfl, rfl⟩ := Prod.mk.inj (Option.some.inj h)
              have hpair : Utf16.Pair u v := ⟨⟨hsurrogate.1, Nat.lt_of_not_le hhigh⟩, hlow⟩
              refine ⟨_, _, charText_pair hpair hq hq', ?_, ?_⟩
              · simp [unitEscape, backslash]
              · rw [join_or hpair, ← utf8_toNat, Utf16.toNat_ofNat (Utf16.join_valid hpair)]
          · cases h
      · cases h
  · next hsingle =>
      obtain ⟨rfl, rfl⟩ := Prod.mk.inj (Option.some.inj h)
      have hsingle' : Utf16.Single u := by
        rw [Utf16.Single]
        omega
      refine ⟨_, _, charText_single hsingle' hq, ?_, ?_⟩
      · simp [unitEscape]
      · rw [← utf8_toNat, Utf16.toNat_ofNat (Utf16.single_valid hsingle')]

/-- Every character is read. -/
theorem parseCodepoint_complete {c : Char} {t inp rest : Bytes} (ht : CharText c t)
    (hinp : unitEscape inp = t ++ rest) :
    parseCodepoint inp = some (String.utf8EncodeChar c, rest) := by
  obtain ⟨qs, hqs, rfl⟩ := ht
  rcases Utf16.encode_cases c with ⟨u, hu, hc, hunits⟩ | ⟨u, v, hpair, hc, hunits⟩
  · rw [hunits] at hqs
    obtain ⟨q, _, hq, hnil, rfl⟩ := List.forall₂_cons_left_iff.mp hqs
    obtain rfl := List.forall₂_nil_left_iff.mp hnil
    have hrest : inp = q ++ rest := by simpa [unitEscape] using hinp
    have hread : parseQuadhex inp = some (u.toNat, rest) :=
      parseQuadhex_eq_some.mpr ⟨u, q, hq, hrest, rfl⟩
    have hsingle : ¬ (0xd800 ≤ u.toNat ∧ u.toNat ≤ 0xdfff) := by
      rcases hu with hlow | hhigh <;> omega
    simp only [parseCodepoint, hread, Option.bind_eq_bind, Option.bind_some]
    rw [if_neg hsingle, hc, utf8_toNat]
  · rw [hunits] at hqs
    obtain ⟨q, _, hq, hqs', rfl⟩ := List.forall₂_cons_left_iff.mp hqs
    obtain ⟨q', _, hq', hnil, rfl⟩ := List.forall₂_cons_left_iff.mp hqs'
    obtain rfl := List.forall₂_nil_left_iff.mp hnil
    have hrest : inp = q ++ (0x5c :: 0x75 :: (q' ++ rest)) := by
      simpa [unitEscape, backslash] using hinp
    have hread : parseQuadhex inp = some (u.toNat, 0x5c :: 0x75 :: (q' ++ rest)) :=
      parseQuadhex_eq_some.mpr ⟨u, q, hq, hrest, rfl⟩
    have hread' : parseQuadhex (q' ++ rest) = some (v.toNat, rest) :=
      parseQuadhex_eq_some.mpr ⟨v, q', hq', rfl, rfl⟩
    have hjoin := join_or hpair
    obtain ⟨⟨hu, hu'⟩, hv⟩ := hpair
    simp only [parseCodepoint, hread, hread', Option.bind_eq_bind, Option.bind_some]
    rw [if_pos ⟨hu, by omega⟩, if_neg (Nat.not_le.mpr hu'), if_pos hv, hjoin, hc, utf8_toNat]

/-! ## Strings -/

/-- A piece of the text of a string, and what it stands for. -/
inductive Piece : Bytes → Bytes → Prop
  | raw {b : UInt8} : ¬ b < 0x20 → b ≠ quote → b ≠ backslash → Piece [b] [b]
  | letter {ch b : UInt8} : unescape ch = some b → Piece [backslash, ch] [b]
  | char {c : Char} {t : Bytes} : CharText c t → Piece t (String.utf8EncodeChar c)

/-- The text between the quotes of a string, and its value. -/
inductive StringText : Bytes → Bytes → Prop
  | nil : StringText [] []
  | cons {t b ts bs : Bytes} : Piece t b → StringText ts bs → StringText (t ++ ts) (b ++ bs)

theorem charText_escape {c : Char} {t : Bytes} (h : CharText c t) :
    ∃ inp, t = unitEscape inp ∧ inp ≠ [] := by
  obtain ⟨qs, hqs, rfl⟩ := h
  rcases Utf16.encode_cases c with ⟨u, -, -, hunits⟩ | ⟨u, v, -, -, hunits⟩
  all_goals
    rw [hunits] at hqs
    obtain ⟨q, qs', ⟨hs, hlen, hq, -⟩, -, rfl⟩ := List.forall₂_cons_left_iff.mp hqs
    refine ⟨q ++ qs'.flatMap unitEscape, by simp [unitEscape], ?_⟩
    rintro hnil
    obtain ⟨rfl, -⟩ := List.append_eq_nil_iff.mp hnil
    obtain rfl := List.map_eq_nil_iff.mp hq.symm
    cases hlen

theorem stringTurn_piece {out out' inp rest : Bytes}
    (h : stringTurn out inp = .ok ((true, out'), rest)) :
    ∃ t b, Piece t b ∧ inp = t ++ rest ∧ out' = out ++ b := by
  cases inp with
  | nil => cases h
  | cons ch inp =>
      unfold stringTurn at h
      dsimp only at h
      by_cases hcontrol : ch < 0x20
      · rw [if_pos hcontrol] at h
        cases h
      by_cases hquote : ch = quote
      · rw [if_neg hcontrol, if_pos hquote] at h
        cases h
      by_cases hbackslash : ch = backslash
      · subst hbackslash
        rw [if_neg hcontrol, if_neg hquote, if_pos rfl] at h
        cases inp with
        | nil => cases h
        | cons ch inp =>
            dsimp only at h
            split at h
            · next b hb =>
                cases h
                exact ⟨[backslash, ch], [b], .letter hb, rfl, rfl⟩
            split at h
            · next hu =>
                subst hu
                split at h
                · next bytes rest' hcode =>
                    cases h
                    obtain ⟨c, t, ht, hinp, rfl⟩ := parseCodepoint_sound hcode
                    exact ⟨t, _, .char ht, hinp, rfl⟩
                · cases h
            · cases h
      · rw [if_neg hcontrol, if_neg hquote, if_neg hbackslash] at h
        cases h
        exact ⟨[ch], [ch], .raw hcontrol hquote hbackslash, rfl, rfl⟩

theorem stringTurn_quote {out out' inp rest : Bytes}
    (h : stringTurn out inp = .ok ((false, out'), rest)) : inp = quote :: rest ∧ out' = out := by
  cases inp with
  | nil => cases h
  | cons ch inp =>
      unfold stringTurn at h
      dsimp only at h
      by_cases hcontrol : ch < 0x20
      · rw [if_pos hcontrol] at h
        cases h
      by_cases hquote : ch = quote
      · rw [if_neg hcontrol, if_pos hquote] at h
        cases h
        exact ⟨congrArg (· :: _) hquote, rfl⟩
      rw [if_neg hcontrol, if_neg hquote] at h
      split at h
      · split at h
        · cases h
        · split at h
          · cases h
          · split at h
            · split at h
              · cases h
              · cases h
            · cases h
      · cases h

theorem stringTurn_of_piece {t b : Bytes} (h : Piece t b) (out rest : Bytes) :
    stringTurn out (t ++ rest) = .ok ((true, out ++ b), rest) := by
  cases h with
  | raw hcontrol hquote hbackslash =>
      show stringTurn out (_ :: rest) = _
      simp only [stringTurn, if_neg hcontrol, if_neg hquote, if_neg hbackslash]
  | @letter ch b hb =>
      show stringTurn out (backslash :: ch :: rest) = _
      rw [stringTurn, if_neg (by decide), if_neg (by decide), if_pos rfl]
      simp only [hb]
  | char hc =>
      obtain ⟨inp, rfl, -⟩ := charText_escape hc
      have hread : parseCodepoint (inp ++ rest) = some (_, rest) := parseCodepoint_complete hc rfl
      show stringTurn out (backslash :: 0x75 :: (inp ++ rest)) = _
      rw [stringTurn, if_neg (by decide), if_neg (by decide), if_pos rfl]
      simp only [show unescape 0x75 = none by decide, if_true, hread]

theorem length_piece_pos {t b : Bytes} (h : Piece t b) : 0 < t.length := by
  cases h with
  | raw _ _ _ => exact Nat.one_pos
  | letter _ => exact Nat.two_pos
  | char hc =>
      obtain ⟨inp, rfl, -⟩ := charText_escape hc
      exact Nat.succ_pos _

theorem stringText_pieces (ps : List { p : Bytes × Bytes // Piece p.1 p.2 }) :
    StringText (ps.flatMap fun p => p.val.1) (ps.flatMap fun p => p.val.2) := by
  induction ps with
  | nil => exact .nil
  | cons p ps ih => exact .cons p.property ih

theorem foldl_pieces (ps : List { p : Bytes × Bytes // Piece p.1 p.2 }) (out : Bytes) :
    ps.foldl (fun out p => out ++ p.val.2) out = out ++ ps.flatMap fun p => p.val.2 := by
  induction ps generalizing out with
  | nil => exact (List.append_nil out).symm
  | cons p ps ih => rw [List.foldl_cons, ih, List.flatMap_cons, List.append_assoc]

theorem parseString_sound {inp v rest : Bytes} (h : parseString inp = .ok (v, rest)) :
    ∃ t, StringText t v ∧ inp = t ++ quote :: rest := by
  have hturn : ∀ out inp out' rest, stringTurn out inp = .ok ((true, out'), rest) →
      ∃ p : { p : Bytes × Bytes // Piece p.1 p.2 },
        inp = p.val.1 ++ rest ∧ out' = out ++ p.val.2 := by
    intro out inp out' rest h
    obtain ⟨t, b, hpiece, hinp, hout⟩ := stringTurn_piece h
    exact ⟨⟨(t, b), hpiece⟩, hinp, hout⟩
  unfold parseString at h
  obtain ⟨ps, inp', rfl, hlast⟩ := Reader.pieces_of_loop hturn h
  rw [foldl_pieces, List.nil_append] at hlast
  obtain ⟨rfl, rfl⟩ := stringTurn_quote hlast
  exact ⟨_, stringText_pieces ps, rfl⟩

theorem loop_stringText {t v : Bytes} (h : StringText t v) (rest : Bytes) {fuel : Nat}
    (hfuel : t.length < fuel) (out : Bytes) :
    Reader.loop .outOfFuel stringTurn fuel out (t ++ quote :: rest) = .ok (out ++ v, rest) := by
  induction h generalizing fuel out with
  | nil =>
      obtain ⟨fuel, rfl⟩ := Nat.exists_eq_add_one.mpr hfuel
      have hquote : stringTurn out (quote :: rest) = .ok ((false, out), rest) := by
        simp only [stringTurn, if_neg (by decide : ¬ quote < 0x20), if_true]
      rw [List.nil_append, Reader.loop, hquote, List.append_nil]
  | @cons t b ts bs hpiece _ ih =>
      obtain ⟨fuel, rfl⟩ := Nat.exists_eq_add_one.mpr (Nat.zero_lt_of_lt hfuel)
      have hpos := length_piece_pos hpiece
      rw [List.length_append] at hfuel
      rw [List.append_assoc, Reader.loop, stringTurn_of_piece hpiece]
      dsimp only
      rw [ih (by omega), List.append_assoc]

theorem parseString_complete {t v : Bytes} (h : StringText t v) (rest : Bytes) :
    parseString (t ++ quote :: rest) = .ok (v, rest) := by
  refine loop_stringText h rest ?_ []
  rw [List.length_append]
  omega

end Picojson

end LightQ
