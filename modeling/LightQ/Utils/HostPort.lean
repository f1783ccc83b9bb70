/-
# `Utils.HostPort` — the host and the port of a URI (`utils.h`)

`convert_uri_host_port` drops line ends, splits what is left at its colons, and
takes the second of three tokens without its slashes for the host and what
`strtoul` makes of the third for the port.

A URI as the broker puts it together is decoded to its parts
(`convert_uri_host_port_decodes`).  Nothing else about a string is looked at
than the number of its tokens, so that much else is taken for a URI too
(`convert_uri_host_port_rejects_iff`).

`get_tokens` is a loop over `std::getline`: one token for each delimiter, and one
for what follows the last (`length_getlines`; an empty end gives none), none of
which has other bytes than the stream (`mem_getlines`).  To drop a byte is to
replace it by nothing, which is a scan for it (`intercalate_nil_of_scan`).
`strtoul` reads a plain number that it has room for (`strtoul_digits`), so that
what the broker writes of a port is read back (`convertUriHostPort_decimal`), and a
string with the shape of a URI comes to its host and to whatever `strtoul` makes of
the rest (`convertUriHostPort_parts`).
-/
import Mathlib.Data.List.Infix
import LightQ.Admin.Serialize
import LightQ.Storage.FileNames
import LightQ.Utils.Replace

namespace LightQ

open MachineInt

namespace Utils

/-- The bytes `:`, `\r` and `\n`. -/
def colon : UInt8 := 58

def cr : UInt8 := 13

def lf : UInt8 := 10

/-- `while (std::getline(ss, token, del))`: what is read of a token at the end of
the stream is a token if there is something. -/
def getlines (del : UInt8) : Bytes → Bytes → List Bytes
  | token, [] => if token = [] then [] else [token]
  | token, ch :: s =>
      if ch = del then token :: getlines del [] s else getlines del (token ++ [ch]) s

/-- The message without its line ends. -/
def dropLineEnds (message : Bytes) : Bytes := (message.filter (· ≠ cr)).filter (· ≠ lf)

/-- `get_tokens`. -/
def getTokens (message : Bytes) (del : UInt8) : List Bytes := getlines del [] (dropLineEnds message)

/-- `isspace`, in the C locale. -/
def isSpace (ch : UInt8) : Bool := ch = 32 || (9 ≤ ch && ch ≤ 13)

/-- `strtoul` with base 10, of an `unsigned long` of 64 bits.  A zero byte is no
digit and ends the number like any other. -/
def strtoul (s : Bytes) : Nat :=
  let (neg, s) := Picojson.sign (s.dropWhile isSpace)
  let value := Picojson.digitsValue (s.takeWhile Picojson.isDigit)
  if 2 ^ 64 ≤ value then 2 ^ 64 - 1
  else if neg then u64OfInt (-value) else value

/-- `replace(host, "/", "")`; it ends, by `replace_substitutes`. -/
def dropSlashes (host : Bytes) : Bytes :=
  match replace host (ascii "/") [] with
  | some (_, host) => host
  | none => host

/-- `convert_uri_host_port`: the host and the port, or `false`, which leaves
them as they are. -/
def convertUriHostPort (uri : Bytes) : Option (Bytes × Nat) :=
  match getTokens uri colon with
  | [_, host, port] => some (dropSlashes host, u32 (strtoul port))
  | _ => none

/-! ## Tokens -/

section Tokens

variable {del : UInt8} {token s : Bytes}

theorem getlines_token (h : del ∉ token) (front s : Bytes) :
    getlines del front (token ++ del :: s) = (front ++ token) :: getlines del [] s := by
  induction token generalizing front with
  | nil => rw [List.nil_append, getlines, if_pos rfl, List.append_nil]
  | cons ch token ih =>
      have hne : ¬ ch = del := Ne.symm (List.ne_of_not_mem_cons h)
      rw [List.cons_append, getlines, if_neg hne, ih (List.not_mem_of_not_mem_cons h),
        List.append_assoc]
      rfl

theorem getlines_last (h : del ∉ token) (front : Bytes) (hne : front ++ token ≠ []) :
    getlines del front token = [front ++ token] := by
  induction token generalizing front with
  | nil =>
      rw [List.append_nil] at hne ⊢
      rw [getlines, if_neg hne]
  | cons ch token ih =>
      have hother : ¬ ch = del := Ne.symm (List.ne_of_not_mem_cons h)
      have happend : front ++ ch :: token = (front ++ [ch]) ++ token := by
        rw [List.append_assoc]
        rfl
      rw [getlines, if_neg hother, happend]
      exact ih (List.not_mem_of_not_mem_cons h) (front ++ [ch]) (happend ▸ hne)

theorem getLast?_cons_iff {ch : UInt8} : (ch :: s).getLast? = some del ↔
    (s = [] ∧ ch = del) ∨ s.getLast? = some del := by
  cases s with
  | nil => simp
  | cons ch' s => simp [List.getLast?_cons_cons]

theorem length_getlines (del : UInt8) (front s : Bytes) : (getlines del front s).length =
    s.count del + if (s = [] ∧ front = []) ∨ s.getLast? = some del then 0 else 1 := by
  induction s generalizing front with
  | nil =>
      rw [getlines]
      by_cases hfront : front = []
      · rw [if_pos hfront, if_pos (Or.inl ⟨rfl, hfront⟩)]
        rfl
      · rw [if_neg hfront, if_neg (by simp [hfront])]
        rfl
  | cons ch s ih =>
      rw [getlines]
      by_cases hdel : ch = del
      · subst hdel
        rw [if_pos rfl, List.length_cons, ih, List.count_cons_self]
        have hiff : (s = [] ∧ ([] : Bytes) = []) ∨ s.getLast? = some ch ↔
            (ch :: s = [] ∧ front = []) ∨ (ch :: s).getLast? = some ch := by
          rw [getLast?_cons_iff]
          simp
        rw [if_congr hiff rfl rfl]
        omega
      · rw [if_neg hdel, ih, List.count_cons_of_ne hdel]
        have hiff : (s = [] ∧ front ++ [ch] = []) ∨ s.getLast? = some del ↔
            (ch :: s = [] ∧ front = []) ∨ (ch :: s).getLast? = some del := by
          rw [getLast?_cons_iff]
          simp [hdel]
        rw [if_congr hiff rfl rfl]

theorem mem_getlines {ch : UInt8} {front : Bytes} (h : token ∈ getlines del front s)
    (hch : ch ∈ token) : ch ∈ front ∨ ch ∈ s := by
  induction s generalizing front with
  | nil =>
      rw [getlines] at h
      split at h
      · cases h
      · exact Or.inl (List.mem_singleton.mp h ▸ hch)
  | cons ch' s ih =>
      rw [getlines] at h
      split at h
      · rcases List.mem_cons.mp h with rfl | hmore
        · exact Or.inl hch
        · exact Or.inr (List.mem_cons_of_mem ch' ((ih hmore).resolve_left List.not_mem_nil))
      · rcases ih h with hfront | hrest
        · rcases List.mem_append.mp hfront with hfront | hlast
          · exact Or.inl hfront
          · exact Or.inr (List.mem_singleton.mp hlast ▸ List.mem_cons_self)
        · exact Or.inr (List.mem_cons_of_mem ch' hrest)

end Tokens

/-! ## Line ends and slashes -/

theorem not_mem_dropLineEnds (message : Bytes) :
    cr ∉ dropLineEnds message ∧ lf ∉ dropLineEnds message := by
  constructor
  · intro h
    have hcr := (List.mem_filter.mp (List.mem_filter.mp h).1).2
    exact absurd rfl (of_decide_eq_true hcr)
  · intro h
    exact absurd rfl (of_decide_eq_true (List.mem_filter.mp h).2)

theorem mem_of_mem_dropLineEnds {ch : UInt8} {message : Bytes} (h : ch ∈ dropLineEnds message) :
    ch ∈ message :=
  (List.mem_filter.mp (List.mem_filter.mp h).1).1

theorem dropLineEnds_append (s t : Bytes) :
    dropLineEnds (s ++ t) = dropLineEnds s ++ dropLineEnds t := by
  rw [dropLineEnds, List.filter_append, List.filter_append]
  rfl

theorem dropLineEnds_of_not_mem {s : Bytes} (hcr : cr ∉ s) (hlf : lf ∉ s) : dropLineEnds s = s := by
  have hfirst : s.filter (· ≠ cr) = s :=
    List.filter_eq_self.mpr fun b hb => decide_eq_true fun heq => hcr (heq ▸ hb)
  have hsecond : s.filter (· ≠ lf) = s :=
    List.filter_eq_self.mpr fun b hb => decide_eq_true fun heq => hlf (heq ▸ hb)
  rw [dropLineEnds, hfirst, hsecond]

theorem intercalate_nil_of_scan {b : UInt8} {s : Bytes} {pieces : List Bytes}
    (h : Substitution.Scan [b] s pieces) : ([] : Bytes).intercalate pieces = s.filter (· ≠ b) := by
  induction h with
  | @clear s hno =>
      have hother : ∀ ch ∈ s, decide (ch ≠ b) = true := by
        intro ch hch
        refine decide_eq_true ?_
        rintro rfl
        exact hno ((List.singleton_infix_iff ch s).mpr hch)
      rw [List.intercalate_singleton, List.filter_eq_self.mpr hother]
  | @found pre post pieces hfirst hscan ih =>
      have hother : ∀ ch ∈ pre, decide (ch ≠ b) = true := by
        intro ch hch
        refine decide_eq_true ?_
        rintro rfl
        obtain ⟨front, back, rfl⟩ := List.append_of_mem hch
        have hle := hfirst front (back ++ [ch] ++ post) (by simp)
        simp at hle
      obtain ⟨piece, more, rfl⟩ := hscan.exists_cons
      rw [List.intercalate_cons_cons, ih, List.filter_append, List.filter_append,
        List.filter_eq_self.mpr hother]
      simp

theorem dropSlashes_eq (host : Bytes) : dropSlashes host = host.filter (· ≠ slash) := by
  obtain ⟨pieces, hscan, -, -, hreplace⟩ := replace_substitutes (List.cons_ne_nil slash []) host []
  rw [dropSlashes, show ascii "/" = [slash] from rfl, hreplace]
  exact intercalate_nil_of_scan hscan

/-! ## Numbers -/

theorem isDigit_iff {b : UInt8} : Picojson.isDigit b = true ↔ 48 ≤ b.toNat ∧ b.toNat ≤ 57 := by
  rw [Picojson.isDigit, Bool.and_eq_true, decide_eq_true_eq, decide_eq_true_eq,
    UInt8.le_iff_toNat_le, UInt8.le_iff_toNat_le]
  exact Iff.rfl

theorem strtoul_digits {ds : Bytes} (hdigits : ∀ b ∈ ds, Picojson.isDigit b = true)
    (hroom : Picojson.digitsValue ds < 2 ^ 64) : strtoul ds = Picojson.digitsValue ds := by
  have hskip : ds.dropWhile isSpace = ds := by
    cases ds with
    | nil => rfl
    | cons b ds =>
        have hb := isDigit_iff.mp (hdigits b List.mem_cons_self)
        have hspace : ¬ isSpace b = true := by
          rw [isSpace, Bool.or_eq_true, Bool.and_eq_true, decide_eq_true_eq, decide_eq_true_eq,
            decide_eq_true_eq, UInt8.le_iff_toNat_le, UInt8.le_iff_toNat_le, ← UInt8.toNat_inj]
          show ¬ (b.toNat = 32 ∨ 9 ≤ b.toNat ∧ b.toNat ≤ 13)
          omega
        exact List.dropWhile_cons_of_neg hspace
  have hsign : Picojson.sign ds = (false, ds) := by
    unfold Picojson.sign
    split
    · next rest =>
        exact absurd (hdigits 0x2d List.mem_cons_self) (by decide)
    · next rest =>
        exact absurd (hdigits 0x2b List.mem_cons_self) (by decide)
    · rfl
  have htake : ds.takeWhile Picojson.isDigit = ds := List.takeWhile_eq_self_iff.mpr hdigits
  rw [strtoul, hskip, hsign]
  dsimp only
  rw [htake, if_neg (Nat.not_le.mpr hroom), if_neg Bool.false_ne_true]

/-! ## URIs -/

section Uris

variable {scheme host port ds uri : Bytes}

/-- A string with the shape of a URI is decoded. -/
theorem convertUriHostPort_parts (hscheme : colon ∉ scheme) (hcolon : colon ∉ host)
    (hslash : slash ∉ host) (hcr : cr ∉ host) (hlf : lf ∉ host) (hne : ds ≠ [])
    (hdigits : ∀ b ∈ ds, Picojson.isDigit b = true) :
    convertUriHostPort (scheme ++ ascii "://" ++ host ++ ascii ":" ++ ds)
      = some (host, u32 (strtoul ds)) := by
  have hdigit : ∀ b ∈ [colon, cr, lf], b ∉ ds := by
    intro b hb hmem
    have hrange := isDigit_iff.mp (hdigits b hmem)
    simp only [List.mem_cons, List.not_mem_nil, or_false] at hb
    rcases hb with rfl | rfl | rfl
    · exact absurd hrange (by decide)
    · exact absurd hrange (by decide)
    · exact absurd hrange (by decide)
  have hclean : dropLineEnds (scheme ++ ascii "://" ++ host ++ ascii ":" ++ ds)
      = dropLineEnds scheme ++ colon :: ((slash :: slash :: host) ++ colon :: ds) := by
    have hds := dropLineEnds_of_not_mem (hdigit cr (by decide)) (hdigit lf (by decide))
    rw [dropLineEnds_append, dropLineEnds_append, dropLineEnds_append, dropLineEnds_append,
      dropLineEnds_of_not_mem hcr hlf, hds]
    simp only [List.append_assoc]
    rfl
  have hfirst : colon ∉ dropLineEnds scheme := fun h => hscheme (mem_of_mem_dropLineEnds h)
  have hsecond : colon ∉ slash :: slash :: host := by
    simp only [List.mem_cons, not_or]
    exact ⟨by decide, by decide, hcolon⟩
  have htokens : getTokens (scheme ++ ascii "://" ++ host ++ ascii ":" ++ ds) colon
      = [dropLineEnds scheme, slash :: slash :: host, ds] := by
    rw [getTokens, hclean, getlines_token hfirst, getlines_token hsecond,
      getlines_last (hdigit colon (by decide)) [] hne]
    rfl
  have hhost : (slash :: slash :: host).filter (· ≠ slash) = host := by
    rw [List.filter_cons_of_neg (by decide), List.filter_cons_of_neg (by decide)]
    exact List.filter_eq_self.mpr fun b hb => decide_eq_true fun heq => hslash (heq ▸ hb)
  rw [convertUriHostPort, htokens]
  dsimp only
  rw [dropSlashes_eq, hhost]

theorem convertUriHostPort_decimal (hscheme : colon ∉ scheme) (hcolon : colon ∉ host)
    (hslash : slash ∉ host) (hcr : cr ∉ host) (hlf : lf ∉ host) {port : Nat}
    (hport : port < 2 ^ 32) :
    convertUriHostPort (scheme ++ ascii "://" ++ host ++ ascii ":" ++ decimal port)
      = some (host, port) := by
  have hvalue := Picojson.digitsValue_decimal port
  have hdigits : ∀ b ∈ decimal port, Picojson.isDigit b = true :=
    fun b hb => Picojson.isDigit_decimal hb
  have hroom : Picojson.digitsValue (decimal port) < 2 ^ 64 := by omega
  rw [convertUriHostPort_parts hscheme hcolon hslash hcr hlf (Picojson.decimal_ne_nil port)
    hdigits, strtoul_digits hdigits hroom, hvalue, u32_of_lt hport]

/-- Any scheme, any host and any port: a URI that is put together of them is
decoded to the host and the port. -/
theorem convert_uri_host_port_decodes {port : Nat}
    (hscheme : ∀ b ∈ [colon, slash, cr, lf], b ∉ scheme)
    (hhost : ∀ b ∈ [colon, slash, cr, lf], b ∉ host) (hport : port < 2 ^ 32) :
    convertUriHostPort (scheme ++ ascii "://" ++ host ++ ascii ":" ++ decimal port)
      = some (host, port) :=
  convertUriHostPort_decimal (hscheme colon (by decide)) (hhost colon (by decide))
    (hhost slash (by decide)) (hhost cr (by decide)) (hhost lf (by decide)) hport

theorem convert_uri_host_port_decodes_any :
    convertUriHostPort (ascii "tcp" ++ ascii "://" ++ ascii "*" ++ ascii ":" ++ decimal 5001)
      = some (ascii "*", 5001) := by
  refine convert_uri_host_port_decodes ?_ ?_ (by decide)
  all_goals
    intro b hb
    simp only [List.mem_cons, List.not_mem_nil, or_false] at hb
    rcases hb with rfl | rfl | rfl | rfl
    all_goals decide

/-! ## What is taken for a URI -/

/-- The string is `scheme://host:port` with this host and this port. -/
def Written (uri host : Bytes) (port : Nat) : Prop :=
  ∃ scheme ds, uri = scheme ++ ascii "://" ++ host ++ ascii ":" ++ ds ∧
    scheme ≠ [] ∧ host ≠ [] ∧ (∀ b ∈ [colon, slash], b ∉ scheme ∧ b ∉ host) ∧
    ds ≠ [] ∧ (∀ b ∈ ds, Picojson.isDigit b = true) ∧ Picojson.digitsValue ds = port ∧
    1 ≤ port ∧ port ≤ 65535

/-- `convert_uri_host_port` takes the string for a URI only if it is one, with the
host and the port that it returns. -/
def Rejects (uri : Bytes) : Prop :=
  ∀ host port, convertUriHostPort uri = some (host, port) → Written uri host port

/-- Without its line ends the string has two colons, the last of which is not its
end, or three of which one is. -/
def ThreeTokens (uri : Bytes) : Prop :=
  ((dropLineEnds uri).count colon = 2 ∧ (dropLineEnds uri).getLast? ≠ some colon) ∨
    ((dropLineEnds uri).count colon = 3 ∧ (dropLineEnds uri).getLast? = some colon)

theorem threeTokens_iff (uri : Bytes) :
    ThreeTokens uri ↔ (getTokens uri colon).length = 3 := by
  have hlen := length_getlines colon [] (dropLineEnds uri)
  rw [getTokens, hlen, ThreeTokens]
  by_cases hnil : dropLineEnds uri = []
  · simp [hnil]
  · by_cases hlast : (dropLineEnds uri).getLast? = some colon
    · simp [hlast]
    · simp [hnil, hlast]

theorem convertUriHostPort_some (h : ThreeTokens uri) :
    ∃ host port, convertUriHostPort uri = some (host, port) ∧ cr ∉ host ∧ lf ∉ host := by
  obtain ⟨t₀, t₁, t₂, htokens⟩ := List.length_eq_three.mp ((threeTokens_iff uri).mp h)
  obtain ⟨hcr, hlf⟩ := not_mem_dropLineEnds uri
  have hmem : ∀ b ∈ dropSlashes t₁, b ∈ dropLineEnds uri := by
    intro b hb
    rw [dropSlashes_eq] at hb
    have htoken : t₁ ∈ getlines colon [] (dropLineEnds uri) := by
      rw [← getTokens, htokens]
      simp
    exact (mem_getlines htoken (List.mem_filter.mp hb).1).resolve_left List.not_mem_nil
  refine ⟨dropSlashes t₁, u32 (strtoul t₂), ?_, fun h => hcr (hmem _ h), fun h => hlf (hmem _ h)⟩
  rw [convertUriHostPort, htokens]

theorem convertUriHostPort_none (h : ¬ ThreeTokens uri) : convertUriHostPort uri = none := by
  rw [convertUriHostPort]
  split
  · next htokens =>
      rw [threeTokens_iff, htokens] at h
      exact absurd rfl h
  · rfl

/-- Any string: it is rejected or a URI, if and only if it does not come to three
tokens, or is a URI whose host has no line ends. -/
theorem convert_uri_host_port_rejects_iff (uri : Bytes) :
    Rejects uri ↔
      ¬ ThreeTokens uri ∨ ∃ host port, Written uri host port ∧ cr ∉ host ∧ lf ∉ host := by
  constructor
  · intro h
    by_cases hthree : ThreeTokens uri
    · obtain ⟨host, port, hconvert, hcr, hlf⟩ := convertUriHostPort_some hthree
      exact Or.inr ⟨host, port, h host port hconvert, hcr, hlf⟩
    · exact Or.inl hthree
  · rintro (hno | ⟨host, port, hwritten, hcr, hlf⟩) host' port' hconvert
    · rw [convertUriHostPort_none hno] at hconvert
      cases hconvert
    · obtain ⟨scheme, ds, rfl, -, -, hbytes, hne, hdigits, hvalue, -, hhigh⟩ := id hwritten
      obtain ⟨hscheme, hhost⟩ := hbytes colon (by decide)
      obtain ⟨-, hslash⟩ := hbytes slash (by decide)
      have hroom : Picojson.digitsValue ds < 2 ^ 64 := by omega
      have hport : port < 2 ^ 32 := by omega
      rw [convertUriHostPort_parts hscheme hhost hslash hcr hlf hne hdigits,
        strtoul_digits hdigits hroom, hvalue, u32_of_lt hport] at hconvert
      obtain ⟨rfl, rfl⟩ := Prod.mk.inj (Option.some.inj hconvert)
      exact hwritten

/-- No port, and no slashes. -/
theorem convert_uri_host_port_takes : ¬ ∀ uri, Rejects uri := by
  intro h
  have hconvert : convertUriHostPort (ascii "tcp:host:port") = some (ascii "host", 0) := by decide
  obtain ⟨scheme, ds, -, -, -, -, -, -, -, hlow, -⟩ := h _ _ _ hconvert
  exact absurd hlow (by decide)

end Uris

end Utils

end LightQ
