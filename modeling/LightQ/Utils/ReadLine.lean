/-
# `Utils.ReadLine` — a line of a stream (`utils.h`)

`read_line` reads a byte at a time, until a carriage return has been followed by
a line feed or the stream ends, and keeps as many bytes as the buffer has room
for in front of a zero.

The invariant of its loop is `Reading`: what has been read has no line end in it,
`found_r` tells whether it ends in a carriage return, and the buffer has the
front of it.  `read_line_takes_lines` says what a call does, and what calls do one
after the other; a line end is the first place of a pattern (`Lib.Substitution`).

There is a lemma for each byte that can come.  A line feed behind a carriage return
ends the line (`Reading.lineFeed`; a byte completes a line end only so,
`crlf_infix_snoc`); a carriage return ends none, and the next byte may
(`Reading.carriageReturn`); no other byte does (`Reading.other`); and at the end of
the stream what has been read is the line (`Reading.eof`).  A byte is kept as long
as there is room for it and a zero (`Reading.keep`), and where the line ends a zero
is put behind what is kept (`store_zero`).

An interrupted read is made again.  From the start of the buffer and of a line a
call takes the line (`ToLineEnd.takesLine`); only a stream at its end has an empty
first line (`IsLine.eq_nil_iff`), and the calls until then return its lines.
-/
import LightQ.Utils.HostPort

namespace LightQ

open Overlay Substitution

/-- What a `read` of one byte comes to: a byte, `EINTR` or another error.  At the
end of the stream it returns 0. -/
inductive ByteRead where
  | got (ch : UInt8)
  | interrupted
  | failed
deriving DecidableEq, Repr

/-- The result of `read_line`: its value, the buffer, and the reads to come. -/
structure LineRead where
  value : Int
  buffer : Bytes
  reads : List ByteRead

namespace Utils

/-- The loop of `read_line`; `totRead` is also how far the pointer has moved. -/
def readLineLoop (bufSize : Nat) : Bytes → Nat → Bool → List ByteRead → LineRead
  | buffer, totRead, _, [] =>
      if totRead = 0 then ⟨0, buffer, []⟩ else ⟨totRead, store buffer totRead [0], []⟩
  | buffer, totRead, foundR, .interrupted :: reads =>
      readLineLoop bufSize buffer totRead foundR reads
  | buffer, _, _, .failed :: reads => ⟨-1, buffer, reads⟩
  | buffer, totRead, foundR, .got ch :: reads =>
      let kept := totRead < bufSize - 1
      let buffer := if kept then store buffer totRead [ch] else buffer
      let totRead := if kept then totRead + 1 else totRead
      if ch = cr then readLineLoop bufSize buffer totRead true reads
      else if ch = lf && foundR then ⟨totRead, store buffer totRead [0], reads⟩
      else readLineLoop bufSize buffer totRead false reads

/-- `read_line`. -/
def readLine (buffer : Bytes) (bufSize : Nat) (reads : List ByteRead) : LineRead :=
  if bufSize = 0 then ⟨0, buffer, reads⟩ else readLineLoop bufSize buffer 0 false reads

/-- `read_line`, again and again, until it returns 0: the values and the bytes
that are in the buffer then. -/
def readLines (bufSize : Nat) : Nat → Bytes → List ByteRead → List (Int × Bytes)
  | 0, _, _ => []
  | calls + 1, buffer, reads =>
      let r := readLine buffer bufSize reads
      if r.value = 0 then [] else (r.value, r.buffer) :: readLines bufSize calls r.buffer r.reads

end Utils

namespace ReadLine

open Utils (cr lf)

/-- The bytes of the stream. -/
def stream (reads : List ByteRead) : Bytes :=
  reads.filterMap fun
    | .got ch => some ch
    | _ => none

/-- What a line ends with. -/
def crlf : Bytes := [cr, lf]

/-- The first line of a stream, with its end if it has one, and the rest. -/
inductive IsLine : Bytes → Bytes → Bytes → Prop where
  | ended {pre rest : Bytes} : First crlf pre rest →
      IsLine (pre ++ crlf ++ rest) (pre ++ crlf) rest
  | last {s : Bytes} : ¬ crlf <:+: s → IsLine s s []

/-- What a call is to do with a stream and a buffer. -/
structure TakesLine (bufSize : Nat) (buffer : Bytes) (reads : List ByteRead) (line : Bytes)
    (r : LineRead) : Prop where
  consumed : ∃ used, reads = used ++ r.reads ∧ stream used = line
  first : IsLine (stream reads) line (stream r.reads)
  value : r.value = (min line.length (bufSize - 1) : Nat)
  stored : 0 < r.value → r.buffer = line.take r.value.toNat ++ 0 :: buffer.drop (r.value.toNat + 1)
  inside : r.buffer.length = buffer.length
  ended : r.value = 0 ↔ stream reads = []

/-- A stream cut into its lines. -/
inductive Lines : Bytes → List Bytes → Prop where
  | none : Lines [] []
  | more {s line rest : Bytes} {lines : List Bytes} : s ≠ [] → IsLine s line rest →
      Lines rest lines → Lines s (line :: lines)

/-- A call has returned the length of a line, as far as there was room, and has put
that much of it and a zero at the start of the buffer. -/
def Kept (bufSize : Nat) (line : Bytes) (call : Int × Bytes) : Prop :=
  call.1 = (min line.length (bufSize - 1) : Nat) ∧
    call.2.take (call.1.toNat + 1) = line.take call.1.toNat ++ [0]

/-- The loop in the middle of a line: what has been read, what of it is in the
buffer, and what `found_r` says about its end. -/
structure Reading (bufSize : Nat) (buffer₀ before buffer : Bytes) (totRead : Nat) (foundR : Bool) :
    Prop where
  clear : ¬ crlf <:+: before
  found : foundR = true ↔ before.getLast? = some cr
  count : totRead = min before.length (bufSize - 1)
  stored : buffer = store buffer₀ 0 (before.take (bufSize - 1))

/-- The loop from the middle of a line on, `before` being read already: the rest of
the line is consumed and counted, and the buffer has the front of it. -/
def ToLineEnd (bufSize : Nat) (buffer₀ before : Bytes) (reads : List ByteRead) (line : Bytes)
    (r : LineRead) : Prop :=
  (∃ used, reads = used ++ r.reads ∧ before ++ stream used = line) ∧
    IsLine (before ++ stream reads) line (stream r.reads) ∧
    r.value = (min line.length (bufSize - 1) : Nat) ∧
    r.buffer = if line = [] then buffer₀ else store buffer₀ 0 (line.take (bufSize - 1) ++ [0])

section Loop

variable {bufSize totRead totRead' : Nat} {buffer₀ before buffer buffer' s line rest : Bytes} {foundR : Bool}
  {reads : List ByteRead} {ch : UInt8} {r : LineRead}

theorem crlf_infix_snoc : crlf <:+: before ++ [ch] ↔
    (before.getLast? = some cr ∧ ch = lf) ∨ crlf <:+: before := by
  rw [List.infix_concat_iff]
  refine or_congr_left ?_
  rw [List.suffix_concat_iff, or_iff_right (show crlf ≠ [] by decide)]
  constructor
  · rintro ⟨t, heq, hsuffix⟩
    obtain ⟨rfl, hlast⟩ := List.append_inj' (show [cr] ++ [lf] = t ++ [ch] from heq) rfl
    obtain ⟨front, rfl⟩ := hsuffix
    exact ⟨List.getLast?_concat, (List.cons.inj hlast).1.symm⟩
  · rintro ⟨hlast, rfl⟩
    exact ⟨[cr], rfl, List.singleton_suffix_iff_getLast?_eq_some.mpr hlast⟩

theorem Reading.start (bufSize : Nat) (buffer : Bytes) :
    Reading bufSize buffer [] buffer 0 false where
  clear := by decide
  found := by decide
  count := (Nat.zero_min _).symm
  stored := by rw [List.take_nil]; rfl

theorem Reading.keep (h : Reading bufSize buffer₀ before buffer totRead foundR) (ch : UInt8) :
    (if totRead < bufSize - 1 then totRead + 1 else totRead)
        = min (before ++ [ch]).length (bufSize - 1) ∧
      (if totRead < bufSize - 1 then store buffer totRead [ch] else buffer)
        = store buffer₀ 0 ((before ++ [ch]).take (bufSize - 1)) := by
  have hcount := h.count
  rw [h.stored, List.length_append, List.length_singleton]
  by_cases hroom : totRead < bufSize - 1
  · have hlen : before.length = totRead := by omega
    have hless : (before ++ [ch]).length ≤ bufSize - 1 := by
      rw [List.length_append, List.length_singleton]
      omega
    have hshort : before.length ≤ bufSize - 1 := by omega
    rw [if_pos hroom, if_pos hroom, List.take_of_length_le hshort, List.take_of_length_le hless,
      ← hlen]
    refine ⟨by omega, ?_⟩
    have happend : overlay (0 : UInt8) (overlay 0 buffer₀ 0 before) (0 + before.length) [ch]
        = overlay 0 buffer₀ 0 (before ++ [ch]) := overlay_append before [ch]
    rw [Nat.zero_add] at happend
    exact happend
  · have hfull : bufSize - 1 ≤ before.length := by omega
    rw [if_neg hroom, if_neg hroom, List.take_append_of_le_length hfull]
    exact ⟨by omega, rfl⟩

theorem store_zero (buffer₀ : Bytes) (bufSize : Nat) (line : Bytes) :
    store (store buffer₀ 0 (line.take (bufSize - 1))) (min line.length (bufSize - 1)) [0]
      = store buffer₀ 0 (line.take (bufSize - 1) ++ [0]) := by
  have happend : overlay (0 : UInt8) (overlay 0 buffer₀ 0 (line.take (bufSize - 1)))
      (0 + (line.take (bufSize - 1)).length) [0]
        = overlay 0 buffer₀ 0 (line.take (bufSize - 1) ++ [0]) := overlay_append _ _
  rw [Nat.zero_add, List.length_take, Nat.min_comm] at happend
  exact happend

theorem ToLineEnd.got (h : ToLineEnd bufSize buffer₀ (before ++ [ch]) reads line r) :
    ToLineEnd bufSize buffer₀ before (.got ch :: reads) line r := by
  obtain ⟨⟨used, hreads, hused⟩, hline, hvalue⟩ := h
  rw [List.append_assoc] at hused hline
  exact ⟨⟨.got ch :: used, congrArg (List.cons _) hreads, hused⟩, hline, hvalue⟩

theorem ToLineEnd.interrupted (h : ToLineEnd bufSize buffer₀ before reads line r) :
    ToLineEnd bufSize buffer₀ before (.interrupted :: reads) line r := by
  obtain ⟨⟨used, hreads, hused⟩, hline, hvalue⟩ := h
  exact ⟨⟨.interrupted :: used, congrArg (List.cons _) hreads, hused⟩, hline, hvalue⟩

theorem Reading.eof (h : Reading bufSize buffer₀ before buffer totRead foundR)
    (hsize : 2 ≤ bufSize) :
    ToLineEnd bufSize buffer₀ before [] before
      (Utils.readLineLoop bufSize buffer totRead foundR []) := by
  have hend : IsLine (before ++ stream []) before (stream []) := by
    rw [show stream [] = [] from rfl, List.append_nil]
    exact IsLine.last h.clear
  have hcount := h.count
  rw [Utils.readLineLoop]
  by_cases hnone : totRead = 0
  · -- There is room for one byte at least: nothing has been read.
    have hlen : before.length = 0 := by omega
    obtain rfl := List.eq_nil_of_length_eq_zero hlen
    rw [if_pos hnone]
    refine ⟨⟨[], rfl, rfl⟩, hend, ?_, ?_⟩
    · rw [List.length_nil, Nat.zero_min]
      rfl
    · rw [if_pos rfl, h.stored, List.take_nil]
      rfl
  · have hsome : before ≠ [] := by
      rintro rfl
      exact hnone (by rw [hcount, List.length_nil, Nat.zero_min])
    rw [if_neg hnone]
    refine ⟨⟨[], rfl, List.append_nil _⟩, hend, congrArg Nat.cast hcount, ?_⟩
    rw [if_neg hsome, h.stored, hcount, store_zero]

theorem Reading.lineFeed (h : Reading bufSize buffer₀ before buffer totRead true)
    (hcount : totRead' = min (before ++ [lf]).length (bufSize - 1))
    (hstored : buffer' = store buffer₀ 0 ((before ++ [lf]).take (bufSize - 1)))
    (reads : List ByteRead) :
    ToLineEnd bufSize buffer₀ before (.got lf :: reads) (before ++ [lf])
      ⟨totRead', store buffer' totRead' [0], reads⟩ := by
  obtain ⟨pre, rfl⟩ := List.singleton_suffix_iff_getLast?_eq_some.mpr (h.found.mp rfl)
  have hcrlf : pre ++ [cr] ++ [lf] = pre ++ crlf := List.append_assoc _ _ _
  have hfirst : First crlf pre (stream reads) := by
    refine first_of_clear ?_ _
    rw [← hcrlf, List.dropLast_concat]
    exact h.clear
  refine ⟨⟨[.got lf], rfl, rfl⟩, ?_, congrArg Nat.cast hcount, ?_⟩
  · have hended := IsLine.ended hfirst
    rw [← hcrlf, List.append_assoc] at hended
    exact hended
  · rw [if_neg (List.append_ne_nil_of_right_ne_nil _ (List.cons_ne_nil lf [])), hstored, hcount,
      store_zero]

theorem Reading.carriageReturn (h : Reading bufSize buffer₀ before buffer totRead foundR)
    (hcount : totRead' = min (before ++ [cr]).length (bufSize - 1))
    (hstored : buffer' = store buffer₀ 0 ((before ++ [cr]).take (bufSize - 1))) :
    Reading bufSize buffer₀ (before ++ [cr]) buffer' totRead' true := by
  refine Reading.mk ?_ (iff_of_true rfl List.getLast?_concat) hcount hstored
  rw [crlf_infix_snoc]
  rintro (⟨-, heq⟩ | hinfix)
  · exact absurd heq (by decide)
  · exact h.clear hinfix

theorem Reading.other (h : Reading bufSize buffer₀ before buffer totRead foundR) {ch : UInt8}
    (hcr : ch ≠ cr) (hlf : ¬ (ch = lf ∧ foundR = true))
    (hcount : totRead' = min (before ++ [ch]).length (bufSize - 1))
    (hstored : buffer' = store buffer₀ 0 ((before ++ [ch]).take (bufSize - 1))) :
    Reading bufSize buffer₀ (before ++ [ch]) buffer' totRead' false := by
  have hlast : (before ++ [ch]).getLast? ≠ some cr := by
    rw [List.getLast?_concat]
    exact fun heq => hcr (Option.some.inj heq)
  refine Reading.mk ?_ (iff_of_false Bool.false_ne_true hlast) hcount hstored
  rw [crlf_infix_snoc, ← h.found]
  rintro (⟨hfound, rfl⟩ | hinfix)
  · exact hlf ⟨rfl, hfound⟩
  · exact h.clear hinfix

/-- The loop comes to the end of the line.  The induction is on the reads. -/
theorem readLineLoop_line (h : Reading bufSize buffer₀ before buffer totRead foundR)
    (hsize : 2 ≤ bufSize) (hno : .failed ∉ reads) :
    ∃ line, ToLineEnd bufSize buffer₀ before reads line
      (Utils.readLineLoop bufSize buffer totRead foundR reads) := by
  induction reads generalizing before buffer totRead foundR with
  | nil => exact ⟨before, h.eof hsize⟩
  | cons read reads ih =>
      have hlater : .failed ∉ reads := fun hmem => hno (List.mem_cons_of_mem read hmem)
      cases read with
      | failed => exact absurd List.mem_cons_self hno
      | interrupted =>
          obtain ⟨line, hline⟩ := ih h hlater
          exact ⟨line, hline.interrupted⟩
      | got ch =>
          obtain ⟨hcount, hstored⟩ := h.keep ch
          rw [Utils.readLineLoop]
          by_cases hcr : ch = cr
          · subst hcr
            obtain ⟨line, hline⟩ := ih (h.carriageReturn hcount hstored) hlater
            rw [if_pos rfl]
            exact ⟨line, hline.got⟩
          · rw [if_neg hcr]
            by_cases hlf : ch = lf ∧ foundR = true
            · obtain ⟨rfl, rfl⟩ := hlf
              exact ⟨before ++ [lf], h.lineFeed hcount hstored reads⟩
            · obtain ⟨line, hline⟩ := ih (h.other hcr hlf hcount hstored) hlater
              rw [if_neg (by simpa using hlf)]
              exact ⟨line, hline.got⟩

end Loop

/-! ## A call, and calls one after the other -/

section Call

variable {bufSize : Nat} {buffer s line rest : Bytes} {lines : List Bytes}
  {reads : List ByteRead} {r : LineRead}

theorem IsLine.append (h : IsLine s line rest) : line ++ rest = s := by
  cases h with
  | ended _ => rfl
  | last _ => exact List.append_nil _

theorem IsLine.eq_nil_iff (h : IsLine s line rest) : line = [] ↔ s = [] := by
  cases h with
  | @ended pre rest _ =>
      have hne : pre ++ crlf ≠ [] := List.append_ne_nil_of_right_ne_nil _ (List.cons_ne_nil _ _)
      exact iff_of_false hne (List.append_ne_nil_of_left_ne_nil hne _)
  | last _ => exact Iff.rfl

theorem Lines.flatten (h : Lines s lines) : lines.flatten = s := by
  induction h with
  | none => rfl
  | more _ hline _ ih => rw [List.flatten_cons, ih, hline.append]

theorem ToLineEnd.takesLine (h : ToLineEnd bufSize buffer [] reads line r) (hsize : 2 ≤ bufSize)
    (hbuf : bufSize ≤ buffer.length) : TakesLine bufSize buffer reads line r := by
  obtain ⟨hused, hline, hvalue, hbuffer⟩ := h
  have hnat : r.value.toNat = min line.length (bufSize - 1) := by omega
  have hempty : line = [] ↔ r.value = 0 := by
    rw [← List.length_eq_zero_iff]
    omega
  have hlen : (line.take (bufSize - 1) ++ [0]).length = r.value.toNat + 1 := by
    rw [List.length_append, List.length_take, List.length_singleton, Nat.min_comm, hnat]
  have hstored : line ≠ [] →
      r.buffer = line.take r.value.toNat ++ 0 :: buffer.drop (r.value.toNat + 1) := by
    intro hne
    calc r.buffer = store buffer 0 (line.take (bufSize - 1) ++ [0]) := by
            rw [hbuffer, if_neg hne]
      _ = line.take (bufSize - 1) ++ [0] ++ buffer.drop (r.value.toNat + 1) := by
            rw [store, overlay_zero, hlen]
      _ = line.take r.value.toNat ++ 0 :: buffer.drop (r.value.toNat + 1) := by
            rw [hnat, List.take_eq_take_min (i := bufSize - 1), Nat.min_comm, List.append_assoc,
              List.singleton_append]
  have hinside : r.buffer.length = buffer.length := by
    by_cases hne : line = []
    · rw [hbuffer, if_pos hne]
    · rw [hstored hne, List.length_append, List.length_take, List.length_cons, List.length_drop]
      omega
  refine ⟨hused, hline, hvalue, fun hpos => hstored ?_, hinside, ?_⟩
  · rw [ne_eq, hempty]
    omega
  · rw [← hempty]
    exact hline.eq_nil_iff

theorem readLine_takesLine (hsize : 2 ≤ bufSize) (hbuf : bufSize ≤ buffer.length)
    (hno : .failed ∉ reads) :
    ∃ line, TakesLine bufSize buffer reads line (Utils.readLine buffer bufSize reads) := by
  obtain ⟨line, hline⟩ := readLineLoop_line (Reading.start bufSize buffer) hsize hno
  rw [Utils.readLine, if_neg (by omega)]
  exact ⟨line, hline.takesLine hsize hbuf⟩

/-- The calls until the stream ends return its lines.  The induction is on the number
of calls there may be: each but the last takes a byte at least. -/
theorem readLines_kept (hsize : 2 ≤ bufSize) (calls : Nat) :
    ∀ {buffer : Bytes} {reads : List ByteRead}, bufSize ≤ buffer.length → .failed ∉ reads →
      reads.length < calls → ∃ lines, Lines (stream reads) lines ∧
        List.Forall₂ (Kept bufSize) lines (Utils.readLines bufSize calls buffer reads) := by
  induction calls with
  | zero => exact fun _ _ hlt => absurd hlt (Nat.not_lt_zero _)
  | succ calls ih =>
      intro buffer reads hbuf hno hlt
      obtain ⟨line, hline⟩ := readLine_takesLine hsize hbuf hno
      rw [Utils.readLines]
      by_cases hzero : (Utils.readLine buffer bufSize reads).value = 0
      · rw [if_pos hzero, hline.ended.mp hzero]
        exact ⟨[], Lines.none, List.Forall₂.nil⟩
      · obtain ⟨used, hreads, hused⟩ := hline.consumed
        have hne : stream reads ≠ [] := fun hend => hzero (hline.ended.mpr hend)
        have hsome : used ≠ [] := by
          rintro rfl
          exact hne (hline.first.eq_nil_iff.mp hused.symm)
        have hless : (Utils.readLine buffer bufSize reads).reads.length < calls := by
          have hlen := congrArg List.length hreads
          rw [List.length_append] at hlen
          have := List.length_pos_iff.mpr hsome
          omega
        have hlater : .failed ∉ (Utils.readLine buffer bufSize reads).reads := by
          intro hmem
          exact hno (hreads ▸ List.mem_append_right used hmem)
        obtain ⟨lines, hlines, hkept⟩ := ih (hline.inside ▸ hbuf) hlater hless
        rw [if_neg hzero]
        refine ⟨line :: lines, Lines.more hne hline.first hlines,
          List.Forall₂.cons ⟨hline.value, ?_⟩ hkept⟩
        have hvalue := hline.value
        have hlen : (line.take (Utils.readLine buffer bufSize reads).value.toNat).length
            = (Utils.readLine buffer bufSize reads).value.toNat := by
          rw [List.length_take]
          omega
        rw [hline.stored (by omega), List.take_append, List.take_of_length_le (by omega), hlen,
          Nat.add_sub_cancel_left, List.take_succ_cons, List.take_zero]

end Call

end ReadLine

open ReadLine in
/-- `read_line` takes the next line of a stream whatever is interrupted, and calls
until the end of the stream take all of its lines. -/
theorem Utils.read_line_takes_lines (bufSize : Nat) (buffer : Bytes) (reads : List ByteRead)
    (hsize : 2 ≤ bufSize) (hbuf : bufSize ≤ buffer.length) (hno : .failed ∉ reads) :
    (∃ line, TakesLine bufSize buffer reads line (Utils.readLine buffer bufSize reads)) ∧
      ∀ calls, reads.length < calls → ∃ lines, Lines (stream reads) lines ∧
        lines.flatten = stream reads ∧
        List.Forall₂ (Kept bufSize) lines (Utils.readLines bufSize calls buffer reads) := by
  refine ⟨readLine_takesLine hsize hbuf hno, fun calls hlt => ?_⟩
  obtain ⟨lines, hlines, hkept⟩ := readLines_kept hsize calls hbuf hno hlt
  exact ⟨lines, hlines, hlines.flatten, hkept⟩

/-- Two lines, the first too long for the buffer, in which a carriage return is read
twice and a read is interrupted. -/
theorem Utils.read_line_takes_lines_two :
    ∃ lines, ReadLine.Lines [97, 98, 99, 13, 13, 10, 10, 100] lines ∧
      lines.flatten = [97, 98, 99, 13, 13, 10, 10, 100] ∧
      List.Forall₂ (ReadLine.Kept 3) lines (Utils.readLines 3 10 [7, 7, 7, 7]
        [.got 97, .got 98, .got 99, .got 13, .interrupted, .got 13, .got 10, .got 10,
          .got 100]) :=
  (Utils.read_line_takes_lines 3 [7, 7, 7, 7]
    [.got 97, .got 98, .got 99, .got 13, .interrupted, .got 13, .got 10, .got 10, .got 100]
    (by decide) (by decide) (by decide)).2 10 (by decide)

end LightQ
