/-
# `Storage.FailedAppend` — when an append is all or nothing

`write_to_file` tells its caller how much it wrote, and books that number.
`write_all_or_nothing_iff` says for which calls the number is the truth:
those whose writes all get through, and those whose very first write fails.
In between the header, the payload or the trailer is in the file in part,
`offset_` has moved by it, and the value is some other number: an error of
the payload comes back as a short count, and as `-1` it turns into the
largest `size_t`, which passes the test for failure.

Appends are `ConnectionFile.write`, with a header in front of the message: all
callers pass `write_msg_size` true.

What there is to compare is the log before and after.  A rotation writes only
the total of the file it leaves, which it brings up to date, and no position
(`rotated_position`, `rotated_current`), and the append position of the target
is the one the file had (`target_offset`).  So an append that gets through has
grown the log (`book_grown_iff`), one whose first write fails has left it
untouched but for that total (`book_untouched_iff`), and one that has moved the
append position has not (`not_untouched_of_moved`).  Conversely a log that has
grown by a frame was written to by an append that gets through: every other one
returns less than the length of its frame (`gets_through_of_grown`).
-/
import LightQ.Storage.Rotation

namespace LightQ

open MachineInt Overlay

/-- What a failed append must leave of a file: its total and its append
position. -/
def FileDetails.position (f : FileDetails) : Nat × Nat :=
  (f.bytesWrittenAcrossAllFiles, f.offset)

namespace ConnectionFile

/-- The log has grown by the frame of `msg`: it ends at the append position
of the current file, the value is its length, and both totals and the
message counter say so.  `f` is the current file before the call. -/
structure Grown (host : ByteOrder) (s : ConnectionFile) (f : FileDetails) (msg : Bytes)
    (includeOffset : Bool) (r : Appended) : Prop where
  value_eq : r.value = frameLength msg includeOffset
  total_eq : r.conn.totalBytesWriten = s.totalBytesWriten + frameLength msg includeOffset
  counter_eq : r.conn.msgCounter = s.msgCounter + 1
  file : ∃ g start, r.conn.fileFds[r.conn.currentFdIndex]? = some g ∧
    g.offset = start + frameLength msg includeOffset ∧
    frame host msg includeOffset start <:+ g.content.take g.offset ∧
    g.bytesWrittenAcrossAllFiles = f.bytesWrittenAcrossAllFiles + frameLength msg includeOffset

/-- The log is what it was: the totals, the counter, and of every file its
total and its append position.  A file that the call created is empty. -/
structure Untouched (s : ConnectionFile) (r : Appended) : Prop where
  total_eq : r.conn.totalBytesWriten = s.totalBytesWriten
  counter_eq : r.conn.msgCounter = s.msgCounter
  files_le : s.fileFds.length ≤ r.conn.fileFds.length
  files : ∀ (i : Nat) (g : FileDetails), r.conn.fileFds[i]? = some g →
    g.position = (s.fileFds[i]?.map FileDetails.position).getD (0, 0)

/-! ## What a rotation leaves of the files -/

section Rotated

variable {s : ConnectionFile} {f g : FileDetails} {opened : Option Bytes} {i : Nat}

theorem length_le_rotated : s.fileFds.length ≤ (s.rotated opened).fileFds.length := by
  rw [rotated]
  split
  · simp only [List.length_append, List.length_modify]
    omega
  · exact Nat.le_refl _

theorem rotated_position (hcur : s.fileFds[s.currentFdIndex]? = some f)
    (h : (s.rotated opened).fileFds[i]? = some g) :
    g.position = (s.fileFds[i]?.map FileDetails.position).getD (0, 0) ∨
      (i = s.currentFdIndex ∧ s.currentFdIndex < s.fdToUse ∧
        g.position = (s.totalBytesWriten, f.offset)) := by
  by_cases hrot : s.currentFdIndex < s.fdToUse
  · rw [rotated_of_lt hrot] at h
    by_cases hi : i < s.fileFds.length
    · rw [List.getElem?_append_left (by simpa using hi), List.getElem?_modify] at h
      by_cases hic : s.currentFdIndex = i
      · subst hic
        simp only [if_true, hcur, Option.map_eq_map, Option.map_some, Option.some.injEq] at h
        subst h
        exact Or.inr ⟨rfl, hrot, rfl⟩
      · have hsame : s.fileFds[i]? = some g := by simpa [hic] using h
        exact Or.inl (by rw [hsame]; rfl)
    · rw [List.getElem?_append_right (by simpa using hi)] at h
      have hmem : g ∈ s.created s.fdToUse (s.found opened) := List.mem_of_getElem? h
      have hnew : g.position = (0, 0) := by
        cases hfound : s.found opened with
        | none =>
            rw [hfound] at hmem
            exact absurd hmem List.not_mem_nil
        | some content =>
            rw [hfound] at hmem
            obtain rfl := List.mem_singleton.mp hmem
            rfl
      rw [List.getElem?_eq_none (Nat.not_lt.mp hi)]
      exact Or.inl hnew
  · rw [rotated_of_le (Nat.not_lt.mp hrot)] at h
    rw [h]
    exact Or.inl rfl

theorem target_offset (hcur : s.fileFds[s.currentFdIndex]? = some f)
    (h : s.target opened = some g) :
    g.offset = ((s.fileFds[(s.rotated opened).currentFdIndex]?.map
      FileDetails.position).getD (0, 0)).2 := by
  rcases rotated_position hcur h with hsame | ⟨hi, hrot, -⟩
  · rw [← hsame]
    rfl
  · rw [rotated_of_lt hrot] at hi
    exact absurd hi (Nat.ne_of_gt hrot)

theorem rotated_current (hrot : s.currentFdIndex < s.fdToUse)
    (hcur : s.fileFds[s.currentFdIndex]? = some f) :
    (s.rotated opened).fileFds[s.currentFdIndex]?
      = some { f with bytesWrittenAcrossAllFiles := s.totalBytesWriten } := by
  have hlt : s.currentFdIndex < s.fileFds.length := (List.getElem?_eq_some_iff.mp hcur).1
  rw [rotated_of_lt hrot, List.getElem?_append_left (by simpa using hlt),
    List.getElem?_modify_eq, hcur]
  rfl

end Rotated

/-! ## The two ways to be true -/

section Outcome

variable {host : ByteOrder} {s : ConnectionFile} {f g : FileDetails} {overload : Overload}
  {msg : Bytes} {includeOffset : Bool} {opened : Option Bytes} {sched : List PwriteResult}

theorem getElem?_set_current {content : Bytes} {k : Nat} {x : FileDetails}
    (h : s.fileFds[k]? = some g) : ((s.showing content).set k x)[k]? = some x := by
  rw [List.getElem?_set_self]
  rw [length_showing]
  exact (List.getElem?_eq_some_iff.mp h).1

theorem position_set_current {content : Bytes} {i k : Nat} {x : FileDetails}
    (h : s.fileFds[k]? = some g) (hx : x.position = g.position) :
    ((s.showing content).set k x)[i]?.map FileDetails.position
      = s.fileFds[i]?.map FileDetails.position := by
  rcases eq_or_ne k i with rfl | hne
  · rw [getElem?_set_current h, h, Option.map_some, Option.map_some, hx]
  · rw [List.getElem?_set_ne hne, getElem?_showing, Option.map_map]
    congr 1
    funext f
    show (if s.OneFile then { f with content := content } else f : FileDetails).position = f.position
    split
    · rfl
    · rfl

variable (host f) in
theorem book_grown_iff {rest : List PwriteResult} (htarget : s.target opened = some g)
    (hne : msg ≠ []) (hL : frameLength msg includeOffset < 2 ^ 31)
    (h : completesAll (pieces msg.length includeOffset) sched = some rest) :
    0 < ((s.rotated opened).book
        (g.writeMsgWith host msg (u32 msg.length) true includeOffset sched)).value ∧
      (Grown host s f msg includeOffset ((s.rotated opened).book
          (g.writeMsgWith host msg (u32 msg.length) true includeOffset sched)) ↔
        f.bytesWrittenAcrossAllFiles = s.totalBytesWriten) := by
  have hpos : 0 < msg.length := List.length_pos_iff.mpr hne
  have hL' : 4 + msg.length + trailerLength includeOffset < 2 ^ 31 := hL
  have hn : u32 msg.length = msg.length := u32_of_lt (by omega)
  have hok := FileDetails.writeMsgWith_ok g host hpos (Nat.le_refl _) (by omega) h
  rw [List.take_length] at hok
  have hval : i32 (4 + (msg.length : Int) + trailerLength includeOffset)
      = frameLength msg includeOffset := by
    rw [i32_of_lt (by omega) (by omega), frameLength]
    push_cast
    rfl
  rw [hn, hok, book_of_pos (by rw [hval, frameLength]; omega)]
  simp only [hval, Int.toNat_natCast, rotated_totalBytesWriten, rotated_msgCounter]
  refine ⟨by rw [frameLength]; omega, ?_⟩
  constructor
  · rintro ⟨-, -, -, g', start, hg', -, -, hcum⟩
    rw [getElem?_set_current htarget] at hg'
    obtain rfl := Option.some.inj hg'
    simp only at hcum
    omega
  · intro hcum
    refine ⟨rfl, rfl, rfl, _, g.offset, getElem?_set_current htarget, ?_, ?_, ?_⟩
    · simp only [FileDetails.appendFrame, FileDetails.pwrite_offset, length_frame, frameLength]
    · simp only [FileDetails.appendFrame, FileDetails.pwrite_offset, FileDetails.pwrite_content]
      rw [take_overlay_of_ne_nil (frame_ne_nil _ _ _ _)]
      exact List.suffix_append _ _
    · simp only [hcum]

variable (host msg includeOffset) in
theorem book_untouched_iff (hcur : s.fileFds[s.currentFdIndex]? = some f)
    (htarget : s.target opened = some g) (h : firstFails sched = true) :
    ((s.rotated opened).book
        (g.writeMsgWith host msg (u32 msg.length) true includeOffset sched)).value = 0 ∧
      (Untouched s ((s.rotated opened).book
          (g.writeMsgWith host msg (u32 msg.length) true includeOffset sched)) ↔
        (s.currentFdIndex < s.fdToUse → f.bytesWrittenAcrossAllFiles = s.totalBytesWriten)) := by
  obtain ⟨rest, hfail⟩ := FileDetails.writeMsgWith_firstFails g host msg (u32 msg.length)
    includeOffset h
  have hset : ∀ i, (((s.rotated opened).showing g.content).set (s.rotated opened).currentFdIndex
      g)[i]?.map FileDetails.position
        = (s.rotated opened).fileFds[i]?.map FileDetails.position :=
    fun i => position_set_current htarget rfl
  rw [hfail, book_of_nonpos (show i32 0 ≤ 0 by decide)]
  refine ⟨by show i32 0 = 0; decide, ?_⟩
  constructor
  · rintro ⟨-, -, -, hfiles⟩ hrot
    have hleft := hset s.currentFdIndex
    rw [rotated_current hrot hcur, Option.map_some] at hleft
    obtain ⟨g', hg', hpos'⟩ := Option.map_eq_some_iff.mp hleft
    have hpos := hfiles _ _ hg'
    rw [hcur, hpos'] at hpos
    exact (congrArg Prod.fst hpos).symm
  · intro hcum
    refine ⟨rotated_totalBytesWriten, rotated_msgCounter, ?_, ?_⟩
    · show _ ≤ (((s.rotated opened).showing g.content).set _ g).length
      rw [List.length_set, length_showing]
      exact length_le_rotated
    intro i g' hg'
    have hleft := hset i
    rw [show (((s.rotated opened).showing g.content).set (s.rotated opened).currentFdIndex g)[i]?
      = some g' from hg', Option.map_some] at hleft
    obtain ⟨g₁, hg₁, hpos₁⟩ := Option.map_eq_some_iff.mp hleft.symm
    rw [← hpos₁]
    rcases rotated_position hcur hg₁ with hsame | ⟨rfl, hrot, hpos⟩
    · exact hsame
    · rw [hpos, hcur, ← hcum hrot]
      rfl

theorem not_untouched_of_moved (hcur : s.fileFds[s.currentFdIndex]? = some f)
    (htarget : s.target opened = some g) {w : Written} (hw : i32 w.value ≤ 0)
    (hmoved : g.offset < w.file.offset) : ¬ Untouched s ((s.rotated opened).book w) := by
  rw [book_of_nonpos hw]
  rintro ⟨-, -, -, hfiles⟩
  have hpos := hfiles _ _ (getElem?_set_current htarget)
  have hoff := target_offset hcur htarget
  rw [← hpos] at hoff
  exact absurd hoff (Nat.ne_of_lt hmoved)

/-- A log that has grown by a frame was written to by an append that gets
through: every other one returns less than the length of its frame. -/
theorem gets_through_of_grown (htarget : s.target opened = some g)
    (hpos : 0 < i32 (g.writeMsgWith host msg (u32 msg.length) true includeOffset sched).value)
    (h : Grown host s f msg includeOffset ((s.rotated opened).book
      (g.writeMsgWith host msg (u32 msg.length) true includeOffset sched))) :
    msg ≠ [] ∧ frameLength msg includeOffset < 2 ^ 31 ∧
      (completesAll (pieces msg.length includeOffset) sched).isSome ∧
      f.bytesWrittenAcrossAllFiles = s.totalBytesWriten := by
  have hvalue := h.value_eq
  rw [book_of_pos hpos] at hvalue
  have hlt := i32_lt (g.writeMsgWith host msg (u32 msg.length) true includeOffset sched).value
  simp only at hvalue
  have hL : frameLength msg includeOffset < 2 ^ 31 := by omega
  have hL' : 4 + msg.length + trailerLength includeOffset < 2 ^ 31 := hL
  have hn : u32 msg.length = msg.length := u32_of_lt (by omega)
  have hfull : ¬ (msg.length = 0 ∨
      completesAll (pieces msg.length includeOffset) sched = none) := by
    intro hshort
    obtain ⟨h₀, h₁⟩ := FileDetails.writeMsgWith_short g host (Nat.le_refl msg.length)
      (by omega) hshort
    have hle := i32_le h₀
    rw [hn, frameLength] at hvalue
    omega
  obtain ⟨hlen, hcomp⟩ := not_or.mp hfull
  have hne : msg ≠ [] := fun h₀ => hlen (by rw [h₀]; rfl)
  obtain ⟨rest, hrest⟩ := Option.ne_none_iff_exists'.mp hcomp
  exact ⟨hne, hL, by rw [hrest]; rfl, (book_grown_iff host f htarget hne hL hrest).2.mp h⟩

/-- The appends whose outcome the caller is told as it is. -/
theorem write_all_or_nothing_iff (hcur : s.fileFds[s.currentFdIndex]? = some f) :
    (∃ r, s.write host overload msg includeOffset opened sched = some r ∧
        (0 < r.value → Grown host s f msg includeOffset r) ∧
        (r.value ≤ 0 → Untouched s r)) ↔
      s.maxFileSize ≠ 0 ∧ (s.target opened).isSome ∧
        ((msg ≠ [] ∧ frameLength msg includeOffset < 2 ^ 31 ∧
            (completesAll (pieces msg.length includeOffset) sched).isSome ∧
            f.bytesWrittenAcrossAllFiles = s.totalBytesWriten) ∨
          (firstFails sched ∧
            (s.currentFdIndex < s.fdToUse →
              f.bytesWrittenAcrossAllFiles = s.totalBytesWriten))) := by
  by_cases hM : s.maxFileSize = 0
  · have hnone : s.write host overload msg includeOffset opened sched = none :=
      write_of_zero hM hcur
    constructor
    · rintro ⟨r, hr, -⟩
      rw [hnone] at hr
      exact absurd hr (by simp)
    · rintro ⟨hM', -⟩
      exact absurd hM hM'
  rw [write_of_current hM hcur]
  cases htarget : s.target opened with
  | none => simp
  | some g =>
      simp only [Option.map_some, Option.some.injEq, exists_eq_left', Option.isSome_some,
        true_and, ne_eq, hM, not_false_eq_true]
      constructor
      · rintro ⟨hgrown, huntouched⟩
        cases hfirst : firstFails sched with
        | true =>
            obtain ⟨hvalue, hiff⟩ := book_untouched_iff host msg includeOffset hcur htarget hfirst
            exact Or.inr ⟨rfl, hiff.mp (huntouched (by rw [hvalue]))⟩
        | false =>
            have hmoved := FileDetails.writeMsgWith_moves g host msg (u32 msg.length)
              includeOffset hfirst
            rcases lt_or_ge 0 (i32 (g.writeMsgWith host msg (u32 msg.length) true includeOffset
              sched).value) with hpos | hneg
            · rw [book_of_pos hpos] at hgrown
              have hg := hgrown hpos
              rw [← book_of_pos hpos] at hg
              exact Or.inl (gets_through_of_grown htarget hpos hg)
            · rw [book_of_nonpos hneg] at huntouched
              have hu := huntouched hneg
              rw [← book_of_nonpos hneg] at hu
              exact absurd hu (not_untouched_of_moved hcur htarget hneg hmoved)
      · rintro (⟨hne, hL, hcomp, hcum⟩ | ⟨hfirst, hcum⟩)
        · obtain ⟨rest, hrest⟩ := Option.isSome_iff_exists.mp hcomp
          obtain ⟨hpos, hiff⟩ := book_grown_iff host f htarget hne hL hrest
          exact ⟨fun _ => hiff.mpr hcum, fun hneg => absurd hpos (Int.not_lt.mpr hneg)⟩
        · obtain ⟨hvalue, hiff⟩ := book_untouched_iff host msg includeOffset hcur htarget hfirst
          exact ⟨fun hpos => absurd hpos (by rw [hvalue]; decide), fun _ => hiff.mpr hcum⟩

end Outcome

/-- A log with one file, just created. -/
def oneFile : ConnectionFile :=
  { create (ascii "/tmp") (ascii "t") defaultMaxFileSize with
    fileFds := [⟨[], 0, ascii "/tmp/t_0.txt", 0, 0⟩] }

theorem write_all_or_nothing_iff_oneFile :
    (∃ r, oneFile.write .little .string (ascii "ab") true none [] = some r ∧
        (0 < r.value → Grown .little oneFile ⟨[], 0, ascii "/tmp/t_0.txt", 0, 0⟩
          (ascii "ab") true r) ∧
        (r.value ≤ 0 → Untouched oneFile r)) :=
  (write_all_or_nothing_iff (f := ⟨[], 0, ascii "/tmp/t_0.txt", 0, 0⟩) rfl).mpr
    ⟨by decide, by decide, Or.inl ⟨by decide, by decide, by decide, by decide⟩⟩

/-- The header gets through and the payload fails: the call returns 3, as if
a frame of three bytes had been appended. -/
theorem write_not_all_or_nothing :
    ¬ ∀ (host : ByteOrder) (s : ConnectionFile) (f : FileDetails) (overload : Overload)
        (msg : Bytes) (includeOffset : Bool) (opened : Option Bytes)
        (sched : List PwriteResult),
        s.fileFds[s.currentFdIndex]? = some f →
        ∃ r, s.write host overload msg includeOffset opened sched = some r ∧
          (0 < r.value → Grown host s f msg includeOffset r) ∧
          (r.value ≤ 0 → Untouched s r) := by
  intro h
  obtain ⟨r, hr, hgrown, -⟩ := h .little oneFile _ .string (ascii "ab") false none
    [.wrote 4, .error] rfl
  have hvalue : (oneFile.write .little .string (ascii "ab") false none
      [.wrote 4, .error]).map Appended.value = some 3 := by decide
  rw [hr] at hvalue
  have hthree : r.value = 3 := Option.some.inj hvalue
  have hlen := (hgrown (by rw [hthree]; decide)).value_eq
  rw [hthree] at hlen
  exact absurd hlen (by decide)

end ConnectionFile

end LightQ
