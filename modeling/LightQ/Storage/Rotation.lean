/-
# `Storage.Rotation` — which file an append goes to

`set_current_file` before the first write, on a log that stays in its
current file, and on one that moves to the next.  Once a file exists the
two `write_to_file` are the same function: `write_msg` on `target`, booked
in `rotated`.

`set_current_file` succeeds whenever a file exists (`setCurrentFile_of_current`)
and creates the first one of a log that has none
(`setCurrentFile_of_no_file`); where it has succeeded, an append is what
`write_of_set` says, and with a current file what `write_of_current` says.
With no limit on the size nothing is appended after the first file exists
(`write_of_zero`).  The index is an `unsigned`, so that it is at most any bound
that is no smaller than the largest one (`fdToUse_le`).

The other half is about which files there are.  The files of the log are there
whatever one of them holds (`length_showing`), and the total that a rotation
notes changes no content (`found_set_total`).  `Extends` says that a log is an
earlier one with its name, its files and maybe more: without a zero byte in the
name its files are different ones whatever is added
(`Extends.distinct_of_not_mem`), and different ones at the end were different
ones before (`Extends.distinct`).
-/
import LightQ.Storage.Append

namespace LightQ

open MachineInt Overlay

namespace ConnectionFile

/-- The files that `create_file` adds: one, or none when `open` fails. -/
def created (s : ConnectionFile) (index : Nat) (opened : Option Bytes) : List FileDetails :=
  (FileDetails.createFile s.directory s.topic index opened).toList

/-- The log after `set_current_file`, when a file exists. -/
def rotated (s : ConnectionFile) (opened : Option Bytes) : ConnectionFile :=
  if s.currentFdIndex < s.fdToUse then
    { s with
      fileFds := s.fileFds.modify s.currentFdIndex
          (fun f => { f with bytesWrittenAcrossAllFiles := s.totalBytesWriten })
        ++ s.created s.fdToUse (s.found opened)
      currentFdIndex := s.fdToUse }
  else s

/-- The file that the next append goes to, when a file exists. -/
def target (s : ConnectionFile) (opened : Option Bytes) : Option FileDetails :=
  (s.rotated opened).fileFds[(s.rotated opened).currentFdIndex]?

/-- The append position of the file that the next append goes to. -/
def appendPosition (s : ConnectionFile) (opened : Option Bytes) : Nat :=
  match s.setCurrentFile opened with
  | some (_, s') => (s'.fileFds[s'.currentFdIndex]?.map FileDetails.offset).getD 0
  | none => 0

/-- The arguments of a `write_to_file`, and the outcomes of its `pwrite`
calls. -/
structure Call where
  overload : Overload
  msg : Bytes
  writeMsgSize : Bool
  includeOffset : Bool
  sched : List PwriteResult
deriving DecidableEq, Repr

/-- Either `write_to_file`, with any arguments. -/
def writeAny (host : ByteOrder) (s : ConnectionFile) (c : Call) (opened : Option Bytes) :
    Option Appended :=
  match c.overload with
  | .string => s.writeToFile host c.msg c.writeMsgSize c.includeOffset opened c.sched
  | .pointer =>
      s.writeToFilePtr host c.msg (u32 c.msg.length) c.writeMsgSize c.includeOffset opened c.sched

section Files

variable {s : ConnectionFile} {f : FileDetails} {opened : Option Bytes}

theorem found_some (s : ConnectionFile) (content : Bytes) :
    ∃ content', s.found (some content) = some content' := by
  rw [found]
  split
  · exact ⟨_, rfl⟩
  · split
    · exact ⟨_, rfl⟩
    · exact ⟨_, rfl⟩

@[simp] theorem isSome_found : (s.found opened).isSome = opened.isSome := by
  rw [found]
  split
  · rfl
  · split
    · exact Option.isSome_map
    · rfl

theorem found_set_total {s' : ConnectionFile} {i total : Nat} (hdirectory : s'.directory = s.directory)
    (htopic : s'.topic = s.topic) (hcur : s.fileFds[i]? = some f)
    (hfiles : s'.fileFds = s.fileFds.set i { f with bytesWrittenAcrossAllFiles := total }) :
    s'.found opened = s.found opened := by
  have hname : s'.OneFile ↔ s.OneFile := by rw [OneFile, OneFile, hdirectory, htopic]
  rw [found, found, hfiles]
  cases hf : s.fileFds with
  | nil => rfl
  | cons g gs =>
      cases i with
      | zero =>
          rw [hf] at hcur
          obtain rfl := Option.some.inj hcur
          simp only [List.set_cons_zero, hname]
      | succ i => simp only [List.set_cons_succ, hname]

theorem write_eq_writeAny (host : ByteOrder) (overload : Overload) (msg : Bytes)
    (includeOffset : Bool) (sched : List PwriteResult) :
    s.write host overload msg includeOffset opened sched
      = s.writeAny host ⟨overload, msg, true, includeOffset, sched⟩ opened := by
  cases overload with
  | string => rfl
  | pointer => rfl

@[simp] theorem rotated_totalBytesWriten :
    (s.rotated opened).totalBytesWriten = s.totalBytesWriten := by
  rw [rotated]; split <;> rfl

@[simp] theorem rotated_msgCounter : (s.rotated opened).msgCounter = s.msgCounter := by
  rw [rotated]; split <;> rfl

@[simp] theorem rotated_maxFileSize : (s.rotated opened).maxFileSize = s.maxFileSize := by
  rw [rotated]; split <;> rfl

theorem fdToUse_le {n : Nat} (h : s.totalBytesWriten / s.maxFileSize ≤ n ∨ 2 ^ 32 ≤ n + 1) :
    s.fdToUse ≤ n := by
  have hle : s.fdToUse ≤ s.totalBytesWriten / s.maxFileSize := u32_le _
  have hlt : s.fdToUse < 2 ^ 32 := u32_lt _
  rcases h with hn | hn
  · exact Nat.le_trans hle hn
  · omega

theorem rotated_of_le (h : s.fdToUse ≤ s.currentFdIndex) : s.rotated opened = s :=
  if_neg (Nat.not_lt.mpr h)

theorem rotated_of_lt (h : s.currentFdIndex < s.fdToUse) :
    s.rotated opened =
      { s with
        fileFds := s.fileFds.modify s.currentFdIndex
            (fun f => { f with bytesWrittenAcrossAllFiles := s.totalBytesWriten })
          ++ s.created s.fdToUse (s.found opened)
        currentFdIndex := s.fdToUse } := if_pos h

theorem length_ne_zero_of_current (hcur : s.fileFds[s.currentFdIndex]? = some f) :
    s.fileFds.length ≠ 0 := by
  intro h₀
  rw [List.length_eq_zero_iff.mp h₀] at hcur
  exact absurd hcur (by simp)

theorem setCurrentFile_of_current (opened : Option Bytes) (hM : s.maxFileSize ≠ 0)
    (hcur : s.fileFds[s.currentFdIndex]? = some f) :
    s.setCurrentFile opened = some (true, s.rotated opened) := by
  have hlen := length_ne_zero_of_current hcur
  by_cases hrot : s.currentFdIndex < s.fdToUse
  · rw [setCurrentFile, if_neg hlen, if_neg hM, if_pos hrot, rotated_of_lt hrot, hcur]
    have hset : s.fileFds.modify s.currentFdIndex
          (fun f => { f with bytesWrittenAcrossAllFiles := s.totalBytesWriten })
        = s.fileFds.set s.currentFdIndex
          { f with bytesWrittenAcrossAllFiles := s.totalBytesWriten } := by
      rw [List.modify_eq_set_getElem?, hcur]
      rfl
    have hfound : ConnectionFile.found { s with
        fileFds := s.fileFds.set s.currentFdIndex
          { f with bytesWrittenAcrossAllFiles := s.totalBytesWriten }
        currentFdIndex := s.fdToUse } opened = s.found opened := found_set_total rfl rfl hcur rfl
    simp only [Option.bind_eq_bind, Option.bind_some]
    rw [hfound, hset]
    cases s.found opened with
    | none => simp [created, FileDetails.createFile]
    | some content => simp [created, FileDetails.createFile]
  · rw [setCurrentFile, if_neg hlen, if_neg hM, if_neg hrot, rotated_of_le (Nat.not_lt.mp hrot)]

theorem writeAny_of_set {host : ByteOrder} (c : Call) {s' : ConnectionFile}
    (hset : s.setCurrentFile opened = some (true, s')) :
    s.writeAny host c opened =
      s'.fileFds[s'.currentFdIndex]?.map fun g =>
        s'.book (g.writeMsgWith host c.msg (u32 c.msg.length) c.writeMsgSize c.includeOffset
          c.sched) := by
  unfold writeAny
  cases c.overload with
  | string =>
      simp only [writeToFile, hset, Option.bind_eq_bind, Option.bind_some, Bool.not_true,
        Bool.false_eq_true, if_false]
      cases s'.fileFds[s'.currentFdIndex]? with
      | none => rfl
      | some g => rfl
  | pointer =>
      simp only [writeToFilePtr, hset, Option.bind_eq_bind, Option.bind_some]
      cases s'.fileFds[s'.currentFdIndex]? with
      | none => rfl
      | some g => rfl

theorem write_of_set {host : ByteOrder} {overload : Overload} {msg : Bytes}
    {includeOffset : Bool} {sched : List PwriteResult} {s' : ConnectionFile}
    (hset : s.setCurrentFile opened = some (true, s')) :
    s.write host overload msg includeOffset opened sched =
      s'.fileFds[s'.currentFdIndex]?.map fun g =>
        s'.book (g.writeMsgWith host msg (u32 msg.length) true includeOffset sched) := by
  rw [write_eq_writeAny, writeAny_of_set _ hset]

theorem write_of_current {host : ByteOrder} {overload : Overload} {msg : Bytes}
    {includeOffset : Bool} {sched : List PwriteResult} (hM : s.maxFileSize ≠ 0)
    (hcur : s.fileFds[s.currentFdIndex]? = some f) :
    s.write host overload msg includeOffset opened sched =
      (s.target opened).map fun g =>
        (s.rotated opened).book
          (g.writeMsgWith host msg (u32 msg.length) true includeOffset sched) :=
  write_of_set (setCurrentFile_of_current opened hM hcur)

theorem appendPosition_of_set {s' : ConnectionFile} {ok : Bool}
    (hset : s.setCurrentFile opened = some (ok, s'))
    (hcur : s'.fileFds[s'.currentFdIndex]? = some f) :
    s.appendPosition opened = f.offset := by
  rw [appendPosition, hset]
  simp only [hcur, Option.map_some, Option.getD_some]

theorem write_of_zero {host : ByteOrder} {overload : Overload} {msg : Bytes}
    {includeOffset : Bool} {sched : List PwriteResult} (hM : s.maxFileSize = 0)
    (hcur : s.fileFds[s.currentFdIndex]? = some f) :
    s.write host overload msg includeOffset opened sched = none := by
  have hset : s.setCurrentFile opened = none := by
    rw [setCurrentFile, if_neg (length_ne_zero_of_current hcur), if_pos hM]
  cases overload with
  | string => simp [write, writeToFile, hset]
  | pointer => simp [write, writeToFilePtr, hset]

theorem setCurrentFile_of_no_file {content : Bytes} (hfiles : s.fileFds = []) :
    s.setCurrentFile (some content) =
      some (true, { s with fileFds := s.created s.currentFdIndex (some content) }) := by
  rw [setCurrentFile, if_pos (by rw [hfiles]; rfl), hfiles]
  rfl

end Files

/-! ## Booking a result -/

section Book

variable {s : ConnectionFile} {w : Written}

theorem length_showing (s : ConnectionFile) (content : Bytes) :
    (s.showing content).length = s.fileFds.length := by
  rw [showing]
  split
  · exact List.length_map _
  · rfl

theorem getElem?_showing (s : ConnectionFile) (content : Bytes) (i : Nat) :
    (s.showing content)[i]?
      = s.fileFds[i]?.map fun f => if s.OneFile then { f with content := content } else f := by
  rw [showing]
  split
  · exact List.getElem?_map
  · exact Option.map_id'.symm

theorem book_of_pos (h : 0 < i32 w.value) :
    s.book w =
      ⟨i32 w.value,
        { s with
          fileFds := (s.showing w.file.content).set s.currentFdIndex
            { w.file with
              bytesWrittenAcrossAllFiles := s.totalBytesWriten + (i32 w.value).toNat }
          totalBytesWriten := s.totalBytesWriten + (i32 w.value).toNat
          msgCounter := s.msgCounter + 1 }, w.sched⟩ := if_pos h

theorem book_of_nonpos (h : i32 w.value ≤ 0) :
    s.book w =
      ⟨i32 w.value,
        { s with fileFds := (s.showing w.file.content).set s.currentFdIndex w.file }, w.sched⟩ :=
  if_neg (Int.not_lt.mpr h)

theorem book_value : (s.book w).value = i32 w.value := by
  rw [book]
  split <;> rfl

theorem book_maxFileSize : (s.book w).conn.maxFileSize = s.maxFileSize := by
  rw [book]
  split <;> rfl

theorem book_currentFdIndex : (s.book w).conn.currentFdIndex = s.currentFdIndex := by
  rw [book]
  split <;> rfl

end Book

/-! ## The object after a call -/

section Frame

variable {s s' : ConnectionFile} {opened : Option Bytes}

/-- The log keeps its name and its files. -/
structure Extends (s s' : ConnectionFile) : Prop where
  directory : s'.directory = s.directory
  topic : s'.topic = s.topic
  length_le : s.fileFds.length ≤ s'.fileFds.length

theorem Extends.refl (s : ConnectionFile) : s.Extends s := ⟨rfl, rfl, Nat.le_refl _⟩

theorem Extends.trans {s'' : ConnectionFile} (h : s.Extends s') (h' : s'.Extends s'') :
    s.Extends s'' :=
  ⟨h'.directory.trans h.directory, h'.topic.trans h.topic, Nat.le_trans h.length_le h'.length_le⟩

theorem Extends.distinct_of_not_mem (h : s.Extends s') (hdirectory : 0 ∉ s.directory)
    (htopic : 0 ∉ s.topic) : s'.Distinct := by
  rintro (hone | hone)
  · rw [h.directory] at hone
    exact absurd hone hdirectory
  · rw [h.topic] at hone
    exact absurd hone htopic

/-- Files of the log that are different ones were so before. -/
theorem Extends.distinct (h : s.Extends s') (hdistinct : s'.Distinct) : s.Distinct := by
  intro hone
  have hone' : s'.OneFile := by rwa [OneFile, h.directory, h.topic]
  exact Nat.le_trans h.length_le (hdistinct hone')

/-- The object after a call: the same as before, when there is no file and
none could be created, and otherwise one with files. -/
def Continues (s : ConnectionFile) (opened : Option Bytes) (s' : ConnectionFile) : Prop :=
  (s.fileFds = [] ∧ opened = none ∧ s' = s) ∨
    (s'.fileFds ≠ [] ∧ (s.fileFds = [] → opened.isSome) ∧ s.Extends s')

theorem Continues.extends (h : s.Continues opened s') : s.Extends s' := by
  rcases h with ⟨-, -, rfl⟩ | ⟨-, -, hextends⟩
  · exact .refl s'
  · exact hextends

theorem setCurrentFile_continues {ok : Bool} (h : s.setCurrentFile opened = some (ok, s')) :
    s.Continues opened s' := by
  unfold setCurrentFile at h
  split at h
  · next hlen =>
      cases opened with
      | none =>
          obtain ⟨-, rfl⟩ := Prod.mk.inj (Option.some.inj h)
          exact Or.inl ⟨List.length_eq_zero_iff.mp hlen, rfl, rfl⟩
      | some content =>
          obtain ⟨-, rfl⟩ := Prod.mk.inj (Option.some.inj h)
          exact Or.inr ⟨by simp, fun _ => rfl, rfl, rfl, by simp⟩
  · next hlen =>
      have hfiles : s.fileFds ≠ [] := fun hnil => hlen (List.length_eq_zero_iff.mpr hnil)
      split at h
      · cases h
      · split at h
        · obtain ⟨f, -, h⟩ := Option.bind_eq_some_iff.mp h
          dsimp only at h
          split at h
          · obtain ⟨-, rfl⟩ := Prod.mk.inj (Option.some.inj h)
            exact Or.inr ⟨by simp, fun hnil => absurd hnil hfiles, rfl, rfl, by simp⟩
          · obtain ⟨-, rfl⟩ := Prod.mk.inj (Option.some.inj h)
            exact Or.inr ⟨by simpa using hfiles, fun hnil => absurd hnil hfiles, rfl, rfl, by simp⟩
        · obtain ⟨-, rfl⟩ := Prod.mk.inj (Option.some.inj h)
          exact Or.inr ⟨hfiles, fun hnil => absurd hnil hfiles, rfl, rfl, Nat.le_refl _⟩

theorem book_extends {w : Written} :
    s.Extends (s.book w).conn ∧ (s.book w).conn.fileFds.length = s.fileFds.length := by
  have hlen := s.length_showing w.file.content
  have hset : ∀ f : FileDetails,
      ((s.showing w.file.content).set s.currentFdIndex f).length = s.fileFds.length :=
    fun f => List.length_set.trans hlen
  rcases Int.lt_or_le 0 (i32 w.value) with hpos | hneg
  · rw [book_of_pos hpos]
    exact ⟨⟨rfl, rfl, (hset _).ge⟩, hset _⟩
  · rw [book_of_nonpos hneg]
    exact ⟨⟨rfl, rfl, (hset _).ge⟩, hset _⟩

theorem writeAny_continues {host : ByteOrder} {c : Call} {a : Appended}
    (h : s.writeAny host c opened = some a) : s.Continues opened a.conn := by
  have hbooked : ∀ {ok : Bool} {s₁ : ConnectionFile} {f : FileDetails} {w : Written},
      s.setCurrentFile opened = some (ok, s₁) → s₁.fileFds[s₁.currentFdIndex]? = some f →
        s.Continues opened (s₁.book w).conn := by
    intro ok s₁ f w hset hf
    have hfiles := length_ne_zero_of_current hf
    obtain ⟨hbook, hlen⟩ := book_extends (s := s₁) (w := w)
    rcases setCurrentFile_continues hset with ⟨hnil, -, rfl⟩ | ⟨-, hopened, hset⟩
    · rw [hnil] at hfiles
      exact absurd rfl hfiles
    · refine Or.inr ⟨fun hnil => ?_, hopened, hset.trans hbook⟩
      rw [hnil] at hlen
      exact hfiles hlen.symm
  unfold writeAny at h
  split at h
  · obtain ⟨⟨ok, s₁⟩, hset, h⟩ := Option.bind_eq_some_iff.mp h
    cases ok with
    | false =>
        obtain rfl := Option.some.inj h
        exact setCurrentFile_continues hset
    | true =>
        obtain ⟨f, hf, h⟩ := Option.bind_eq_some_iff.mp h
        obtain rfl := Option.some.inj h
        exact hbooked hset hf
  · obtain ⟨⟨ok, s₁⟩, hset, h⟩ := Option.bind_eq_some_iff.mp h
    obtain ⟨f, hf, h⟩ := Option.bind_eq_some_iff.mp h
    obtain rfl := Option.some.inj h
    exact hbooked hset hf

theorem write_extends {host : ByteOrder} {overload : Overload} {msg : Bytes}
    {includeOffset : Bool} {sched : List PwriteResult} {a : Appended}
    (h : s.write host overload msg includeOffset opened sched = some a) : s.Extends a.conn := by
  rw [write_eq_writeAny] at h
  exact (writeAny_continues h).extends

end Frame

end ConnectionFile

end LightQ
