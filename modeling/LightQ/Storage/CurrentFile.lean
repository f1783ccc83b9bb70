/-
# `Storage.CurrentFile` — whether there is a current file

`write_to_file` uses `file_fds_[current_fd_index_]`.  The index is the total
divided by the limit, and the vector grows by one file at a rotation, so that
the element exists as long as the quotient does not run ahead by more than
one and every file that is asked for is created.

`current_file_exists_iff` says this of whole runs: every access of every call
is in range, and every file stands at the position of its index, if and only
if every call finds a log with room for it (`HasFile`).  The calls are those of
either `write_to_file`, with any limit and any pattern of files that can and
cannot be created.

`Named` is a vector whose elements carry their positions as index, `Indexed`
one that moreover has a current file.  The first call creates the first file
(`Indexed.first`); every later `set_current_file` ends in `rotated`
(`Indexed.setCurrentFile`), with three outcomes.  The last file stays the
current one; or the quotient is the next index and the file is created
(`Indexed.next`); or the quotient runs ahead, or the file is not created, and
the index leaves the vector behind (`Indexed.skipped`).  In the first two a
call finds its file, and the vector stays as it should be
(`Indexed.findsFile`); in the third it reaches out of it
(`Indexed.not_findsFile`).  Booking an append changes no name (`Named.book`).
-/
import LightQ.Lib.Runs
import LightQ.Storage.FileNames
import LightQ.Storage.Rotation

namespace LightQ

namespace ConnectionFile

/-- One call of either `write_to_file`, and what `open` finds if a file is
created. -/
structure FileCall where
  call : Call
  opened : Option Bytes
deriving DecidableEq, Repr

/-- The object after a call; `none` where the call reaches out of
`file_fds_`. -/
def after (host : ByteOrder) (s : ConnectionFile) (w : FileCall) : Option ConnectionFile :=
  (s.writeAny host w.call w.opened).map Appended.conn

/-- The states in which a call uses `file_fds_[current_fd_index_]`: before a
rotation, and for the append.  The overload for strings makes no append when
the first file could not be created. -/
def accesses (s : ConnectionFile) (w : FileCall) : List ConnectionFile :=
  let rotation := if s.fileFds.length ≠ 0 ∧ s.currentFdIndex < s.fdToUse then [s] else []
  match s.setCurrentFile w.opened with
  | some (true, s') => rotation ++ [s']
  | some (false, s') => if w.call.overload = .string then rotation else rotation ++ [s']
  | none => rotation

/-- The element at position `i` is the file created with index `i`. -/
def Named (s : ConnectionFile) : Prop :=
  ∀ (i : Nat) (f : FileDetails), s.fileFds[i]? = some f →
    f.fileName = FileDetails.newfile s.directory s.topic i

/-- A call that finds the file it is for each time it looks, in a vector in
which every file stands where it belongs. -/
structure FindsFile (host : ByteOrder) (s : ConnectionFile) (w : FileCall) : Prop where
  inRange : ∀ s₁ ∈ s.accesses w, s₁.currentFdIndex < s₁.fileFds.length ∧ s₁.Named
  returns : ∃ s', s.after host w = some s' ∧ s'.Named

/-- There is a file for the call: the first one is created, or the overload
for strings is told that it is not; later on the quotient is the index, or it
is the next index and that file is created. -/
def HasFile (s : ConnectionFile) (w : FileCall) : Prop :=
  (s.fileFds = [] ∧ (w.opened.isSome ∨ w.call.overload = .string)) ∨
    (s.fileFds ≠ [] ∧
      (s.fdToUse ≤ s.currentFdIndex ∨ (s.fdToUse = s.currentFdIndex + 1 ∧ w.opened.isSome)))

instance (s : ConnectionFile) (w : FileCall) : Decidable (s.HasFile w) :=
  inferInstanceAs (Decidable (_ ∨ _))

/-- No file yet, or the last one is the current one. -/
structure Indexed (s : ConnectionFile) : Prop where
  index : (s.fileFds = [] ∧ s.currentFdIndex = 0) ∨ s.fileFds.length = s.currentFdIndex + 1
  named : s.Named
  max_pos : 0 < s.maxFileSize

theorem indexed_create (directory topic : Bytes) {maxFileSize : Nat} (hM : 0 < maxFileSize) :
    (create directory topic maxFileSize).Indexed where
  index := Or.inl ⟨rfl, rfl⟩
  named := fun i f hf => by cases hf
  max_pos := hM

section Step

variable {host : ByteOrder} {s s' : ConnectionFile} {w : FileCall} {opened : Option Bytes}

theorem Named.snoc {fds : List FileDetails} {f : FileDetails} (h : s.Named)
    (hnames : ∀ (i : Nat) (g : FileDetails), fds[i]? = some g →
      ∃ g', s.fileFds[i]? = some g' ∧ g.fileName = g'.fileName)
    (hf : f.fileName = FileDetails.newfile s.directory s.topic fds.length) (index : Nat) :
    Named { s with fileFds := fds ++ [f], currentFdIndex := index } := by
  intro i g hg
  rcases Nat.lt_or_ge i fds.length with hlt | hge
  · rw [show ({ s with fileFds := fds ++ [f], currentFdIndex := index } : ConnectionFile).fileFds
      = fds ++ [f] from rfl, List.getElem?_append_left hlt] at hg
    obtain ⟨g', hg', hname⟩ := hnames i g hg
    exact hname.trans (h i g' hg')
  · rw [show ({ s with fileFds := fds ++ [f], currentFdIndex := index } : ConnectionFile).fileFds
      = fds ++ [f] from rfl, List.getElem?_append_right hge, List.getElem?_singleton] at hg
    split at hg
    · next hi =>
        obtain rfl := Option.some.inj hg
        obtain rfl : i = fds.length := by omega
        exact hf
    · cases hg

theorem Indexed.first (h : s.Indexed) (hnil : s.fileFds = []) (content : Bytes) :
    ∃ s', s.setCurrentFile (some content) = some (true, s') ∧ s'.Indexed ∧
      s'.fileFds.length = s'.currentFdIndex + 1 := by
  have hzero : s.currentFdIndex = 0 := by
    rcases h.index with ⟨-, hzero⟩ | hlen
    · exact hzero
    · rw [hnil] at hlen
      cases hlen
  have hlast : ({ s with fileFds := s.created s.currentFdIndex (some content) } :
      ConnectionFile).fileFds.length = s.currentFdIndex + 1 := by
    rw [hzero]
    rfl
  refine ⟨_, setCurrentFile_of_no_file hnil, ⟨Or.inr hlast, ?_, h.max_pos⟩, hlast⟩
  have hnames : ∀ (i : Nat) (g : FileDetails), ([] : List FileDetails)[i]? = some g →
      ∃ g', s.fileFds[i]? = some g' ∧ g.fileName = g'.fileName := by
    intro i g hg
    cases hg
  rw [hzero]
  exact h.named.snoc hnames rfl s.currentFdIndex

theorem Indexed.length_eq (h : s.Indexed) (hne : s.fileFds ≠ []) :
    s.fileFds.length = s.currentFdIndex + 1 :=
  h.index.resolve_left fun hnil => hne hnil.1

theorem Indexed.current (h : s.Indexed) (hne : s.fileFds ≠ []) :
    ∃ f, s.fileFds[s.currentFdIndex]? = some f :=
  ⟨_, List.getElem?_eq_getElem (by rw [h.length_eq hne]; exact Nat.lt_succ_self _)⟩

theorem Indexed.setCurrentFile (h : s.Indexed) (hne : s.fileFds ≠ []) (opened : Option Bytes) :
    s.setCurrentFile opened = some (true, s.rotated opened) := by
  obtain ⟨f, hf⟩ := h.current hne
  exact setCurrentFile_of_current opened (Nat.pos_iff_ne_zero.mp h.max_pos) hf

theorem Indexed.next (h : s.Indexed) (hne : s.fileFds ≠ [])
    (hnext : s.fdToUse = s.currentFdIndex + 1) (content : Bytes) :
    (s.rotated (some content)).Indexed ∧
      (s.rotated (some content)).fileFds.length
        = (s.rotated (some content)).currentFdIndex + 1 := by
  have hlen := h.length_eq hne
  obtain ⟨content', hfound⟩ := s.found_some content
  rw [rotated_of_lt (by omega), hfound]
  have hlast : (s.fileFds.modify s.currentFdIndex
        (fun f => { f with bytesWrittenAcrossAllFiles := s.totalBytesWriten })
      ++ s.created s.fdToUse (some content')).length = s.fdToUse + 1 := by
    rw [List.length_append, List.length_modify, hlen, hnext]
    rfl
  refine ⟨⟨Or.inr hlast, ?_, h.max_pos⟩, hlast⟩
  refine h.named.snoc (fun i g hg => ?_) ?_ s.fdToUse
  · -- the rotation sets the total of the file before, and no name
    rw [List.getElem?_modify] at hg
    obtain ⟨g', hg', hset⟩ := Option.map_eq_some_iff.mp hg
    refine ⟨g', hg', ?_⟩
    rw [← hset]
    split
    · rfl
    · rfl
  · rw [List.length_modify, hlen, ← hnext]

theorem Indexed.skipped (h : s.Indexed) (hne : s.fileFds ≠ []) (hrot : s.currentFdIndex < s.fdToUse)
    (hno : ¬ (s.fdToUse = s.currentFdIndex + 1 ∧ opened.isSome)) :
    (s.rotated opened).fileFds.length ≤ (s.rotated opened).currentFdIndex := by
  have hlen := h.length_eq hne
  rw [rotated_of_lt hrot]
  show (s.fileFds.modify _ _ ++ s.created s.fdToUse (s.found opened)).length ≤ s.fdToUse
  rw [List.length_append, List.length_modify, hlen]
  have hsome : (s.found opened).isSome = opened.isSome := isSome_found
  cases hfound : s.found opened with
  | none =>
      show s.currentFdIndex + 1 + 0 ≤ s.fdToUse
      omega
  | some content =>
      have hfar : s.fdToUse ≠ s.currentFdIndex + 1 :=
        fun heq => hno ⟨heq, by rw [← hsome, hfound]; rfl⟩
      show s.currentFdIndex + 1 + 1 ≤ s.fdToUse
      omega

theorem Named.book (h : s.Named) {g : FileDetails} {v : Written}
    (hg : s.fileFds[s.currentFdIndex]? = some g) (hname : v.file.fileName = g.fileName) :
    (s.book v).conn.Named := by
  have hset : ∀ f : FileDetails, f.fileName = g.fileName →
      ∀ (i : Nat) (f' : FileDetails),
        ((s.showing v.file.content).set s.currentFdIndex f)[i]? = some f' →
          f'.fileName = FileDetails.newfile s.directory s.topic i := by
    intro f hf i f' hf'
    rw [List.getElem?_set] at hf'
    split at hf'
    · next hi =>
        split at hf'
        · obtain rfl := Option.some.inj hf'
          rw [hf, ← hi]
          exact h _ g hg
        · cases hf'
    · rw [getElem?_showing] at hf'
      obtain ⟨f₁, hf₁, rfl⟩ := Option.map_eq_some_iff.mp hf'
      rw [← h i f₁ hf₁]
      split
      · rfl
      · rfl
  rcases Int.lt_or_le 0 (MachineInt.i32 v.value) with hpos | hneg
  · rw [book_of_pos hpos]
    exact hset _ hname
  · rw [book_of_nonpos hneg]
    exact hset _ hname

theorem Indexed.append (h : s'.Indexed) (hlast : s'.fileFds.length = s'.currentFdIndex + 1)
    (hset : s.setCurrentFile w.opened = some (true, s')) (host : ByteOrder) :
    ∃ s₁, s.after host w = some s₁ ∧ s₁.Indexed := by
  obtain ⟨g, hg⟩ : ∃ g, s'.fileFds[s'.currentFdIndex]? = some g :=
    ⟨_, List.getElem?_eq_getElem (by rw [hlast]; exact Nat.lt_succ_self _)⟩
  refine ⟨_, by rw [after, writeAny_of_set _ hset, hg]; rfl, Or.inr ?_, ?_, ?_⟩
  · rw [book_extends.2, book_currentFdIndex]
    exact hlast
  · exact h.named.book hg (FileDetails.writeMsgWith_fileName _ _ _ _ _ _ _)
  · rw [book_maxFileSize]
    exact h.max_pos

/-- Where there is a file for it, a call finds it, and the vector stays as it
should be. -/
theorem Indexed.findsFile (h : s.Indexed) (hhas : s.HasFile w) (host : ByteOrder) :
    s.FindsFile host w ∧ ∃ s₁, s.after host w = some s₁ ∧ s₁.Indexed := by
  -- a call that leaves `s'` as the object to append to
  have happend : ∀ s', s.setCurrentFile w.opened = some (true, s') → s'.Indexed →
      s'.fileFds.length = s'.currentFdIndex + 1 →
      s.FindsFile host w ∧ ∃ s₁, s.after host w = some s₁ ∧ s₁.Indexed := by
    intro s' hset hs' hlast
    obtain ⟨s₁, hafter, hs₁⟩ := hs'.append hlast hset host
    refine ⟨⟨fun s₂ hs₂ => ?_, s₁, hafter, hs₁.named⟩, s₁, hafter, hs₁⟩
    rw [accesses, hset] at hs₂
    rcases List.mem_append.mp hs₂ with hbefore | hhere
    · split at hbefore
      · next hrot =>
          obtain rfl := List.mem_singleton.mp hbefore
          have hne : s₂.fileFds ≠ [] := List.ne_nil_of_length_pos (Nat.pos_of_ne_zero hrot.1)
          exact ⟨by rw [h.length_eq hne]; exact Nat.lt_succ_self _, h.named⟩
      · cases hbefore
    · obtain rfl := List.mem_singleton.mp hhere
      exact ⟨by rw [hlast]; exact Nat.lt_succ_self _, hs'.named⟩
  rcases hhas with ⟨hnil, hfirst⟩ | ⟨hne, hquot⟩
  · cases hopened : w.opened with
    | some content =>
        obtain ⟨s', hset, hs', hlast⟩ := h.first hnil content
        exact happend s' (by rw [hopened]; exact hset) hs' hlast
    | none =>
        -- nothing is created, and the overload for strings looks at that
        have hstring : w.call.overload = .string := by
          rcases hfirst with hsome | hstring
          · rw [hopened] at hsome
            cases hsome
          · exact hstring
        have hset : s.setCurrentFile w.opened = some (false, s) := by
          rw [hopened, ConnectionFile.setCurrentFile, if_pos (by rw [hnil]; rfl)]
          rfl
        have hafter : s.after host w = some s := by
          rw [after, writeAny]
          simp only [hstring, writeToFile, hset]
          rfl
        refine ⟨⟨fun s₂ hs₂ => ?_, s, hafter, h.named⟩, s, hafter, h⟩
        rw [accesses, hset] at hs₂
        simp only [hstring, if_true, hnil, List.length_nil, ne_eq, not_true, false_and,
          if_false] at hs₂
        cases hs₂
  · have hset := h.setCurrentFile hne w.opened
    rcases Nat.lt_or_ge s.currentFdIndex s.fdToUse with hrot | hstay
    · obtain ⟨hnext, hsome⟩ := hquot.resolve_left (Nat.not_le.mpr hrot)
      obtain ⟨content, hopened⟩ := Option.isSome_iff_exists.mp hsome
      obtain ⟨hs', hlast⟩ := h.next hne hnext content
      rw [← hopened] at hs' hlast
      exact happend _ hset hs' hlast
    · rw [rotated_of_le hstay] at hset
      exact happend s hset h (h.length_eq hne)

/-- Where there is none, it reaches out of the vector. -/
theorem Indexed.not_findsFile (h : s.Indexed) (hno : ¬ s.HasFile w) (host : ByteOrder) :
    ¬ s.FindsFile host w := by
  rintro ⟨-, s₁, hafter, -⟩
  obtain ⟨hfirst, hquot⟩ := not_or.mp hno
  have hnone : ∀ s', s.setCurrentFile w.opened = some (true, s') →
      s'.fileFds.length ≤ s'.currentFdIndex → False := by
    intro s' hset hpast
    rw [after, writeAny_of_set _ hset, List.getElem?_eq_none hpast] at hafter
    cases hafter
  by_cases hnil : s.fileFds = []
  · obtain ⟨hopened, hpointer⟩ := not_or.mp fun hor => hfirst ⟨hnil, hor⟩
    have hset : s.setCurrentFile w.opened = some (false, s) := by
      rw [Option.not_isSome_iff_eq_none.mp hopened, ConnectionFile.setCurrentFile,
        if_pos (by rw [hnil]; rfl)]
      rfl
    have hkind : w.call.overload = .pointer := by
      cases hover : w.call.overload with
      | string => exact absurd hover hpointer
      | pointer => rfl
    rw [after, writeAny] at hafter
    simp only [hkind, writeToFilePtr, hset, hnil, Option.bind_eq_bind, Option.bind_some,
      List.getElem?_nil, Option.bind_none, Option.map_none] at hafter
    cases hafter
  · obtain ⟨hrot, hno'⟩ := not_or.mp fun hor => hquot ⟨hnil, hor⟩
    have hlt := Nat.not_le.mp hrot
    exact hnone _ (h.setCurrentFile hnil w.opened) (h.skipped hnil hlt hno')

end Step

/-- Any sequence of calls of either `write_to_file`, with any limit and any
pattern of files that can and cannot be created: every access of
`file_fds_[current_fd_index_]` is in range, in a vector in which every file
stands at its index, if and only if every call has a file to go to. -/
theorem current_file_exists_iff (host : ByteOrder) (directory topic : Bytes) {maxFileSize : Nat}
    (hM : 0 < maxFileSize) (calls : List FileCall) :
    Runs.Along (after host) (FindsFile host) (create directory topic maxFileSize) calls ↔
      Runs.Along (after host) HasFile (create directory topic maxFileSize) calls := by
  have hall : Runs.Along (after host) (fun _ _ => True) (create directory topic maxFileSize)
      calls := Runs.along_of_forall fun _ _ => trivial
  refine Runs.along_iff_along (I := Indexed) ?_ ?_ (indexed_create directory topic hM) hall
  · intro s w s' hs _ hhas hstep
    obtain ⟨-, s₁, hafter, hs₁⟩ := hs.findsFile hhas host
    obtain rfl := Option.some.inj (hafter.symm.trans hstep)
    exact hs₁
  · intro s w hs _
    refine ⟨fun hfinds => ?_, fun hhas => (hs.findsFile hhas host).1⟩
    by_contra hno
    exact hs.not_findsFile hno host hfinds

/-- The calls of `write_to_file` with a message that is not empty and not too
long, of which no `pwrite` fails. -/
def FileCall.Plain (w : FileCall) : Prop :=
  w.call.msg ≠ [] ∧ w.call.msg.length < 2 ^ 31 - 4 ∧ w.call.writeMsgSize = true ∧
    w.call.includeOffset = false ∧ PwriteResult.error ∉ w.call.sched

/-- A message of five bytes. -/
def hello : FileCall := ⟨⟨.string, ascii "hello", true, false, []⟩, some []⟩

theorem current_file_exists_iff_hello :
    Runs.Along (after .little) (FindsFile .little) (create (ascii "/tmp") (ascii "t") 100)
        [hello, hello] ↔
      Runs.Along (after .little) HasFile (create (ascii "/tmp") (ascii "t") 100) [hello, hello] :=
  current_file_exists_iff .little (ascii "/tmp") (ascii "t") (by decide : 0 < 100) [hello, hello]

/-- With files of four bytes the second message is for the file of index 2, in
a vector of two. -/
theorem current_file_missing :
    ¬ ∀ (host : ByteOrder) (directory topic : Bytes) (maxFileSize : Nat) (calls : List FileCall),
        0 < maxFileSize → (∀ w ∈ calls, w.Plain) →
        Runs.Along (after host) (FindsFile host) (create directory topic maxFileSize) calls := by
  intro h
  have hplain : ∀ w ∈ [hello, hello], w.Plain := by
    intro w hw
    obtain rfl : w = hello := by simpa using hw
    exact ⟨by decide, by decide, rfl, rfl, by decide⟩
  obtain ⟨-, hrest⟩ := h .little (ascii "/tmp") (ascii "t") 4 [hello, hello] (by decide) hplain
  have hfirst : (create (ascii "/tmp") (ascii "t") 4).after .little hello =
      some (((create (ascii "/tmp") (ascii "t") 4).after .little hello).getD
        (create (ascii "/tmp") (ascii "t") 4)) := by decide
  obtain ⟨⟨-, s₁, hsecond, -⟩, -⟩ := hrest _ hfirst
  have hnone : ∀ s₀ ∈ (create (ascii "/tmp") (ascii "t") 4).after .little hello,
      s₀.after .little hello = none := by decide
  rw [hnone _ hfirst] at hsecond
  cases hsecond

end ConnectionFile

end LightQ
