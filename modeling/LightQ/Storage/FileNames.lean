/-
# `Storage.FileNames` — where the log files of a topic are

`create_file` puts the name of a file together from the directory, the topic
and the index, and `open` is given it as a C string.  `filePath` is where
that leads to.  For a topic whose name has no zero byte, `filePath_eq` says
what the directory and the last component are, and `filePath_inj` that two
files are the same only for topics with the same `place`, and then only for
the same index.

Both rest on the index standing behind the last `_` of the name, in digits
that are none of the bytes that mean something in a path (`not_mem_decimal`):
it can be read off the name of a file (`suffix_inj`).

The result about names that do have a zero byte is `cStr_newfile_eq_iff`: two
different indices of one log are opened by one name exactly when a zero byte
hides them.  That is what the files of a `ConnectionFile` go by, which are all
the same one or all different.
-/
import LightQ.Lib.PosixPath
import LightQ.Storage.ConnectionFile

namespace LightQ

open PosixPath

/-- What follows the topic in the name of a file. -/
def FileDetails.suffix (index : Nat) : Bytes := ascii "_" ++ decimal index ++ ascii ".txt"

/-- Whether `set_current_file` calls `create_file`. -/
def ConnectionFile.creates (s : ConnectionFile) : Bool :=
  s.fileFds.length = 0 || s.currentFdIndex < s.fdToUse

/-- The index that `set_current_file` gives to the file it creates. -/
def ConnectionFile.nextIndex (s : ConnectionFile) : Nat :=
  if s.fileFds.length = 0 then s.currentFdIndex else s.fdToUse

/-- The bytes `/` and `.`. -/
def slash : UInt8 := 47

def dot : UInt8 := 46

/-- The file that `create_file` opens. -/
def filePath (directory topic : Bytes) (index : Nat) : List Bytes :=
  resolve slash dot (cStr (FileDetails.newfile directory topic index))

/-- The directory of a topic's files, and the start of their names. -/
def place (directory topic : Bytes) : List Bytes × Bytes :=
  (walk dot (resolve slash dot directory) (parent slash topic), base slash topic)

theorem newfile_eq (directory topic : Bytes) (index : Nat) :
    FileDetails.newfile directory topic index
      = directory ++ slash :: (topic ++ FileDetails.suffix index) := by
  simp only [FileDetails.newfile, FileDetails.suffix, List.append_assoc]
  rfl

theorem not_mem_decimal {b : UInt8} {n : Nat} (h : b.toNat < 48 ∨ 57 < b.toNat) :
    b ∉ decimal n := by
  intro hmem
  have hdigit := digit_of_mem_decimal hmem
  omega

theorem not_mem_suffix {b : UInt8} {index : Nat} (h : b.toNat < 48 ∨ 57 < b.toNat)
    (hstart : b ∉ ascii "_") (hend : b ∉ ascii ".txt") : b ∉ FileDetails.suffix index := by
  simp only [FileDetails.suffix, List.mem_append, not_or]
  exact ⟨⟨hstart, not_mem_decimal h⟩, hend⟩

theorem suffix_length (index : Nat) : 2 < (FileDetails.suffix index).length := by
  have hend : (ascii ".txt").length = 4 := rfl
  simp only [FileDetails.suffix, List.length_append, hend]
  omega

theorem suffix_inj {a a' : Bytes} {i j : Nat}
    (h : a ++ FileDetails.suffix i = a' ++ FileDetails.suffix j) : a = a' ∧ i = j := by
  have hcut : a ++ 95 :: decimal i = a' ++ 95 :: decimal j := by
    have hwhole : (a ++ 95 :: decimal i) ++ ascii ".txt" = (a' ++ 95 :: decimal j) ++ ascii ".txt" := by
      simpa [FileDetails.suffix, ascii] using h
    exact List.append_cancel_right hwhole
  obtain ⟨ha, hij⟩ := append_sep_inj (not_mem_decimal (by decide)) (not_mem_decimal (by decide)) hcut
  exact ⟨ha, decimal_inj.mp hij⟩

section Paths

variable {directory topic topic' : Bytes} {i j : Nat}

theorem cStr_newfile (hdirectory : 0 ∉ directory) (htopic : 0 ∉ topic) :
    cStr (FileDetails.newfile directory topic i)
      = directory ++ slash :: (topic ++ FileDetails.suffix i) := by
  have hzero : (0 : UInt8) ∉ FileDetails.suffix i :=
    not_mem_suffix (by decide) (by decide) (by decide)
  rw [newfile_eq, cStr_of_not_mem]
  simp only [List.mem_append, List.mem_cons, not_or]
  exact ⟨hdirectory, by decide, htopic, hzero⟩

theorem cStr_newfile_eq_iff :
    cStr (FileDetails.newfile directory topic i) = cStr (FileDetails.newfile directory topic j)
      ↔ i = j ∨ 0 ∈ directory ∨ 0 ∈ topic := by
  constructor
  · intro h
    by_contra hno
    obtain ⟨hij, hzero⟩ := not_or.mp hno
    obtain ⟨hdirectory, htopic⟩ := not_or.mp hzero
    rw [cStr_newfile hdirectory htopic, cStr_newfile hdirectory htopic] at h
    have hsuffix := (List.cons.inj (List.append_cancel_left h)).2
    exact hij (suffix_inj hsuffix).2
  · rintro (rfl | hdirectory | htopic)
    · rfl
    · rw [newfile_eq, newfile_eq, cStr_append_of_mem hdirectory, cStr_append_of_mem hdirectory]
    · have hhidden : ∀ k, cStr (FileDetails.newfile directory topic k)
          = cStr (directory ++ slash :: topic) := by
        intro k
        have hmem : (0 : UInt8) ∈ directory ++ slash :: topic :=
          List.mem_append_right _ (List.mem_cons_of_mem _ htopic)
        rw [← cStr_append_of_mem hmem (FileDetails.suffix k), newfile_eq]
        simp only [List.append_assoc, List.cons_append]
      rw [hhidden i, hhidden j]

theorem filePath_eq (hdirectory : 0 ∉ directory) (htopic : 0 ∉ topic) :
    filePath directory topic i
      = (place directory topic).1 ++ [(place directory topic).2 ++ FileDetails.suffix i] := by
  rw [filePath, cStr_newfile hdirectory htopic]
  exact resolve_file directory (not_mem_suffix (by decide) (by decide) (by decide))
    (suffix_length i)

theorem filePath_inside_iff (hdirectory : 0 ∉ directory) (htopic : 0 ∉ topic) :
    Inside (resolve slash dot directory) (filePath directory topic i)
      ↔ resolve slash dot directory <+: (place directory topic).1 := by
  rw [filePath_eq hdirectory htopic]
  exact inside_iff

/-- Two files are the same exactly when the places and the indices are. -/
theorem filePath_inj (hdirectory : 0 ∉ directory) (htopic : 0 ∉ topic) (htopic' : 0 ∉ topic') :
    filePath directory topic i = filePath directory topic' j
      ↔ place directory topic = place directory topic' ∧ i = j := by
  rw [filePath_eq hdirectory htopic, filePath_eq hdirectory htopic']
  constructor
  · intro h
    obtain ⟨hdir, hlast⟩ := List.append_inj' h rfl
    obtain ⟨hbase, hij⟩ := suffix_inj (List.cons.inj hlast).1
    exact ⟨Prod.ext hdir hbase, hij⟩
  · rintro ⟨hplace, rfl⟩
    rw [hplace]

end Paths

end LightQ
