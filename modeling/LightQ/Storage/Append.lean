/-
# `Storage.Append` — what one append does to the file

Three loops over `pwrite` stand behind one `write_msg`.  What they do is a
matter of the schedule alone: `completes n sched` says whether `n` bytes get
through before a call fails, and what of the schedule is left; a schedule
without an error lets everything through (`completes_of_no_error`).

The result is `writeMsgWith_ok` for an append that gets through.  For every
other one, `writeMsgWith_firstFails` says that nothing has changed when the
very first write fails, `writeMsgWith_moves` that otherwise `offset_` has
moved, and `writeMsgWith_short` that the value falls short of the frame.

The blocks of an append are the header, the payload and the trailer, and the
lemmas about the loops are about any of them: two chunks one after the other
are one chunk (`pwrite_pwrite`), a loop that fails has written a proper leading
part, empty exactly when the first call failed (`writeLoop_fails`), and none
moves `offset_` back (`writeLoop_offset_le`) or renames the file
(`writeLoop_fileName`).  What a failure comes back as depends on the block.  A
failing header is 0.  A failing payload is the number of its bytes that got
through or, where none did, the `-1` of `write_buffer` as a `size_t`, which is
not `<= 0` (`short_value`).

Without its header `write_msg` begins with the payload
(`writeMsgWith_unsized_eq`), and a value that counts as a success means that
the position has moved (`writeMsgWith_moves_unsized`,
`writeMsgWith_moves_of_pos`) or that the payload is there
(`writeMsgWith_unsized`, `writeMsgWith_stored`).
-/
import LightQ.Storage.ConnectionFile

namespace LightQ

open MachineInt Overlay

/-! ## Schedules -/

/-- Whether `n` bytes get through before a call fails, and the outcomes left
then.  A call that writes nothing is repeated. -/
def completes : Nat → List PwriteResult → Option (List PwriteResult)
  | _, [] => some []
  | 0, r :: rest => some (r :: rest)
  | _ + 1, .error :: _ => none
  | n + 1, .wrote k :: rest => completes (n + 1 - k) rest

/-- Blocks of these lengths get through one after the other. -/
def completesAll : List Nat → List PwriteResult → Option (List PwriteResult)
  | [], sched => some sched
  | n :: ns, sched => (completes n sched).bind (completesAll ns)

/-- The first call that does anything fails. -/
def firstFails : List PwriteResult → Bool
  | [] => false
  | .error :: _ => true
  | .wrote k :: rest => k == 0 && firstFails rest

theorem completes_of_no_error {sched : List PwriteResult} (n : Nat)
    (h : PwriteResult.error ∉ sched) :
    ∃ rest, completes n sched = some rest ∧ PwriteResult.error ∉ rest := by
  induction sched generalizing n with
  | nil => cases n <;> exact ⟨[], rfl, h⟩
  | cons r rest ih =>
      cases n with
      | zero => exact ⟨r :: rest, rfl, h⟩
      | succ n =>
          cases r with
          | error => exact absurd List.mem_cons_self h
          | wrote k => exact ih _ (fun hmem => h (List.mem_cons_of_mem _ hmem))

theorem completes_of_firstFails {sched : List PwriteResult} {n : Nat} (hn : 0 < n)
    (h : firstFails sched = true) : completes n sched = none := by
  obtain ⟨m, rfl⟩ : ∃ m, n = m + 1 := ⟨n - 1, by omega⟩
  induction sched with
  | nil => exact absurd h (by simp [firstFails])
  | cons r rest ih =>
      cases r with
      | error => rfl
      | wrote k =>
          simp only [firstFails, Bool.and_eq_true, beq_iff_eq] at h
          obtain ⟨rfl, hrest⟩ := h
          exact ih hrest

theorem completesAll_of_no_error {sched : List PwriteResult} (ns : List Nat)
    (h : PwriteResult.error ∉ sched) : ∃ rest, completesAll ns sched = some rest := by
  induction ns generalizing sched with
  | nil => exact ⟨sched, rfl⟩
  | cons n ns ih =>
      obtain ⟨rest, hrest, hno⟩ := completes_of_no_error n h
      obtain ⟨last, hlast⟩ := ih hno
      exact ⟨last, by rw [completesAll, hrest]; exact hlast⟩

namespace FileDetails

/-! ## The loops -/

@[simp] theorem pwrite_offset (f : FileDetails) (a : Bytes) :
    (f.pwrite a).offset = f.offset + a.length := rfl

@[simp] theorem pwrite_content (f : FileDetails) (a : Bytes) :
    (f.pwrite a).content = overlay 0 f.content f.offset a := rfl

@[simp] theorem pwrite_nil (f : FileDetails) : f.pwrite [] = f := rfl

theorem pwrite_pwrite (f : FileDetails) (a b : Bytes) : (f.pwrite a).pwrite b = f.pwrite (a ++ b) := by
  simp only [pwrite, overlay_append, List.length_append, Nat.add_assoc]

@[simp] theorem writeLoop_nil (f : FileDetails) (sched : List PwriteResult) :
    f.writeLoop [] sched = ⟨f, 0, false, sched⟩ := by
  cases sched with
  | nil => rfl
  | cons r rest => cases r <;> rfl

theorem writeLoop_completes (f : FileDetails) (buf : Bytes) {sched rest : List PwriteResult}
    (h : completes buf.length sched = some rest) :
    f.writeLoop buf sched = ⟨f.pwrite buf, buf.length, false, rest⟩ := by
  induction sched generalizing f buf with
  | nil =>
      have : rest = [] := by
        cases buf <;> exact (Option.some.inj h).symm
      rw [writeLoop, this]
  | cons r tail ih =>
      cases buf with
      | nil =>
          have : rest = r :: tail := (Option.some.inj h).symm
          rw [writeLoop_nil, this]
          rfl
      | cons b bs =>
          cases r with
          | error => exact absurd h (by simp [completes])
          | wrote k =>
              rw [writeLoop, if_neg (List.cons_ne_nil b bs)]
              have hrest : completes ((b :: bs).drop k).length tail = some rest := by
                rw [List.length_drop]; exact h
              have hsum : ((b :: bs).take k).length + ((b :: bs).drop k).length
                  = (b :: bs).length := by
                rw [← List.length_append, List.take_append_drop]
              simp only [ih _ _ hrest, pwrite_pwrite, List.take_append_drop, hsum]

theorem writeLoop_fails (f : FileDetails) (buf : Bytes) {sched : List PwriteResult}
    (h : completes buf.length sched = none) :
    ∃ j rest, j < buf.length ∧ (j = 0 ↔ firstFails sched = true) ∧
      f.writeLoop buf sched = ⟨f.pwrite (buf.take j), j, true, rest⟩ := by
  induction sched generalizing f buf with
  | nil => exact absurd h (by simp [completes])
  | cons r tail ih =>
      cases buf with
      | nil => exact absurd h (by simp [completes])
      | cons b bs =>
          cases r with
          | error => exact ⟨0, tail, Nat.succ_pos _, by simp [firstFails], rfl⟩
          | wrote k =>
              rw [writeLoop, if_neg (List.cons_ne_nil b bs)]
              have hrest : completes ((b :: bs).drop k).length tail = none := by
                rw [List.length_drop]; exact h
              obtain ⟨j, rest, hj, hfirst, hloop⟩ := ih (f.pwrite ((b :: bs).take k)) _ hrest
              have hk : k < (b :: bs).length := by
                rw [List.length_drop] at hj; omega
              have htake : ((b :: bs).take k).length = k := by
                rw [List.length_take]; omega
              refine ⟨k + j, rest, ?_, ?_, ?_⟩
              · rw [List.length_drop] at hj; omega
              · simp only [firstFails, Bool.and_eq_true, beq_iff_eq, ← hfirst]
                omega
              · simp only [hloop, pwrite_pwrite, htake, List.take_add]

theorem writeLoop_offset_le (f : FileDetails) (buf : Bytes) (sched : List PwriteResult) :
    f.offset ≤ (f.writeLoop buf sched).file.offset := by
  cases h : completes buf.length sched with
  | some rest =>
      rw [writeLoop_completes f buf h, pwrite_offset]
      exact Nat.le_add_right _ _
  | none =>
      obtain ⟨j, rest, -, -, hloop⟩ := writeLoop_fails f buf h
      rw [hloop, pwrite_offset]
      exact Nat.le_add_right _ _

/-! ## The three writers -/

section Writers

variable (f : FileDetails) (host : ByteOrder) {buf : Bytes} {n : Nat}
  {sched rest : List PwriteResult}

theorem writeBuffer_completes (hn : n ≤ buf.length) (h : completes n sched = some rest) :
    f.writeBuffer buf n sched = ⟨n, f.pwrite (buf.take n), rest⟩ := by
  have hlen : (buf.take n).length = n := by rw [List.length_take]; omega
  have hloop := writeLoop_completes f (buf.take n) (hlen.symm ▸ h)
  simp [writeBuffer, hloop, hlen]

theorem writeBuffer_fails (hn : n ≤ buf.length) (h : completes n sched = none) :
    ∃ j rest, j < n ∧ (j = 0 ↔ firstFails sched = true) ∧
      f.writeBuffer buf n sched = ⟨if 0 < j then j else -1, f.pwrite (buf.take j), rest⟩ := by
  have hlen : (buf.take n).length = n := by rw [List.length_take]; omega
  obtain ⟨j, rest, hj, hfirst, hloop⟩ :=
    writeLoop_fails f (buf.take n) (hlen.symm ▸ h)
  rw [hlen] at hj
  refine ⟨j, rest, hj, hfirst, ?_⟩
  simp only [writeBuffer, hloop, if_true, List.take_take, Nat.min_eq_left (Nat.le_of_lt hj)]

theorem writeLength_completes (h : completes 4 sched = some rest) :
    f.writeLength host n sched = ⟨4, f.pwrite (host.toBytes 4 n), rest⟩ := by
  have hloop := writeLoop_completes f (host.toBytes 4 n)
    (by rw [ByteOrder.length_toBytes]; exact h)
  simp [writeLength, hloop]

theorem writeLength_fails (h : completes 4 sched = none) :
    ∃ j rest, j < 4 ∧ (j = 0 ↔ firstFails sched = true) ∧
      f.writeLength host n sched = ⟨0, f.pwrite ((host.toBytes 4 n).take j), rest⟩ := by
  obtain ⟨j, rest, hj, hfirst, hloop⟩ := writeLoop_fails f (host.toBytes 4 n)
    (by rw [ByteOrder.length_toBytes]; exact h)
  exact ⟨j, rest, by simpa using hj, hfirst, by simp [writeLength, hloop]⟩

theorem writeOffset_completes (h : completes 8 sched = some rest) :
    f.writeOffset host sched = ⟨8, f.pwrite (host.toBytes 8 f.offset), rest⟩ := by
  have hloop := writeLoop_completes f (host.toBytes 8 f.offset)
    (by rw [ByteOrder.length_toBytes]; exact h)
  simp [writeOffset, hloop]

theorem writeOffset_fails (h : completes 8 sched = none) :
    ∃ j rest, f.writeOffset host sched = ⟨0, f.pwrite ((host.toBytes 8 f.offset).take j), rest⟩ := by
  obtain ⟨j, rest, -, -, hloop⟩ := writeLoop_fails f (host.toBytes 8 f.offset)
    (by rw [ByteOrder.length_toBytes]; exact h)
  exact ⟨j, rest, by simp [writeOffset, hloop]⟩

theorem writeBuffer_offset_le (buf : Bytes) (n : Nat) (sched : List PwriteResult) :
    f.offset ≤ (f.writeBuffer buf n sched).file.offset := by
  have h := writeLoop_offset_le f (buf.take n) sched
  simp only [writeBuffer]
  split
  · exact h
  · exact h

theorem writeOffset_offset_le (sched : List PwriteResult) :
    f.offset ≤ (f.writeOffset host sched).file.offset := by
  have h := writeLoop_offset_le f (host.toBytes 8 f.offset) sched
  simp only [writeOffset]
  split
  · exact h
  · exact h

end Writers

end FileDetails

/-! ## Frames -/

/-- The length of the trailer: the 8-byte `offset_`, when it is asked for. -/
def trailerLength (includeOffset : Bool) : Nat := if includeOffset then 8 else 0

theorem trailerLength_le (includeOffset : Bool) : trailerLength includeOffset ≤ 8 := by
  cases includeOffset with
  | false => exact Nat.zero_le 8
  | true => exact Nat.le_refl 8

/-- The length of the frame of `msg`. -/
def frameLength (msg : Bytes) (includeOffset : Bool) : Nat :=
  4 + msg.length + trailerLength includeOffset

/-- What `write_msg` with `include_size` appends at `position`: the header
names the length of all that follows it. -/
def frame (host : ByteOrder) (payload : Bytes) (includeOffset : Bool) (position : Nat) : Bytes :=
  host.toBytes 4 (payload.length + trailerLength includeOffset) ++ payload ++
    if includeOffset then host.toBytes 8 (position + 4 + payload.length) else []

/-- The blocks that make up the frame of a payload of `n` bytes. -/
def pieces (n : Nat) (includeOffset : Bool) : List Nat :=
  4 :: n :: if includeOffset then [8] else []

@[simp] theorem length_frame (host : ByteOrder) (payload : Bytes) (includeOffset : Bool)
    (position : Nat) :
    (frame host payload includeOffset position).length
      = frameLength payload includeOffset := by
  cases includeOffset <;> simp [frame, frameLength, trailerLength, Nat.add_assoc]

theorem frame_ne_nil (host : ByteOrder) (payload : Bytes) (includeOffset : Bool)
    (position : Nat) : frame host payload includeOffset position ≠ [] := by
  intro h
  have hlen := length_frame host payload includeOffset position
  rw [h, List.length_nil, frameLength] at hlen
  omega

/-- What `write_msg` appends, with its header or without one. -/
def stored (host : ByteOrder) (payload : Bytes) (includeSize includeOffset : Bool)
    (position : Nat) : Bytes :=
  if includeSize then frame host payload includeOffset position
  else payload ++ if includeOffset then host.toBytes 8 (position + payload.length) else []

/-- The length of that. -/
def storedLength (msg : Bytes) (includeSize includeOffset : Bool) : Nat :=
  (if includeSize then 4 else 0) + msg.length + trailerLength includeOffset

@[simp] theorem length_stored (host : ByteOrder) (payload : Bytes)
    (includeSize includeOffset : Bool) (position : Nat) :
    (stored host payload includeSize includeOffset position).length
      = storedLength payload includeSize includeOffset := by
  cases includeSize with
  | true => exact length_frame host payload includeOffset position
  | false => cases includeOffset <;> simp [stored, storedLength, trailerLength]

namespace FileDetails

section WriteMsg

variable (f : FileDetails) (host : ByteOrder) {msg : Bytes} {n : Nat} {includeOffset : Bool}
  {sched : List PwriteResult}

/-- A file after a frame: its content, its append position and the message
count. -/
def appendFrame (f : FileDetails) (fr : Bytes) : FileDetails :=
  { f.pwrite fr with writeCounter := u32 (f.writeCounter + 1) }

/-- An append whose writes all get through. -/
theorem writeMsgWith_ok {rest : List PwriteResult} (hpos : 0 < n) (hn : n ≤ msg.length)
    (hfit : n + trailerLength includeOffset < 2 ^ 32)
    (h : completesAll (pieces n includeOffset) sched = some rest) :
    f.writeMsgWith host msg n true includeOffset sched
      = ⟨4 + n + trailerLength includeOffset,
          f.appendFrame (frame host (msg.take n) includeOffset f.offset), rest⟩ := by
  have hlen : (msg.take n).length = n := by rw [List.length_take]; omega
  have hn64 : n < 2 ^ 64 := by omega
  have hnz : n ≠ 0 := by omega
  obtain ⟨s₁, h₁, h⟩ := Option.bind_eq_some_iff.mp h
  obtain ⟨s₂, h₂, h⟩ := Option.bind_eq_some_iff.mp h
  cases includeOffset with
  | false =>
      have hs₂ : s₂ = rest := Option.some.inj h
      subst hs₂
      have hval : i64 (4 + (n : Int)) = 4 + n := i64_of_lt (by omega) (by omega)
      simp only [trailerLength, Bool.false_eq_true, if_false, Nat.add_zero] at hfit
      simp [writeMsgWith, writeLength_completes f host h₁, writeBuffer_completes _ hn h₂,
        u64OfInt_of_nonneg hn64, u32_of_lt hfit, hnz, hval, hlen, pwrite_pwrite, frame,
        appendFrame, trailerLength, u32OfInt]
      rfl
  | true =>
      obtain ⟨s₃, h₃, h⟩ := Option.bind_eq_some_iff.mp h
      have hs₃ : s₃ = rest := Option.some.inj h
      subst hs₃
      have hval : i64 (4 + (n : Int) + 8) = 4 + n + 8 := i64_of_lt (by omega) (by omega)
      simp only [trailerLength, if_true] at hfit
      simp [writeMsgWith, writeLength_completes f host h₁, writeBuffer_completes _ hn h₂,
        writeOffset_completes _ host h₃, u64OfInt_of_nonneg hn64, u32_of_lt hfit, hnz, hval, hlen,
        pwrite_pwrite, frame, appendFrame, trailerLength, u32OfInt, Nat.add_assoc]
      rfl

/-! ## An append that does not get through -/

/-- `write_msg` behind its header. -/
def writeBody (host : ByteOrder) (f : FileDetails) (msg : Bytes) (n : Nat) (includeOffset : Bool)
    (sched : List PwriteResult) : Written :=
  let b := f.writeBuffer msg n sched
  let writtenBuffer := u64OfInt b.value
  if writtenBuffer = 0 then ⟨0, b.file, b.sched⟩
  else
    let o := if includeOffset then b.file.writeOffset host b.sched else ⟨0, b.file, b.sched⟩
    let offsetWritten := u32OfInt o.value
    if includeOffset && offsetWritten = 0 then ⟨0, o.file, o.sched⟩
    else
      ⟨i64 (4 + writtenBuffer + offsetWritten),
        { o.file with writeCounter := u32 (o.file.writeCounter + 1) }, o.sched⟩

theorem writeMsgWith_header {rest : List PwriteResult} (h : completes 4 sched = some rest) :
    f.writeMsgWith host msg n true includeOffset sched
      = (f.pwrite (host.toBytes 4 (u32 (n + if includeOffset then 8 else 0)))).writeBody
          host msg n includeOffset rest := by
  simp only [writeMsgWith, if_true, writeLength_completes f host h, Bool.true_and,
    show decide ((4 : Int) ≤ 0) = false from rfl, Bool.false_eq_true, if_false, writeBody]

variable (msg n includeOffset) in
theorem writeMsgWith_no_header (h : completes 4 sched = none) :
    ∃ j rest, (j = 0 ↔ firstFails sched = true) ∧ j < 4 ∧
      f.writeMsgWith host msg n true includeOffset sched
        = ⟨0, f.pwrite ((host.toBytes 4 (u32 (n + if includeOffset then 8 else 0))).take j),
            rest⟩ := by
  obtain ⟨j, rest, hlt, hj, hlen⟩ := writeLength_fails f host
    (n := u32 (n + if includeOffset then 8 else 0)) h
  exact ⟨j, rest, hj, hlt, by simp [writeMsgWith, hlen]⟩

variable (msg n includeOffset) in
/-- When the first call that does anything fails, nothing happens. -/
theorem writeMsgWith_firstFails (h : firstFails sched = true) :
    ∃ rest, f.writeMsgWith host msg n true includeOffset sched = ⟨0, f, rest⟩ := by
  obtain ⟨j, rest, hj, -, hwrite⟩ := f.writeMsgWith_no_header host msg n includeOffset
    (completes_of_firstFails (n := 4) (by decide) h)
  obtain rfl := hj.mpr h
  exact ⟨rest, hwrite⟩

variable (msg n includeOffset sched) in
theorem writeBody_offset_le :
    f.offset ≤ (f.writeBody host msg n includeOffset sched).file.offset := by
  have hb := f.writeBuffer_offset_le msg n sched
  simp only [writeBody]
  split
  · exact hb
  · cases includeOffset with
    | false =>
        simp only [Bool.false_eq_true, if_false, Bool.false_and]
        exact hb
    | true =>
        have ho := writeOffset_offset_le (f.writeBuffer msg n sched).file host
          (f.writeBuffer msg n sched).sched
        simp only [if_true]
        split
        · exact Nat.le_trans hb ho
        · exact Nat.le_trans hb ho

variable (msg n includeOffset) in
theorem writeMsgWith_moves (h : firstFails sched = false) :
    f.offset < (f.writeMsgWith host msg n true includeOffset sched).file.offset := by
  cases h₁ : completes 4 sched with
  | none =>
      obtain ⟨j, rest, hj, hlt, hwrite⟩ := f.writeMsgWith_no_header host msg n includeOffset h₁
      have hj₀ : j ≠ 0 := fun h₀ => absurd (hj.mp h₀) (by simp [h])
      rw [hwrite, pwrite_offset, List.length_take, ByteOrder.length_toBytes]
      omega
  | some rest =>
      rw [f.writeMsgWith_header host h₁]
      refine Nat.lt_of_lt_of_le ?_ (writeBody_offset_le _ host msg n includeOffset rest)
      rw [pwrite_offset, ByteOrder.length_toBytes]
      exact Nat.lt_add_of_pos_right (by decide)

/-- The value a payload that fails after `j` of its `n` bytes leads to: with
`j = 0` the `-1` of `write_buffer` becomes the largest `size_t`, which is
not `<= 0`, and the sum wraps to one less than the other blocks. -/
theorem short_value {k : Int} {j e : Nat} (hk : 0 ≤ k) (hk4 : k ≤ 4) (hj : j < n)
    (hn : n < 2 ^ 32) (he : e ≤ 8) :
    u64OfInt (if 0 < j then (j : Int) else -1) ≠ 0 ∧
      k - 1 ≤ i64 (k + (u64OfInt (if 0 < j then (j : Int) else -1) : Int) + e) ∧
      i64 (k + (u64OfInt (if 0 < j then (j : Int) else -1) : Int) + e) < k + n + e := by
  by_cases h₀ : 0 < j
  · rw [if_pos h₀, u64OfInt_of_nonneg (by omega), i64_of_lt (by omega) (by omega)]
    omega
  · have hwrap : i64 (k + ((2 ^ 64 - 1 : Nat) : Int) + e) = k - 1 + e := by
      have hsum : (k + ((2 ^ 64 - 1 : Nat) : Int) + e) = (k - 1 + (e : Int)) + ((2 ^ 64 : Nat) : Int) := by
        omega
      rw [i64, hsum, Int.add_bmod_right]
      exact Int.bmod_eq_of_le (by omega) (by omega)
    rw [if_neg h₀, u64OfInt_neg_one, hwrap]
    omega

theorem writeBody_no_trailer (hb : u64OfInt (f.writeBuffer msg n sched).value ≠ 0)
    (h : completes 8 (f.writeBuffer msg n sched).sched = none) :
    (f.writeBody host msg n true sched).value = 0 := by
  obtain ⟨i, last, ho⟩ := writeOffset_fails (f.writeBuffer msg n sched).file host h
  simp only [writeBody, if_neg hb, if_true, ho, Bool.true_and, show u32OfInt 0 = 0 from rfl,
    decide_true]

theorem writeBody_value (hb : u64OfInt (f.writeBuffer msg n sched).value ≠ 0)
    (h : includeOffset = true → ∃ rest, completes 8 (f.writeBuffer msg n sched).sched = some rest) :
    (f.writeBody host msg n includeOffset sched).value
      = i64 (4 + u64OfInt (f.writeBuffer msg n sched).value + trailerLength includeOffset) := by
  cases includeOffset with
  | false =>
      simp only [writeBody, if_neg hb, Bool.false_eq_true, if_false, Bool.false_and,
        show u32OfInt 0 = 0 from rfl, trailerLength]
  | true =>
      obtain ⟨rest, h⟩ := h rfl
      simp only [writeBody, if_neg hb, if_true, writeOffset_completes _ host h, Bool.true_and,
        show u32OfInt 8 = 8 from rfl, show decide (8 = 0) = false from rfl, Bool.false_eq_true,
        if_false, trailerLength]

theorem writeBody_payload_fails (hn : n ≤ msg.length) (hn32 : n < 2 ^ 32)
    (h : completes n sched = none) :
    0 ≤ (f.writeBody host msg n includeOffset sched).value ∧
      (f.writeBody host msg n includeOffset sched).value
        < 4 + n + trailerLength includeOffset := by
  obtain ⟨j, rest, hj, -, hb⟩ := f.writeBuffer_fails hn h
  have hv := short_value (by decide : (0 : Int) ≤ 4) (Int.le_refl 4) hj hn32
    (trailerLength_le includeOffset)
  have hne : u64OfInt (f.writeBuffer msg n sched).value ≠ 0 := by
    rw [hb]
    exact hv.1
  by_cases htrailer : includeOffset = true → ∃ rest, completes 8 (f.writeBuffer msg n sched).sched
      = some rest
  · rw [f.writeBody_value host hne htrailer, hb]
    exact ⟨(by decide : (0 : Int) ≤ 4 - 1).trans hv.2.1, hv.2.2⟩
  · obtain ⟨hoff, hnone⟩ := Classical.not_imp.mp htrailer
    subst hoff
    rw [f.writeBody_no_trailer host hne (Option.eq_none_iff_forall_not_mem.mpr
      fun rest hrest => hnone ⟨rest, hrest⟩)]
    omega

/-- An append that does not get through, or has nothing to write, does not
return the length of its frame.  The cases follow the blocks: the first that
fails is the header, the payload or the trailer. -/
theorem writeMsgWith_short (hn : n ≤ msg.length) (hn32 : n < 2 ^ 32)
    (h : n = 0 ∨ completesAll (pieces n includeOffset) sched = none) :
    0 ≤ (f.writeMsgWith host msg n true includeOffset sched).value ∧
      (f.writeMsgWith host msg n true includeOffset sched).value
        < 4 + n + trailerLength includeOffset := by
  cases h₁ : completes 4 sched with
  | none =>
      obtain ⟨j, rest, -, -, hwrite⟩ := f.writeMsgWith_no_header host msg n includeOffset h₁
      simp only [hwrite, Int.le_refl, true_and]
      omega
  | some s₁ =>
      rw [f.writeMsgWith_header host h₁]
      generalize f.pwrite _ = f₁
      cases h₂ : completes n s₁ with
      | none => exact f₁.writeBody_payload_fails host hn hn32 h₂
      | some s₂ =>
          have hb := f₁.writeBuffer_completes hn h₂
          have hvalue : (f₁.writeBody host msg n includeOffset s₁).value = 0 := by
            by_cases hz : n = 0
            · subst hz
              simp only [writeBody, hb, show u64OfInt ((0 : Nat) : Int) = 0 from rfl, if_true]
            · have hnone : completesAll (pieces n includeOffset) sched = none := h.resolve_left hz
              cases includeOffset with
              | false => simp [pieces, completesAll, h₁, h₂] at hnone
              | true =>
                  have h₃ : completes 8 s₂ = none := by
                    simpa [pieces, completesAll, h₁, h₂, Option.bind_eq_none_iff] using hnone
                  apply f₁.writeBody_no_trailer host
                  · rw [hb, u64OfInt_of_nonneg (by omega)]
                    exact hz
                  · rw [hb]
                    exact h₃
          rw [hvalue]
          exact ⟨Int.le_refl _, by omega⟩

theorem writeBuffer_stays (hn : n ≤ msg.length)
    (h : (f.writeBuffer msg n sched).file.offset = f.offset) :
    (f.writeBuffer msg n sched).value = 0 ∨ (f.writeBuffer msg n sched).value = -1 := by
  cases hsched : completes n sched with
  | some rest =>
      left
      rw [f.writeBuffer_completes hn hsched, pwrite_offset, List.length_take] at h
      rw [f.writeBuffer_completes hn hsched]
      have hz : n = 0 := by omega
      rw [hz]
      rfl
  | none =>
      obtain ⟨j, rest, hj, -, hb⟩ := f.writeBuffer_fails hn hsched
      rw [hb, pwrite_offset, List.length_take] at h
      have hz : j = 0 := by omega
      rw [hb, hz]
      exact Or.inr rfl

theorem writeMsgWith_moves_unsized (hn : n ≤ msg.length)
    (h : 0 < i32 (f.writeMsgWith host msg n false includeOffset sched).value) :
    f.offset < (f.writeMsgWith host msg n false includeOffset sched).file.offset := by
  have hb := f.writeBuffer_offset_le msg n sched
  have hstays : (f.writeBuffer msg n sched).file.offset = f.offset → _ := f.writeBuffer_stays hn
  have hzero : ¬ 0 < i32 0 := by decide
  have hminus : ¬ 0 < i32 (i64 (0 + (u64OfInt (-1) : Int) + (u32OfInt 0 : Int))) := by decide
  cases includeOffset with
  | false =>
      simp only [writeMsgWith, Bool.false_eq_true, if_false, Bool.false_and] at h ⊢
      split at h
      · exact absurd h hzero
      · rename_i hne
        rw [if_neg hne]
        refine Nat.lt_of_le_of_ne hb ?_
        intro heq
        rcases hstays heq.symm with hv | hv
        · exact hne (by rw [hv]; rfl)
        · rw [hv] at h
          exact hminus h
  | true =>
      by_cases hne : u64OfInt (f.writeBuffer msg n sched).value = 0
      · simp only [writeMsgWith, Bool.false_eq_true, if_false, Bool.false_and, if_pos hne] at h
        exact absurd h hzero
      · cases htrailer : completes 8 (f.writeBuffer msg n sched).sched with
        | none =>
            obtain ⟨j, rest, ho⟩ :=
              writeOffset_fails (f.writeBuffer msg n sched).file host htrailer
            simp only [writeMsgWith, Bool.false_eq_true, if_false, Bool.false_and, if_neg hne,
              if_true, ho, Bool.true_and, show u32OfInt 0 = 0 from rfl, decide_true] at h
            exact absurd h hzero
        | some rest =>
            simp only [writeMsgWith, Bool.false_eq_true, if_false, Bool.false_and, if_neg hne,
              if_true, writeOffset_completes _ host htrailer, Bool.true_and,
              show u32OfInt 8 = 8 from rfl, show decide (8 = 0) = false from rfl, pwrite_offset,
              ByteOrder.length_toBytes]
            exact Nat.lt_of_le_of_lt hb (Nat.lt_add_of_pos_right (by decide))

theorem writeMsgWith_moves_of_pos (hn : n ≤ msg.length) {includeSize : Bool}
    (h : 0 < i32 (f.writeMsgWith host msg n includeSize includeOffset sched).value) :
    f.offset < (f.writeMsgWith host msg n includeSize includeOffset sched).file.offset := by
  cases includeSize with
  | false => exact f.writeMsgWith_moves_unsized host hn h
  | true =>
      cases hfirst : firstFails sched with
      | false => exact f.writeMsgWith_moves host msg n includeOffset hfirst
      | true =>
          obtain ⟨rest, hwrite⟩ := f.writeMsgWith_firstFails host msg n includeOffset hfirst
          rw [hwrite] at h
          exact absurd h (show ¬ 0 < i32 0 by decide)

theorem writeMsgWith_unsized_eq : f.writeMsgWith host msg n false includeOffset sched =
    let b := f.writeBuffer msg n sched
    if u64OfInt b.value = 0 then ⟨0, b.file, b.sched⟩
    else
      let o := if includeOffset then b.file.writeOffset host b.sched else ⟨0, b.file, b.sched⟩
      if includeOffset && u32OfInt o.value = 0 then ⟨0, o.file, o.sched⟩
      else
        ⟨i64 (0 + u64OfInt b.value + u32OfInt o.value),
          { o.file with writeCounter := u32 (o.file.writeCounter + 1) }, o.sched⟩ := by
  simp only [writeMsgWith, Bool.false_eq_true, if_false, Bool.false_and]

theorem writeMsgWith_unsized_fails (hn : n ≤ msg.length) (hn32 : n < 2 ^ 32)
    (h : completes n sched = none) :
    -1 ≤ (f.writeMsgWith host msg n false includeOffset sched).value ∧
      (f.writeMsgWith host msg n false includeOffset sched).value
        < n + trailerLength includeOffset := by
  obtain ⟨j, rest, hj, -, hb⟩ := f.writeBuffer_fails hn h
  have hvalue := fun e : Nat => short_value (e := e) (Int.le_refl 0) (by decide : (0 : Int) ≤ 4)
    hj hn32
  simp only [writeMsgWith_unsized_eq, hb, if_neg (hvalue 0 (Nat.zero_le 8)).1]
  cases includeOffset with
  | false =>
      have h₀ := (hvalue 0 (Nat.zero_le 8)).2
      simpa [trailerLength, u32OfInt] using h₀
  | true =>
      have h₈ := (hvalue 8 (Nat.le_refl 8)).2
      cases htrailer : completes 8 rest with
      | none =>
          obtain ⟨i, last, ho⟩ := writeOffset_fails (f.pwrite (msg.take j)) host htrailer
          simp only [if_true, ho, show u32OfInt 0 = 0 from rfl, decide_true, Bool.and_self]
          omega
      | some last =>
          simp only [if_true, writeOffset_completes _ host htrailer,
            show u32OfInt 8 = 8 from rfl, show decide (8 = 0) = false from rfl, Bool.and_false,
            Bool.false_eq_true, if_false]
          simpa [trailerLength] using h₈

theorem writeMsgWith_unsized (hpos : 0 < n) (hn : n ≤ msg.length)
    (hfit : n + trailerLength includeOffset < 2 ^ 32) :
    (∃ rest, f.writeMsgWith host msg n false includeOffset sched
        = ⟨n + trailerLength includeOffset,
            f.appendFrame (stored host (msg.take n) false includeOffset f.offset), rest⟩) ∨
      (-1 ≤ (f.writeMsgWith host msg n false includeOffset sched).value ∧
        (f.writeMsgWith host msg n false includeOffset sched).value
          < n + trailerLength includeOffset) := by
  have hlen : (msg.take n).length = n := by rw [List.length_take]; omega
  have hn₀ : n ≠ 0 := Nat.pos_iff_ne_zero.mp hpos
  cases hpayload : completes n sched with
  | none => exact Or.inr (f.writeMsgWith_unsized_fails host hn (by omega) hpayload)
  | some rest =>
      simp only [writeMsgWith_unsized_eq, f.writeBuffer_completes hn hpayload,
        u64OfInt_of_nonneg (show n < 2 ^ 64 by omega), if_neg hn₀]
      cases includeOffset with
      | false =>
          have hvalue : i64 ((n : Int)) = n := i64_of_lt (by omega) (by omega)
          refine Or.inl ⟨rest, ?_⟩
          simp [u32OfInt, trailerLength, hvalue, appendFrame, stored]
          rfl
      | true =>
          cases htrailer : completes 8 rest with
          | none =>
              right
              obtain ⟨i, last, ho⟩ := writeOffset_fails (f.pwrite (msg.take n)) host htrailer
              simp only [if_true, ho, show u32OfInt 0 = 0 from rfl, decide_true, Bool.and_self]
              omega
          | some last =>
              have hvalue : i64 ((n : Int) + 8) = n + 8 := i64_of_lt (by omega) (by omega)
              refine Or.inl ⟨last, ?_⟩
              simp [writeOffset_completes _ host htrailer, u32OfInt, trailerLength, hvalue,
                appendFrame, stored, pwrite_pwrite, hlen]
              rfl

theorem writeMsgWith_stored {includeSize : Bool} (hne : msg ≠ [])
    (hlen : storedLength msg includeSize includeOffset < 2 ^ 31)
    (hvalue : i32 (f.writeMsgWith host msg (u32 msg.length) includeSize includeOffset sched).value
      = storedLength msg includeSize includeOffset) :
    ∃ rest, f.writeMsgWith host msg (u32 msg.length) includeSize includeOffset sched
      = ⟨storedLength msg includeSize includeOffset,
          f.appendFrame (stored host msg includeSize includeOffset f.offset), rest⟩ := by
  have hpos : 0 < msg.length := List.length_pos_iff.mpr hne
  have hn : u32 msg.length = msg.length := u32_of_lt (by rw [storedLength] at hlen; omega)
  rw [hn] at hvalue ⊢
  cases includeSize with
  | true =>
      have hlen' : 4 + msg.length + trailerLength includeOffset < 2 ^ 31 := hlen
      cases hall : completesAll (pieces msg.length includeOffset) sched with
      | none =>
          obtain ⟨h₀, h₁⟩ := f.writeMsgWith_short host (Nat.le_refl _) (by omega) (Or.inr hall)
          have hle := i32_le h₀
          rw [hvalue, storedLength, if_pos rfl] at hle
          omega
      | some rest =>
          have hok := f.writeMsgWith_ok host hpos (Nat.le_refl _) (by omega) hall
          rw [List.take_length] at hok
          refine ⟨rest, hok.trans ?_⟩
          simp [storedLength, stored]
  | false =>
      have hlen' : 0 + msg.length + trailerLength includeOffset < 2 ^ 31 := hlen
      rcases f.writeMsgWith_unsized host hpos (Nat.le_refl _)
          (show msg.length + trailerLength includeOffset < 2 ^ 32 by omega) with
        ⟨rest, hok⟩ | ⟨hlow, hshort⟩
      · rw [List.take_length] at hok
        refine ⟨rest, hok.trans ?_⟩
        rw [storedLength]
        simp
      · have hsame : i32 (f.writeMsgWith host msg msg.length false includeOffset sched).value
            = (f.writeMsgWith host msg msg.length false includeOffset sched).value :=
          Int.bmod_eq_of_le (by omega) (by omega)
        rw [hsame] at hvalue
        rw [hvalue, storedLength] at hshort
        simp at hshort

end WriteMsg

/-! ## Names -/

@[simp] theorem pwrite_fileName (f : FileDetails) (a : Bytes) :
    (f.pwrite a).fileName = f.fileName := rfl

theorem writeLoop_fileName (f : FileDetails) (buf : Bytes) (sched : List PwriteResult) :
    (f.writeLoop buf sched).file.fileName = f.fileName := by
  cases h : completes buf.length sched with
  | some rest => rw [writeLoop_completes f buf h, pwrite_fileName]
  | none =>
      obtain ⟨j, rest, -, -, hloop⟩ := writeLoop_fails f buf h
      rw [hloop, pwrite_fileName]

section Names

variable (f : FileDetails) (host : ByteOrder)

theorem writeBuffer_fileName (buf : Bytes) (n : Nat) (sched : List PwriteResult) :
    (f.writeBuffer buf n sched).file.fileName = f.fileName := by
  have h := writeLoop_fileName f (buf.take n) sched
  simp only [writeBuffer]
  split
  · exact h
  · exact h

theorem writeLength_fileName (n : Nat) (sched : List PwriteResult) :
    (f.writeLength host n sched).file.fileName = f.fileName := by
  have h := writeLoop_fileName f (host.toBytes 4 n) sched
  simp only [writeLength]
  split
  · exact h
  · exact h

theorem writeOffset_fileName (sched : List PwriteResult) :
    (f.writeOffset host sched).file.fileName = f.fileName := by
  have h := writeLoop_fileName f (host.toBytes 8 f.offset) sched
  simp only [writeOffset]
  split
  · exact h
  · exact h
end Names

theorem writeMsgWith_fileName (f : FileDetails) (host : ByteOrder) (msg : Bytes) (n : Nat)
    (includeSize includeOffset : Bool) (sched : List PwriteResult) :
    (f.writeMsgWith host msg n includeSize includeOffset sched).file.fileName = f.fileName := by
  have hl : (if includeSize then
      f.writeLength host (u32 (n + if includeOffset then 8 else 0)) sched
      else ⟨0, f, sched⟩).file.fileName = f.fileName := by
    split
    · exact f.writeLength_fileName host _ sched
    · rfl
  rw [writeMsgWith]
  generalize (if includeSize then _ else _ : Written) = l at hl ⊢
  have hb := l.file.writeBuffer_fileName msg n l.sched
  have ho : (if includeOffset then
      (l.file.writeBuffer msg n l.sched).file.writeOffset host (l.file.writeBuffer msg n l.sched).sched
      else ⟨0, (l.file.writeBuffer msg n l.sched).file,
        (l.file.writeBuffer msg n l.sched).sched⟩).file.fileName
      = (l.file.writeBuffer msg n l.sched).file.fileName := by
    split
    · exact writeOffset_fileName _ host _
    · rfl
  split
  · exact hl
  · simp only
    split
    · exact hb.trans hl
    · generalize (if includeOffset then _ else _ : Written) = o at ho ⊢
      split
      · exact ho.trans (hb.trans hl)
      · exact ho.trans (hb.trans hl)

end FileDetails

end LightQ
