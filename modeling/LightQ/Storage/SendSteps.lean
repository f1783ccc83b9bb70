/-
# `Storage.SendSteps` — `send_file`, one look at a time

`connection_file::send_file` compares its offset with the size of the log and
with the running total of one file after the other, and
`file_details::send_file` looks twice at `offset_` before it calls `sendfile`.
Each of these is a step here, since `write_to_file` may go on in between.

`send_uninterrupted` says that the steps one after the other are `send_file`:
the search from file `i` on is `sendsAlone_scan`, and what follows in the file
that was found is `sendsAlone_limit`.

`Sender.Sound` is what the thread knows between two of them.  In front of a file
it is the `Scans` of `Lib.PublishedLog`, and once the file is found
(`Located.file`) its `Holds`, with what the clamps have settled so far:
`sendfile` is asked for bytes that the file has, unless it is asked for none
(`Located.checked`).  A step never looks at a file that is not there, and knows
what it has to know for the next one (`Sender.Sound.step`).  Whatever the writer
does in between, the thread still knows it (`Sender.Sound.grows`), unless a file
is created when the search is behind the last one: the total of that one lags, so
that the search may have passed over the file that its offset lies in, and it
goes on in the new one instead of coming back with nothing.

What is sent lies in the log at the offset of the call (`Sender.Sound.slice`),
on Apple because `sendfile` is given that place
(`FileDetails.callSendfile_apple`).  A positive value is the number of bytes
sent (`FileDetails.callSendfile_value`), and a call that reports no success has
sent nothing if it fails clean (`FileDetails.callSendfile_nothing`).
-/
import LightQ.Storage.ReadableLog

namespace LightQ

open MachineInt PublishedLog ConnectionFile

/-- The arguments of `connection_file::send_file`. -/
structure SendFileCall where
  fd : Int
  offset : Nat
  size : Nat
deriving DecidableEq, Repr

/-- What `send_file` is about to do; `i` is the index of a file and `offset` is
`offset_currentfile`. -/
inductive Sender where
  | idle
  | enter (call : SendFileCall)
  | scan (call : SendFileCall) (i : Nat)
  | subtract (call : SendFileCall) (i : Nat)
  | limit (call : SendFileCall) (i offset : Nat)
  | clamp (call : SendFileCall) (i offset : Nat)
  | send (call : SendFileCall) (i offset size : Nat)
deriving DecidableEq, Repr

/-- A step goes on, or `connection_file::send_file` returns. -/
inductive SendOutcome where
  | goesOn (sender : Sender)
  | returns (value : Int) (bytes : Bytes)
deriving DecidableEq, Repr

/-- The end of `file_details::send_file`, behind the clamps. -/
def FileDetails.callSendfile (platform : Platform) (f : FileDetails) (offset size : Nat)
    (r : SendfileResult) : Int × Bytes :=
  match platform with
  | .apple =>
      let (result, sizeOffset, bytes) := sendfileApple f.content offset size r
      if result = 0 then (sizeOffset, bytes) else (-1, bytes)
  | .linux =>
      let (result, bytes) := sendfileLinux f.content size size r
      if 0 ≤ result then (result, bytes) else (-1, bytes)

/-- Nothing is sent of no bytes, and `connection_file` takes that for an error. -/
def SendFileCall.checked (call : SendFileCall) (i offset size : Nat) : SendOutcome :=
  if size = 0 then .returns (-1) [] else .goesOn (.send call i offset size)

namespace ConnectionFile

/-- The next step of `send_file`; `r` is what `sendfile` does if it is called. -/
def sendStep (platform : Platform) (s : ConnectionFile) (r : SendfileResult) :
    Sender → Option SendOutcome
  | .idle => none
  | .enter call =>
      if s.totalBytesWriten ≤ call.offset then some (.returns 0 [])
      else some (.goesOn (.scan call 0))
  | .scan call i =>
      match s.fileFds[i]? with
      | none => some (.returns 0 [])
      | some f =>
          if f.bytesWrittenAcrossAllFiles ≤ call.offset then some (.goesOn (.scan call (i + 1)))
          else some (.goesOn (.subtract call i))
  | .subtract call 0 => some (.goesOn (.limit call 0 call.offset))
  | .subtract call (i + 1) => do
      let f ← s.fileFds[i]?
      some (.goesOn (.limit call (i + 1) (subU64 call.offset f.bytesWrittenAcrossAllFiles)))
  | .limit call i offset => do
      let f ← s.fileFds[i]?
      let size := if maxMsgSize < call.size then maxMsgSize else call.size
      if f.offset < size + offset then some (.goesOn (.clamp call i offset))
      else some (call.checked i offset size)
  | .clamp call i offset => do
      let f ← s.fileFds[i]?
      some (call.checked i offset (subU64 f.offset offset))
  | .send _ i offset size => do
      let f ← s.fileFds[i]?
      let (value, bytes) := f.callSendfile platform offset size r
      some (.returns (if 0 < value then value else -1) bytes)

/-- The steps from `sender` on, one after the other, come back with `sent`. -/
inductive SendsAlone (platform : Platform) (s : ConnectionFile) (r : SendfileResult) :
    Sender → Int × Bytes → Prop where
  | returns {sender : Sender} {value : Int} {bytes : Bytes}
      (h : s.sendStep platform r sender = some (.returns value bytes)) :
      SendsAlone platform s r sender (value, bytes)
  | goesOn {sender sender' : Sender} {sent : Int × Bytes}
      (h : s.sendStep platform r sender = some (.goesOn sender'))
      (hrest : SendsAlone platform s r sender' sent) : SendsAlone platform s r sender sent

section Alone

variable {platform : Platform} {s : ConnectionFile} {r : SendfileResult} {call : SendFileCall}
  {sender : Sender} {f : FileDetails} {i offset : Nat}

theorem sendFile_eq_callSendfile (f : FileDetails) (offset size : Nat) :
    f.sendFile platform offset size r =
      if f.sendSize offset size = 0 then (0, [])
      else f.callSendfile platform offset (f.sendSize offset size) r := rfl

/-- What `connection_file` makes of the value of `file_details`. -/
def takenFor (sent : Int × Bytes) : Int × Bytes := if 0 < sent.1 then sent else (-1, sent.2)

theorem sendsAlone_checked (hf : s.fileFds[i]? = some f)
    (h : s.sendStep platform r sender =
      some (call.checked i offset (f.sendSize offset call.size))) :
    SendsAlone platform s r sender (takenFor (f.sendFile platform offset call.size r)) := by
  rw [sendFile_eq_callSendfile]
  rw [SendFileCall.checked] at h
  by_cases hzero : f.sendSize offset call.size = 0
  · rw [if_pos hzero] at h ⊢
    exact .returns h
  · rw [if_neg hzero] at h ⊢
    refine .goesOn h ?_
    generalize hsent : f.callSendfile platform offset (f.sendSize offset call.size) r = sent
    have hstep : s.sendStep platform r (.send call i offset (f.sendSize offset call.size)) =
        some (.returns (if 0 < sent.1 then sent.1 else -1) sent.2) := by
      rw [sendStep, hf]
      simp only [Option.bind_eq_bind, Option.bind_some, hsent]
    rw [takenFor]
    split
    · next hpos =>
        rw [if_pos hpos] at hstep
        exact .returns hstep
    · next hneg =>
        rw [if_neg hneg] at hstep
        exact .returns hstep

theorem sendsAlone_limit (hf : s.fileFds[i]? = some f) :
    SendsAlone platform s r (.limit call i offset)
      (takenFor (f.sendFile platform offset call.size r)) := by
  generalize hlimited : (if maxMsgSize < call.size then maxMsgSize else call.size) = limited
  by_cases hover : f.offset < limited + offset
  · have hsize : f.sendSize offset call.size = subU64 f.offset offset := by
      rw [FileDetails.sendSize, hlimited]
      exact if_pos hover
    have hclamp : SendsAlone platform s r (.clamp call i offset)
        (takenFor (f.sendFile platform offset call.size r)) :=
      sendsAlone_checked hf (by rw [sendStep, hf, hsize]; rfl)
    refine .goesOn ?_ hclamp
    rw [sendStep, hf]
    simp only [Option.bind_eq_bind, Option.bind_some, hlimited, if_pos hover]
  · have hsize : f.sendSize offset call.size = limited := by
      rw [FileDetails.sendSize, hlimited]
      exact if_neg hover
    refine sendsAlone_checked hf ?_
    rw [sendStep, hf, hsize]
    simp only [Option.bind_eq_bind, Option.bind_some, hlimited, if_neg hover]

/-- The running total of the file before file `i`, if there is one. -/
def previousTotal (s : ConnectionFile) : Nat → Option Nat
  | 0 => none
  | j + 1 => s.fileFds[j]?.map FileDetails.bytesWrittenAcrossAllFiles

theorem sendsAlone_scan (platform : Platform) (r : SendfileResult) (call : SendFileCall)
    {files : List FileDetails} (hfiles : s.fileFds.drop i = files) :
    SendsAlone platform s r (.scan call i)
      (sendFrom platform call.offset call.size r files (s.previousTotal i)) := by
  induction files generalizing i with
  | nil =>
      have hnone : s.fileFds[i]? = none :=
        List.getElem?_eq_none (List.drop_eq_nil_iff.mp hfiles)
      exact .returns (by rw [sendStep, hnone])
  | cons f rest ih =>
      have hf : s.fileFds[i]? = some f := by
        rw [← List.head?_drop, hfiles]
        rfl
      rw [sendFrom]
      by_cases hskip : f.bytesWrittenAcrossAllFiles ≤ call.offset
      · rw [if_pos hskip]
        have hrest : s.fileFds.drop (i + 1) = rest := by
          rw [← List.tail_drop, hfiles, List.tail_cons]
        have hnext := ih hrest
        rw [previousTotal, hf] at hnext
        refine .goesOn ?_ hnext
        rw [sendStep, hf]
        exact if_pos hskip
      · rw [if_neg hskip]
        refine SendsAlone.goesOn ((?_ : s.sendStep platform r (.scan call i) =
          some (.goesOn (.subtract call i)))) ?_
        · rw [sendStep, hf]
          exact if_neg hskip
        · cases i with
          | zero => exact .goesOn rfl (sendsAlone_limit hf)
          | succ j =>
              obtain ⟨hlt, -⟩ := List.getElem?_eq_some_iff.mp hf
              have hj : s.fileFds[j]? = some s.fileFds[j] :=
                List.getElem?_eq_getElem (by omega)
              rw [previousTotal, hj]
              refine .goesOn ?_ (sendsAlone_limit hf)
              rw [sendStep, hj]
              rfl

/-- A call that nothing comes between is `send_file`. -/
theorem send_uninterrupted (platform : Platform) (s : ConnectionFile) (r : SendfileResult)
    (call : SendFileCall) :
    SendsAlone platform s r (.enter call) (s.sendFile platform call.offset call.size r) := by
  rw [sendFile]
  by_cases hend : s.totalBytesWriten ≤ call.offset
  · rw [if_pos hend]
    refine .returns ?_
    rw [sendStep]
    exact if_pos hend
  · rw [if_neg hend]
    have hscan : SendsAlone platform s r (.scan call 0)
        (sendFrom platform call.offset call.size r s.fileFds none) :=
      sendsAlone_scan platform r call List.drop_zero
    refine .goesOn ?_ hscan
    rw [sendStep]
    exact if_neg hend

end Alone

end ConnectionFile

/-! ## Between two steps -/

/-- The call that is being made. -/
def Sender.call? : Sender → Option SendFileCall
  | .idle => none
  | .enter call => some call
  | .scan call _ => some call
  | .subtract call _ => some call
  | .limit call _ _ => some call
  | .clamp call _ _ => some call
  | .send call _ _ _ => some call

/-- File `i` holds the offset of the call, at `offset` in the file. -/
structure Located (cells : List (Cell UInt8)) (call : SendFileCall) (i offset : Nat) : Prop where
  holds : Holds cells call.offset i
  offset_eq : offset = call.offset - before cells i

/-- What the thread knows. -/
def Sender.Sound (cells : List (Cell UInt8)) : Sender → Prop
  | .idle => True
  | .enter _ => True
  | .scan call i => Scans cells call.offset i
  | .subtract call i => Holds cells call.offset i
  | .limit call i offset => Located cells call i offset
  | .clamp call i offset => Located cells call i offset
  | .send call i offset size =>
      Located cells call i offset ∧ 0 < size ∧
        ∃ c : Cell UInt8, cells[i]? = some c ∧ offset + size ≤ c.items.length

section Sound

variable {cells cells' : List (Cell UInt8)} {platform : Platform} {s : ConnectionFile}
  {pending stream : Bytes} {r : SendfileResult} {sender : Sender} {call : SendFileCall}
  {i offset size : Nat} {f : FileDetails}

theorem Located.grows (h : Located cells call i offset) (hgrows : Grows cells cells') :
    Located cells' call i offset := by
  refine ⟨h.holds.grows hgrows, ?_⟩
  rw [hgrows.before_eq h.holds.lt_length]
  exact h.offset_eq

/-- Whatever the writer does, the thread still knows it; but no new file may
turn up when it is behind the last one. -/
theorem Sender.Sound.grows (h : sender.Sound cells) (hgrows : Grows cells cells')
    (hscan : ∀ call i, sender = .scan call i →
      i < cells.length ∨ cells'.length = cells.length) : sender.Sound cells' := by
  cases sender with
  | idle => trivial
  | enter call => trivial
  | scan call i => exact Scans.grows h hgrows (hscan call i rfl)
  | subtract call i => exact Holds.grows h hgrows
  | limit call i offset => exact Located.grows h hgrows
  | clamp call i offset => exact Located.grows h hgrows
  | send call i offset size =>
      obtain ⟨hlocated, hpos, c, hc, hle⟩ := h
      obtain ⟨c', hc', hprefix⟩ := hgrows.prefixed hc
      exact ⟨hlocated.grows hgrows, hpos, c', hc', Nat.le_trans hle hprefix.length_le⟩

theorem Located.file (h : Located s.cells call i offset) (hread : Readable s pending stream) :
    ∃ f, s.fileFds[i]? = some f ∧ f.cell.items.length = f.offset ∧ offset < f.offset ∧
      f.offset ≤ f.content.length := by
  have hlt : i < s.fileFds.length := s.length_cells ▸ h.holds.lt_length
  have hf : s.fileFds[i]? = some s.fileFds[i] := List.getElem?_eq_getElem hlt
  have hinside := hread.inside _ (List.getElem_mem hlt)
  have hlen : s.fileFds[i].cell.items.length = s.fileFds[i].offset := by
    show (s.fileFds[i].content.take s.fileFds[i].offset).length = _
    rw [List.length_take, Nat.min_eq_left hinside]
  refine ⟨_, hf, hlen, ?_, hinside⟩
  have hend := h.holds.lt
  have hstart := h.holds.le
  rw [before_succ (cells_get hf), hlen] at hend
  rw [h.offset_eq]
  omega

theorem sendStep_send (platform : Platform) (r : SendfileResult) (call : SendFileCall)
    (hf : s.fileFds[i]? = some f) :
    s.sendStep platform r (.send call i offset size) =
      some (.returns (takenFor (f.callSendfile platform offset size r)).1
        (takenFor (f.callSendfile platform offset size r)).2) := by
  rw [sendStep, hf]
  simp only [Option.bind_eq_bind, Option.bind_some]
  generalize f.callSendfile platform offset size r = sent
  rw [takenFor]
  split
  · rfl
  · rfl

theorem Located.checked (h : Located s.cells call i offset) (hread : Readable s pending stream)
    (hsize : ∀ f, s.fileFds[i]? = some f → offset + size ≤ f.offset) :
    (size = 0 ∧ call.checked i offset size = .returns (-1) []) ∨
      (call.checked i offset size = .goesOn (.send call i offset size) ∧
        (Sender.send call i offset size).Sound s.cells) := by
  obtain ⟨f, hf, hlen, -, -⟩ := h.file hread
  rw [SendFileCall.checked]
  rcases Nat.eq_zero_or_pos size with hzero | hpos
  · exact Or.inl ⟨hzero, if_pos hzero⟩
  · refine Or.inr ⟨if_neg (Nat.pos_iff_ne_zero.mp hpos), h, hpos, f.cell, cells_get hf, ?_⟩
    rw [hlen]
    exact hsize f hf

/-- A step of the thread: it never looks at a file that is not there, and it
knows what it has to know for the next one. -/
theorem Sender.Sound.step (h : sender.Sound s.cells) (hread : Readable s pending stream)
    (hcall : sender.call? = some call) (platform : Platform) (r : SendfileResult) :
    (∃ sender', s.sendStep platform r sender = some (.goesOn sender') ∧
        sender'.Sound s.cells ∧ sender'.call? = some call) ∨
      s.sendStep platform r sender = some (.returns 0 []) ∨
      (s.sendStep platform r sender = some (.returns (-1) []) ∧ call.size = 0) ∨
      ∃ i offset size f, sender = .send call i offset size ∧ s.fileFds[i]? = some f ∧
        s.sendStep platform r sender =
          some (.returns (takenFor (f.callSendfile platform offset size r)).1
            (takenFor (f.callSendfile platform offset size r)).2) := by
  cases sender with
  | idle => cases hcall
  | enter c =>
      obtain rfl := Option.some.inj hcall
      rw [sendStep]
      split
      · exact Or.inr (Or.inl rfl)
      · exact Or.inl ⟨_, rfl, scans_zero _ _, rfl⟩
  | scan c i =>
      obtain rfl := Option.some.inj hcall
      cases hf : s.fileFds[i]? with
      | none =>
          rw [sendStep, hf]
          exact Or.inr (Or.inl rfl)
      | some f =>
          left
          by_cases hskip : f.bytesWrittenAcrossAllFiles ≤ c.offset
          · refine ⟨.scan c (i + 1), ?_, hread.ledger.skip (cells_get hf) hskip, rfl⟩
            rw [sendStep, hf]
            exact if_pos hskip
          · refine ⟨.subtract c i, ?_, hread.ledger.found h (cells_get hf)
              (Nat.lt_of_not_le hskip), rfl⟩
            rw [sendStep, hf]
            exact if_neg hskip
  | subtract c i =>
      obtain rfl := Option.some.inj hcall
      left
      have hholds : Holds s.cells c.offset i := h
      cases i with
      | zero => exact ⟨.limit c 0 c.offset, rfl, ⟨hholds, rfl⟩, rfl⟩
      | succ j =>
          have hlt : j + 1 < s.fileFds.length := s.length_cells ▸ hholds.lt_length
          have hj : s.fileFds[j]? = some s.fileFds[j] := List.getElem?_eq_getElem (by omega)
          have htotal : s.fileFds[j].bytesWrittenAcrossAllFiles = before s.cells (j + 1) :=
            hread.ledger.settled (cells_get hj) hholds.lt_length
          refine ⟨.limit c (j + 1) (c.offset - before s.cells (j + 1)), ?_, ⟨hholds, rfl⟩, rfl⟩
          rw [sendStep, hj]
          simp only [Option.bind_eq_bind, Option.bind_some, htotal, subU64_of_le hholds.le]
  | limit c i o =>
      obtain rfl := Option.some.inj hcall
      have hlocated : Located s.cells c i o := h
      obtain ⟨f, hf, hlen, hlt, -⟩ := hlocated.file hread
      generalize hlimited : (if maxMsgSize < c.size then maxMsgSize else c.size) = limited
      by_cases hover : f.offset < limited + o
      · refine Or.inl ⟨.clamp c i o, ?_, hlocated, rfl⟩
        rw [sendStep, hf]
        simp only [Option.bind_eq_bind, Option.bind_some, hlimited, if_pos hover]
      · have hstep : s.sendStep platform r (.limit c i o) = some (c.checked i o limited) := by
          rw [sendStep, hf]
          simp only [Option.bind_eq_bind, Option.bind_some, hlimited, if_neg hover]
        rw [hstep]
        have hsize : ∀ g, s.fileFds[i]? = some g → o + limited ≤ g.offset := by
          intro g hg
          obtain rfl := Option.some.inj (hf.symm.trans hg)
          omega
        rcases hlocated.checked hread hsize with ⟨hzero, hreturns⟩ | ⟨hgoes, hsound⟩
        · refine Or.inr (Or.inr (Or.inl ⟨congrArg some hreturns, ?_⟩))
          rw [hzero] at hlimited
          split at hlimited
          · exact absurd hlimited (by decide)
          · exact hlimited
        · exact Or.inl ⟨_, congrArg some hgoes, hsound, rfl⟩
  | clamp c i o =>
      obtain rfl := Option.some.inj hcall
      have hlocated : Located s.cells c i o := h
      obtain ⟨f, hf, hlen, hlt, -⟩ := hlocated.file hread
      have hstep : s.sendStep platform r (.clamp c i o) =
          some (c.checked i o (f.offset - o)) := by
        rw [sendStep, hf]
        simp only [Option.bind_eq_bind, Option.bind_some, subU64_of_le (Nat.le_of_lt hlt)]
      rw [hstep]
      have hsize : ∀ g, s.fileFds[i]? = some g → o + (f.offset - o) ≤ g.offset := by
        intro g hg
        obtain rfl := Option.some.inj (hf.symm.trans hg)
        omega
      rcases hlocated.checked hread hsize with ⟨hzero, -⟩ | ⟨hgoes, hsound⟩
      · omega
      · exact Or.inl ⟨_, congrArg some hgoes, hsound, rfl⟩
  | send c i o n =>
      obtain rfl := Option.some.inj hcall
      obtain ⟨hlocated, -, -⟩ := h
      obtain ⟨f, hf, -⟩ := hlocated.file hread
      exact Or.inr (Or.inr (Or.inr ⟨i, o, n, f, rfl, hf, sendStep_send platform r c hf⟩))

theorem FileDetails.callSendfile_value
    (hpos : 0 < (f.callSendfile platform offset size r).1) :
    (f.callSendfile platform offset size r).1 = (f.callSendfile platform offset size r).2.length := by
  cases platform with
  | apple =>
      cases r with
      | sent k => rfl
      | failed k => exact absurd hpos (by simp [callSendfile, sendfileApple])
  | linux =>
      cases r with
      | sent k => simp [callSendfile, sendfileLinux]
      | failed k => exact absurd hpos (by simp [callSendfile, sendfileLinux])

theorem FileDetails.callSendfile_apple (f : FileDetails) (offset size : Nat) (r : SendfileResult) :
    (f.callSendfile .apple offset size r).2 <+: (f.content.drop offset).take size := by
  have hprefix : ∀ k, (f.content.drop offset).take (min k size) <+:
      (f.content.drop offset).take size := fun k => List.take_prefix_take_left (Nat.min_le_right k size)
  cases r with
  | sent k => exact hprefix k
  | failed k => exact hprefix k

theorem Sender.Sound.slice (h : (Sender.send call i offset size).Sound s.cells)
    (hread : Readable s pending stream) (hf : s.fileFds[i]? = some f) :
    (f.content.drop offset).take size <+: s.log.drop call.offset ∧
      0 < size ∧ offset + size ≤ f.offset ∧ f.offset ≤ f.content.length := by
  obtain ⟨hlocated, hpos, c, hc, hle⟩ := h
  obtain ⟨g, hg, hlen, -, hinside⟩ := hlocated.file hread
  obtain rfl : g = f := Option.some.inj (hg.symm.trans hf)
  obtain rfl : c = g.cell := Option.some.inj (hc.symm.trans (cells_get hg))
  have hslice := hlocated.holds.slice hc (n := size) (hlocated.offset_eq ▸ hle)
  rw [← hlocated.offset_eq] at hslice
  have hitems : (g.cell.items.drop offset).take size = (g.content.drop offset).take size := by
    show ((g.content.take g.offset).drop offset).take size = _
    rw [List.drop_take, List.take_take, Nat.min_eq_left (by omega)]
  refine ⟨?_, hpos, by omega, hinside⟩
  rw [← hitems, hslice, log_eq_items]
  exact List.take_prefix _ _

end Sound

end LightQ
