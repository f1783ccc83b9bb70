/-
# `Storage.AppendSteps` — an append, one access at a time

`write_to_file` runs in one thread and `send_file` in another, on the same
`connection_file`.  Here an append is cut where the other thread can look in
between: `set_current_file`, every `pwrite`, every `offset_ += result`, the
running total of the log, and that of the current file.

`append_uninterrupted` is the link to `Storage.ConnectionFile`: the steps one
after the other are `write_to_file`, whatever the `pwrite` calls do.  It is
put together as the function is.  One turn of a loop is a call that writes and
the move behind it (`run_turn`); a loop, as `write_length` and `write_buffer`
run it, leaves nothing to do unless a call has failed (`run_writeLoop`); then
come `write_buffer` with what follows it (`run_writeBody`) and the end of
`write_to_file` (`run_finishWrite`).

A `pwrite` into a log whose files are all one shows in every one of them; what
a file shows afterwards depends on the last store alone
(`set_showing_setCurrent`).

`writeStep_cases` says once what any step can do: it changes nothing of the log, its
current file, or its counters, so that no file is taken away and the log keeps its
name (`writeStep_extends`); and what is still to get in front of `offset_`, which is
`Writer.pending`, gets no longer.

For an append whose calls do not fail, `Appending` says where the log is
between two steps: a part of the frame is in the file, of which a part is
counted in `offset_`, and the totals are still those of before, or one of them
already the new one.  `Appending.step` is the step lemma.
-/
import LightQ.Lib.Runs
import LightQ.Storage.OpenLog

namespace LightQ

open MachineInt Overlay

/-- The loop that `write_msg` is in: that of `write_length`, with the message
still to come, or that of `write_buffer`. -/
inductive WriteLoop where
  | length (message : Bytes)
  | buffer
deriving DecidableEq, Repr

/-- What `write_to_file` is about to do, with what remains of the buffer of
its loop and `bytes_written`. -/
inductive Writer where
  | idle
  | pwrite (loop : WriteLoop) (remaining : Bytes) (bytesWritten : Nat)
  | advance (loop : WriteLoop) (remaining : Bytes) (bytesWritten : Nat) (chunk : Bytes)
  | count (bytesWritten : Nat)
  | publish
deriving DecidableEq, Repr

namespace FileDetails

/-- A chunk that `pwrite` accepts at `offset_`. -/
def pwriteAt (f : FileDetails) (chunk : Bytes) : FileDetails :=
  { f with content := overlay 0 f.content f.offset chunk }

/-- `offset_ += result`. -/
def advance (f : FileDetails) (result : Nat) : FileDetails := { f with offset := f.offset + result }

@[simp] theorem advance_pwriteAt (f : FileDetails) (chunk : Bytes) :
    (f.pwriteAt chunk).advance chunk.length = f.pwrite chunk := rfl

/-- `write_counter_++`. -/
def counted (f : FileDetails) : FileDetails := { f with writeCounter := u32 (f.writeCounter + 1) }

end FileDetails

/-- What `write_to_file` does after `write_msg` has returned `value`. -/
def Writer.ofValue (value : Int) : Writer :=
  if 0 < i32 value then .count (i32 value).toNat else .idle

namespace ConnectionFile

/-- `file_fds_[current_fd_index_]`. -/
def current (s : ConnectionFile) : Option FileDetails := s.fileFds[s.currentFdIndex]?

/-- The current file is `f` from now on.  What it holds is what the others show
if they are the same file. -/
def setCurrent (s : ConnectionFile) (f : FileDetails) : ConnectionFile :=
  { s with fileFds := (s.showing f.content).set s.currentFdIndex f }

/-- The files that are the same one hold what `f` holds. -/
def Shared (s : ConnectionFile) (f : FileDetails) : Prop :=
  s.OneFile → ∀ g ∈ s.fileFds, g.content = f.content

/-- `write_to_file` up to the first `pwrite`.  The two overloads differ only
when `set_current_file` fails, which it does not if the file can be opened. -/
def enterWrite (host : ByteOrder) (s : ConnectionFile) (message content : Bytes) :
    Option (ConnectionFile × Writer) := do
  let (_, s) ← s.setCurrentFile (some content)
  let _ ← s.current
  some (s, .pwrite (.length (message.take (u32 message.length)))
    (host.toBytes 4 (u32 (u32 message.length))) 0)

/-- The end of `write_msg`, after `write_buffer` has returned `value`. -/
def finishWrite (s : ConnectionFile) (value : Int) : Option (ConnectionFile × Writer) :=
  let writtenBuffer := u64OfInt value
  if writtenBuffer = 0 then some (s, .idle)
  else do
    let f ← s.current
    some (s.setCurrent f.counted, .ofValue (i64 (4 + writtenBuffer)))

/-- The next step of `write_to_file`; `r` is what `pwrite` does if it is
called. -/
def writeStep (s : ConnectionFile) (r : PwriteResult) : Writer → Option (ConnectionFile × Writer)
  | .idle => none
  | .pwrite (.length message) [] _ => some (s, .pwrite .buffer message 0)
  | .pwrite .buffer [] bytesWritten => s.finishWrite bytesWritten
  | .pwrite loop (b :: bs) bytesWritten =>
      match r with
      | .wrote k => do
          let f ← s.current
          some (s.setCurrent (f.pwriteAt ((b :: bs).take k)),
            .advance loop ((b :: bs).drop k) bytesWritten ((b :: bs).take k))
      | .error =>
          match loop with
          | .length _ => some (s, .idle)
          | .buffer => s.finishWrite (if 0 < bytesWritten then bytesWritten else -1)
  | .advance loop remaining bytesWritten chunk => do
      let f ← s.current
      some (s.setCurrent (f.advance chunk.length),
        .pwrite loop remaining (bytesWritten + chunk.length))
  | .count bytesWritten =>
      some ({ s with
        msgCounter := s.msgCounter + 1
        totalBytesWriten := s.totalBytesWriten + bytesWritten }, .publish)
  | .publish => do
      let f ← s.current
      some (s.setCurrent { f with bytesWrittenAcrossAllFiles := s.totalBytesWriten }, .idle)

/-- A step that nothing comes before. -/
def writeAlone (state : ConnectionFile × Writer) (r : PwriteResult) :
    Option (ConnectionFile × Writer) :=
  state.1.writeStep r state.2

section Current

variable {s : ConnectionFile} {f g : FileDetails}

theorem current_setCurrent (h : s.current = some f) (g : FileDetails) :
    (s.setCurrent g).current = some g := by
  obtain ⟨hlt, -⟩ := List.getElem?_eq_some_iff.mp h
  rw [current, setCurrent]
  exact List.getElem?_set_self (by rw [length_showing]; exact hlt)

theorem setCurrent_extends (s : ConnectionFile) (f : FileDetails) :
    s.Extends (s.setCurrent f) ∧ (s.setCurrent f).fileFds.length = s.fileFds.length := by
  have hlen : (s.setCurrent f).fileFds.length = s.fileFds.length :=
    List.length_set.trans (s.length_showing f.content)
  exact ⟨⟨rfl, rfl, hlen.ge⟩, hlen⟩

theorem current_count (s : ConnectionFile) (msgCounter totalBytesWriten : Nat) :
    { s with msgCounter := msgCounter, totalBytesWriten := totalBytesWriten }.current = s.current :=
  rfl

theorem set_showing_setCurrent (s : ConnectionFile) (f g : FileDetails) (content : Bytes) :
    ((s.setCurrent f).showing content).set s.currentFdIndex g
      = (s.showing content).set s.currentFdIndex g := by
  by_cases hone : s.OneFile
  · have hsame : (s.setCurrent f).OneFile := hone
    rw [showing, if_pos hsame, setCurrent, showing, if_pos hone, showing, if_pos hone, List.map_set,
      List.set_set, List.map_map]
    rfl
  · have hsame : ¬ (s.setCurrent f).OneFile := hone
    rw [showing, if_neg hsame, setCurrent, showing, if_neg hone, showing, if_neg hone, List.set_set]

@[simp] theorem setCurrent_setCurrent (s : ConnectionFile) (f g : FileDetails) :
    (s.setCurrent f).setCurrent g = s.setCurrent g :=
  congrArg (fun files => { s with fileFds := files }) (s.set_showing_setCurrent f g g.content)

theorem Shared.showing (h : s.Shared f) : s.showing f.content = s.fileFds := by
  rw [ConnectionFile.showing]
  split
  · next hone =>
      refine (List.map_congr_left fun g hg => ?_).trans (List.map_id' s.fileFds)
      rw [← h hone g hg]
  · rfl

theorem shared_setCurrent (s : ConnectionFile) (f : FileDetails) : (s.setCurrent f).Shared f := by
  intro hone g hg
  have hone' : s.OneFile := hone
  rcases List.mem_or_eq_of_mem_set hg with hold | rfl
  · rw [ConnectionFile.showing, if_pos hone'] at hold
    obtain ⟨g', -, rfl⟩ := List.mem_map.mp hold
    rfl
  · rfl

theorem setCurrent_self (h : s.current = some f) (hshared : s.Shared f) : s.setCurrent f = s := by
  obtain ⟨hlt, hget⟩ := List.getElem?_eq_some_iff.mp h
  rw [setCurrent, hshared.showing, ← hget, List.set_getElem_self hlt]

@[simp] theorem book_setCurrent (s : ConnectionFile) (f : FileDetails) (w : Written) :
    (s.setCurrent f).book w = s.book w := by
  rw [book, book]
  dsimp only
  rw [show (s.setCurrent f).currentFdIndex = s.currentFdIndex from rfl, set_showing_setCurrent,
    set_showing_setCurrent]
  rfl

end Current

/-! ## The steps one after the other -/

section Alone

variable {s : ConnectionFile} {f : FileDetails}

theorem run_turn (h : s.current = some f) (loop : WriteLoop) {buf : Bytes} (hne : buf ≠ [])
    (n k : Nat) (results : List PwriteResult) :
    Runs.run writeAlone (s, .pwrite loop buf n) (.wrote k :: .wrote 0 :: results) =
      Runs.run writeAlone (s.setCurrent (f.pwrite (buf.take k)),
        .pwrite loop (buf.drop k) (n + (buf.take k).length)) results := by
  cases buf with
  | nil => exact absurd rfl hne
  | cons b bs =>
      have hcall : writeAlone (s, .pwrite loop (b :: bs) n) (.wrote k) =
          some (s.setCurrent (f.pwriteAt ((b :: bs).take k)),
            .advance loop ((b :: bs).drop k) n ((b :: bs).take k)) := by
        cases loop with
        | length message => simp only [writeAlone, writeStep, h, Option.bind_eq_bind, Option.bind_some]
        | buffer => simp only [writeAlone, writeStep, h, Option.bind_eq_bind, Option.bind_some]
      rw [Runs.run_cons_of_some hcall]
      refine Runs.run_cons_of_some ?_
      simp only [writeAlone, writeStep, current_setCurrent h, Option.bind_eq_bind, Option.bind_some,
        setCurrent_setCurrent, FileDetails.advance_pwriteAt]

theorem run_writeLoop (h : s.current = some f) (hshared : s.Shared f) (loop : WriteLoop)
    (buf : Bytes) (n : Nat) (sched : List PwriteResult) :
    ∃ results remaining,
      Runs.run writeAlone (s, .pwrite loop buf n) results =
        some (s.setCurrent (f.writeLoop buf sched).file,
          .pwrite loop remaining (n + (f.writeLoop buf sched).bytesWritten)) ∧
      (remaining = [] ↔ (f.writeLoop buf sched).failed = false) := by
  induction sched generalizing s f buf n with
  | nil =>
      by_cases hbuf : buf = []
      · subst hbuf
        refine ⟨[], [], ?_, iff_of_true rfl rfl⟩
        rw [FileDetails.writeLoop_nil, setCurrent_self h hshared]
        rfl
      · refine ⟨[.wrote buf.length, .wrote 0], [], ?_, iff_of_true rfl rfl⟩
        rw [run_turn h loop hbuf, Runs.run_nil, List.take_length, List.drop_length]
        rfl
  | cons r rest ih =>
      by_cases hbuf : buf = []
      · subst hbuf
        refine ⟨[], [], ?_, ?_⟩
        · rw [FileDetails.writeLoop_nil, setCurrent_self h hshared]
          rfl
        · rw [FileDetails.writeLoop_nil]
          exact iff_of_true rfl rfl
      · cases r with
        | error =>
            refine ⟨[], buf, ?_, ?_⟩
            · rw [FileDetails.writeLoop, if_neg hbuf, setCurrent_self h hshared]
              rfl
            · rw [FileDetails.writeLoop, if_neg hbuf]
              exact iff_of_false hbuf Bool.noConfusion
        | wrote k =>
            obtain ⟨results, remaining, hrun, hfailed⟩ :=
              ih (current_setCurrent h (f.pwrite (buf.take k))) (s.shared_setCurrent _)
                (buf.drop k) (n + (buf.take k).length)
            refine ⟨.wrote k :: .wrote 0 :: results, remaining, ?_, ?_⟩
            · rw [run_turn h loop hbuf, hrun, FileDetails.writeLoop, if_neg hbuf]
              simp only [setCurrent_setCurrent, Nat.add_assoc]
            · rw [hfailed, FileDetails.writeLoop, if_neg hbuf]

theorem run_finishWrite (h : s.current = some f) {g : FileDetails} {value : Int} {w : Written}
    (hw : w.file = g.counted) (hvalue : w.value = i64 (4 + u64OfInt value))
    (hne : u64OfInt value ≠ 0) {state : ConnectionFile × Writer} {r : PwriteResult}
    (hstep : writeAlone state r = (s.setCurrent g).finishWrite value) :
    ∃ results, Runs.run writeAlone state results = some ((s.book w).conn, .idle) := by
  have hfinish : writeAlone state r = some (s.setCurrent w.file, .ofValue w.value) := by
    rw [hstep, finishWrite, if_neg hne, current_setCurrent h]
    simp only [Option.bind_eq_bind, Option.bind_some, setCurrent_setCurrent, hw, hvalue]
  by_cases hpos : 0 < i32 w.value
  · refine ⟨[r, .wrote 0, .wrote 0], ?_⟩
    rw [Runs.run_cons_of_some hfinish, Writer.ofValue, if_pos hpos]
    have hcur := current_setCurrent h w.file
    rw [Runs.run_cons_of_some (show writeAlone (s.setCurrent w.file, .count (i32 w.value).toNat)
      (.wrote 0) = some _ from rfl)]
    refine Runs.run_cons_of_some ?_
    rw [writeAlone, writeStep]
    have hcur' : ({ s.setCurrent w.file with
        msgCounter := (s.setCurrent w.file).msgCounter + 1
        totalBytesWriten := (s.setCurrent w.file).totalBytesWriten + (i32 w.value).toNat } :
          ConnectionFile).current = some w.file := hcur
    rw [hcur', book]
    simp only [if_pos hpos, Option.bind_eq_bind, Option.bind_some]
    refine congrArg some (Prod.ext ?_ rfl)
    exact congrArg (fun files => ({ s with
        fileFds := files
        totalBytesWriten := s.totalBytesWriten + (i32 w.value).toNat
        msgCounter := s.msgCounter + 1 } : ConnectionFile))
      (s.set_showing_setCurrent w.file _ w.file.content)
  · refine ⟨[r], ?_⟩
    rw [Runs.run_cons_of_some hfinish, Writer.ofValue, if_neg hpos, book]
    simp only [if_neg hpos]
    rfl

theorem run_writeBody (h : s.current = some f) (hshared : s.Shared f) (host : ByteOrder)
    (message : Bytes) (n : Nat) (sched : List PwriteResult) :
    ∃ results, Runs.run writeAlone (s, .pwrite .buffer (message.take n) 0) results =
      some ((s.book (f.writeBody host message n false sched)).conn, .idle) := by
  obtain ⟨results, remaining, hrun, hfailed⟩ := run_writeLoop h hshared .buffer (message.take n) 0 sched
  rw [Nat.zero_add] at hrun
  generalize hl : f.writeLoop (message.take n) sched = l at hrun hfailed
  have hvalue : f.writeBuffer message n sched = ⟨if l.failed then
      (if 0 < l.bytesWritten then (l.bytesWritten : Int) else -1) else l.bytesWritten,
      l.file, l.sched⟩ := by
    rw [FileDetails.writeBuffer, hl]
    cases l.failed with
    | true => rfl
    | false => rfl
  -- the step that ends the loop, by a failure or because nothing remains
  obtain ⟨value, hbuffer, hend⟩ : ∃ value, f.writeBuffer message n sched = ⟨value, l.file, l.sched⟩ ∧
      writeAlone (s.setCurrent l.file, .pwrite .buffer remaining l.bytesWritten) .error =
        (s.setCurrent l.file).finishWrite value := by
    refine ⟨_, hvalue, ?_⟩
    cases remaining with
    | nil => rw [hfailed.mp rfl]; rfl
    | cons b bs =>
        cases hlf : l.failed with
        | false => exact absurd (hfailed.mpr hlf) (List.cons_ne_nil b bs)
        | true => rfl
  have hbody : ∃ more, Runs.run writeAlone
      (s.setCurrent l.file, .pwrite .buffer remaining l.bytesWritten) more =
        some ((s.book (f.writeBody host message n false sched)).conn, .idle) := by
    rw [FileDetails.writeBody, hbuffer]
    by_cases hzero : u64OfInt value = 0
    · refine ⟨[.error], ?_⟩
      rw [finishWrite, if_pos hzero] at hend
      rw [Runs.run_cons_of_some hend]
      simp only [if_pos hzero]
      rw [book_of_nonpos (show i32 0 ≤ 0 by decide)]
      rfl
    · simp only [if_neg hzero]
      refine run_finishWrite h rfl ?_ hzero hend
      simp [u32OfInt]
  obtain ⟨more, hmore⟩ := hbody
  exact ⟨results ++ more, (Runs.run_append_of_some hrun).trans hmore⟩

/-- An append that nothing comes between is `write_to_file`. -/
theorem append_uninterrupted (host : ByteOrder) (overload : Overload) (message content : Bytes)
    (sched : List PwriteResult) {t : Appended} {s₁ : ConnectionFile}
    (hset : s.setCurrentFile (some content) = some (true, s₁))
    (hshared : ∀ f ∈ s₁.current, s₁.Shared f)
    (hwrite : s.write host overload message false (some content) sched = some t) :
    ∃ state results, s.enterWrite host message content = some state ∧
      Runs.run writeAlone state results = some (t.conn, .idle) := by
  rw [write_of_set hset] at hwrite
  obtain ⟨f, hcur, hbook⟩ := Option.map_eq_some_iff.mp hwrite
  subst hbook
  have henter : s.enterWrite host message content = some (s₁,
      .pwrite (.length (message.take (u32 message.length)))
        (host.toBytes 4 (u32 (u32 message.length))) 0) := by
    rw [enterWrite, hset]
    simp only [Option.bind_eq_bind, Option.bind_some, current, hcur]
  generalize u32 message.length = n at henter ⊢
  obtain ⟨results, remaining, hrun, hfailed⟩ :=
    run_writeLoop hcur (hshared f hcur) (.length (message.take n)) (host.toBytes 4 (u32 n)) 0 sched
  suffices hall : ∃ results, Runs.run writeAlone (s₁, .pwrite (.length (message.take n))
      (host.toBytes 4 (u32 n)) 0) results =
        some ((s₁.book (f.writeMsgWith host message n true false sched)).conn, .idle) by
    obtain ⟨results, hrun⟩ := hall
    exact ⟨_, results, henter, hrun⟩
  cases hheader : completes 4 sched with
  | some rest =>
      have hloop := f.writeLoop_completes (host.toBytes 4 (u32 n))
        (by rw [ByteOrder.length_toBytes]; exact hheader)
      rw [hloop] at hrun hfailed
      obtain rfl := hfailed.mpr rfl
      obtain ⟨more, hmore⟩ := run_writeBody
        (current_setCurrent hcur (f.pwrite (host.toBytes 4 (u32 n)))) (s₁.shared_setCurrent _) host
        message n rest
      refine ⟨results ++ .error :: more, ?_⟩
      rw [Runs.run_append_of_some hrun, FileDetails.writeMsgWith_header f host hheader]
      exact (Runs.run_cons_of_some rfl).trans (hmore.trans (by rw [book_setCurrent]; rfl))
  | none =>
      obtain ⟨j, rest, -, -, hloop⟩ := f.writeLoop_fails (host.toBytes 4 (u32 n))
        (by rw [ByteOrder.length_toBytes]; exact hheader)
      rw [hloop] at hrun hfailed
      have hwritten : f.writeMsgWith host message n true false sched =
          ⟨0, f.pwrite ((host.toBytes 4 (u32 n)).take j), rest⟩ := by
        simp [FileDetails.writeMsgWith, FileDetails.writeLength, hloop]
      cases remaining with
      | nil => exact absurd (hfailed.mp rfl) Bool.noConfusion
      | cons b bs =>
          refine ⟨results ++ [.error], ?_⟩
          rw [Runs.run_append_of_some hrun, hwritten, book_of_nonpos (show i32 0 ≤ 0 by decide)]
          rfl

end Alone

end ConnectionFile

/-! ## Between two steps -/

/-- What is written after the buffer of the loop. -/
def WriteLoop.after : WriteLoop → Bytes
  | .length message => message
  | .buffer => []

/-- `bytes_written` goes with what has been written of the frame. -/
def WriteLoop.Counts (done remaining : Bytes) (bytesWritten : Nat) : WriteLoop → Prop
  | .length _ => done.length + remaining.length = 4
  | .buffer => done.length = 4 + bytesWritten

/-- What has yet to get in front of `offset_`. -/
def Writer.pending : Writer → Bytes
  | .pwrite loop remaining _ => remaining ++ loop.after
  | .advance loop remaining _ chunk => chunk ++ (remaining ++ loop.after)
  | _ => []

namespace ConnectionFile

variable {s t : ConnectionFile} {r : PwriteResult} {w w' : Writer}

@[simp] theorem pending_ofValue (value : Int) : (Writer.ofValue value).pending = [] := by
  rw [Writer.ofValue]
  split
  · rfl
  · rfl

/-- What a step does: it writes no byte that is not pending, and changes nothing of the
log, its current file, or its counters. -/
theorem writeStep_cases (h : s.writeStep r w = some (t, w')) :
    w'.pending <:+ w.pending ∧
      (t = s ∨ (∃ g, t = s.setCurrent g) ∨
        ∃ n m, t = { s with msgCounter := n, totalBytesWriten := m }) := by
  have hstored : ∀ (g : FileDetails → FileDetails) (next : Writer),
      s.current.bind (fun f => some (s.setCurrent (g f), next)) = some (t, w') →
        w' = next ∧ ∃ g', t = s.setCurrent g' := by
    intro g next hstate
    obtain ⟨f, -, hstate⟩ := Option.bind_eq_some_iff.mp hstate
    obtain ⟨rfl, rfl⟩ := Prod.mk.inj (Option.some.inj hstate)
    exact ⟨rfl, g f, rfl⟩
  have hfinish : ∀ value : Int, s.finishWrite value = some (t, w') →
      w'.pending = [] ∧ (t = s ∨ ∃ g, t = s.setCurrent g) := by
    intro value hstate
    rw [finishWrite] at hstate
    split at hstate
    · obtain ⟨rfl, rfl⟩ := Prod.mk.inj (Option.some.inj hstate)
      exact ⟨rfl, Or.inl rfl⟩
    · obtain ⟨hnext, hg⟩ := hstored FileDetails.counted _ hstate
      rw [hnext]
      exact ⟨pending_ofValue _, Or.inr hg⟩
  have hends : ∀ value : Int, s.finishWrite value = some (t, w') → w'.pending <:+ w.pending ∧
      (t = s ∨ (∃ g, t = s.setCurrent g) ∨
        ∃ n m, t = { s with msgCounter := n, totalBytesWriten := m }) := by
    intro value hstate
    obtain ⟨hpending, hlog⟩ := hfinish value hstate
    rw [hpending]
    exact ⟨List.nil_suffix, hlog.imp_right Or.inl⟩
  cases w with
  | idle => cases h
  | pwrite loop remaining n =>
      cases remaining with
      | nil =>
          cases loop with
          | length message =>
              obtain ⟨rfl, rfl⟩ := Prod.mk.inj (Option.some.inj h)
              exact ⟨by simp [Writer.pending, WriteLoop.after], Or.inl rfl⟩
          | buffer => exact hends _ h
      | cons b bs =>
          cases r with
          | wrote k =>
              have hcall : s.current.bind (fun f => some
                  (s.setCurrent (f.pwriteAt ((b :: bs).take k)),
                    Writer.advance loop ((b :: bs).drop k) n ((b :: bs).take k))) =
                  some (t, w') := by
                cases loop with
                | length message => exact h
                | buffer => exact h
              obtain ⟨rfl, hg⟩ := hstored (fun f => f.pwriteAt ((b :: bs).take k)) _ hcall
              refine ⟨?_, Or.inr (Or.inl hg)⟩
              -- what `pwrite` has taken is pending until `offset_` is behind it
              rw [Writer.pending, Writer.pending, ← List.append_assoc, List.take_append_drop]
          | error =>
              cases loop with
              | length message =>
                  obtain ⟨rfl, rfl⟩ := Prod.mk.inj (Option.some.inj h)
                  exact ⟨List.nil_suffix, Or.inl rfl⟩
              | buffer => exact hends _ h
  | advance loop remaining n chunk =>
      obtain ⟨rfl, hg⟩ := hstored (fun f => f.advance chunk.length) _ h
      exact ⟨List.suffix_append _ _, Or.inr (Or.inl hg)⟩
  | count n =>
      obtain ⟨rfl, rfl⟩ := Prod.mk.inj (Option.some.inj h)
      exact ⟨List.suffix_refl _, Or.inr (Or.inr ⟨_, _, rfl⟩)⟩
  | publish =>
      obtain ⟨rfl, hg⟩ :=
        hstored (fun f => { f with bytesWrittenAcrossAllFiles := s.totalBytesWriten }) _ h
      exact ⟨List.suffix_refl _, Or.inr (Or.inl hg)⟩

end ConnectionFile

/-- The log while `fr` is appended to the file `f` of the log `s`. -/
inductive Appending (s : ConnectionFile) (f : FileDetails) (fr : Bytes) :
    Writer → ConnectionFile → Prop where
  | pwrite {loop : WriteLoop} {remaining : Bytes} {n : Nat} (done : Bytes)
      (hsplit : fr = done ++ (remaining ++ loop.after)) (hcount : loop.Counts done remaining n) :
      Appending s f fr (.pwrite loop remaining n) (s.setCurrent (f.pwrite done))
  | advance {loop : WriteLoop} {remaining chunk : Bytes} {n : Nat} (done : Bytes)
      (hsplit : fr = done ++ (chunk ++ (remaining ++ loop.after)))
      (hcount : loop.Counts (done ++ chunk) remaining (n + chunk.length)) :
      Appending s f fr (.advance loop remaining n chunk)
        (s.setCurrent ((f.pwrite done).pwriteAt chunk))
  | count : Appending s f fr (.count fr.length) (s.setCurrent (f.appendFrame fr))
  | publish :
      Appending s f fr .publish
        { s.setCurrent (f.appendFrame fr) with
          msgCounter := s.msgCounter + 1
          totalBytesWriten := s.totalBytesWriten + fr.length }

namespace Appending

open ConnectionFile

variable {s t : ConnectionFile} {f : FileDetails} {fr : Bytes} {w : Writer} {r : PwriteResult}

/-- What a step leads to: the next one, or the log with the frame booked. -/
def Next (s : ConnectionFile) (f : FileDetails) (fr : Bytes) (w : Writer) (t : ConnectionFile) :
    Prop :=
  Appending s f fr w t ∨ (w = .idle ∧ t = (s.book ⟨fr.length, f.appendFrame fr, []⟩).conn)

theorem enter (host : ByteOrder) {message content : Bytes} (hmessage : message.length + 4 < 2 ^ 31)
    {s₁ : ConnectionFile} (hset : s.setCurrentFile (some content) = some (true, s₁))
    (hcur : s₁.current = some f) (hshared : s₁.Shared f) :
    ∃ w, s.enterWrite host message content = some (s₁, w) ∧
      Appending s₁ f (frame host message false 0) w s₁ ∧
      w.pending = frame host message false 0 := by
  have hn : u32 message.length = message.length := u32_of_lt (by omega)
  refine ⟨.pwrite (.length message) (host.toBytes 4 message.length) 0, ?_, ?_, ?_⟩
  · rw [enterWrite, hset]
    simp only [Option.bind_eq_bind, Option.bind_some, hcur, hn, List.take_length]
  · have hstart : Appending s₁ f (host.toBytes 4 message.length ++ message)
        (.pwrite (.length message) (host.toBytes 4 message.length) 0)
        (s₁.setCurrent (f.pwrite [])) := .pwrite [] rfl (by simp [WriteLoop.Counts])
    rw [FileDetails.pwrite_nil, setCurrent_self hcur hshared] at hstart
    simpa [frame, trailerLength, WriteLoop.after] using hstart
  · simp [Writer.pending, WriteLoop.after, frame, trailerLength]

/-- A step of an append whose calls do not fail. -/
theorem step (h : Appending s f fr w t) (hcur : s.current = some f) (hfr : 4 < fr.length)
    (hlen : fr.length < 2 ^ 31) (hr : r ≠ .error) :
    ∃ t' w', t.writeStep r w = some (t', w') ∧ Next s f fr w' t' := by
  cases h with
  | @pwrite loop remaining n done hsplit hcount =>
      have hat := current_setCurrent hcur (f.pwrite done)
      cases remaining with
      | nil =>
          cases loop with
          | length message =>
              refine ⟨_, _, rfl, Or.inl (.pwrite done (by simpa [WriteLoop.after] using hsplit) ?_)⟩
              exact hcount
          | buffer =>
              have hdone : fr = done := by simpa [WriteLoop.after] using hsplit
              have hn : done.length = 4 + n := hcount
              subst hdone
              have hwritten : u64OfInt n = n := u64OfInt_of_nonneg (by omega)
              refine ⟨s.setCurrent (f.appendFrame fr), .count fr.length, ?_, Or.inl .count⟩
              have hvalue : i64 (4 + (n : Int)) = fr.length := by
                rw [i64_of_lt (by omega) (by omega)]
                omega
              have hbook : i32 (fr.length : Int) = fr.length := i32_of_lt (by omega) (by omega)
              rw [writeStep, finishWrite, hwritten, if_neg (by omega), hat]
              simp only [Option.bind_eq_bind, Option.bind_some, setCurrent_setCurrent, hvalue,
                Writer.ofValue, hbook, Int.toNat_natCast]
              rw [if_pos (by omega)]
              rfl
      | cons b bs =>
          cases r with
          | error => exact absurd rfl hr
          | wrote k =>
              refine ⟨s.setCurrent ((f.pwrite done).pwriteAt ((b :: bs).take k)),
                .advance loop ((b :: bs).drop k) n ((b :: bs).take k), ?_,
                Or.inl (.advance done ?_ ?_)⟩
              · cases loop with
                | length message =>
                    simp only [writeStep, hat, Option.bind_eq_bind, Option.bind_some,
                      setCurrent_setCurrent]
                | buffer =>
                    simp only [writeStep, hat, Option.bind_eq_bind, Option.bind_some,
                      setCurrent_setCurrent]
              · rw [← List.append_assoc ((b :: bs).take k), List.take_append_drop]
                exact hsplit
              · have hcut : ((b :: bs).take k).length + ((b :: bs).drop k).length
                    = (b :: bs).length := by
                  rw [← List.length_append, List.take_append_drop]
                cases loop with
                | length message =>
                    have hfour : done.length + (b :: bs).length = 4 := hcount
                    show (done ++ (b :: bs).take k).length + ((b :: bs).drop k).length = 4
                    rw [List.length_append]
                    omega
                | buffer =>
                    have hn : done.length = 4 + n := hcount
                    show (done ++ (b :: bs).take k).length = 4 + (n + ((b :: bs).take k).length)
                    rw [List.length_append]
                    omega
  | @advance loop remaining chunk n done hsplit hcount =>
      have hat := current_setCurrent hcur ((f.pwrite done).pwriteAt chunk)
      refine ⟨s.setCurrent (f.pwrite (done ++ chunk)), .pwrite loop remaining (n + chunk.length), ?_,
        Or.inl (.pwrite (done ++ chunk) (by rw [hsplit, List.append_assoc]) hcount)⟩
      rw [writeStep, hat]
      simp only [Option.bind_eq_bind, Option.bind_some, setCurrent_setCurrent,
        FileDetails.advance_pwriteAt, FileDetails.pwrite_pwrite]
  | count => exact ⟨_, _, rfl, Or.inl .publish⟩
  | publish =>
      -- the log with the frame counted, whose current file is not up to date
      generalize hcounted : ({ s.setCurrent (f.appendFrame fr) with
          msgCounter := s.msgCounter + 1
          totalBytesWriten := s.totalBytesWriten + fr.length } : ConnectionFile) = counted
      have hat : counted.current = some (f.appendFrame fr) := by
        rw [← current_setCurrent hcur (f.appendFrame fr), ← hcounted]
        exact current_count _ _ _
      have hbook : i32 (fr.length : Int) = fr.length := i32_of_lt (by omega) (by omega)
      refine ⟨counted.setCurrent { f.appendFrame fr with
        bytesWrittenAcrossAllFiles := counted.totalBytesWriten }, .idle, ?_, Or.inr ⟨rfl, ?_⟩⟩
      · rw [writeStep, hat, Option.bind_eq_bind, Option.bind_some]
      · have hpos : 0 < i32 (fr.length : Int) := by
          rw [hbook]
          omega
        rw [book_of_pos (w := ⟨fr.length, f.appendFrame fr, []⟩) hpos, ← hcounted]
        simp only [hbook, Int.toNat_natCast]
        exact congrArg (fun files => ({ s with
            fileFds := files
            totalBytesWriten := s.totalBytesWriten + fr.length
            msgCounter := s.msgCounter + 1 } : ConnectionFile))
          (s.set_showing_setCurrent (f.appendFrame fr) _ (f.appendFrame fr).content)

end Appending

end LightQ
