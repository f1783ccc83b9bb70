/-
# `Storage.DeliveryPosition` — one call of `file_to_consumer`, whatever fails

`file_to_consumer` adds the value of `read` to the position before the
message goes to the consumer socket, so that a message the socket refuses is
passed over.  And a positive value need not be a frame: of a header that does
not arrive `read_msg` returns the position in the file, of a body that does
not arrive the header.  Either is added to the position and handed to the
socket as if it were a message, with what an earlier call left in `buffer_`.

`file_to_consumer_moves_together_iff` is about every log, every schedule of
`pread` and every result of `write_msg`.  A call moves position and message
together (`MovesTogether`) if the position moves by the frame in front of it
when the socket accepts bytes of that frame, read for it, and stays when
nothing is accepted; the calls that do so whatever `buffer_` held before are
the safe ones (`SafeDelivery`).  A file whose `read_msg` returns nothing is
passed over like one that ends in front of the position, and the files
behind it are asked for what is left of the schedule.

That the last four bytes of the message are not handed over is not held
against a call.  Of a message of fewer than four bytes the length that is
handed over is an `unsigned` far beyond the buffer, and no such call is safe.

A safe search returns nothing, or the frame to a socket that accepts it
(`safeFrom_returns`).  The other direction chooses the buffer: with one whose
fifth byte is not that of the frame (`exists_stale`) only a frame that is read
ends up in it (`readsFrame_of_buffer`), so that a search that moves both
together with this buffer is safe (`safeFrom_of_returns`).  That is why
what the buffer held before is quantified over: with the message of an earlier
call still in it, a call that reads nothing could hand over the right bytes by
chance.
-/
import LightQ.Storage.ReadPosition

namespace LightQ

open MachineInt FrameLog

/-- The outcomes left when a loop over `pread` is over, however it ends. -/
def leftover (avail : Nat) : Nat → Nat → List PreadResult → List PreadResult
  | _, 0, sched => sched
  | 0, _ + 1, sched => sched
  | turns + 1, need + 1, sched =>
      let k := delivered avail (need + 1) sched.head?
      if k = 0 then sched.tail else leftover avail turns (need + 1 - k) sched.tail

theorem readLoop_sched (region : Bytes) (turns need : Nat) (sched : List PreadResult) :
    (FileDetails.readLoop region turns need sched).sched
      = leftover region.length turns need sched := by
  induction turns generalizing need sched with
  | zero =>
      cases need with
      | zero => rfl
      | succ need => rfl
  | succ turns ih =>
      cases need with
      | zero => rfl
      | succ need =>
          rw [FileDetails.readLoop, leftover]
          dsimp only
          by_cases hk : delivered region.length (need + 1) sched.head? = 0
          · rw [if_pos (pread_eq_nil_iff.mpr hk), if_pos hk]
          · rw [if_neg (fun h₀ => hk (pread_eq_nil_iff.mp h₀)), if_neg hk, length_pread]
            exact ih _ _

namespace FileDetails

/-- What the header at `offset` reads as, when it arrives in pieces of the
sizes `ps`: every piece is read from the same position. -/
def headerRead (host : ByteOrder) (f : FileDetails) (offset : Nat) (ps : List Nat) : Nat :=
  header host false (ps.map (f.content.drop offset).take).flatten

/-- `read_msg` returns nothing: the header does not arrive and the position, as
a signed number, is not positive, or a header arrives that reads as zero. -/
def NothingRead (host : ByteOrder) (f : FileDetails) (offset : Nat) (sched : List PreadResult) :
    Prop :=
  match deliver (f.content.drop offset).length 4 4 sched with
  | none => i64 offset ≤ 0
  | some (ps, _) => f.headerRead host offset ps = 0

/-- The schedule has `read_msg` read `fr`: the header arrives as that of `fr`, and
the body, which fits, as its message. -/
def ReadsFrame (f : FileDetails) (bufSize offset : Nat) (sched : List PreadResult) (fr : Bytes) :
    Prop :=
  ∃ ps rest qs rest',
    deliver (f.content.drop offset).length 4 4 sched = some (ps, rest) ∧
    (ps.map (f.content.drop offset).take).flatten = fr.take 4 ∧
    fr.length ≤ 4 + bufSize ∧
    deliver (f.content.drop (offset + 4)).length (fr.length - 4) (fr.length - 4) rest
      = some (qs, rest') ∧
    (qs.map (f.content.drop (offset + 4)).take).flatten = fr.drop 4

section Value

variable {host : ByteOrder} {f : FileDetails} {bufSize offset : Nat} {sched : List PreadResult}

theorem readMsg_value {ps : List Nat} {rest : List PreadResult} (buffer : Bytes)
    (h : deliver (f.content.drop offset).length 4 4 sched = some (ps, rest))
    (hpos : 0 < f.headerRead host offset ps) :
    (f.readMsg host buffer bufSize offset false sched).value =
      if f.headerRead host offset ps ≤ bufSize ∧
          (deliver (f.content.drop (offset + 4)).length (f.headerRead host offset ps)
            (f.headerRead host offset ps) rest).isSome
      then 4 + f.headerRead host offset ps else f.headerRead host offset ps := by
  split
  · next hbody =>
      obtain ⟨⟨qs, rest'⟩, hd⟩ := Option.isSome_iff_exists.mp hbody.2
      exact (readMsg_body buffer h rfl hpos hbody.1 hd).1
  · next hno =>
      refine (readMsg_no_body buffer h rfl hpos ?_).1
      rcases not_and_or.mp hno with hbig | hnone
      · exact Or.inl (Nat.not_le.mp hbig)
      · exact Or.inr (Option.not_isSome_iff_eq_none.mp hnone)

theorem readMsg_nonpos_iff (buffer : Bytes) :
    (f.readMsg host buffer bufSize offset false sched).value ≤ 0 ↔
      f.NothingRead host offset sched := by
  rw [NothingRead]
  cases h : deliver (f.content.drop offset).length 4 4 sched with
  | none =>
      obtain ⟨bytes, rest, -, hread⟩ := readMsg_no_header host buffer bufSize false h
      rw [hread]
  | some d =>
      obtain ⟨ps, rest⟩ := d
      show _ ↔ f.headerRead host offset ps = 0
      rcases Nat.eq_zero_or_pos (f.headerRead host offset ps) with hzero | hpos
      · rw [readMsg_zero h hzero]
        exact iff_of_true (Int.le_refl 0) hzero
      · rw [readMsg_value buffer h hpos]
        split
        all_goals omega

theorem readMsg_nothing (buffer : Bytes)
    (h : (f.readMsg host buffer bufSize offset false sched).value ≤ 0) :
    (f.readMsg host buffer bufSize offset false sched).sched
        = leftover (f.content.drop offset).length 4 4 sched ∧
      (f.readMsg host buffer bufSize offset false sched).buffer[4]? = buffer[4]? := by
  have hloop : (f.readBufferLength host buffer offset false sched).sched
        = leftover (f.content.drop offset).length 4 4 sched ∧
      (f.readBufferLength host buffer offset false sched).buffer[4]? = buffer[4]? := by
    rw [← readLoop_sched, readBufferLength]
    have hfour : 0 < 4 := by decide
    have hstale := fun buffer : Bytes => @withHeader_stale buffer _ 4 hfour
      (length_readLoop_le (f.content.drop offset) 4 4 sched)
    split
    · exact ⟨rfl, hstale buffer⟩
    · exact ⟨rfl, hstale buffer⟩
  rw [readMsg] at h ⊢
  dsimp only at h ⊢
  split at h
  · next hzero =>
      rw [if_pos hzero]
      exact hloop
  · next hne =>
      rw [if_neg hne]
      split at h
      · next hneg =>
          rw [if_pos hneg]
          exact hloop
      · exfalso
        split at h
        · dsimp only at h
          omega
        · split at h
          all_goals
            dsimp only at h
            omega

end Value

section Frame

variable {host : ByteOrder} {f : FileDetails} {bufSize offset : Nat} {sched : List PreadResult}
  {fr : Bytes}

theorem ReadsFrame.readMsg (h : f.ReadsFrame bufSize offset sched fr)
    (hfr : WellFramed host fr) (buffer : Bytes) :
    (f.readMsg host buffer bufSize offset false sched).value = fr.length ∧
      (f.readMsg host buffer bufSize offset false sched).buffer.take fr.length = fr := by
  obtain ⟨ps, rest, qs, rest', hhead, htake, hfit, hbody, hdrop⟩ := h
  obtain ⟨n, hpos, hlen, hn⟩ := hfr
  rw [hlen, Nat.add_sub_cancel_left] at hbody
  have hheader : header host false (ps.map (f.content.drop offset).take).flatten = n := by
    rw [htake]
    exact hn
  obtain ⟨hvalue, -, hbuffer⟩ := readMsg_body buffer hhead hheader hpos (by omega : n ≤ bufSize) hbody
  rw [htake, hdrop, List.take_append_drop, ← hlen] at hbuffer
  exact ⟨by rw [hvalue, hlen]; rfl, hbuffer⟩

theorem take_store_of_le {buffer : Bytes} {k pos : Nat} (hk : k ≤ pos) (h : k ≤ buffer.length) :
    (store buffer pos [0]).take k = buffer.take k := Overlay.take_overlay_of_le hk h

theorem readsFrame_of_buffer {buffer : Bytes} {b : UInt8} (hfr : WellFramed host fr)
    (hbuffer : buffer[4]? = some b) (hstale : fr[4]? ≠ some b)
    (hvalue : (f.readMsg host buffer bufSize offset false sched).value = fr.length)
    (htake : (store (f.readMsg host buffer bufSize offset false sched).buffer (fr.length + 1)
      [0]).take fr.length = fr) :
    f.ReadsFrame bufSize offset sched fr := by
  obtain ⟨n, hpos, hlen, hn⟩ := hfr
  have hfirst : ∀ k ≤ fr.length,
      k ≤ (f.readMsg host buffer bufSize offset false sched).buffer.length →
      (f.readMsg host buffer bufSize offset false sched).buffer.take k = fr.take k := by
    intro k hk hin
    rw [← take_store_of_le (by omega : k ≤ fr.length + 1) hin]
    conv_rhs => rw [← htake]
    rw [List.take_take, Nat.min_eq_left hk]
  cases h : deliver (f.content.drop offset).length 4 4 sched with
  | none =>
      -- the fifth byte is the old one
      obtain ⟨bytes, rest, hlt, hread⟩ := readMsg_no_header host buffer bufSize false h
      have hold : (withHeader buffer bytes)[4]? = some b := by
        rw [withHeader_stale (by decide) (by omega), hbuffer]
      have hfive := hfirst 5 (by omega)
      rw [hread] at hfive
      have hget := congrArg (fun l => l[4]?)
        (hfive (List.getElem?_eq_some_iff.mp hold).1)
      simp only [List.getElem?_take_of_succ, hold] at hget
      exact absurd hget.symm hstale
  | some d =>
      obtain ⟨ps, rest⟩ := d
      obtain ⟨m, hm⟩ : ∃ m, f.headerRead host offset ps = m := ⟨_, rfl⟩
      have hfour := length_flatten_take h
      rcases Nat.eq_zero_or_pos m with rfl | hm₀
      · rw [readMsg_zero h hm] at hvalue
        omega
      by_cases hbody : bufSize < m ∨ deliver (f.content.drop (offset + 4)).length m m rest = none
      · -- a lone header that is the length of the frame is not its header
        obtain ⟨hv, hhead⟩ := readMsg_no_body buffer h hm hm₀ hbody
        have hin := congrArg List.length hhead
        rw [List.length_take, hfour] at hin
        have hown : f.headerRead host offset ps = n := by
          rw [← hn, ← hfirst 4 (by omega) (by omega), hhead]
          rfl
        omega
      · obtain ⟨hfit, hsome⟩ := not_or.mp hbody
        obtain ⟨⟨qs, rest'⟩, hd⟩ := Option.ne_none_iff_exists'.mp hsome
        obtain ⟨hv, -, hbytes⟩ := readMsg_body buffer h hm hm₀ (Nat.not_lt.mp hfit) hd
        obtain rfl : m = n := by omega
        have hin := congrArg List.length hbytes
        rw [List.length_take, List.length_append, hfour, length_flatten_take hd] at hin
        have hframe := hfirst (4 + m) (by omega) (by omega)
        rw [hbytes, ← hlen, List.take_length] at hframe
        refine ⟨ps, rest, qs, rest', h, ?_, by omega, ?_, ?_⟩
        · rw [← hframe, List.take_left' hfour]
        · rw [hlen, Nat.add_sub_cancel_left]
          exact hd
        · rw [← hframe, List.drop_left' hfour]

end Frame

end FileDetails

namespace BrokerStorage

/-- Bytes of the frame `fr`, which is in the buffer, are handed to the socket. -/
def HandsOver (fr : Bytes) (d : Delivery) : Prop :=
  d.storage.buffer.take fr.length = fr ∧
    ∃ bytes, d.sent = [(bytes, bytes.length)] ∧ bytes <+: fr.drop 4

/-- The position moves by the frame in front of it if the consumer socket accepts
bytes of that frame, and not at all if it accepts nothing. -/
def MovesTogether (segs : List Segment) (s : BrokerStorage) (written : Int) (d : Delivery) : Prop :=
  if d.sent ≠ [] ∧ 0 ≤ written then
    ∃ fr, frameAt (logFrames segs) s.totalBytesRead = some fr ∧ HandsOver fr d ∧
      d.storage.totalBytesRead = s.totalBytesRead + fr.length
  else d.storage.totalBytesRead = s.totalBytesRead

/-- In front of the frame `fr`: nothing is read from any file, or `fr` is read
from the first one that something is read from, its message has the four bytes
that are taken off it, and the socket accepts what it is given. -/
def SafeFrom (host : ByteOrder) (offset : Nat) (fr : Bytes) (written : Int) :
    List FileDetails → Option Nat → Nat → List PreadResult → Prop
  | [], _, _, _ => True
  | f :: fs, prev, offsetCurrent, sched =>
      if f.bytesWrittenAcrossAllFiles ≤ offset then
        SafeFrom host offset fr written fs (some f.bytesWrittenAcrossAllFiles) offsetCurrent sched
      else
        let position := ConnectionFile.offsetInFile prev offsetCurrent
        (f.NothingRead host position sched ∧
            SafeFrom host offset fr written fs (some f.bytesWrittenAcrossAllFiles) position
              (leftover (f.content.drop position).length 4 4 sched)) ∨
          (f.ReadsFrame maxMsgSize position sched fr ∧ 8 ≤ fr.length ∧ 0 ≤ written)

/-- The calls that move position and message together. -/
def SafeDelivery (host : ByteOrder) (conn : ConnectionFile) (segs : List Segment)
    (s : BrokerStorage) (sched : List PreadResult) (written : Int) : Prop :=
  ∀ fr, frameAt (logFrames segs) s.totalBytesRead = some fr →
    SafeFrom host s.totalBytesRead fr written conn.fileFds none s.totalBytesRead sched

section Call

variable {host : ByteOrder} {s : BrokerStorage} {conn : ConnectionFile} {segs : List Segment}
  {sched : List PreadResult} {written : Int}

/-- `read` returns the frame `fr`, and of its message the four bytes that are
taken off it. -/
def ReturnsFrame (fr : Bytes) (r : Read) : Prop :=
  r.value = fr.length ∧ (store r.buffer (fr.length + 1) [0]).take fr.length = fr ∧ 8 ≤ fr.length

theorem safeFrom_returns {offset : Nat} {fr : Bytes} (hfr : WellFramed host fr)
    {files : List FileDetails} {prev : Option Nat} {offsetCurrent : Nat} (buffer : Bytes)
    (h : SafeFrom host offset fr written files prev offsetCurrent sched) :
    (ConnectionFile.readFrom host offset false maxMsgSize files prev offsetCurrent buffer
        sched).value ≤ 0 ∨
      (ReturnsFrame fr (ConnectionFile.readFrom host offset false maxMsgSize files prev
        offsetCurrent buffer sched) ∧ 0 ≤ written) := by
  induction files generalizing prev offsetCurrent buffer sched with
  | nil => exact Or.inl (show (-1 : Int) ≤ 0 by decide)
  | cons f fs ih =>
      rw [SafeFrom] at h
      rw [ConnectionFile.readFrom]
      split
      · next hpast =>
          rw [if_pos hpast] at h
          exact ih _ h
      · next hreach =>
          rw [if_neg hreach] at h
          dsimp only at h ⊢
          generalize ConnectionFile.offsetInFile prev offsetCurrent = position at h ⊢
          rcases h with ⟨hnothing, hrest⟩ | ⟨hreads, hlong, haccept⟩
          · have hnone : (f.readMsg host buffer maxMsgSize position false sched).value ≤ 0 :=
              (FileDetails.readMsg_nonpos_iff buffer).mpr hnothing
            rw [if_neg (Int.not_lt.mpr hnone), (FileDetails.readMsg_nothing buffer hnone).1]
            exact ih _ hrest
          · obtain ⟨hvalue, htake⟩ := hreads.readMsg hfr buffer
            have hin := congrArg List.length htake
            rw [List.length_take] at hin
            rw [if_pos (by rw [hvalue]; omega)]
            refine Or.inr ⟨⟨hvalue, ?_, hlong⟩, haccept⟩
            rw [FileDetails.take_store_of_le (Nat.le_succ _) (by omega), htake]

/-- A search that does so, with a buffer whose fifth byte is not that of the
frame, is safe. -/
theorem safeFrom_of_returns {offset : Nat} {fr : Bytes} (hfr : WellFramed host fr)
    {files : List FileDetails} {prev : Option Nat} {offsetCurrent : Nat} {buffer : Bytes}
    {b : UInt8} (hbuffer : buffer[4]? = some b) (hstale : fr[4]? ≠ some b)
    (h : (ConnectionFile.readFrom host offset false maxMsgSize files prev offsetCurrent buffer
        sched).value ≤ 0 ∨
      (ReturnsFrame fr (ConnectionFile.readFrom host offset false maxMsgSize files prev
        offsetCurrent buffer sched) ∧ 0 ≤ written)) :
    SafeFrom host offset fr written files prev offsetCurrent sched := by
  induction files generalizing prev offsetCurrent buffer sched with
  | nil => trivial
  | cons f fs ih =>
      rw [SafeFrom]
      rw [ConnectionFile.readFrom] at h
      split
      · next hpast =>
          rw [if_pos hpast] at h
          exact ih hbuffer h
      · next hreach =>
          rw [if_neg hreach] at h
          dsimp only at h ⊢
          generalize ConnectionFile.offsetInFile prev offsetCurrent = position at h ⊢
          by_cases hnone : (f.readMsg host buffer maxMsgSize position false sched).value ≤ 0
          · obtain ⟨hsched, hold⟩ := FileDetails.readMsg_nothing buffer hnone
            rw [if_neg (Int.not_lt.mpr hnone), hsched] at h
            exact Or.inl ⟨(FileDetails.readMsg_nonpos_iff buffer).mp hnone,
              ih (hold.trans hbuffer) h⟩
          · rw [if_pos (Int.not_le.mp hnone)] at h
            obtain ⟨⟨hvalue, htake, hlong⟩, haccept⟩ := h.resolve_left hnone
            exact Or.inr ⟨FileDetails.readsFrame_of_buffer hfr hbuffer hstale hvalue htake,
              hlong, haccept⟩

theorem handsOver_iff {fr buffer : Bytes} {storage : BrokerStorage} {rest : List PreadResult}
    {v : Nat} (hfr : WellFramed host fr) (hv : v = fr.length)
    (hbuffer : storage.buffer = store buffer (v + 1) [0]) :
    HandsOver fr ⟨written, storage,
        [((storage.buffer.drop 4).take (u32OfInt ((v : Int) - 4 - 4)),
          u32OfInt ((v : Int) - 4 - 4))], rest⟩ ↔
      storage.buffer.take fr.length = fr ∧ 8 ≤ fr.length := by
  obtain ⟨n, hpos, hlen, hn⟩ := hfr
  have hlt : n < 256 ^ 4 := by
    rw [← hn]
    refine Nat.lt_of_lt_of_le (ByteOrder.ofBytes_lt host _) (Nat.pow_le_pow_right (by decide) ?_)
    rw [List.length_take]
    exact Nat.min_le_left _ _
  have hlong : v + 2 ≤ storage.buffer.length := by
    rw [hbuffer, store, Overlay.length_overlay (List.cons_ne_nil _ _), List.length_singleton]
    exact Nat.le_max_right _ _
  refine and_congr_right fun htake => ?_
  simp only [List.cons.injEq, Prod.mk.injEq, and_true]
  constructor
  · rintro ⟨bytes, ⟨rfl, -⟩, hprefix⟩
    have hle := hprefix.length_le
    rw [List.length_take, List.length_drop, List.length_drop, u32OfInt] at hle
    omega
  · intro h8
    have hsize : u32OfInt ((v : Int) - 4 - 4) = v - 8 := by
      rw [u32OfInt]
      omega
    rw [hsize]
    refine ⟨_, ⟨rfl, ?_⟩, ?_⟩
    · rw [List.length_take, List.length_drop]
      omega
    · conv_rhs => rw [← htake]
      rw [List.drop_take, ← hv]
      exact (List.take_prefix_take_left (by omega))

/-- What becomes of a call, by what `read` returns. -/
theorem movesTogether_iff {r : Read} {d : Delivery} (hlog : LogFiles host conn segs)
    (hfile : s.pFile = some conn) (hconsumer : s.pConsumerSocket = some .zmq)
    (hmore : s.totalBytesRead < conn.totalBytesWriten + 4)
    (hr : conn.read host (store s.buffer 0 [0]) maxMsgSize s.totalBytesRead false sched = r)
    (hd : s.fileToConsumer host false sched written = some d) :
    MovesTogether segs s written d ↔
      r.value ≤ 0 ∨ ((∃ fr, frameAt (logFrames segs) s.totalBytesRead = some fr ∧
        ReturnsFrame fr r) ∧ 0 ≤ written) := by
  rw [MovesTogether]
  rcases le_or_gt r.value 0 with hnone | hsome
  · obtain ⟨buffer, -, hcall⟩ := fileToConsumer_of_nonpos hfile hmore hr hnone written
    obtain rfl := Option.some.inj (hcall.symm.trans hd)
    rw [if_neg (fun h => h.1 rfl)]
    exact iff_of_true rfl (Or.inl hnone)
  · obtain ⟨v, hv⟩ : ∃ v : Nat, r.value = v := ⟨r.value.toNat, by omega⟩
    have hcall := fileToConsumer_of_pos hfile hconsumer hmore hr hv (by omega) written
    obtain rfl := Option.some.inj (hcall.symm.trans hd)
    rw [or_iff_right (Int.not_le.mpr hsome)]
    by_cases haccept : 0 ≤ written
    · rw [if_pos ⟨List.cons_ne_nil _ _, haccept⟩, and_iff_left haccept]
      refine exists_congr fun fr => and_congr_right fun hat => ?_
      obtain ⟨hfr, -⟩ := hlog.read_segment hat
      rw [ReturnsFrame, hv]
      constructor
      · rintro ⟨hover, hmove⟩
        have hsame : v = fr.length := Nat.add_left_cancel hmove
        obtain ⟨htake, hlong⟩ := (handsOver_iff hfr hsame rfl).mp hover
        rw [← hsame] at htake ⊢
        exact ⟨rfl, htake, by omega⟩
      · rintro ⟨hsame, htake, hlong⟩
        have hsame' : v = fr.length := Int.ofNat_inj.mp hsame
        refine ⟨(handsOver_iff hfr hsame' rfl).mpr ⟨?_, hlong⟩, ?_⟩
        · rw [← hsame'] at htake ⊢
          exact htake
        · show s.totalBytesRead + v = s.totalBytesRead + fr.length
          rw [hsame']
    · rw [if_neg (fun h => haccept h.2)]
      refine iff_of_false (fun h => ?_) (fun h => haccept h.2)
      have hstay : s.totalBytesRead + v = s.totalBytesRead := h
      omega

theorem exists_movesTogether_iff (buffer : Bytes) (hlog : LogFiles host conn segs)
    (hfile : s.pFile = some conn) (hconsumer : s.pConsumerSocket = some .zmq)
    (hmore : s.totalBytesRead < conn.totalBytesWriten + 4) :
    (∃ d, { s with buffer := buffer }.fileToConsumer host false sched written = some d ∧
        MovesTogether segs { s with buffer := buffer } written d) ↔
      (conn.read host (store buffer 0 [0]) maxMsgSize s.totalBytesRead false sched).value ≤ 0 ∨
        ((∃ fr, frameAt (logFrames segs) s.totalBytesRead = some fr ∧
          ReturnsFrame fr
            (conn.read host (store buffer 0 [0]) maxMsgSize s.totalBytesRead false sched)) ∧
          0 ≤ written) := by
  obtain ⟨d, hd⟩ := Option.isSome_iff_exists.mp (isSome_fileToConsumer
    (s := { s with buffer := buffer }) hfile hconsumer false sched written)
  rw [← movesTogether_iff (s := { s with buffer := buffer }) hlog hfile hconsumer hmore rfl hd]
  constructor
  · rintro ⟨d', hd', hmoves⟩
    obtain rfl := Option.some.inj (hd.symm.trans hd')
    exact hmoves
  · exact fun hmoves => ⟨d, hd, hmoves⟩

theorem exists_stale (fr : Bytes) :
    ∃ (buffer : Bytes) (b : UInt8), buffer.length = maxMsgSize ∧
      (store buffer 0 [0])[4]? = some b ∧ fr[4]? ≠ some b := by
  obtain ⟨b, hb⟩ : ∃ b, fr[4]? ≠ some b := by
    cases hget : fr[4]? with
    | none => exact ⟨0, Option.some_ne_none 0 |>.symm⟩
    | some c =>
        refine ⟨c + 1, fun h => ?_⟩
        have hone : (1 : UInt8) = 0 := by simpa using Option.some.inj h
        exact absurd hone (by decide)
  refine ⟨List.replicate maxMsgSize b, b, List.length_replicate, ?_, hb⟩
  rw [store, Overlay.overlay_zero, List.singleton_append, List.getElem?_cons_succ, List.getElem?_drop,
    List.getElem?_replicate, if_pos (by show 1 + 3 < 1048576; decide)]

/-- The calls that move message and position together, whatever the buffer held,
are the safe ones. -/
theorem file_to_consumer_moves_together_iff (hlog : LogFiles host conn segs)
    (hfile : s.pFile = some conn) (hconsumer : s.pConsumerSocket = some .zmq)
    (hposition : OnBoundary (logFrames segs) s.totalBytesRead) :
    (∀ buffer : Bytes, buffer.length = maxMsgSize →
        ∃ d, { s with buffer := buffer }.fileToConsumer host false sched written = some d ∧
          MovesTogether segs { s with buffer := buffer } written d) ↔
      SafeDelivery host conn segs s sched written := by
  have hle := hposition.le hlog.nonempties
  rw [flatten_logFrames, ← hlog.total_eq] at hle
  have hmore : s.totalBytesRead < conn.totalBytesWriten + 4 := by omega
  simp only [exists_movesTogether_iff _ hlog hfile hconsumer hmore]
  rcases hposition with ⟨fr, hat⟩ | hend
  · obtain ⟨hfr, x, hx, -⟩ := hlog.read_segment hat
    have hfiles : conn.fileFds.length ≠ 0 := by
      rw [hlog.files, List.length_map]
      exact Nat.pos_iff_ne_zero.mp (List.length_pos_of_mem hx)
    simp only [SafeDelivery, ConnectionFile.read, if_neg hfiles, hat, Option.some.injEq,
      exists_eq_left', forall_eq']
    constructor
    · intro hall
      obtain ⟨buffer, b, hlen, hbuffer, hstale⟩ := exists_stale fr
      exact safeFrom_of_returns hfr hbuffer hstale (hall buffer hlen)
    · intro hsafe buffer _
      exact safeFrom_returns hfr (store buffer 0 [0]) hsafe
  · have hnone : frameAt (logFrames segs) s.totalBytesRead = none := by
      rw [hend]
      exact frameAt_end hlog.nonempties
    rw [flatten_logFrames, ← hlog.total_eq] at hend
    refine iff_of_true (fun buffer _ => Or.inl (hlog.read_end _ _ _ (Nat.le_of_eq hend.symm))) ?_
    intro fr hat
    rw [hnone] at hat
    cases hat

end Call

/-- One message of five bytes in its file. -/
def greeting : Segment where
  file := ⟨[5, 0, 0, 0] ++ ascii "hello", 9, ascii "/tmp/t_0.txt", 9, 1⟩
  frames := [[5, 0, 0, 0] ++ ascii "hello"]
  offset_flatten := by decide

/-- The log that consists of it. -/
def greetingLog : ConnectionFile where
  directory := ascii "/tmp"
  topic := ascii "t"
  fileFds := [greeting.file]
  currentFdIndex := 0
  maxFileSize := ConnectionFile.defaultMaxFileSize
  totalBytesWriten := 9
  msgCounter := 1

theorem greetingLog_files : LogFiles .little greetingLog [greeting] where
  files := rfl
  inside := by
    intro x hx
    obtain rfl := List.mem_singleton.mp hx
    decide
  shared := fun hone => absurd hone (by decide)
  intact := by
    intro _ x hx
    obtain rfl := List.mem_singleton.mp hx
    rfl
  totals := ⟨by decide, trivial⟩
  total_eq := by decide
  framed := by
    intro fr hfr
    obtain rfl := List.mem_singleton.mp hfr
    exact ⟨5, by decide, by decide, by decide⟩
  current := Or.inr rfl
  max_pos := by decide

/-- A topic with that log, whose consumer has read nothing yet. -/
def greeted : BrokerStorage :=
  { (init .file (ascii "/tmp") (ascii "t")).2 with
    pFile := some greetingLog
    pConsumerSocket := some .zmq }

/-- The greeting, whose header and message arrive in one piece each, into a buffer that
held nothing but ones. -/
theorem file_to_consumer_moves_together_iff_greeted :
    ∃ d, { greeted with buffer := List.replicate maxMsgSize 1 }.fileToConsumer .little false
          [.got 4, .got 5] 5 = some d ∧
      MovesTogether [greeting] { greeted with buffer := List.replicate maxMsgSize 1 } 5 d := by
  refine (file_to_consumer_moves_together_iff greetingLog_files rfl rfl
    (onBoundary_zero _)).mpr ?_ (List.replicate maxMsgSize 1) List.length_replicate
  intro fr hfr
  obtain rfl := Option.some.inj hfr
  exact Or.inr ⟨⟨[4], [.got 5], [5], [], by decide, by decide, by decide, by decide, by decide⟩,
    by decide, by decide⟩

/-- A socket that refuses the message: the position moves past it. -/
theorem file_to_consumer_not_moves_together :
    ¬ ∀ (host : ByteOrder) (s : BrokerStorage) (conn : ConnectionFile) (segs : List Segment)
        (sched : List PreadResult) (written : Int),
        LogFiles host conn segs → s.pFile = some conn → s.pConsumerSocket = some .zmq →
        OnBoundary (logFrames segs) s.totalBytesRead →
        ∃ d, s.fileToConsumer host false sched written = some d ∧
          MovesTogether segs s written d := by
  intro h
  obtain ⟨d, hd, hmoves⟩ := h .little greeted greetingLog [greeting] [] (-1) greetingLog_files rfl
    rfl (onBoundary_zero _)
  have hread := greetingLog_files.read_frame (by decide) (o := greeted.totalBytesRead)
    (store greeted.buffer 0 [0]) rfl (show _ ≤ 4 + maxMsgSize by decide)
  rw [movesTogether_iff greetingLog_files rfl rfl (by decide) rfl hd, hread.1] at hmoves
  rcases hmoves with hnone | ⟨-, haccept⟩
  · exact absurd hnone (by decide)
  · exact absurd haccept (by decide)

end BrokerStorage

end LightQ
