/-
# `Storage.BufferBounds` — where `file_to_consumer` stores, and what it hands on

The buffer has `max_msg_size` bytes.  `read_msg` compares the header with all
of them and stores the message four bytes further on; `file_to_consumer` puts
a terminator two bytes behind the message, and hands a ZeroMQ socket a length
that is eight less than what `read` returned, as an `unsigned`.

`stays_in_buffer_iff` is about every run of calls that add and deliver, with
messages of any length: all stores are inside the buffer and all bytes handed
on were read by the call that hands them on, exactly in the runs whose
deliveries meet frames that leave room for header and terminator and are no
shorter than what is cut off.  A store past the end of the buffer makes the
list that stands for it longer.

What is stored is followed through the search of `read`.  Of a file that
returns nothing no more than a header is read (`NothingRead.length_bytesRead`),
the buffer grows by what is stored past its end (`length_readFrom_buffer`), and
`read_stays` says of a buffer of the right size that nothing is returned and
all is well, or that the stores and the condition are about what is returned.
A call that reads nothing stores at most a terminator behind the first byte
(`fileToConsumer_quiet`).

What is handed on is a range of the buffer, to either kind of socket
(`fileToConsumer_hands`).  Its length is an `unsigned`, so that it lies within
what was read exactly if the value covers what is cut off, and then does not
reach past what arrived (`handed_iff`).  Both together are `inBounds_iff`, and a
call whose frames fit leaves a buffer of the same size for the next one
(`Buffered.after`).
-/
import LightQ.Lib.Runs
import LightQ.Storage.DeliveryPosition

namespace LightQ

open MachineInt Overlay

/-- How many bytes arrive, of `need` that are asked for. -/
def arrived (avail : Nat) : Nat → Nat → List PreadResult → Nat
  | _, 0, _ => 0
  | 0, _ + 1, _ => 0
  | turns + 1, need + 1, sched =>
      let k := delivered avail (need + 1) sched.head?
      if k = 0 then 0 else k + arrived avail turns (need + 1 - k) sched.tail

theorem readLoop_length (region : Bytes) (turns need : Nat) (sched : List PreadResult) :
    (FileDetails.readLoop region turns need sched).bytes.length
      = arrived region.length turns need sched := by
  induction turns generalizing need sched with
  | zero =>
      cases need with
      | zero => rfl
      | succ need => rfl
  | succ turns ih =>
      cases need with
      | zero => rfl
      | succ need =>
          rw [FileDetails.readLoop, arrived]
          dsimp only
          by_cases hk : delivered region.length (need + 1) sched.head? = 0
          · rw [if_pos (pread_eq_nil_iff.mpr hk), if_pos hk]
            rfl
          · rw [if_neg (fun h₀ => hk (pread_eq_nil_iff.mp h₀)), if_neg hk, List.length_append,
              length_pread, ih]

theorem arrived_of_delivers {avail turns need : Nat} {sched rest : List PreadResult} {ps : List Nat}
    (h : deliver avail turns need sched = some (ps, rest)) : arrived avail turns need sched = need := by
  have hregion : deliver (List.replicate avail (0 : UInt8)).length turns need sched
      = some (ps, rest) := by
    rw [List.length_replicate]
    exact h
  have hlen := readLoop_length (List.replicate avail 0) turns need sched
  rw [readLoop_delivers hregion, length_flatten_take hregion, List.length_replicate] at hlen
  exact hlen.symm

theorem arrived_of_fails {avail turns need : Nat} {sched : List PreadResult}
    (h : deliver avail turns need sched = none) : arrived avail turns need sched < need := by
  have hregion : deliver (List.replicate avail (0 : UInt8)).length turns need sched = none := by
    rw [List.length_replicate]
    exact h
  obtain ⟨bytes, rest, hlt, hloop⟩ := readLoop_fails hregion
  have hlen := readLoop_length (List.replicate avail 0) turns need sched
  rw [hloop, List.length_replicate] at hlen
  exact hlen ▸ hlt

namespace FileDetails

/-- The bytes that `read_msg` stores, in order: the header as far as it
arrives, and of a message that fits the body as far as that does. -/
def bytesRead (host : ByteOrder) (f : FileDetails) (bufSize offset : Nat)
    (sched : List PreadResult) : Bytes :=
  let h := readLoop (f.content.drop offset) 4 4 sched
  if h.failed then h.bytes
  else
    let size := header host false h.bytes
    if bufSize < size then h.bytes
    else h.bytes ++ (readLoop (f.content.drop (offset + 4)) size size h.sched).bytes

section BytesRead

variable {host : ByteOrder} {f : FileDetails} {bufSize offset : Nat} {sched : List PreadResult}

theorem readMsg_buffer (buffer : Bytes) :
    (f.readMsg host buffer bufSize offset false sched).buffer =
      store (store buffer 0 [0]) 0 (f.bytesRead host bufSize offset sched) := by
  cases h : deliver (f.content.drop offset).length 4 4 sched with
  | none =>
      obtain ⟨bytes, rest, -, hloop⟩ := readLoop_fails h
      rw [bytesRead, readMsg, readBufferLength, hloop]
      rfl
  | some d =>
      obtain ⟨ps, rest⟩ := d
      have hlen := length_flatten_take h
      rw [bytesRead, readMsg, readBufferLength_delivers h, readLoop_delivers h]
      generalize (ps.map (f.content.drop offset).take).flatten = hbytes at hlen ⊢
      generalize header host false hbytes = size
      simp only [Bool.false_eq_true, if_false]
      have hbody : ∀ B, store (withHeader buffer hbytes) 4 B
          = store (store buffer 0 [0]) 0 (hbytes ++ B) := by
        intro B
        have happend : store (store (store buffer 0 [0]) 0 hbytes) (0 + hbytes.length) B
            = store (store buffer 0 [0]) 0 (hbytes ++ B) := overlay_append hbytes B
        rw [hlen] at happend
        exact happend
      rcases Nat.eq_zero_or_pos size with rfl | hpos
      · show withHeader buffer hbytes = store (store buffer 0 [0]) 0 (hbytes ++ [])
        rw [List.append_nil]
        rfl
      · have hneg : ¬ (size : Int) < 0 := by omega
        have hzero : ¬ (size : Int) = 0 := by omega
        rw [if_neg hzero, if_neg hneg]
        by_cases hbig : bufSize < size
        · rw [if_pos (by exact_mod_cast hbig), if_pos hbig]
          rfl
        · rw [if_neg (by exact_mod_cast hbig), if_neg hbig, ← hbody, readBuffer, Int.toNat_natCast]
          split
          · split
            · rfl
            · rfl
          · split
            · rfl
            · rfl

theorem NothingRead.length_bytesRead (h : f.NothingRead host offset sched) :
    (f.bytesRead host bufSize offset sched).length ≤ 4 := by
  rw [NothingRead] at h
  cases hd : deliver (f.content.drop offset).length 4 4 sched with
  | none =>
      obtain ⟨bytes, rest, hlt, hloop⟩ := readLoop_fails hd
      rw [bytesRead, hloop]
      exact Nat.le_of_lt hlt
  | some d =>
      obtain ⟨ps, rest⟩ := d
      rw [hd] at h
      have hzero : header host false (ps.map (f.content.drop offset).take).flatten = 0 := h
      rw [bytesRead, readLoop_delivers hd]
      simp only [Bool.false_eq_true, if_false, hzero]
      rw [if_neg (Nat.not_lt_zero _), List.length_append, length_flatten_take hd]
      rfl

theorem length_readMsg_buffer {buffer : Bytes} (h : 4 ≤ buffer.length) :
    (f.readMsg host buffer bufSize offset false sched).buffer.length
      = max buffer.length (f.bytesRead host bufSize offset sched).length := by
  rw [readMsg_buffer, store, store, overlay_zero, overlay_zero, List.length_append,
    List.length_drop, List.length_append, List.length_drop, List.length_singleton]
  omega

end BytesRead

/-- The bytes handed on start at `start` and are as many as `read` returned,
less twice `start`.  That something is returned for a frame whose header reads
as `size` is harmless if

* all of it arrives, it leaves six bytes of the buffer and is no shorter than
  what is cut off;
* `count` bytes of it arrive, they fit behind the header, and no more is handed
  on than has arrived;
* the header itself does not arrive, and the position in the file that is
  returned instead is so small that next to nothing is handed on. -/
def FrameFits (host : ByteOrder) (f : FileDetails) (start position : Nat)
    (sched : List PreadResult) : Prop :=
  match deliver (f.content.drop position).length 4 4 sched with
  | none =>
      let count := arrived (f.content.drop position).length 4 4 sched
      0 < i64 position ∧ i64 position + 2 ≤ maxMsgSize ∧ 2 * start ≤ i64 position ∧
        (i64 position = 2 * start ∨ i64 position ≤ count + start)
  | some (ps, rest) =>
      let size := f.headerRead host position ps
      let count := arrived (f.content.drop (position + 4)).length size size rest
      0 < size ∧
        if count = size then 2 * start ≤ 4 + size ∧ size + 6 ≤ maxMsgSize
        else count + 4 ≤ maxMsgSize ∧ size + 2 ≤ maxMsgSize ∧ 2 * start ≤ size ∧
          size ≤ count + 4 + start

/-- A returned value `v`, when `filled` bytes have been stored: these and the
terminator are inside the buffer, and what is handed on is inside these. -/
def Stays (start v filled : Nat) : Prop :=
  filled ≤ maxMsgSize ∧ v + 2 ≤ maxMsgSize ∧ 2 * start ≤ v ∧ (v = 2 * start ∨ v ≤ filled + start)

theorem frameFits_iff {host : ByteOrder} {f : FileDetails} {start position v : Nat}
    {sched : List PreadResult} (buffer : Bytes) (hstart : start ≤ 4)
    (hvalue : (f.readMsg host buffer maxMsgSize position false sched).value = v) (hpos : 0 < v) :
    f.FrameFits host start position sched ↔
      Stays start v (f.bytesRead host maxMsgSize position sched).length := by
  have hmax : maxMsgSize = 1048576 := rfl
  rw [FrameFits, Stays]
  cases h : deliver (f.content.drop position).length 4 4 sched with
  | none =>
      obtain ⟨bytes, rest, hlt, hloop⟩ := readLoop_fails h
      obtain ⟨bytes', rest', -, hread⟩ := readMsg_no_header host buffer maxMsgSize false h
      have hcount := readLoop_length (f.content.drop position) 4 4 sched
      rw [hread] at hvalue
      rw [hloop] at hcount
      rw [bytesRead, hloop]
      dsimp only [if_true] at hvalue hcount ⊢
      rw [if_pos rfl]
      omega
  | some d =>
      obtain ⟨ps, rest⟩ := d
      have hlen := length_flatten_take h
      have hcount := readLoop_length (f.content.drop (position + 4)) (f.headerRead host position ps)
        (f.headerRead host position ps) rest
      rcases Nat.eq_zero_or_pos (f.headerRead host position ps) with hzero | hsize
      · rw [readMsg_zero h hzero] at hvalue
        omega
      rw [readMsg_value buffer h hsize] at hvalue
      rw [bytesRead, readLoop_delivers h]
      simp only [Bool.false_eq_true, if_false]
      rw [show header host false (ps.map (f.content.drop position).take).flatten
        = f.headerRead host position ps from rfl]
      generalize f.headerRead host position ps = size at hsize hvalue hcount ⊢
      rcases Nat.lt_or_ge maxMsgSize size with hbig | hfit
      · rw [if_neg (fun h => absurd h.1 (Nat.not_le.mpr hbig))] at hvalue
        rw [if_pos hbig]
        split
        all_goals omega
      · rw [if_neg (Nat.not_lt.mpr hfit), List.length_append, hlen, hcount]
        cases hbody : deliver (f.content.drop (position + 4)).length size size rest with
        | none =>
            have hshort := arrived_of_fails hbody
            rw [hbody, if_neg (fun h => absurd h.2 (by decide))] at hvalue
            rw [if_neg (Nat.ne_of_lt hshort)]
            omega
        | some d' =>
            have hall := arrived_of_delivers hbody
            rw [hbody, if_pos ⟨hfit, rfl⟩] at hvalue
            rw [if_pos hall]
            omega

end FileDetails

namespace ConnectionFile

/-- The bytes stored by the last `read_msg` that `read` calls, if that returned
something: the search is that of `readFrom`. -/
def lastReadFrom (host : ByteOrder) (offset sizeOfBuffer : Nat) :
    List FileDetails → Option Nat → Nat → Bytes → List PreadResult → Bytes
  | [], _, _, _, _ => []
  | f :: fs, prev, offsetCurrent, buffer, sched =>
      if f.bytesWrittenAcrossAllFiles ≤ offset then
        lastReadFrom host offset sizeOfBuffer fs (some f.bytesWrittenAcrossAllFiles) offsetCurrent
          buffer sched
      else
        let offsetCurrent := offsetInFile prev offsetCurrent
        let r := f.readMsg host buffer sizeOfBuffer offsetCurrent false sched
        if 0 < r.value then f.bytesRead host sizeOfBuffer offsetCurrent sched
        else
          lastReadFrom host offset sizeOfBuffer fs (some f.bytesWrittenAcrossAllFiles) offsetCurrent
            r.buffer r.sched

/-- Nothing is read from any file, or the first one that something is read from
is asked for a frame that fits. -/
def FitsFrom (host : ByteOrder) (offset start : Nat) :
    List FileDetails → Option Nat → Nat → List PreadResult → Prop
  | [], _, _, _ => True
  | f :: fs, prev, offsetCurrent, sched =>
      if f.bytesWrittenAcrossAllFiles ≤ offset then
        FitsFrom host offset start fs (some f.bytesWrittenAcrossAllFiles) offsetCurrent sched
      else
        let position := offsetInFile prev offsetCurrent
        (f.NothingRead host position sched ∧
            FitsFrom host offset start fs (some f.bytesWrittenAcrossAllFiles) position
              (leftover (f.content.drop position).length 4 4 sched)) ∨
          (¬ f.NothingRead host position sched ∧ f.FrameFits host start position sched)

section Search

variable {host : ByteOrder} {offset size start : Nat}

theorem length_readFrom_buffer (files : List FileDetails) (prev : Option Nat) (offsetCurrent : Nat)
    {buffer : Bytes} (sched : List PreadResult) (hbuffer : 4 ≤ buffer.length) :
    (readFrom host offset false size files prev offsetCurrent buffer sched).buffer.length =
      max buffer.length
        (lastReadFrom host offset size files prev offsetCurrent buffer sched).length := by
  induction files generalizing prev offsetCurrent buffer sched with
  | nil => exact (Nat.max_eq_left (Nat.zero_le _)).symm
  | cons f fs ih =>
      rw [readFrom, lastReadFrom]
      split
      · exact ih _ _ _ hbuffer
      · dsimp only
        generalize offsetInFile prev offsetCurrent = position
        have hlen : (f.readMsg host buffer size position false sched).buffer.length
            = max buffer.length (f.bytesRead host size position sched).length :=
          FileDetails.length_readMsg_buffer hbuffer
        split
        · exact hlen
        · next hnone =>
            have hshort := (FileDetails.readMsg_nonpos_iff buffer).mp (Int.not_lt.mp hnone)
            have hsame := hlen.trans
              (Nat.max_eq_left (Nat.le_trans hshort.length_bytesRead hbuffer))
            rw [ih _ _ _ (by rw [hsame]; exact hbuffer), hsame]

theorem lastReadFrom_of_nonpos (files : List FileDetails) (prev : Option Nat) (offsetCurrent : Nat)
    (buffer : Bytes) (sched : List PreadResult)
    (h : (readFrom host offset false size files prev offsetCurrent buffer sched).value ≤ 0) :
    lastReadFrom host offset size files prev offsetCurrent buffer sched = [] := by
  induction files generalizing prev offsetCurrent buffer sched with
  | nil => rfl
  | cons f fs ih =>
      rw [readFrom] at h
      rw [lastReadFrom]
      by_cases hpast : f.bytesWrittenAcrossAllFiles ≤ offset
      · rw [if_pos hpast] at h ⊢
        exact ih _ _ _ _ h
      · rw [if_neg hpast] at h ⊢
        dsimp only at h ⊢
        split at h
        · next hsome => exact absurd h (Int.not_le.mpr hsome)
        · next hnone =>
            rw [if_neg hnone]
            exact ih _ _ _ _ h

theorem fitsFrom_iff (hstart : start ≤ 4) (files : List FileDetails) (prev : Option Nat)
    (offsetCurrent : Nat) (buffer : Bytes) (sched : List PreadResult) :
    FitsFrom host offset start files prev offsetCurrent sched ↔
      ∀ v : Nat, 0 < v →
        (readFrom host offset false maxMsgSize files prev offsetCurrent buffer sched).value = v →
        FileDetails.Stays start v
          (lastReadFrom host offset maxMsgSize files prev offsetCurrent buffer sched).length := by
  induction files generalizing prev offsetCurrent buffer sched with
  | nil =>
      refine iff_of_true trivial ?_
      intro v hpos hvalue
      have hneg : (-1 : Int) = v := hvalue
      omega
  | cons f fs ih =>
      rw [FitsFrom, readFrom, lastReadFrom]
      by_cases hpast : f.bytesWrittenAcrossAllFiles ≤ offset
      · rw [if_pos hpast, if_pos hpast, if_pos hpast]
        exact ih _ _ _ _
      · rw [if_neg hpast, if_neg hpast, if_neg hpast]
        dsimp only
        generalize offsetInFile prev offsetCurrent = position
        generalize hr : f.readMsg host buffer maxMsgSize position false sched = r
        rw [← FileDetails.readMsg_nonpos_iff buffer, hr]
        rcases le_or_gt r.value 0 with hnone | hsome
        · have hrest : leftover (f.content.drop position).length 4 4 sched = r.sched := by
            rw [← hr, (FileDetails.readMsg_nothing buffer (by rw [hr]; exact hnone)).1]
          rw [if_neg (Int.not_lt.mpr hnone), if_neg (Int.not_lt.mpr hnone), hrest,
            and_iff_right hnone, or_iff_left (fun h => h.1 hnone)]
          exact ih _ _ _ _
        · obtain ⟨v, hv⟩ : ∃ v : Nat, r.value = v := ⟨r.value.toNat, by omega⟩
          have hpos : 0 < v := by omega
          rw [if_pos hsome, if_pos hsome, or_iff_right (fun h => by omega),
            and_iff_right (Int.not_le.mpr hsome),
            FileDetails.frameFits_iff buffer hstart (by rw [hr]; exact hv) hpos, hv]
          constructor
          · intro h v' _ heq
            obtain rfl := Int.ofNat_inj.mp heq
            exact h
          · exact fun h => h v hpos rfl

theorem read_stays {conn : ConnectionFile} {buffer : Bytes} {sched : List PreadResult} {r : Read}
    (hstart : start ≤ 4) (hbuffer : buffer.length = maxMsgSize)
    (hr : conn.read host buffer maxMsgSize offset false sched = r) :
    (r.value ≤ 0 ∧ r.buffer.length = maxMsgSize ∧
        FitsFrom host offset start conn.fileFds none offset sched) ∨
      ∃ v last, 0 < v ∧ r.value = ((v : Nat) : Int) ∧
        lastReadFrom host offset maxMsgSize conn.fileFds none offset buffer sched = last ∧
        r.buffer.length = max maxMsgSize last.length ∧
        (FitsFrom host offset start conn.fileFds none offset sched ↔
          FileDetails.Stays start v last.length) := by
  rw [fitsFrom_iff hstart conn.fileFds none offset buffer sched]
  have hlen : (readFrom host offset false maxMsgSize conn.fileFds none offset buffer
      sched).buffer.length = max maxMsgSize
        (lastReadFrom host offset maxMsgSize conn.fileFds none offset buffer sched).length := by
    rw [length_readFrom_buffer _ _ _ _ (by rw [hbuffer]; decide), hbuffer]
  by_cases hfiles : conn.fileFds.length = 0
  · rw [read, if_pos hfiles] at hr
    subst hr
    rw [List.length_eq_zero_iff.mp hfiles]
    refine Or.inl ⟨Int.le_refl 0, hbuffer, ?_⟩
    intro v hpos hvalue
    have hneg : (-1 : Int) = v := hvalue
    omega
  · rw [read, if_neg hfiles] at hr
    rw [hr] at hlen ⊢
    rcases le_or_gt r.value 0 with hnone | hsome
    · rw [lastReadFrom_of_nonpos conn.fileFds none offset buffer sched (by rw [hr]; exact hnone),
        List.length_nil, Nat.max_zero] at hlen
      exact Or.inl ⟨hnone, hlen, fun v hpos hvalue => by omega⟩
    · obtain ⟨v, hv⟩ : ∃ v : Nat, r.value = v := ⟨r.value.toNat, by omega⟩
      refine Or.inr ⟨v, _, by omega, hv, rfl, hlen, ?_⟩
      constructor
      · exact fun h => h v (by omega) hv
      · intro h v' _ heq
        obtain rfl : v = v' := by omega
        exact h

end Search

end ConnectionFile

/-- One call: a message is added, or `file_to_consumer` is called, the `pread`
calls do what `sched` says and `write_msg` returns `written`. -/
inductive StorageCall where
  | add (overload : ConnectionFile.Overload) (message : Bytes) (env : AddEnv)
  | deliver (sched : List PreadResult) (written : Int)

namespace BrokerStorage

/-- Where in the buffer the bytes for the consumer socket start. -/
def handedFrom : StreamType → Nat
  | .zmq => 4
  | .socket => 0
  | .file => 0

/-- A file topic with its consumer, before anything has been published. -/
def fileTopic (outputDirectory id : Bytes) (consumer : StreamType) : BrokerStorage :=
  (init .file outputDirectory id).2.setConsumerSocket consumer

/-- The storage after a call. -/
def after (host : ByteOrder) (s : BrokerStorage) : StorageCall → Option BrokerStorage
  | .add overload message env => (s.add host overload message env).map Stored.storage
  | .deliver sched written => (s.fileToConsumer host false sched written).map Delivery.storage

/-- A delivery stores inside the buffer, and every byte of the buffer that it
hands on is one that `read` has stored in this call. -/
def InBounds (host : ByteOrder) (s : BrokerStorage) : StorageCall → Prop
  | .add _ _ _ => True
  | .deliver sched written =>
      ∀ conn, s.pFile = some conn → ∀ consumer, s.pConsumerSocket = some consumer →
        ∃ d, s.fileToConsumer host false sched written = some d ∧
          d.storage.buffer.length = maxMsgSize ∧
          ∀ handed ∈ d.sent, ∀ i, handedFrom consumer ≤ i → i < handedFrom consumer + handed.2 →
            i < (ConnectionFile.lastReadFrom host s.totalBytesRead maxMsgSize conn.fileFds none
              s.totalBytesRead (store s.buffer 0 [0]) sched).length

/-- A delivery finds nothing to read, or frames that fit. -/
def Fits (host : ByteOrder) (s : BrokerStorage) : StorageCall → Prop
  | .add _ _ _ => True
  | .deliver sched _ =>
      ∀ conn, s.pFile = some conn → ∀ consumer, s.pConsumerSocket = some consumer →
        conn.totalBytesWriten + 4 ≤ s.totalBytesRead ∨
          ConnectionFile.FitsFrom host s.totalBytesRead (handedFrom consumer) conn.fileFds none
            s.totalBytesRead sched

/-- A file topic whose buffer has kept its size. -/
structure Buffered (consumer : StreamType) (s : BrokerStorage) : Prop where
  brokerType : s.brokerType = .file
  file : ∃ conn, s.pFile = some conn
  consumer : s.pConsumerSocket = some consumer
  buffer : s.buffer.length = maxMsgSize

section Call

variable {host : ByteOrder} {s s' : BrokerStorage} {conn : ConnectionFile} {consumer : StreamType}
  {sched : List PreadResult}

theorem buffered_fileTopic (outputDirectory id : Bytes) (consumer : StreamType) :
    Buffered consumer (fileTopic outputDirectory id consumer) where
  brokerType := rfl
  file := ⟨_, rfl⟩
  consumer := rfl
  buffer := List.length_replicate

/-- What is handed to either kind of socket. -/
theorem fileToConsumer_hands {r : Read} {v : Nat} (hfile : s.pFile = some conn)
    (hconsumer : s.pConsumerSocket = some consumer) (hsocket : consumer ≠ .file)
    (hmore : s.totalBytesRead < conn.totalBytesWriten + 4)
    (hr : conn.read host (store s.buffer 0 [0]) maxMsgSize s.totalBytesRead false sched = r)
    (hvalue : r.value = v) (hpos : 0 < v) (writeMsg : Int) :
    ∃ bytes, s.fileToConsumer host false sched writeMsg =
      some ⟨writeMsg,
        { s with buffer := store r.buffer (v + 1) [0], totalBytesRead := s.totalBytesRead + v },
        [(bytes, u32OfInt ((v : Int) - handedFrom consumer - handedFrom consumer))], r.sched⟩ := by
  cases consumer with
  | zmq => exact ⟨_, fileToConsumer_of_pos hfile hconsumer hmore hr hvalue hpos writeMsg⟩
  | file => exact absurd rfl hsocket
  | socket =>
      have htotal := getFileTotalBytesWritten_of_file hfile
      have hneg : ¬ (v : Int) < 0 := by omega
      have hzero : ¬ (v : Int) = 0 := by omega
      refine ⟨(store r.buffer (v + 1) [0]).take (u32OfInt v), ?_⟩
      rw [fileToConsumer, hfile]
      simp only [Option.bind_eq_bind, Option.bind_some, htotal, if_neg (Nat.not_le.mpr hmore), hr,
        hvalue, if_neg hneg, if_neg hzero, hconsumer, Int.toNat_natCast, handedFrom]
      simp only [Nat.cast_zero, Int.sub_zero]

/-- Where a value `v` of `read` leaves the range that is handed on inside what was
read. -/
theorem handed_iff {start v filled : Nat} (hv : v + 2 ≤ maxMsgSize) (hfilled : filled ≤ maxMsgSize)
    (hstart : start ≤ 4) :
    (∀ i, start ≤ i → i < start + u32OfInt ((v : Int) - start - start) → i < filled) ↔
      2 * start ≤ v ∧ (v = 2 * start ∨ v ≤ filled + start) := by
  have hmax : maxMsgSize = 1048576 := rfl
  have hlen : u32OfInt ((v : Int) - start - start) =
      if 2 * start ≤ v then v - 2 * start else v + 2 ^ 32 - 2 * start := by
    rw [u32OfInt]
    split
    all_goals omega
  rw [hlen]
  constructor
  · intro h
    split at h
    · next hle =>
        have hlast := h (start + (v - 2 * start) - 1)
        omega
    · have hlast := h (start + (v + 2 ^ 32 - 2 * start) - 1)
      omega
  · rintro ⟨hle, hcase⟩ i hlo hhi
    rw [if_pos hle] at hhi
    omega

theorem length_store_one {buffer : Bytes} {pos : Nat} :
    (store buffer pos [0]).length = max buffer.length (pos + 1) :=
  length_overlay (List.cons_ne_nil _ _)

theorem fileToConsumer_quiet {r : Read} (hfile : s.pFile = some conn)
    (hmore : s.totalBytesRead < conn.totalBytesWriten + 4)
    (hr : conn.read host (store s.buffer 0 [0]) maxMsgSize s.totalBytesRead false sched = r)
    (hvalue : r.value ≤ 0) (hbuffer : r.buffer.length = maxMsgSize) (writeMsg : Int) :
    ∃ d, s.fileToConsumer host false sched writeMsg = some d ∧
      d.storage.buffer.length = maxMsgSize ∧ d.sent = [] := by
  have hmax : maxMsgSize = 1048576 := rfl
  obtain ⟨buffer, hcase, hd⟩ := fileToConsumer_of_nonpos hfile hmore hr hvalue writeMsg
  refine ⟨_, hd, ?_, rfl⟩
  rcases hcase with rfl | rfl
  · exact hbuffer
  · show (store r.buffer 1 [0]).length = maxMsgSize
    rw [length_store_one, hbuffer]
    omega

theorem fileToConsumer_done {conn : ConnectionFile} (hfile : s.pFile = some conn)
    (hdone : conn.totalBytesWriten + 4 ≤ s.totalBytesRead) (sched : List PreadResult) (written : Int) :
    s.fileToConsumer host false sched written = some ⟨0, s, [], sched⟩ := by
  have htotal := getFileTotalBytesWritten_of_file hfile
  rw [fileToConsumer, hfile]
  simp only [Option.bind_eq_bind, Option.bind_some, htotal, if_pos hdone]

theorem handedFrom_le (consumer : StreamType) : handedFrom consumer ≤ 4 := by
  cases consumer with
  | zmq => exact Nat.le_refl 4
  | socket => exact Nat.zero_le 4
  | file => exact Nat.zero_le 4

theorem inBounds_iff (h : Buffered consumer s) (hsocket : consumer ≠ .file) (call : StorageCall) :
    s.InBounds host call ↔ s.Fits host call := by
  cases call with
  | add overload message env => exact Iff.rfl
  | deliver sched written =>
      have hmax : maxMsgSize = 1048576 := rfl
      obtain ⟨conn, hfile⟩ := h.file
      rw [InBounds, Fits]
      simp only [hfile, h.consumer, Option.some.injEq, forall_eq']
      by_cases hdone : conn.totalBytesWriten + 4 ≤ s.totalBytesRead
      · have hd : s.fileToConsumer host false sched written = _ :=
          fileToConsumer_done hfile hdone sched written
        exact iff_of_true ⟨_, hd, h.buffer, fun _ hnil => absurd hnil List.not_mem_nil⟩
          (Or.inl hdone)
      have hmore := Nat.not_le.mp hdone
      have hbuffer : (store s.buffer 0 [0]).length = maxMsgSize := by
        rw [length_store_one, h.buffer]
        omega
      have hstart := handedFrom_le consumer
      rw [or_iff_right hdone]
      generalize hr : conn.read host (store s.buffer 0 [0]) maxMsgSize s.totalBytesRead false sched = r
      rcases ConnectionFile.read_stays hstart hbuffer hr with
        ⟨hnone, hlen, hfits⟩ | ⟨v, last, hpos, hv, hlast, hlen, hfits⟩
      · obtain ⟨d, hd, hsame, hsent⟩ := fileToConsumer_quiet hfile hmore hr hnone hlen written
        refine iff_of_true ⟨d, hd, hsame, ?_⟩ hfits
        rw [hsent]
        exact fun _ hnil => absurd hnil List.not_mem_nil
      · obtain ⟨bytes, hd⟩ := fileToConsumer_hands hfile h.consumer hsocket hmore hr hv hpos written
        have hstore : (store r.buffer (v + 1) [0]).length
            = max (max maxMsgSize last.length) (v + 2) := by
          rw [length_store_one, hlen]
        rw [hfits, hlast]
        constructor
        · rintro ⟨d, hd', hkeeps, hhanded⟩
          obtain rfl := Option.some.inj (hd.symm.trans hd')
          have hsize : (store r.buffer (v + 1) [0]).length = maxMsgSize := hkeeps
          have hrange := hhanded _ List.mem_cons_self
          rw [hstore] at hsize
          rw [handed_iff (by omega) (by omega) hstart] at hrange
          exact ⟨by omega, by omega, hrange⟩
        · rintro ⟨hfilled, hterminator, hrange⟩
          refine ⟨_, hd, ?_, ?_⟩
          · show (store r.buffer (v + 1) [0]).length = maxMsgSize
            rw [hstore]
            omega
          · intro handed hmem
            obtain rfl := List.mem_singleton.mp hmem
            exact (handed_iff hterminator hfilled hstart).mpr hrange

theorem Buffered.after (h : Buffered consumer s) (hsocket : consumer ≠ .file) {call : StorageCall}
    (hfits : s.Fits host call) (hstep : s.after host call = some s') : Buffered consumer s' := by
  cases call with
  | add overload message env =>
      obtain ⟨stored, hadd, rfl⟩ := Option.map_eq_some_iff.mp hstep
      obtain ⟨file, a, -, -, rfl⟩ := add_file_some h.brokerType hadd
      obtain ⟨n, hbook⟩ := bookFile_eq s a
      rw [hbook]
      exact ⟨h.brokerType, ⟨_, rfl⟩, h.consumer, h.buffer⟩
  | deliver sched written =>
      obtain ⟨d, hd, rfl⟩ := Option.map_eq_some_iff.mp hstep
      obtain ⟨conn, hfile⟩ := h.file
      obtain ⟨d', hd', hbuffer, -⟩ := (inBounds_iff h hsocket (.deliver sched written)).mpr hfits conn
        hfile consumer h.consumer
      obtain rfl := Option.some.inj (hd.symm.trans hd')
      obtain ⟨buffer, n, hstorage⟩ := fileToConsumer_storage hd
      rw [hstorage] at hbuffer ⊢
      exact ⟨h.brokerType, h.file, h.consumer, hbuffer⟩

end Call

/-- All deliveries of a run stay inside the buffer exactly if all of them find
frames that fit. -/
theorem stays_in_buffer_iff (host : ByteOrder) (outputDirectory id : Bytes) {consumer : StreamType}
    (hsocket : consumer ≠ .file) (calls : List StorageCall) :
    Runs.Along (after host) (InBounds host) (fileTopic outputDirectory id consumer) calls ↔
      Runs.Along (after host) (Fits host) (fileTopic outputDirectory id consumer) calls := by
  refine Runs.along_iff_along (I := Buffered consumer) (P := fun _ _ => True) ?_ ?_
    (buffered_fileTopic outputDirectory id consumer) (Runs.along_of_forall fun _ _ => trivial)
  · intro s call s' hs _ hfits hstep
    exact hs.after hsocket hfits hstep
  · intro s call hs _
    exact inBounds_iff hs hsocket call

/-- A message is published, and its delivery asked for. -/
def publishDeliver (message : Bytes) : List StorageCall :=
  [.add .string message ⟨some [], [], 0⟩, .deliver [] 0]

theorem stays_in_buffer_iff_hello :
    Runs.Along (after .little) (InBounds .little) (fileTopic (ascii "/tmp") (ascii "t") .zmq)
        (publishDeliver (ascii "hello")) ↔
      Runs.Along (after .little) (Fits .little) (fileTopic (ascii "/tmp") (ascii "t") .zmq)
        (publishDeliver (ascii "hello")) :=
  stays_in_buffer_iff .little (ascii "/tmp") (ascii "t") (by decide) _

/-- The log of one message of three bytes. -/
def shortLog : ConnectionFile where
  directory := ascii "/tmp"
  topic := ascii "t"
  fileFds := [⟨[3, 0, 0, 0] ++ ascii "abc", 7, ascii "/tmp/t_0.txt", 7, 1⟩]
  currentFdIndex := 0
  maxFileSize := ConnectionFile.defaultMaxFileSize
  totalBytesWriten := 7
  msgCounter := 1

/-- The length of a message of three bytes is taken for `2 ^ 32 - 1`. -/
theorem not_stays_in_buffer :
    ¬ ∀ (host : ByteOrder) (outputDirectory id : Bytes) (consumer : StreamType)
        (calls : List StorageCall), consumer ≠ .file →
        (∀ overload message env, StorageCall.add overload message env ∈ calls →
          0 < message.length ∧ message.length ≤ maxMsgSize) →
        Runs.Along (after host) (InBounds host) (fileTopic outputDirectory id consumer) calls := by
  intro h
  have hall := h .little (ascii "/tmp") (ascii "t") .zmq (publishDeliver (ascii "abc")) (by decide) (by
    intro overload message env hmem
    rcases List.mem_cons.mp hmem with heq | hmem
    · cases heq
      decide
    · cases List.mem_singleton.mp hmem)
  let s : BrokerStorage := { fileTopic (ascii "/tmp") (ascii "t") .zmq with
    pFile := some shortLog
    totalBytesWritten := 7 }
  have hbuffered : Buffered .zmq s := ⟨rfl, ⟨_, rfl⟩, rfl, List.length_replicate⟩
  have hinside : s.InBounds .little (.deliver [] 0) := (hall.2 s rfl).1
  have hfits := (inBounds_iff hbuffered (by decide) (.deliver [] 0)).mp hinside shortLog rfl .zmq rfl
  have hframe : FileDetails.FrameFits .little ⟨[3, 0, 0, 0] ++ ascii "abc", 7, ascii "/tmp/t_0.txt", 7, 1⟩
      4 0 [] := by
    rcases hfits.resolve_left (by decide) with ⟨hnothing, -⟩ | ⟨-, hframe⟩
    · exact absurd hnothing (by decide : (3 : Nat) ≠ 0)
    · exact hframe
  exact absurd hframe.2 (by decide : ¬ (2 * 4 ≤ 4 + 3 ∧ 3 + 6 ≤ maxMsgSize))

end BrokerStorage

end LightQ
