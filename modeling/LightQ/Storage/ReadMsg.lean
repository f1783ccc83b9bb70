/-
# `Storage.ReadMsg` — which positive reads are true

Both loops of `read_msg` pass `pread` the same position on every turn, so
that after a short read the bytes at the start of the region are stored a
second time.  `deliver` is what the schedule makes of a read, the sizes of
its pieces: they make up what was asked for, and none is longer than what there
is (`deliver_sum`).  A read in pieces is right when the file happens to repeat
itself there (`Repeats`, `flatten_take_eq_iff`), and a read in one piece, which
is what a file gives when every byte that exists is delivered (`deliver_nil`),
always is.

`readMsg_ok` is the read that a reader of a whole log relies on,
`readMsg_true_iff` the account of every other one, whatever the buffer held
before.  There is one lemma for each way out of `read_msg`:

  * without a header the position comes back, as if it were a length
    (`readMsg_no_header`), and nothing but a sign keeps it from being taken for
    one (`trueRead_no_header_iff`);
  * for a body that does not fit or does not arrive the header comes back
    (`readMsg_no_body`, and `readMsg_oversize` for the log reader);
  * a header and a body are in the buffer as they were read (`readMsg_body`),
    and are what the file holds exactly if both reads were right
    (`trueRead_body_iff`).

What lies behind the bytes that arrive stays as it was (`withHeader_stale`), so
that a true read has the header of the file in the buffer
(`header_of_trueRead`).
-/
import LightQ.Storage.ConnectionFile

namespace LightQ

open MachineInt Overlay

/-! ## What a schedule delivers -/

/-- The number of bytes one `pread` of `count` bytes delivers. -/
def delivered (avail count : Nat) : Option PreadResult → Nat
  | none => min count avail
  | some (.got k) => min (min k count) avail
  | some .error => 0

/-- The sizes of the pieces in which `need` bytes arrive, when `avail` bytes
exist at the position they are read from, and the outcomes left then. -/
def deliver (avail : Nat) : Nat → Nat → List PreadResult → Option (List Nat × List PreadResult)
  | _, 0, sched => some ([], sched)
  | 0, _ + 1, _ => none
  | turns + 1, need + 1, sched =>
      let k := delivered avail (need + 1) sched.head?
      if k = 0 then none
      else (deliver avail turns (need + 1 - k) sched.tail).map fun d => (k :: d.1, d.2)

/-- Pieces that are all read from the start of the region are the region, in
order, from `pos` on. -/
def Repeats (region : Bytes) : Nat → List Nat → Prop
  | _, [] => True
  | pos, p :: ps => region.take p = (region.drop pos).take p ∧ Repeats region (pos + p) ps

instance Repeats.decide (region : Bytes) : ∀ pos ps, Decidable (Repeats region pos ps)
  | _, [] => isTrue trivial
  | pos, p :: ps =>
      have := Repeats.decide region (pos + p) ps
      inferInstanceAs (Decidable (region.take p = (region.drop pos).take p ∧ _))

theorem delivered_le_avail (avail count : Nat) (r : Option PreadResult) :
    delivered avail count r ≤ avail := by
  cases r with
  | none => exact Nat.min_le_right _ _
  | some r =>
      cases r with
      | got k => exact Nat.min_le_right _ _
      | error => exact Nat.zero_le _

theorem delivered_le_count (avail count : Nat) (r : Option PreadResult) :
    delivered avail count r ≤ count := by
  cases r with
  | none => exact Nat.min_le_left _ _
  | some r =>
      cases r with
      | got k => exact Nat.le_trans (Nat.min_le_left _ _) (Nat.min_le_right _ _)
      | error => exact Nat.zero_le _

theorem deliver_sum {avail turns need : Nat} {sched rest : List PreadResult} {ps : List Nat}
    (h : deliver avail turns need sched = some (ps, rest)) :
    ps.sum = need ∧ ∀ p ∈ ps, p ≤ avail := by
  induction turns generalizing need sched ps with
  | zero =>
      cases need with
      | zero =>
          obtain ⟨rfl, -⟩ := Prod.mk.inj (Option.some.inj h)
          exact ⟨rfl, by simp⟩
      | succ need => exact absurd h (by simp [deliver])
  | succ turns ih =>
      cases need with
      | zero =>
          obtain ⟨rfl, -⟩ := Prod.mk.inj (Option.some.inj h)
          exact ⟨rfl, by simp⟩
      | succ need =>
          have hle := delivered_le_count avail (need + 1) sched.head?
          rw [deliver] at h
          split at h
          · exact absurd h (by simp)
          · obtain ⟨⟨qs, rest'⟩, hd, hpair⟩ := Option.map_eq_some_iff.mp h
            obtain ⟨rfl, rfl⟩ := Prod.mk.inj hpair
            obtain ⟨hsum, hall⟩ := ih hd
            refine ⟨by rw [List.sum_cons, hsum]; omega, ?_⟩
            intro p hp
            rcases List.mem_cons.mp hp with rfl | hp
            · exact delivered_le_avail _ _ _
            · exact hall p hp

theorem deliver_nil {avail need : Nat} (hpos : 0 < need) (h : need ≤ avail) :
    deliver avail need need [] = some ([need], []) := by
  obtain ⟨n, rfl⟩ : ∃ n, need = n + 1 := ⟨need - 1, by omega⟩
  simp [deliver, delivered, Nat.min_eq_left h]

/-- The pieces, read one after the other, are the region from `pos` on
exactly when the region repeats itself there. -/
theorem flatten_take_eq_iff {region : Bytes} {ps : List Nat} (hps : ∀ p ∈ ps, p ≤ region.length)
    (pos : Nat) :
    (ps.map region.take).flatten = (region.drop pos).take ps.sum ↔ Repeats region pos ps := by
  induction ps generalizing pos with
  | nil => simp [Repeats]
  | cons p ps ih =>
      have hp : (region.take p).length = p := by
        rw [List.length_take, Nat.min_eq_left (hps p List.mem_cons_self)]
      have hsplit : (region.drop pos).take (p + ps.sum)
          = (region.drop pos).take p ++ (region.drop (pos + p)).take ps.sum := by
        rw [List.take_add, List.drop_drop]
      have hrest := ih (fun q hq => hps q (List.mem_cons_of_mem _ hq)) (pos + p)
      rw [Repeats, ← hrest, List.map_cons, List.flatten_cons, List.sum_cons]
      constructor
      · intro h
        have hhead : region.take p = (region.drop pos).take p := by
          have htake := congrArg (List.take p) h
          rwa [List.take_left' hp, List.take_take, Nat.min_eq_left (Nat.le_add_right _ _)] at htake
        rw [hsplit, hhead] at h
        exact ⟨hhead, List.append_cancel_left h⟩
      · rintro ⟨hhead, htail⟩
        rw [hsplit, hhead, htail]

/-! ## The loop -/

theorem pread_eq_take (region : Bytes) (count : Nat) (r : Option PreadResult) :
    FileDetails.pread region count r = region.take (delivered region.length count r) := by
  cases r with
  | none =>
      rw [FileDetails.pread, delivered, List.take_eq_take_iff]
      omega
  | some r =>
      cases r with
      | got k =>
          rw [FileDetails.pread, delivered, List.take_eq_take_iff]
          omega
      | error => rfl

theorem length_pread (region : Bytes) (count : Nat) (r : Option PreadResult) :
    (FileDetails.pread region count r).length = delivered region.length count r := by
  rw [pread_eq_take, List.length_take, Nat.min_eq_left (delivered_le_avail _ _ _)]

theorem pread_eq_nil_iff {region : Bytes} {count : Nat} {r : Option PreadResult} :
    FileDetails.pread region count r = [] ↔ delivered region.length count r = 0 := by
  rw [← List.length_eq_zero_iff, length_pread]

theorem readLoop_delivers {region : Bytes} {turns need : Nat} {sched rest : List PreadResult}
    {ps : List Nat} (h : deliver region.length turns need sched = some (ps, rest)) :
    FileDetails.readLoop region turns need sched
      = ⟨(ps.map region.take).flatten, false, rest⟩ := by
  induction turns generalizing need sched ps with
  | zero =>
      cases need with
      | zero =>
          obtain ⟨rfl, rfl⟩ := Prod.mk.inj (Option.some.inj h)
          rfl
      | succ need => exact absurd h (by simp [deliver])
  | succ turns ih =>
      cases need with
      | zero =>
          obtain ⟨rfl, rfl⟩ := Prod.mk.inj (Option.some.inj h)
          rfl
      | succ need =>
          rw [deliver] at h
          split at h
          · exact absurd h (by simp)
          · rename_i hk
            obtain ⟨⟨qs, rest'⟩, hd, hpair⟩ := Option.map_eq_some_iff.mp h
            obtain ⟨rfl, rfl⟩ := Prod.mk.inj hpair
            rw [FileDetails.readLoop, if_neg (fun h₀ => hk (pread_eq_nil_iff.mp h₀)),
              length_pread, ih hd, pread_eq_take]
            rfl

theorem length_flatten_take {region : Bytes} {turns need : Nat} {sched rest : List PreadResult}
    {ps : List Nat} (h : deliver region.length turns need sched = some (ps, rest)) :
    (ps.map region.take).flatten.length = need := by
  obtain ⟨hsum, hall⟩ := deliver_sum h
  rw [← hsum]
  clear h hsum
  induction ps with
  | nil => rfl
  | cons p ps ih =>
      rw [List.map_cons, List.flatten_cons, List.length_append, List.length_take,
        Nat.min_eq_left (hall p List.mem_cons_self), List.sum_cons,
        ih (fun q hq => hall q (List.mem_cons_of_mem _ hq))]

theorem readLoop_fails {region : Bytes} {turns need : Nat} {sched : List PreadResult}
    (h : deliver region.length turns need sched = none) :
    ∃ bytes rest, bytes.length < need ∧
      FileDetails.readLoop region turns need sched = ⟨bytes, true, rest⟩ := by
  induction turns generalizing need sched with
  | zero =>
      cases need with
      | zero => exact absurd h (by simp [deliver])
      | succ need => exact ⟨[], sched, Nat.succ_pos _, rfl⟩
  | succ turns ih =>
      cases need with
      | zero => exact absurd h (by simp [deliver])
      | succ need =>
          have hle := delivered_le_count region.length (need + 1) sched.head?
          rw [deliver] at h
          split at h
          · rename_i hk
            refine ⟨[], sched.tail, Nat.succ_pos _, ?_⟩
            rw [FileDetails.readLoop, if_pos (pread_eq_nil_iff.mpr hk)]
          · rename_i hk
            obtain ⟨bytes, rest, hlt, hloop⟩ := ih (Option.map_eq_none_iff.mp h)
            refine ⟨FileDetails.pread region (need + 1) sched.head? ++ bytes, rest, ?_, ?_⟩
            · rw [List.length_append, length_pread]
              omega
            · rw [FileDetails.readLoop, if_neg (fun h₀ => hk (pread_eq_nil_iff.mp h₀)),
                length_pread, hloop]

theorem length_readLoop_le (region : Bytes) (turns need : Nat) (sched : List PreadResult) :
    (FileDetails.readLoop region turns need sched).bytes.length ≤ need := by
  cases h : deliver region.length turns need sched with
  | none =>
      obtain ⟨bytes, rest, hlt, hloop⟩ := readLoop_fails h
      rw [hloop]
      exact Nat.le_of_lt hlt
  | some d =>
      obtain ⟨ps, rest⟩ := d
      rw [readLoop_delivers h]
      exact Nat.le_of_eq (length_flatten_take h)

/-! ## The two readers -/

namespace FileDetails

/-- The length header stored at `offset`, as `read_msg` understands it. -/
def headerAt (host : ByteOrder) (f : FileDetails) (offset : Nat) (ntohlFlag : Bool) : Nat :=
  let length := host.ofBytes ((f.content.drop offset).take 4)
  if ntohlFlag then host.ntohl length else length

/-- A read that tells its caller the truth: nothing, or the frame at
`offset`, whole and inside the buffer. -/
def TrueRead (host : ByteOrder) (f : FileDetails) (bufSize offset : Nat) (ntohlFlag : Bool)
    (r : Read) : Prop :=
  r.value ≤ 0 ∨
    (offset + 4 + f.headerAt host offset ntohlFlag ≤ f.content.length ∧
      r.value = 4 + f.headerAt host offset ntohlFlag ∧
      4 + f.headerAt host offset ntohlFlag ≤ bufSize ∧
      r.buffer.take (4 + f.headerAt host offset ntohlFlag)
        = (f.content.drop offset).take (4 + f.headerAt host offset ntohlFlag))

section Readers

variable {host : ByteOrder} {f : FileDetails} {buffer : Bytes} {bufSize offset : Nat}
  {ntohlFlag : Bool} {sched rest : List PreadResult} {ps : List Nat}

/-- The header, from the bytes that were read for it. -/
def header (host : ByteOrder) (ntohlFlag : Bool) (bytes : Bytes) : Nat :=
  if ntohlFlag then host.ntohl (host.ofBytes bytes) else host.ofBytes bytes

theorem headerAt_eq : f.headerAt host offset ntohlFlag
    = header host ntohlFlag ((f.content.drop offset).take 4) := rfl

theorem header_eq_zero_iff {bytes : Bytes} (h : bytes.length = 4) :
    header host ntohlFlag bytes = 0 ↔ ∀ b ∈ bytes, b = 0 := by
  rw [header]
  split
  · rw [ByteOrder.ntohl_ofBytes host h, ByteOrder.ofBytes_eq_zero_iff]
  · rw [ByteOrder.ofBytes_eq_zero_iff]

/-- What the zero byte stored first and the bytes read after it leave in the
buffer. -/
def withHeader (buffer bytes : Bytes) : Bytes := store (store buffer 0 [0]) 0 bytes

theorem withHeader_take (buffer : Bytes) {bytes : Bytes} (h : bytes.length = 4) :
    (withHeader buffer bytes).take 4 = bytes := by
  rw [withHeader, store, overlay_zero]
  exact List.take_left' h

theorem withHeader_stale {bytes : Bytes} {i : Nat} (hi : 0 < i) (h : bytes.length ≤ i) :
    (withHeader buffer bytes)[i]? = buffer[i]? := by
  rw [withHeader, store, store, overlay_zero, overlay_zero, List.getElem?_append_right h,
    List.getElem?_drop, show bytes.length + (i - bytes.length) = i by omega]
  obtain ⟨k, rfl⟩ : ∃ k, i = k + 1 := ⟨i - 1, by omega⟩
  rw [List.singleton_append, List.getElem?_cons_succ, List.getElem?_drop]
  congr 1
  exact Nat.add_comm _ _

theorem readBufferLength_delivers
    (h : deliver (f.content.drop offset).length 4 4 sched = some (ps, rest)) :
    f.readBufferLength host buffer offset ntohlFlag sched =
      ⟨header host ntohlFlag (ps.map (f.content.drop offset).take).flatten,
        withHeader buffer (ps.map (f.content.drop offset).take).flatten, rest⟩ := by
  have hlen : (ps.map (f.content.drop offset).take).flatten.length = 4 :=
    length_flatten_take h
  rw [readBufferLength, readLoop_delivers h]
  simp only [Bool.false_eq_true, if_false]
  have htake := withHeader_take buffer hlen
  rw [withHeader] at htake
  rw [htake]
  cases ntohlFlag with
  | true => rfl
  | false => rfl

variable (host buffer ntohlFlag) in
theorem readBufferLength_fails
    (h : deliver (f.content.drop offset).length 4 4 sched = none) :
    ∃ bytes rest, bytes.length < 4 ∧
      f.readBufferLength host buffer offset ntohlFlag sched
        = ⟨-1, withHeader buffer bytes, rest⟩ := by
  obtain ⟨bytes, rest, hlt, hloop⟩ := readLoop_fails h
  exact ⟨bytes, rest, hlt, by rw [readBufferLength, hloop]; rfl⟩

theorem readBuffer_delivers {pos length : Nat}
    (h : deliver (f.content.drop offset).length length length sched = some (ps, rest)) :
    f.readBuffer buffer pos length offset sched =
      ⟨length, store buffer pos (ps.map (f.content.drop offset).take).flatten, rest⟩ := by
  rw [readBuffer, readLoop_delivers h]
  rfl

theorem readBuffer_fails (buffer : Bytes) (pos : Nat) {length : Nat}
    (h : deliver (f.content.drop offset).length length length sched = none) :
    ∃ bytes rest, f.readBuffer buffer pos length offset sched = ⟨-1, store buffer pos bytes, rest⟩ := by
  obtain ⟨bytes, rest, -, hloop⟩ := readLoop_fails h
  exact ⟨bytes, rest, by rw [readBuffer, hloop]; rfl⟩

/-! ## The ends of `read_msg` -/

variable (host buffer bufSize ntohlFlag) in
theorem readMsg_no_header (h : deliver (f.content.drop offset).length 4 4 sched = none) :
    ∃ bytes rest, bytes.length < 4 ∧
      f.readMsg host buffer bufSize offset ntohlFlag sched
        = ⟨i64 offset, withHeader buffer bytes, rest⟩ := by
  obtain ⟨bytes, rest, hlt, hread⟩ := readBufferLength_fails host buffer ntohlFlag h
  refine ⟨bytes, rest, hlt, ?_⟩
  rw [readMsg, hread]
  rfl

theorem readMsg_zero (h : deliver (f.content.drop offset).length 4 4 sched = some (ps, rest))
    (hm : header host ntohlFlag (ps.map (f.content.drop offset).take).flatten = 0) :
    (f.readMsg host buffer bufSize offset ntohlFlag sched).value = 0 := by
  rw [readMsg, readBufferLength_delivers h, hm]
  rfl

variable (buffer) in
theorem readMsg_no_body
    (h : deliver (f.content.drop offset).length 4 4 sched = some (ps, rest)) {m : Nat}
    (hm : header host ntohlFlag (ps.map (f.content.drop offset).take).flatten = m)
    (hpos : 0 < m)
    (hbody : bufSize < m ∨ deliver (f.content.drop (offset + 4)).length m m rest = none) :
    (f.readMsg host buffer bufSize offset ntohlFlag sched).value = m ∧
      (f.readMsg host buffer bufSize offset ntohlFlag sched).buffer.take 4
        = (ps.map (f.content.drop offset).take).flatten := by
  have htake := withHeader_take buffer (length_flatten_take h)
  have hne : (m : Int) ≠ 0 := by omega
  have hnn : ¬ (m : Int) < 0 := by omega
  rw [readMsg, readBufferLength_delivers h]
  simp only [hm, if_neg hne, if_neg hnn]
  by_cases hbig : bufSize < m
  · rw [if_pos (by exact_mod_cast hbig)]
    exact ⟨rfl, htake⟩
  · obtain ⟨bytes, rest', hread⟩ := readBuffer_fails
      (withHeader buffer (ps.map (f.content.drop offset).take).flatten) 4 (hbody.resolve_left hbig)
    have hlen : 4 ≤ (withHeader buffer (ps.map (f.content.drop offset).take).flatten).length := by
      have := congrArg List.length htake
      rw [List.length_take, length_flatten_take h] at this
      omega
    rw [if_neg (by exact_mod_cast hbig), Int.toNat_natCast, hread]
    simp only [show ¬ (0 : Int) < -1 by decide, if_false, true_and]
    rw [store, take_overlay_of_le (Nat.le_refl _) hlen, htake]

variable (buffer) in
theorem readMsg_body
    (h : deliver (f.content.drop offset).length 4 4 sched = some (ps, rest)) {m : Nat}
    (hm : header host ntohlFlag (ps.map (f.content.drop offset).take).flatten = m)
    (hpos : 0 < m) (hfit : m ≤ bufSize) {qs : List Nat} {rest' : List PreadResult}
    (hbody : deliver (f.content.drop (offset + 4)).length m m rest = some (qs, rest')) :
    (f.readMsg host buffer bufSize offset ntohlFlag sched).value = 4 + m ∧
      (f.readMsg host buffer bufSize offset ntohlFlag sched).sched = rest' ∧
      (f.readMsg host buffer bufSize offset ntohlFlag sched).buffer.take (4 + m)
        = (ps.map (f.content.drop offset).take).flatten
          ++ (qs.map (f.content.drop (offset + 4)).take).flatten := by
  have htake := withHeader_take buffer (length_flatten_take h)
  have hne : (m : Int) ≠ 0 := by omega
  have hnn : ¬ (m : Int) < 0 := by omega
  have hlen : 4 ≤ (withHeader buffer (ps.map (f.content.drop offset).take).flatten).length := by
    have := congrArg List.length htake
    rw [List.length_take, length_flatten_take h] at this
    omega
  rw [readMsg, readBufferLength_delivers h]
  simp only [hm, if_neg hne, if_neg hnn, if_neg (show ¬ (bufSize : Int) < m by omega),
    Int.toNat_natCast, readBuffer_delivers hbody, if_pos (show (0 : Int) < m by omega), true_and]
  refine ⟨Int.add_comm _ _, ?_⟩
  have hB := length_flatten_take hbody
  rw [store, ← hB, take_overlay hlen, htake]

variable (buffer) in
theorem readMsg_ok {n : Nat} (hhead : f.headerAt host offset ntohlFlag = n) (hpos : 0 < n)
    (hfit : n ≤ bufSize) (hin : offset + 4 + n ≤ f.content.length) :
    (f.readMsg host buffer bufSize offset ntohlFlag []).value = 4 + n ∧
      (f.readMsg host buffer bufSize offset ntohlFlag []).sched = [] ∧
      (f.readMsg host buffer bufSize offset ntohlFlag []).buffer.take (4 + n)
        = (f.content.drop offset).take (4 + n) := by
  have hd : deliver (f.content.drop offset).length 4 4 [] = some ([4], []) :=
    deliver_nil (by decide) (by rw [List.length_drop]; omega)
  have hb : deliver (f.content.drop (offset + 4)).length n n [] = some ([n], []) :=
    deliver_nil hpos (by rw [List.length_drop]; omega)
  obtain ⟨hvalue, hrest, hbytes⟩ := readMsg_body buffer hd
    (by simpa [headerAt_eq] using hhead) hpos hfit hb
  refine ⟨hvalue, hrest, ?_⟩
  rw [hbytes, List.take_add, List.drop_drop]
  simp

variable (buffer) in
theorem readMsg_oversize {n : Nat} (hhead : f.headerAt host offset ntohlFlag = n) (hpos : 0 < n)
    (hbig : bufSize < n) (hin : offset + 4 ≤ f.content.length) :
    (f.readMsg host buffer bufSize offset ntohlFlag []).value = n := by
  have hd : deliver (f.content.drop offset).length 4 4 [] = some ([4], []) :=
    deliver_nil (by decide) (by rw [List.length_drop]; omega)
  exact (readMsg_no_body buffer hd (by simpa [headerAt_eq] using hhead) hpos (Or.inl hbig)).1

/-! ## The positive reads that are true -/

theorem header_of_trueRead {r : Read} {bytes : Bytes} (hpos : 0 < r.value)
    (hbytes : r.buffer.take 4 = bytes) (h : TrueRead host f bufSize offset ntohlFlag r) :
    bytes = (f.content.drop offset).take 4 ∧
      r.value = 4 + header host ntohlFlag bytes ∧ 4 + header host ntohlFlag bytes ≤ bufSize := by
  obtain ⟨-, hvalue, hfit, htake⟩ := h.resolve_left (Int.not_le.mpr hpos)
  have hb : bytes = (f.content.drop offset).take 4 := by
    have h₄ := congrArg (List.take 4) htake
    rwa [List.take_take, List.take_take, Nat.min_eq_left (Nat.le_add_right _ _), hbytes] at h₄
  rw [headerAt_eq, ← hb] at hvalue hfit
  exact ⟨hb, hvalue, hfit⟩

end Readers

/-- The reads of `read_msg` that are true, whatever the buffer held before:
in terms of the sizes of the pieces in which header and body arrive. -/
def ReadsTrue (host : ByteOrder) (f : FileDetails) (bufSize offset : Nat) (ntohlFlag : Bool)
    (sched : List PreadResult) : Prop :=
  match deliver (f.content.drop offset).length 4 4 sched with
  | none => offset = 0 ∨ 2 ^ 63 ≤ offset
  | some (ps, rest) =>
      (∀ p ∈ ps, ∀ b ∈ (f.content.drop offset).take p, b = 0) ∨
        (Repeats (f.content.drop offset) 0 ps ∧
          4 + f.headerAt host offset ntohlFlag ≤ bufSize ∧
          ∃ qs rest',
            deliver (f.content.drop (offset + 4)).length (f.headerAt host offset ntohlFlag)
              (f.headerAt host offset ntohlFlag) rest = some (qs, rest') ∧
            Repeats (f.content.drop (offset + 4)) 0 qs)

section Iff

variable {host : ByteOrder} {f : FileDetails} {bufSize offset : Nat} {ntohlFlag : Bool}
  {sched rest : List PreadResult} {ps : List Nat}

theorem flatten_eq_iff_repeats {region : Bytes} {turns need : Nat}
    (h : deliver region.length turns need sched = some (ps, rest)) :
    (ps.map region.take).flatten = region.take need ↔ Repeats region 0 ps := by
  obtain ⟨hsum, hall⟩ := deliver_sum h
  rw [← flatten_take_eq_iff hall, List.drop_zero, hsum]

/-- A failed header is reported as the position, which nothing but a sign
keeps from being taken for a length. -/
theorem trueRead_no_header_iff (hbuf : 4 ≤ bufSize) (hoff : offset < 2 ^ 64)
    (h : deliver (f.content.drop offset).length 4 4 sched = none) :
    (∀ buffer : Bytes, buffer.length = bufSize → TrueRead host f bufSize offset ntohlFlag
        (f.readMsg host buffer bufSize offset ntohlFlag sched)) ↔
      offset = 0 ∨ 2 ^ 63 ≤ offset := by
  have hsign : i64 offset ≤ 0 ↔ offset = 0 ∨ 2 ^ 63 ≤ offset := by
    rw [← Int.not_lt, i64_pos_iff hoff]
    omega
  rw [← hsign]
  constructor
  · intro hall
    -- a buffer whose fourth byte is not the one of the file
    let buffer : Bytes := List.replicate bufSize ((f.content.drop offset).getD 3 0 + 1)
    have hlen : buffer.length = bufSize := List.length_replicate
    obtain ⟨bytes, rest, hlt, hread⟩ := readMsg_no_header host buffer bufSize ntohlFlag h
    rcases hall buffer hlen with hvalue | ⟨hin, -, -, htake⟩
    · simp only [hread] at hvalue
      exact hvalue
    · exfalso
      rw [hread] at htake
      have hlast := congrArg (fun l => l[3]?) htake
      simp only [List.getElem?_take, if_pos (show 3 < 4 + f.headerAt host offset ntohlFlag by omega),
        withHeader_stale (by decide) (by omega : bytes.length ≤ 3)] at hlast
      obtain ⟨b, hb⟩ : ∃ b, (f.content.drop offset)[3]? = some b :=
        ⟨_, List.getElem?_eq_getElem (by rw [List.length_drop]; omega)⟩
      have hold : buffer[3]? = some (b + 1) := by
        rw [List.getElem?_replicate, if_pos (by omega), List.getD, hb]
        rfl
      rw [hold, hb] at hlast
      have hone : (1 : UInt8) = 0 := by simpa using Option.some.inj hlast
      exact absurd hone (by decide)
  · intro hvalue buffer _
    obtain ⟨bytes, rest, -, hread⟩ := readMsg_no_header host buffer bufSize ntohlFlag h
    left
    simp only [hread]
    exact hvalue

/-- With a header that is not zero, a true read is one whose header and body
are both what the file holds. -/
theorem trueRead_body_iff
    (h : deliver (f.content.drop offset).length 4 4 sched = some (ps, rest)) {m : Nat}
    (hm : header host ntohlFlag (ps.map (f.content.drop offset).take).flatten = m)
    (hpos : 0 < m) :
    (∀ buffer : Bytes, buffer.length = bufSize → TrueRead host f bufSize offset ntohlFlag
        (f.readMsg host buffer bufSize offset ntohlFlag sched)) ↔
      (ps.map (f.content.drop offset).take).flatten = (f.content.drop offset).take 4 ∧
        4 + f.headerAt host offset ntohlFlag ≤ bufSize ∧
        ∃ qs rest',
          deliver (f.content.drop (offset + 4)).length (f.headerAt host offset ntohlFlag)
            (f.headerAt host offset ntohlFlag) rest = some (qs, rest') ∧
          Repeats (f.content.drop (offset + 4)) 0 qs := by
  have hm₄ : (ps.map (f.content.drop offset).take).flatten = (f.content.drop offset).take 4 →
      f.headerAt host offset ntohlFlag = m := by
    intro hH
    rw [headerAt_eq, ← hH, hm]
  constructor
  · intro hall
    have htrue := hall (List.replicate bufSize 0) List.length_replicate
    by_cases hbody : bufSize < m ∨ deliver (f.content.drop (offset + 4)).length m m rest = none
    · obtain ⟨hvalue, htake⟩ := readMsg_no_body (List.replicate bufSize 0) h hm hpos hbody
      obtain ⟨-, hfour, -⟩ := header_of_trueRead (by rw [hvalue]; omega) htake htrue
      rw [hvalue, hm] at hfour
      omega
    · obtain ⟨hfit, hsome⟩ := not_or.mp hbody
      obtain ⟨⟨qs, rest'⟩, hd⟩ := Option.ne_none_iff_exists'.mp hsome
      obtain ⟨hvalue, -, hbytes⟩ := readMsg_body (List.replicate bufSize 0) h hm hpos
        (Nat.not_lt.mp hfit) hd
      have htake := congrArg (List.take 4) hbytes
      rw [List.take_take, Nat.min_eq_left (Nat.le_add_right _ _),
        List.take_left' (length_flatten_take h)] at htake
      obtain ⟨hH, -, hroom⟩ := header_of_trueRead (by rw [hvalue]; omega) htake htrue
      rw [hm] at hroom
      obtain ⟨-, -, -, hslice⟩ := htrue.resolve_left (by rw [hvalue]; omega)
      rw [hm₄ hH]
      refine ⟨hH, hroom, qs, rest', hd, ?_⟩
      rw [hm₄ hH, hbytes, List.take_add, List.drop_drop, hH] at hslice
      exact (flatten_eq_iff_repeats hd).mp (List.append_cancel_left hslice)
  · rintro ⟨hH, hroom, qs, rest', hd, hrep⟩ buffer -
    rw [hm₄ hH] at hroom hd
    obtain ⟨hvalue, -, hbytes⟩ := readMsg_body buffer h hm hpos
      (by omega : m ≤ bufSize) hd
    have hB := (flatten_eq_iff_repeats hd).mpr hrep
    have hlen := congrArg List.length hB
    rw [length_flatten_take hd, List.length_take, List.length_drop] at hlen
    refine Or.inr ?_
    rw [hm₄ hH]
    refine ⟨by omega, hvalue, hroom, ?_⟩
    rw [hbytes, hH, hB, List.take_add, List.drop_drop]

/-- The calls of `read_msg` whose positive value is a true read, whatever the
buffer held. -/
theorem readMsg_true_iff (hbuf : 4 ≤ bufSize) (hoff : offset < 2 ^ 64) :
    (∀ buffer : Bytes, buffer.length = bufSize → TrueRead host f bufSize offset ntohlFlag
        (f.readMsg host buffer bufSize offset ntohlFlag sched)) ↔
      ReadsTrue host f bufSize offset ntohlFlag sched := by
  rw [ReadsTrue]
  cases h : deliver (f.content.drop offset).length 4 4 sched with
  | none => exact trueRead_no_header_iff hbuf hoff h
  | some d =>
      obtain ⟨ps, rest⟩ := d
      simp only
      have hlen := length_flatten_take h
      obtain ⟨m, hm⟩ : ∃ m,
          header host ntohlFlag (ps.map (f.content.drop offset).take).flatten = m := ⟨_, rfl⟩
      have hzero : m = 0 ↔ ∀ p ∈ ps, ∀ b ∈ (f.content.drop offset).take p, b = 0 := by
        rw [← hm, header_eq_zero_iff hlen]
        simp only [List.mem_flatten, List.mem_map, forall_exists_index, and_imp,
          forall_apply_eq_imp_iff₂]
        exact ⟨fun h p hp b hb => h b p hp hb, fun h b p hp hb => h p hp b hb⟩
      by_cases hm₀ : m = 0
      · refine iff_of_true (fun buffer _ => Or.inl ?_) (Or.inl (hzero.mp hm₀))
        rw [readMsg_zero h (hm.trans hm₀)]
      rw [← hzero, or_iff_right hm₀, ← flatten_eq_iff_repeats h]
      have hpos : 0 < m := Nat.pos_of_ne_zero hm₀
      exact trueRead_body_iff h hm hpos

end Iff

/-- Two frames, of four bytes and of one byte. -/
def twoFrames : FileDetails :=
  ⟨[4, 0, 0, 0] ++ ascii "abcd" ++ [1, 0, 0, 0] ++ ascii "x", 13, ascii "/tmp/t_0.txt", 13, 2⟩

theorem readMsg_true_iff_twoFrames :
    TrueRead .little twoFrames 64 8 false
      (twoFrames.readMsg .little (List.replicate 64 7) 64 8 false [.got 4, .got 1]) := by
  have hreads : ReadsTrue .little twoFrames 64 8 false [.got 4, .got 1] :=
    Or.inr ⟨by decide, by decide, [1], [], by decide, by decide⟩
  exact (readMsg_true_iff (by decide) (by decide)).mpr hreads (List.replicate 64 7)
    List.length_replicate

/-- The second frame is asked for and `pread` fails: 8 is returned, the
position. -/
theorem readMsg_not_true :
    ¬ ∀ (host : ByteOrder) (f : FileDetails) (buffer : Bytes) (bufSize offset : Nat)
        (ntohlFlag : Bool) (sched : List PreadResult),
        4 ≤ bufSize → bufSize < 2 ^ 32 → offset < 2 ^ 64 → buffer.length = bufSize →
        TrueRead host f bufSize offset ntohlFlag
          (f.readMsg host buffer bufSize offset ntohlFlag sched) := by
  intro h
  have hread := h .little twoFrames (List.replicate 8 7) 8 8 false [.error]
    (by decide) (by decide) (by decide) (by decide)
  have hvalue : (twoFrames.readMsg .little (List.replicate 8 7) 8 8 false [.error]).value = 8 := by
    decide
  obtain ⟨-, hfive, -⟩ := hread.resolve_left (by rw [hvalue]; decide)
  rw [hvalue] at hfive
  exact absurd hfive (by decide)

end FileDetails

end LightQ
