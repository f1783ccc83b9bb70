/-
# `Utils.Zlib` — the loops around zlib (`utils.h`)

`zlib_compress_buffer` calls `deflate` with windows of 128 KiB for its output:
with `Z_NO_FLUSH` until the input is consumed, then with `Z_FINISH` until the
stream ends.  `zlib_decompress_buffer` calls `inflate` with windows of 10 bytes.

zlib is a parameter, `Zlib`, and `Zlib.Contract` is what its manual says of these
calls.  A window is full, or all of what is left has been written: this makes the
loops append every byte once, and `left` (`Lib.Streaming`) is what ends them.
`avail_in` has 32 bits and the sizes have 64, so `zlib_decompress_buffer` sees
what is behind a stream only up to a multiple of 2³²: `zlib_buffers_round_trip_iff`.

Of compression there are two loops.  The first consumes the input
(`feed_returns`), the second ends the stream (`finish_returns`), both by induction
on what is left to move.  What a call produces goes behind the used part of the
window (`Written.moved`); a window that is full is pushed to the result, and what is
pushed is what has been produced (`take_dBuffer`, `flushWindow_eq`).

Of decompression the window is the front of the data, a multiple of 2³² being left
out (`zlibDecompressBuffer_eq`).  Where the whole stream is in it, the loop comes to
its end and returns true if nothing is behind it (`inflateLoop_stream`); where the
stream breaks off, the loop ends with an error (`inflateLoop_part`).  As many bytes
are seen of a stream with something behind it as there are in it, if they are a
multiple of 2³² too many (`take_stream_iff`), and such data are taken for the stream
(`zlibDecompressBuffer_more`).

Any code whose streams can be told from their beginnings gives a codec that keeps
the contract, one that waits until it has seen all of its input (`Zlib.lazy`).  Of
two such codes one gives the empty text the stream that zlib makes of it, which is
enough to show what 2³² bytes behind a stream do; the other one also has a text
that does get shorter.
-/
import LightQ.Lib.Streaming
import LightQ.Storage.FileDetails

namespace LightQ

open Overlay Streaming MachineInt

/-- What the functions of zlib return. -/
inductive ZResult where
  | ok
  | streamEnd
  | needDict
  | errno
  | streamError
  | dataError
  | memError
  | bufError
  | versionError
deriving DecidableEq, Repr

/-- `Z_NO_FLUSH` and `Z_FINISH`. -/
inductive Flush where
  | noFlush
  | finish
deriving DecidableEq, Repr

/-- zlib: `deflateInit` at `Z_BEST_COMPRESSION`, and `inflate` with `Z_NO_FLUSH`.  A call
is given the `avail_in` bytes at `next_in`, and `avail_out`. -/
structure Zlib where
  Deflate : Type
  Inflate : Type
  deflateInit : Deflate
  deflate : Flush → Deflate → Bytes → Nat → Call Deflate UInt8 ZResult
  inflateInit : ZResult × Inflate
  inflate : Inflate → Bytes → Nat → Call Inflate UInt8 ZResult
  inflateEnd : Inflate → ZResult

/-! ## `zlib_compress_buffer` -/

/-- `BUFSIZE`. -/
def bufsize : Nat := 128 * 1024

/-- The locals of `zlib_compress_buffer`; `nextIn` is the `avail_in` bytes at
`next_in`, and `next_out` is always `BUFSIZE - avail_out` behind `temp_buffer`. -/
structure Compressing (z : Zlib) where
  strm : z.Deflate
  nextIn : Bytes
  availOut : Nat
  tempBuffer : Bytes
  buffer : Bytes

namespace Compressing

variable {z : Zlib}

/-- `deflate(&strm, flush)`. -/
def call (c : Compressing z) (flush : Flush) : Call z.Deflate UInt8 ZResult :=
  z.deflate flush c.strm c.nextIn c.availOut

/-- What it does to the locals. -/
def moved (c : Compressing z) (call : Call z.Deflate UInt8 ZResult) : Compressing z :=
  { c with
    strm := call.state
    nextIn := c.nextIn.drop call.consumed
    availOut := c.availOut - call.produced.length
    tempBuffer := store c.tempBuffer (bufsize - c.availOut) call.produced }

/-- `if (strm.avail_out == 0)`: the window goes to the buffer and is used again. -/
def flushWindow (c : Compressing z) : Compressing z :=
  if c.availOut = 0 then
    { c with buffer := c.buffer ++ c.tempBuffer.take bufsize, availOut := bufsize }
  else c

/-- `while (strm.avail_in != 0)`; the flag is false where it returns false. -/
def feed : Nat → Compressing z → Option (Bool × Compressing z)
  | 0, _ => none
  | fuel + 1, c =>
      if c.nextIn = [] then some (true, c)
      else
        let call := c.call .noFlush
        if call.res ≠ .ok then some (false, c.moved call)
        else feed fuel (c.moved call).flushWindow

/-- `while (deflate_res == Z_OK)`. -/
def finish : Nat → Compressing z → Option (ZResult × Compressing z)
  | 0, _ => none
  | fuel + 1, c =>
      let c := c.flushWindow
      let call := c.call .finish
      if call.res = .ok then finish fuel (c.moved call) else some (call.res, c.moved call)

end Compressing

namespace Utils

/-- `zlib_compress_buffer`: what it returns, and `out_data`. -/
def zlibCompressBuffer (z : Zlib) (fuel : Nat) (inData tempBuffer outData : Bytes) :
    Option (Bool × Bytes) := do
  let (fed, c) ← Compressing.feed fuel
    ⟨z.deflateInit, inData.take (u32 inData.length), bufsize, tempBuffer, []⟩
  if !fed then return (false, outData)
  let (res, c) ← c.finish fuel
  if res ≠ .streamEnd then return (false, outData)
  return (true, c.buffer ++ c.tempBuffer.take (bufsize - c.availOut))

/-! ## `zlib_decompress_buffer` -/

/-- The loop of `zlib_decompress_buffer`, and what follows it; `nextIn` is the
`avail_in` bytes at `next_in`. -/
def inflateLoop (z : Zlib) : Nat → z.Inflate → Bytes → Bytes → Option (Bool × Bytes)
  | 0, _, _, _ => none
  | fuel + 1, dStream, nextIn, outData =>
      let call := z.inflate dStream nextIn 10
      let nextIn := nextIn.drop call.consumed
      let availOut := 10 - call.produced.length
      let dBuffer := store (List.replicate 10 0) 0 call.produced
      let pushed := outData ++ dBuffer.take (10 - availOut)
      if call.res = .streamEnd then
        if nextIn = [] then some (decide (z.inflateEnd call.state = .ok), pushed)
        else some (false, pushed)
      else if call.res ≠ .ok then some (false, outData)
      else inflateLoop z fuel call.state nextIn pushed

/-- `zlib_decompress_buffer`: what it returns, and `out_data`. -/
def zlibDecompressBuffer (z : Zlib) (fuel : Nat) (inData : Bytes) : Option (Bool × Bytes) :=
  if z.inflateInit.1 ≠ .ok then some (false, [])
  else inflateLoop z fuel z.inflateInit.2 (inData.take (u32 inData.length)) []

end Utils

/-! ## What the manual says -/

namespace Zlib

variable (z : Zlib)

/-- What calls with `Z_NO_FLUSH` come to. -/
def Fed : z.Deflate → Bytes → Bytes → Prop :=
  Reached (z.deflate .noFlush) .ok z.deflateInit [] []

/-- What calls with `Z_FINISH` come to from there. -/
def Finishing (s : z.Deflate) (i o : Bytes) : z.Deflate → Bytes → Bytes → Prop :=
  Reached (z.deflate .finish) .ok s i o

/-- What calls of `inflate` come to. -/
def Inflated : z.Inflate → Bytes → Bytes → Prop :=
  Reached z.inflate .ok z.inflateInit.2 [] []

/-- The streaming contract; `stream x` is the complete deflate stream of `x`.  A call that
goes on stops where the window is consumed or the room is used up, and what is produced is
the next part of the output. -/
structure Contract (stream : Bytes → Bytes) : Prop where
  deflate_fits : ∀ flush s window room, (z.deflate flush s window room).Fits window room
  deflate_feeds : ∀ {s i o window room}, z.Fed s i o → window ≠ [] → 0 < room →
    (z.deflate .noFlush s window room).res = .ok ∧
      ((z.deflate .noFlush s window room).consumed = window.length ∨
        (z.deflate .noFlush s window room).produced.length = room)
  deflate_prefix : ∀ {s i o}, z.Fed s i o → ∀ rest, o <+: stream (i ++ rest)
  deflate_finishes : ∀ {s₀ i o₀ s o room}, z.Fed s₀ i o₀ → z.Finishing s₀ i o₀ s i o →
    0 < room →
    ((z.deflate .finish s [] room).res = .streamEnd ∧
        o ++ (z.deflate .finish s [] room).produced = stream i) ∨
      ((z.deflate .finish s [] room).res = .ok ∧
        (z.deflate .finish s [] room).produced.length = room ∧
        o ++ (z.deflate .finish s [] room).produced <+: stream i)
  inflate_init : z.inflateInit.1 = .ok
  inflate_fits : ∀ s window room, (z.inflate s window room).Fits window room
  inflate_ends : ∀ {x s i o window room}, z.Inflated s i o → i <+: stream x → o <+: x →
    stream x <+: i ++ window → 0 < room →
    ((z.inflate s window room).res = .streamEnd ∧
        i ++ window.take (z.inflate s window room).consumed = stream x ∧
        o ++ (z.inflate s window room).produced = x ∧
        z.inflateEnd (z.inflate s window room).state = .ok) ∨
      ((z.inflate s window room).res = .ok ∧
        (z.inflate s window room).produced.length = room ∧
        i ++ window.take (z.inflate s window room).consumed <+: stream x ∧
        o ++ (z.inflate s window room).produced <+: x)
  inflate_waits : ∀ {x s i o window room}, z.Inflated s i o → o <+: x →
    i ++ window <+: stream x → i ++ window ≠ stream x → 0 < room →
    (z.inflate s window room).res = .bufError ∨
      ((z.inflate s window room).res = .ok ∧
        (0 < (z.inflate s window room).consumed ∨ (z.inflate s window room).produced ≠ []) ∧
        o ++ (z.inflate s window room).produced <+: x)

end Zlib

/-! ## The loop of `zlib_decompress_buffer` -/

section Inflate

variable {z : Zlib} {stream : Bytes → Bytes} {s : z.Inflate} {i o w x : Bytes}

theorem take_dBuffer {produced : Bytes} (h : produced.length ≤ 10) :
    (store (List.replicate 10 0) 0 produced).take (10 - (10 - produced.length)) = produced := by
  rw [store, overlay_zero, Nat.sub_sub_self h]
  exact List.take_left

theorem inflateLoop_ok (h : z.Contract stream) (hres : (z.inflate s w 10).res = .ok) (fuel : Nat) :
    Utils.inflateLoop z (fuel + 1) s w o
      = Utils.inflateLoop z fuel (z.inflate s w 10).state (w.drop (z.inflate s w 10).consumed)
          (o ++ (z.inflate s w 10).produced) := by
  rw [Utils.inflateLoop]
  simp only [hres, take_dBuffer (h.inflate_fits s w 10).length_produced_le]
  rfl

theorem inflateLoop_streamEnd (h : z.Contract stream)
    (hres : (z.inflate s w 10).res = .streamEnd)
    (hend : z.inflateEnd (z.inflate s w 10).state = .ok) (fuel : Nat) :
    Utils.inflateLoop z (fuel + 1) s w o
      = some (decide (w.drop (z.inflate s w 10).consumed = []),
          o ++ (z.inflate s w 10).produced) := by
  rw [Utils.inflateLoop]
  simp only [hres, hend, take_dBuffer (h.inflate_fits s w 10).length_produced_le, if_true]
  split
  · rename_i hnone
    rw [decide_eq_true hnone]
    rfl
  · rename_i hsome
    rw [decide_eq_false hsome]

theorem inflateLoop_bufError (hres : (z.inflate s w 10).res = .bufError) (fuel : Nat) :
    Utils.inflateLoop z (fuel + 1) s w o = some (false, o) := by
  rw [Utils.inflateLoop]
  simp only [hres]
  rfl

/-- Where the whole stream is in the window, the loop comes to its end; it returns true if
nothing is behind it.  The induction is on what is left to move. -/
theorem inflateLoop_stream (h : z.Contract stream) (hs : z.Inflated s i o) (hi : i <+: stream x)
    (ho : o <+: x) (hw : stream x <+: i ++ w) :
    Returns (fun fuel => Utils.inflateLoop z fuel s w o) (decide (i ++ w = stream x), x) := by
  induction hleft : left w o x using Nat.strongRecOn generalizing s i o w with
  | ind n ih =>
      obtain ⟨hres, hconsumed, hproduced, hend⟩ | ⟨hres, hfull, hi', ho'⟩ :=
        h.inflate_ends hs hi ho hw (by omega : 0 < 10)
      · have hdrop : w.drop (z.inflate s w 10).consumed = [] ↔ i ++ w = stream x := by
          have htotal := take_append_drop_append (rfl : i ++ w = i ++ w)
            (z.inflate s w 10).consumed
          rw [hconsumed] at htotal
          rw [← htotal, List.append_right_eq_self]
        refine Returns.now fun fuel => ?_
        rw [inflateLoop_streamEnd h hres hend, hproduced, decide_eq_decide.mpr hdrop]
      · -- The room is used up: there is less to produce.
        have hfits := h.inflate_fits s w 10
        have hmore := left_lt hfits.consumed_le ho' (Or.inr (List.length_pos_iff.mp (by omega)))
        have htotal := take_append_drop_append (rfl : i ++ w = i ++ w)
          (z.inflate s w 10).consumed
        have hlater := ih _ (hleft ▸ hmore) (hs.next w 10 hres) hi' ho' (htotal ▸ hw) rfl
        rw [htotal] at hlater
        exact hlater.later (inflateLoop_ok h hres)

theorem inflateLoop_part (h : z.Contract stream) (hs : z.Inflated s i o) (ho : o <+: x)
    (hw : i ++ w <+: stream x) (hne : i ++ w ≠ stream x) :
    ∃ out, Returns (fun fuel => Utils.inflateLoop z fuel s w o) (false, out) := by
  induction hleft : left w o x using Nat.strongRecOn generalizing s i o w with
  | ind n ih =>
      obtain hres | ⟨hres, hmoves, ho'⟩ := h.inflate_waits hs ho hw hne (by omega : 0 < 10)
      · exact ⟨o, Returns.now (inflateLoop_bufError hres)⟩
      · have hmore := left_lt (h.inflate_fits s w 10).consumed_le ho' hmoves
        have htotal := take_append_drop_append (rfl : i ++ w = i ++ w)
          (z.inflate s w 10).consumed
        obtain ⟨out, hlater⟩ :=
          ih _ (hleft ▸ hmore) (hs.next w 10 hres) ho' (htotal ▸ hw) (htotal ▸ hne) rfl
        exact ⟨out, hlater.later (inflateLoop_ok h hres)⟩

end Inflate

/-! ## The loops of `zlib_compress_buffer` -/

namespace Compressing

variable {z : Zlib} {stream : Bytes → Bytes} {c : Compressing z} {i o x o₀ : Bytes}
  {s₀ : z.Deflate} {flush : Flush}

/-- The buffer and the used part of the window are what has been produced. -/
structure Written (c : Compressing z) (o : Bytes) : Prop where
  room : c.availOut ≤ bufsize
  used : bufsize - c.availOut ≤ c.tempBuffer.length
  total : c.buffer ++ c.tempBuffer.take (bufsize - c.availOut) = o

theorem Written.flushWindow (h : c.Written o) :
    c.flushWindow.Written o ∧ 0 < c.flushWindow.availOut := by
  rw [Compressing.flushWindow]
  by_cases hnone : c.availOut = 0
  · have htotal := h.total
    rw [hnone, Nat.sub_zero] at htotal
    rw [if_pos hnone]
    refine ⟨⟨Nat.le_refl _, ?_, ?_⟩, show 0 < bufsize from by decide⟩
    · rw [Nat.sub_self]
      exact Nat.zero_le _
    · rw [Nat.sub_self, List.take_zero, List.append_nil]
      exact htotal
  · rw [if_neg hnone]
    exact ⟨h, Nat.pos_of_ne_zero hnone⟩

theorem flushWindow_eq (c : Compressing z) :
    c.flushWindow.strm = c.strm ∧ c.flushWindow.nextIn = c.nextIn := by
  rw [Compressing.flushWindow]
  split
  · exact ⟨rfl, rfl⟩
  · exact ⟨rfl, rfl⟩

theorem Written.moved (h : z.Contract stream) (hc : c.Written o) (flush : Flush) :
    (c.moved (c.call flush)).Written (o ++ (c.call flush).produced) := by
  have hfits : (c.call flush).produced.length ≤ c.availOut :=
    (h.deflate_fits flush c.strm c.nextIn c.availOut).length_produced_le
  have hroom := hc.room
  have hused := hc.used
  have hsub : bufsize - (c.availOut - (c.call flush).produced.length)
      = bufsize - c.availOut + (c.call flush).produced.length := by omega
  refine ⟨Nat.le_trans (Nat.sub_le _ _) hroom, ?_, ?_⟩
  · show bufsize - (c.availOut - _) ≤ (store _ _ _).length
    rw [hsub, store]
    by_cases hne : (c.call flush).produced = []
    · rw [hne]
      exact hused
    · rw [length_overlay hne]
      exact Nat.le_max_right _ _
  · show c.buffer ++ (store _ _ _).take (bufsize - (c.availOut - _)) = _
    rw [hsub, store, take_overlay hused, ← List.append_assoc, hc.total]

/-- The first loop consumes the input.  The induction is on what is left to move. -/
theorem feed_returns (h : z.Contract stream) (hs : z.Fed c.strm i o) (hin : i ++ c.nextIn = x)
    (hc : c.Written o) (hroom : 0 < c.availOut) :
    ∃ c' o', Returns (fun fuel => feed fuel c) (true, c') ∧ z.Fed c'.strm x o' ∧
      c'.nextIn = [] ∧ c'.Written o' := by
  induction hleft : left c.nextIn o (stream x) using Nat.strongRecOn generalizing c i o with
  | ind n ih =>
      by_cases hnone : c.nextIn = []
      · refine ⟨c, o, Returns.now fun fuel => ?_, ?_, hnone, hc⟩
        · rw [feed, if_pos hnone]
        · rw [← hin, hnone, List.append_nil]
          exact hs
      · obtain ⟨hres, hstops⟩ := h.deflate_feeds hs hnone hroom
        have hfits := h.deflate_fits .noFlush c.strm c.nextIn c.availOut
        have hnext := hs.next c.nextIn c.availOut hres
        have htotal := take_append_drop_append hin (c.call .noFlush).consumed
        have hprefix := h.deflate_prefix hnext (c.nextIn.drop (c.call .noFlush).consumed)
        rw [← Compressing.call, htotal] at hprefix
        have hmoves : 0 < (c.call .noFlush).consumed ∨ (c.call .noFlush).produced ≠ [] := by
          obtain hall | hfull := hstops
          · exact Or.inl (Nat.lt_of_lt_of_eq (List.length_pos_iff.mpr hnone) hall.symm)
          · exact Or.inr (List.length_pos_iff.mp (Nat.lt_of_lt_of_eq hroom hfull.symm))
        have hmore := left_lt hfits.consumed_le hprefix hmoves
        obtain ⟨hwritten, hagain⟩ := (hc.moved h .noFlush).flushWindow
        obtain ⟨hstrm, hnextIn⟩ := flushWindow_eq (c.moved (c.call .noFlush))
        obtain ⟨c', o', hreturns, hend⟩ := ih _ (hleft ▸ hmore) (by rw [hstrm]; exact hnext)
          (by rw [hnextIn]; exact htotal) hwritten hagain (by rw [hnextIn]; rfl)
        refine ⟨c', o', hreturns.later fun fuel => ?_, hend⟩
        rw [feed, if_neg hnone]
        exact if_neg (not_not_intro hres)

/-- The second loop ends the stream. -/
theorem finish_returns (h : z.Contract stream) (hfed : z.Fed s₀ x o₀)
    (hs : z.Finishing s₀ x o₀ c.strm x o) (hin : c.nextIn = []) (hc : c.Written o) :
    ∃ c', Returns (fun fuel => finish fuel c) (.streamEnd, c') ∧ c'.Written (stream x) := by
  induction hleft : left ([] : Bytes) o (stream x) using Nat.strongRecOn generalizing c o with
  | ind n ih =>
      obtain ⟨hwritten, hroom⟩ := hc.flushWindow
      obtain ⟨hstrm, hnextIn⟩ := flushWindow_eq c
      rw [hin] at hnextIn
      rw [← hstrm] at hs
      have hcall : c.flushWindow.call .finish
          = z.deflate .finish c.flushWindow.strm [] c.flushWindow.availOut := by
        rw [Compressing.call, hnextIn]
      have hmoved := hwritten.moved h .finish
      have hfinishes := h.deflate_finishes hfed hs hroom
      rw [← hcall] at hfinishes
      obtain ⟨hres, hall⟩ | ⟨hres, hfull, hprefix⟩ := hfinishes
      · rw [hall] at hmoved
        refine ⟨_, Returns.now fun fuel => ?_, hmoved⟩
        rw [finish]
        simp only [hres]
        rfl
      · -- The window is full: there is less to produce.
        have hmore := left_lt (Nat.le_refl ([] : Bytes).length) hprefix
          (Or.inr (List.length_pos_iff.mp (Nat.lt_of_lt_of_eq hroom hfull.symm)))
        have hnext := hs.next [] c.flushWindow.availOut (hcall ▸ hres)
        rw [← hcall, List.take_nil, List.append_nil] at hnext
        have hagain : z.Finishing s₀ x o₀ (c.flushWindow.moved (c.flushWindow.call .finish)).strm x
            (o ++ (c.flushWindow.call .finish).produced) := hnext
        have hdrop : (c.flushWindow.moved (c.flushWindow.call .finish)).nextIn = [] := by
          show c.flushWindow.nextIn.drop _ = []
          rw [hnextIn, List.drop_nil]
        obtain ⟨c', hreturns, hend⟩ := ih _ (hleft ▸ hmore) hagain hdrop hmoved rfl
        refine ⟨c', hreturns.later fun fuel => ?_, hend⟩
        rw [finish]
        exact if_pos hres

end Compressing

/-! ## The round trip -/

section RoundTrip

variable {z : Zlib} {stream : Bytes → Bytes} {x y e : Bytes}

theorem zlibCompressBuffer_returns (h : z.Contract stream) (hx : x.length < 2 ^ 32)
    (tempBuffer outData : Bytes) :
    Returns (fun fuel => Utils.zlibCompressBuffer z fuel x tempBuffer outData)
      (true, stream x) := by
  have hin : x.take (u32 x.length) = x := by rw [u32_of_lt hx, List.take_length]
  have hwritten : Compressing.Written (z := z) ⟨z.deflateInit, x, bufsize, tempBuffer, []⟩ [] := by
    refine ⟨Nat.le_refl _, ?_, ?_⟩
    · rw [Nat.sub_self]
      exact Nat.zero_le _
    · rw [Nat.sub_self]
      rfl
  have hstart : z.Fed z.deflateInit [] [] := Reached.start
  obtain ⟨c, o, ⟨n, hfeed⟩, hfed, hnone, hc⟩ := Compressing.feed_returns h hstart
    (List.nil_append x) hwritten (show 0 < bufsize from by decide)
  obtain ⟨c', ⟨m, hfinish⟩, hc'⟩ := Compressing.finish_returns h hfed Reached.start hnone hc
  refine ⟨max n m, fun fuel hfuel => ?_⟩
  show Utils.zlibCompressBuffer z fuel x tempBuffer outData = _
  have hfirst := hfeed fuel (Nat.le_trans (Nat.le_max_left n m) hfuel)
  have hsecond := hfinish fuel (Nat.le_trans (Nat.le_max_right n m) hfuel)
  dsimp only at hfirst hsecond
  rw [Utils.zlibCompressBuffer, hin, hfirst]
  simp only [Option.bind_eq_bind, Option.bind_some, Bool.not_true, Bool.false_eq_true, if_false,
    hsecond, ne_eq, not_true_eq_false, hc'.total]
  rfl

theorem zlibDecompressBuffer_eq (h : z.Contract stream) (fuel : Nat) (inData : Bytes) :
    Utils.zlibDecompressBuffer z fuel inData
      = Utils.inflateLoop z fuel z.inflateInit.2 (inData.take (u32 inData.length)) [] := by
  rw [Utils.zlibDecompressBuffer, if_neg (not_not_intro h.inflate_init)]

theorem zlibDecompressBuffer_part (h : z.Contract stream)
    (hw : x.take (u32 x.length) <+: stream y) (hne : x.take (u32 x.length) ≠ stream y) :
    ∃ out, Returns (fun fuel => Utils.zlibDecompressBuffer z fuel x) (false, out) := by
  obtain ⟨out, hreturns⟩ := inflateLoop_part h Reached.start List.nil_prefix hw hne
  exact ⟨out, by simpa only [zlibDecompressBuffer_eq h] using hreturns⟩

theorem zlibDecompressBuffer_stream (h : z.Contract stream)
    (hw : stream y <+: x.take (u32 x.length)) :
    Returns (fun fuel => Utils.zlibDecompressBuffer z fuel x)
      (decide (x.take (u32 x.length) = stream y), y) := by
  have hreturns := inflateLoop_stream h Reached.start List.nil_prefix List.nil_prefix hw
  simpa only [zlibDecompressBuffer_eq h, List.nil_append] using hreturns

end RoundTrip

/-- What the two functions are to do with `x`, its stream, the parts of the stream, and
the stream with `e` behind it. -/
structure RoundTrip (z : Zlib) (stream : Bytes → Bytes) (x e tempBuffer outData : Bytes) : Prop where
  compresses : x.length < 2 ^ 32 → (stream x).length < 2 ^ 32 →
    Returns (fun fuel => Utils.zlibCompressBuffer z fuel x tempBuffer outData) (true, stream x)
  decompresses : x.length < 2 ^ 32 → (stream x).length < 2 ^ 32 →
    Returns (fun fuel => Utils.zlibDecompressBuffer z fuel (stream x)) (true, x)
  refuses_part : ∀ part, part <+: stream x → part ≠ stream x →
    ∃ out, Returns (fun fuel => Utils.zlibDecompressBuffer z fuel part) (false, out)
  refuses_more : e ≠ [] →
    ∃ out, Returns (fun fuel => Utils.zlibDecompressBuffer z fuel (stream x ++ e)) (false, out)

/-! ## A zlib that waits

It produces nothing before it has consumed all that it needs.  This can be done with any
code in which a stream can be told from what is behind it; the state is what has been
consumed, and the number of bytes produced. -/

def lazyDeflate (stream : Bytes → Bytes) : Flush → Bytes × Nat → Bytes → Nat →
    Call (Bytes × Nat) UInt8 ZResult
  | .noFlush, (i, done), window, room =>
      ⟨if window = [] ∨ room = 0 then .bufError else .ok, window.length, [], (i ++ window, done)⟩
  | .finish, (i, done), window, room =>
      let rest := (stream (i ++ window)).drop done
      ⟨if rest.length ≤ room then .streamEnd else .ok, window.length, rest.take room,
        (i ++ window, done + (rest.take room).length)⟩

def lazyInflate (parse : Bytes → Option (Bytes × Nat)) :
    Bytes × Nat → Bytes → Nat → Call (Bytes × Nat) UInt8 ZResult
  | (i, done), window, room =>
      match parse (i ++ window) with
      | none => ⟨if window = [] then .bufError else .ok, window.length, [], (i ++ window, done)⟩
      | some (x, length) =>
          let rest := x.drop done
          let consumed := min (length - i.length) window.length
          ⟨if rest.length ≤ room then .streamEnd else .ok, consumed, rest.take room,
            (i ++ window.take consumed, done + (rest.take room).length)⟩

/-- With `stream` as the code, and `parse` to read it back. -/
def Zlib.lazy (stream : Bytes → Bytes) (parse : Bytes → Option (Bytes × Nat)) : Zlib where
  Deflate := Bytes × Nat
  Inflate := Bytes × Nat
  deflateInit := ([], 0)
  deflate := lazyDeflate stream
  inflateInit := (.ok, ([], 0))
  inflate := lazyInflate parse
  inflateEnd _ := .ok

section Lazy

variable {stream : Bytes → Bytes} {parse : Bytes → Option (Bytes × Nat)} {s : Bytes × Nat}
  {i₀ i o w x : Bytes} {room : Nat}

theorem lazyDeflate_fed (h : Reached (lazyDeflate stream .noFlush) .ok ([], 0) [] [] s i o) :
    s = (i, 0) ∧ o = [] := by
  induction h with
  | start => exact ⟨rfl, rfl⟩
  | next window room _ _ ih =>
      obtain ⟨rfl, rfl⟩ := ih
      exact ⟨Prod.ext (congrArg (_ ++ ·) (List.take_length).symm) rfl, rfl⟩

theorem lazyDeflate_finishing
    (h : Reached (lazyDeflate stream .finish) .ok (i₀, 0) i₀ [] s i o) :
    s = (i, o.length) ∧ i₀ <+: i ∧ (i = i₀ → o <+: stream i) := by
  induction h with
  | start => exact ⟨rfl, List.prefix_rfl, fun _ => List.nil_prefix⟩
  | @next s i o window room _ _ ih =>
      obtain ⟨rfl, hi, ho⟩ := ih
      simp only [lazyDeflate, List.take_length]
      refine ⟨congrArg _ List.length_append.symm, hi.trans (List.prefix_append i window), ?_⟩
      intro heq
      -- Nothing was given to it: what is produced is the next part of the same stream.
      have hsame : i = i ++ window :=
        (List.prefix_append i window).eq_of_length_le (heq ▸ hi.length_le)
      have hrest := List.prefix_iff_eq_append.mp (ho (hsame.trans heq))
      rw [← hsame]
      have hnext := (List.prefix_append_right_inj o).mpr
        (List.take_prefix room ((stream i).drop o.length))
      rw [hrest] at hnext
      exact hnext

theorem lazyInflate_none (h : parse (i ++ w) = none) (done : Nat) :
    lazyInflate parse (i, done) w room
      = ⟨if w = [] then .bufError else .ok, w.length, [], (i ++ w, done)⟩ := by
  rw [lazyInflate, h]

theorem lazyInflate_some {length : Nat} (h : parse (i ++ w) = some (x, length)) (done : Nat) :
    lazyInflate parse (i, done) w room
      = ⟨if (x.drop done).length ≤ room then .streamEnd else .ok,
          min (length - i.length) w.length, (x.drop done).take room,
          (i ++ w.take (min (length - i.length) w.length),
            done + ((x.drop done).take room).length)⟩ := by
  rw [lazyInflate, h]

theorem lazyInflate_reached (h : Reached (lazyInflate parse) .ok ([], 0) [] [] s i o) :
    s = (i, o.length) := by
  induction h with
  | start => rfl
  | @next s i o window room _ _ ih =>
      subst ih
      cases hparse : parse (i ++ window) with
      | none =>
          rw [lazyInflate_none hparse, List.take_length, List.append_nil]
      | some r =>
          rw [lazyInflate_some hparse, List.length_append]

theorem lazyInflate_fits (parse : Bytes → Option (Bytes × Nat)) (s : Bytes × Nat) (w : Bytes)
    (room : Nat) : (lazyInflate parse s w room).Fits w room := by
  obtain ⟨i, done⟩ := s
  cases hparse : parse (i ++ w) with
  | none =>
      rw [lazyInflate_none hparse]
      exact ⟨Nat.le_refl _, Nat.zero_le _⟩
  | some r =>
      rw [lazyInflate_some hparse]
      exact ⟨Nat.min_le_right _ _, List.length_take_le _ _⟩

theorem lazyDeflate_ends (hs : Reached (lazyDeflate stream .finish) .ok (i, 0) i [] s i o)
    (room : Nat) :
    ((lazyDeflate stream .finish s [] room).res = .streamEnd ∧
        o ++ (lazyDeflate stream .finish s [] room).produced = stream i) ∨
      ((lazyDeflate stream .finish s [] room).res = .ok ∧
        (lazyDeflate stream .finish s [] room).produced.length = room ∧
        o ++ (lazyDeflate stream .finish s [] room).produced <+: stream i) := by
  obtain ⟨rfl, -, ho⟩ := lazyDeflate_finishing hs
  have hrest := List.prefix_iff_eq_append.mp (ho rfl)
  have hnext := (List.prefix_append_right_inj o).mpr
    (List.take_prefix room ((stream i).drop o.length))
  rw [hrest] at hnext
  simp only [lazyDeflate, List.append_nil]
  by_cases hall : ((stream i).drop o.length).length ≤ room
  · rw [if_pos hall, List.take_of_length_le hall]
    exact Or.inl ⟨rfl, hrest⟩
  · rw [if_neg hall]
    exact Or.inr ⟨rfl, List.length_take_of_le (Nat.le_of_not_le hall), hnext⟩

theorem lazyInflate_ends
    (hwhole : ∀ x e, parse (stream x ++ e) = some (x, (stream x).length))
    (hs : Reached (lazyInflate parse) .ok ([], 0) [] [] s i o) (hi : i <+: stream x)
    (ho : o <+: x) (hw : stream x <+: i ++ w) (room : Nat) :
    ((lazyInflate parse s w room).res = .streamEnd ∧
        i ++ w.take (lazyInflate parse s w room).consumed = stream x ∧
        o ++ (lazyInflate parse s w room).produced = x) ∨
      ((lazyInflate parse s w room).res = .ok ∧
        (lazyInflate parse s w room).produced.length = room ∧
        i ++ w.take (lazyInflate parse s w room).consumed <+: stream x ∧
        o ++ (lazyInflate parse s w room).produced <+: x) := by
  obtain rfl := lazyInflate_reached hs
  obtain ⟨e, he⟩ := hw
  obtain ⟨more, hmore⟩ := hi
  -- What is missing of the stream is in front of the window.
  have hwindow : w = more ++ e := by
    rw [← hmore, List.append_assoc] at he
    exact (List.append_cancel_left he).symm
  have hconsumed : min ((stream x).length - i.length) w.length = more.length := by
    rw [hwindow, ← hmore, List.length_append, List.length_append]
    omega
  have htake : i ++ w.take more.length = stream x := by
    rw [hwindow, List.take_left, hmore]
  have hrest := List.prefix_iff_eq_append.mp ho
  have hnext := (List.prefix_append_right_inj o).mpr (List.take_prefix room (x.drop o.length))
  rw [hrest] at hnext
  rw [lazyInflate_some (he ▸ hwhole x e), hconsumed]
  dsimp only
  rw [htake]
  by_cases hall : (x.drop o.length).length ≤ room
  · rw [if_pos hall, List.take_of_length_le hall]
    exact Or.inl ⟨rfl, rfl, hrest⟩
  · rw [if_neg hall]
    exact Or.inr ⟨rfl, List.length_take_of_le (Nat.le_of_not_le hall), List.prefix_rfl, hnext⟩

theorem lazyInflate_waits
    (hpart : ∀ x part, part <+: stream x → part ≠ stream x → parse part = none)
    (hs : Reached (lazyInflate parse) .ok ([], 0) [] [] s i o) (ho : o <+: x)
    (hw : i ++ w <+: stream x) (hne : i ++ w ≠ stream x) (room : Nat) :
    (lazyInflate parse s w room).res = .bufError ∨
      ((lazyInflate parse s w room).res = .ok ∧
        (0 < (lazyInflate parse s w room).consumed ∨ (lazyInflate parse s w room).produced ≠ []) ∧
        o ++ (lazyInflate parse s w room).produced <+: x) := by
  obtain rfl := lazyInflate_reached hs
  rw [lazyInflate_none (hpart x _ hw hne)]
  by_cases hnone : w = []
  · exact Or.inl (if_pos hnone)
  · refine Or.inr ⟨if_neg hnone, Or.inl (List.length_pos_iff.mpr hnone), ?_⟩
    rw [List.append_nil]
    exact ho

theorem Zlib.lazy_contract (hwhole : ∀ x e, parse (stream x ++ e) = some (x, (stream x).length))
    (hpart : ∀ x part, part <+: stream x → part ≠ stream x → parse part = none) :
    (Zlib.lazy stream parse).Contract stream where
  deflate_fits := by
    rintro (_ | _) ⟨i, done⟩ w room
    · exact ⟨Nat.le_refl _, Nat.zero_le _⟩
    · exact ⟨Nat.le_refl _, List.length_take_le _ _⟩
  deflate_feeds := by
    intro s i o w room hfed hne hroom
    obtain ⟨rfl, -⟩ := lazyDeflate_fed (show Reached (lazyDeflate stream .noFlush) _ _ _ _ _ _ _
      from hfed)
    exact ⟨if_neg (not_or.mpr ⟨hne, Nat.ne_of_gt hroom⟩), Or.inl rfl⟩
  deflate_prefix := by
    intro s i o hfed rest
    obtain ⟨-, rfl⟩ := lazyDeflate_fed (show Reached (lazyDeflate stream .noFlush) _ _ _ _ _ _ _
      from hfed)
    exact List.nil_prefix
  deflate_finishes := by
    intro s₀ i o₀ s o room hfed hs _
    obtain ⟨rfl, rfl⟩ := lazyDeflate_fed (show Reached (lazyDeflate stream .noFlush) _ _ _ _ _ _ _
      from hfed)
    exact lazyDeflate_ends hs room
  inflate_init := rfl
  inflate_fits := lazyInflate_fits parse
  inflate_ends := by
    intro x s i o w room hs hi ho hw _
    obtain ⟨hres, hconsumed, hproduced⟩ | hok := lazyInflate_ends hwhole hs hi ho hw room
    · exact Or.inl ⟨hres, hconsumed, hproduced, rfl⟩
    · exact Or.inr hok
  inflate_waits := fun hs ho hw hne _ => lazyInflate_waits hpart hs ho hw hne _

end Lazy

/-- A code that says before each byte that there is one; the stream of no bytes is the one
that zlib makes of them, at `Z_BEST_COMPRESSION`. -/
def plainBody : Bytes → Bytes
  | [] => [0x03, 0x00, 0x00, 0x00, 0x00, 0x01]
  | b :: bs => 0x01 :: b :: plainBody bs

def plainStream (x : Bytes) : Bytes := 0x78 :: 0xda :: plainBody x

def parseBody : Bytes → Option (Bytes × Nat)
  | 0x03 :: 0x00 :: 0x00 :: 0x00 :: 0x00 :: 0x01 :: _ => some ([], 6)
  | 0x01 :: b :: rest => (parseBody rest).map fun r => (b :: r.1, r.2 + 2)
  | _ => none

def parsePlain : Bytes → Option (Bytes × Nat)
  | 0x78 :: 0xda :: rest => (parseBody rest).map fun r => (r.1, r.2 + 2)
  | _ => none

theorem parseBody_whole (x e : Bytes) :
    parseBody (plainBody x ++ e) = some (x, (plainBody x).length) := by
  induction x with
  | nil => rfl
  | cons b x ih =>
      show (parseBody (plainBody x ++ e)).map _ = _
      rw [ih]
      rfl

theorem parseBody_part (x part : Bytes) (h : part <+: plainBody x) (hne : part ≠ plainBody x) :
    parseBody part = none := by
  induction x generalizing part with
  | nil =>
      have hall : ∀ part ∈ (plainBody []).inits, part ≠ plainBody [] → parseBody part = none := by
        decide
      exact hall part ((List.mem_inits _ _).mpr h) hne
  | cons b x ih =>
      obtain rfl | ⟨part, rfl, htail⟩ := List.prefix_cons_iff.mp h
      · rfl
      · obtain rfl | ⟨part, rfl, hpart⟩ := List.prefix_cons_iff.mp htail
        · rfl
        · have hless : part ≠ plainBody x := fun heq => hne (heq ▸ rfl)
          show (parseBody part).map _ = none
          rw [ih part hpart hless]
          rfl

theorem parsePlain_whole (x e : Bytes) :
    parsePlain (plainStream x ++ e) = some (x, (plainStream x).length) := by
  show (parseBody (plainBody x ++ e)).map _ = _
  rw [parseBody_whole]
  rfl

theorem parsePlain_part (x part : Bytes) (h : part <+: plainStream x) (hne : part ≠ plainStream x) :
    parsePlain part = none := by
  obtain rfl | ⟨part, rfl, htail⟩ := List.prefix_cons_iff.mp h
  · rfl
  · obtain rfl | ⟨part, rfl, hpart⟩ := List.prefix_cons_iff.mp htail
    · rfl
    · have hless : part ≠ plainBody x := fun heq => hne (heq ▸ rfl)
      show (parseBody part).map _ = none
      rw [parseBody_part x part hpart hless]
      rfl

theorem plain_contract : (Zlib.lazy plainStream parsePlain).Contract plainStream :=
  Zlib.lazy_contract parsePlain_whole parsePlain_part

/-- A text of 30 bytes, which come out of three windows. -/
def repeated : Bytes := ascii "lightq, lightq, lightq, lightq"

/-- The stream that zlib makes of it, at `Z_BEST_COMPRESSION`. -/
def repeatedStream : Bytes :=
  [0x78, 0xda, 0xcb, 0xc9, 0x4c, 0xcf, 0x28, 0x29, 0xd4, 0x51, 0xc8, 0xc1, 0x4a, 0x03, 0x00,
    0xaa, 0xb6, 0x0b, 0x09]

/-- The code with this stream for the text. -/
def sampleStream (x : Bytes) : Bytes := if x = repeated then repeatedStream else plainStream x

def parseSample (bytes : Bytes) : Option (Bytes × Nat) :=
  if repeatedStream <+: bytes then some (repeated, repeatedStream.length) else parsePlain bytes

theorem not_prefix_plainStream (x e : Bytes) : ¬ repeatedStream <+: plainStream x ++ e := by
  intro h
  have hbody : repeatedStream.drop 2 <+: plainBody x ++ e := h.drop 2
  cases x with
  | nil =>
      obtain ⟨hhead, -⟩ := List.cons_prefix_cons.mp hbody
      exact absurd hhead (by decide)
  | cons b x =>
      obtain ⟨hhead, -⟩ := List.cons_prefix_cons.mp hbody
      exact absurd hhead (by decide)

theorem sample_contract : (Zlib.lazy sampleStream parseSample).Contract sampleStream := by
  refine Zlib.lazy_contract ?_ ?_
  · intro x e
    rw [sampleStream]
    split
    · next hx =>
        rw [parseSample, if_pos (List.prefix_append _ _), hx]
    · rw [parseSample, if_neg (not_prefix_plainStream x e), parsePlain_whole]
  · intro x part h hne
    rw [sampleStream] at h hne
    split at h
    · next hx =>
        rw [if_pos hx] at hne
        have hall : ∀ part ∈ repeatedStream.inits, part ≠ repeatedStream →
            parseSample part = none := by decide +kernel
        exact hall part ((List.mem_inits _ _).mpr h) hne
    · next hx =>
        rw [if_neg hx] at hne
        have hno : ¬ repeatedStream <+: part := fun hpart =>
          not_prefix_plainStream x [] ((List.append_nil (plainStream x)).symm ▸ hpart.trans h)
        rw [parseSample, if_neg hno, parsePlain_part x part h hne]

theorem take_stream_iff {c e : Bytes} (hne : e ≠ []) :
    (c ++ e).take (u32 (c ++ e).length) = c ↔ c.length < 2 ^ 32 ∧ 2 ^ 32 ∣ e.length := by
  have hpos := List.length_pos_iff.mpr hne
  have hle := u32_le (c ++ e).length
  rw [List.length_append] at hle ⊢
  rw [show (c ++ e).take (u32 (c.length + e.length)) = c
    ↔ u32 (c.length + e.length) = c.length from ?_]
  · rw [u32]
    omega
  · constructor
    · intro heq
      have hlen := congrArg List.length heq
      rw [List.length_take, List.length_append] at hlen
      omega
    · intro heq
      rw [heq, List.take_left]

theorem zlibDecompressBuffer_more {z : Zlib} {stream : Bytes → Bytes} {x e : Bytes}
    (h : z.Contract stream) (hlen : (stream x).length < 2 ^ 32) (hne : e ≠ [])
    (hdvd : 2 ^ 32 ∣ e.length) :
    Returns (fun fuel => Utils.zlibDecompressBuffer z fuel (stream x ++ e)) (true, x) := by
  have htake := (take_stream_iff hne).mpr ⟨hlen, hdvd⟩
  have htaken := zlibDecompressBuffer_stream (x := stream x ++ e) h
    ⟨[], by rw [List.append_nil, htake]⟩
  rw [htake, decide_eq_true rfl] at htaken
  exact htaken

/-- The round trip is right, and what is not a stream is refused, unless the bytes behind
a stream are a multiple of 2³². -/
theorem Utils.zlib_buffers_round_trip_iff {z : Zlib} {stream : Bytes → Bytes}
    (h : z.Contract stream) (x e tempBuffer outData : Bytes) :
    RoundTrip z stream x e tempBuffer outData ↔
      ¬ ((stream x).length < 2 ^ 32 ∧ e ≠ [] ∧ 2 ^ 32 ∣ e.length) := by
  constructor
  · rintro hround ⟨hlen, hne, hdvd⟩
    obtain ⟨out, hrefused⟩ := hround.refuses_more hne
    have htaken := zlibDecompressBuffer_more h hlen hne hdvd
    exact Bool.true_eq_false_eq_False (congrArg Prod.fst (htaken.unique hrefused))
  · intro hfew
    refine ⟨fun hx _ => zlibCompressBuffer_returns h hx tempBuffer outData, ?_, ?_, ?_⟩
    · intro _ hlen
      have hwhole : (stream x).take (u32 (stream x).length) = stream x := by
        rw [u32_of_lt hlen, List.take_length]
      have hreturns := zlibDecompressBuffer_stream (x := stream x) h ⟨[], by rw [List.append_nil, hwhole]⟩
      rw [hwhole, decide_eq_true rfl] at hreturns
      exact hreturns
    · intro part hpart hne
      have hwindow := (List.take_prefix (u32 part.length) part).trans hpart
      refine zlibDecompressBuffer_part h hwindow ?_
      intro heq
      have hle := (List.take_prefix (u32 part.length) part).length_le
      rw [heq] at hle
      exact hne (hpart.eq_of_length_le hle)
    · intro hne
      have hcut : (stream x ++ e).take (u32 (stream x ++ e).length) ≠ stream x := by
        intro heq
        obtain ⟨hlen, hdvd⟩ := (take_stream_iff hne).mp heq
        exact hfew ⟨hlen, hne, hdvd⟩
      have hwindow := List.take_prefix (u32 (stream x ++ e).length) (stream x ++ e)
      obtain hpart | hmore := List.prefix_or_prefix_of_prefix hwindow
        (List.prefix_append (stream x) e)
      · exact zlibDecompressBuffer_part h hpart hcut
      · have hreturns := zlibDecompressBuffer_stream h hmore
        rw [decide_eq_false hcut] at hreturns
        exact ⟨x, hreturns⟩

/-- A text, the stream that zlib makes of it, and one byte behind that. -/
theorem Utils.zlib_buffers_round_trip_repeated :
    RoundTrip (Zlib.lazy sampleStream parseSample) sampleStream repeated [0] [] [] :=
  (Utils.zlib_buffers_round_trip_iff sample_contract repeated [0] [] []).mpr
    fun h => absurd (Nat.le_of_dvd Nat.one_pos h.2.2) (by decide)

/-- The stream of no bytes, and 4 GiB behind it: the window ends where the stream does. -/
theorem Utils.zlib_decompress_takes_more : ¬ ∀ (z : Zlib) (stream : Bytes → Bytes),
    z.Contract stream → ∀ x e tempBuffer outData, RoundTrip z stream x e tempBuffer outData := by
  intro hall
  have hne : List.replicate (2 ^ 32) (0 : UInt8) ≠ [] :=
    List.ne_nil_of_length_pos (by rw [List.length_replicate]; decide)
  have hround := hall _ _ plain_contract [] (List.replicate (2 ^ 32) 0) [] []
  obtain ⟨out, hrefused⟩ := hround.refuses_more hne
  have htaken := zlibDecompressBuffer_more plain_contract (x := []) (by decide) hne
    (by rw [List.length_replicate])
  exact Bool.true_eq_false_eq_False (congrArg Prod.fst (htaken.unique hrefused))

end LightQ
