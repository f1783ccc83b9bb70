/-
# `Socket.SentLog` — the chunks that are sent tile the log

The write offset of the socket, `total_bytes_read_` of the storage and the
running totals of the files are kept in three objects.  `Invariant.step` says
that every step keeps them together: a call of `sendfile_to_socket` sends the
log from the write offset on and moves both offsets by what it sent, or moves
nothing; appends, new files and new consumers leave them alone.

`sent_chunks_tile_log` is the statement for runs, with sends that are partial
or fail and with the call's own clamps.  `TilesLog` is what it says of a state:
the chunks are ranges of the log, one behind the other from its start to the
write offset, and the next call sends from there or advances nothing.  A log
that opens one file under two names overwrites what it holds; when its files
are different ones, the chunks are still what the log holds in their ranges.

The ghost `Tiled` says of each chunk where its range is.  Frames that are added
leave the slices what they are (`Tiled.grows`), and a chunk of the log from the
write offset on is the next tile (`Tiled.sends`), so that what the chunks hold
together is the log up to where they end (`flatten_of_tiles`).

What `send_file` itself does is assumed, as `Transmits` of the calls of a run;
on Apple it does so (`transmits_apple`).  The wire is accounted for separately:
a step whose failures are clean puts nothing there but a chunk
(`Accounted.change`).
-/
import LightQ.Socket.ConnectionSocket

namespace LightQ

open MachineInt FrameLog

namespace SocketConsumer

theorem sendfileToSocket_of_nonpos {platform : Platform} {c : SocketConsumer} {bytesToSend : Nat}
    {r : SendfileResult} {sent : SentToSocket}
    (h : c.sendfileToSocket platform bytesToSend r = some sent) (hvalue : sent.value ≤ 0) :
    sent.consumer.storage = c.storage ∧
      sent.consumer.socket.currentWriteOffset = c.socket.currentWriteOffset := by
  have hoffset := ConnectionSocket.getNextFd_currentWriteOffset c.socket
  rw [sendfileToSocket] at h
  split at h
  · obtain rfl := Option.some.inj h
    exact ⟨rfl, hoffset⟩
  · cases hfile : c.storage.pFile with
    | none =>
        rw [hfile] at h
        cases h
    | some file =>
        rw [hfile] at h
        simp only [Option.bind_eq_bind, Option.bind_some] at h
        split at h
        · obtain rfl := Option.some.inj h
          exact ⟨rfl, hoffset⟩
        · obtain rfl := Option.some.inj h
          have hcount : (file.sendFile platform c.socket.getNextFd.2.currentWriteOffset bytesToSend
              r).1.toNat = 0 := Int.toNat_of_nonpos hvalue
          refine ⟨?_, ?_⟩
          · simp only [hcount]
            rfl
          · simp only [hcount]
            exact hoffset

end SocketConsumer

namespace SocketTopic.World

theorem transmits_apple (w : World) (action : Action) : w.Transmits .apple action := by
  cases action with
  | sendfileToSocket bytesToSend r => exact fun _ f o _ _ => f.transmitsPrefix_apple o bytesToSend r
  | addToStorage overload message content sched => trivial
  | setCurrentFile content => trivial
  | accept connfd => trivial

/-- The chunks lie one behind the other, from `base` to `stop`. -/
def Tiles : Nat → List Chunk → Nat → Prop
  | base, [], stop => base = stop
  | base, c :: cs, stop => c.offset = base ∧ 0 < c.bytes.length ∧ Tiles (base + c.bytes.length) cs stop

theorem tiles_append {base mid stop : Nat} {cs ds : List Chunk} (hcs : Tiles base cs mid)
    (hds : Tiles mid ds stop) : Tiles base (cs ++ ds) stop := by
  induction cs generalizing base with
  | nil =>
      obtain rfl : base = mid := hcs
      exact hds
  | cons c cs ih => exact ⟨hcs.1, hcs.2.1, ih hcs.2.2⟩

theorem flatten_of_tiles {log : Bytes} {base stop : Nat} {cs : List Chunk} (htiles : Tiles base cs stop)
    (hslices : ∀ c ∈ cs, c.bytes <+: log.drop c.offset) :
    (cs.map Chunk.bytes).flatten = (log.drop base).take (stop - base) ∧ base ≤ stop := by
  induction cs generalizing base with
  | nil =>
      obtain rfl : base = stop := htiles
      simp
  | cons c cs ih =>
      obtain ⟨rfl, -, htail⟩ := htiles
      obtain ⟨hrest, hle⟩ := ih htail fun d hd => hslices d (List.mem_cons_of_mem _ hd)
      refine ⟨?_, by omega⟩
      have hc := List.prefix_iff_eq_take.mp (hslices c List.mem_cons_self)
      have hsplit : stop - c.offset = c.bytes.length + (stop - (c.offset + c.bytes.length)) := by omega
      rw [List.map_cons, List.flatten_cons, hrest, hsplit, List.take_add, ← hc, List.drop_drop]

/-- All that was sent lies in the log up to the write offset. -/
structure Tiled (w : World) : Prop where
  tiles : Tiles 0 w.chunks w.writeOffset
  slices : w.consumer.storage.FilesDistinct → ∀ c ∈ w.chunks, c.bytes <+: w.frames.flatten.drop c.offset

/-- Every byte on the wire is in a chunk. -/
def Accounted (w : World) : Prop := w.wire = tag Chunk.fd Chunk.bytes w.chunks

section Steps

variable {host : ByteOrder} {platform : Platform} {maxFileSize : Nat} {w w' : World}
  {file : ConnectionFile} {segs : List Segment} {action : Action}

theorem Tiled.grows (h : Tiled w) {more : List Bytes} (hgrows : Grows w w' more)
    (hextends : w.consumer.storage.FilesExtend w'.consumer.storage) : Tiled w' := by
  refine ⟨?_, fun hdistinct => ?_⟩
  · rw [hgrows.chunks, hgrows.writeOffset]
    exact h.tiles
  · rw [hgrows.chunks, hgrows.frames, List.flatten_append]
    intro c hc
    rw [List.drop_append]
    exact (h.slices (hextends.distinct hdistinct) c hc).trans (List.prefix_append _ _)

/-- A chunk of the log from the write offset on is the next tile. -/
theorem Tiled.sends (h : Tiled w) {fd : Int} {bytes : Bytes} (hsends : Sends w w' fd bytes)
    (hextends : w.consumer.storage.FilesExtend w'.consumer.storage) (hpos : 0 < bytes.length)
    (hslice : w.consumer.storage.FilesDistinct → bytes <+: w.frames.flatten.drop w.writeOffset) :
    Tiled w' := by
  refine ⟨?_, fun hdistinct => ?_⟩
  · rw [hsends.chunks, hsends.writeOffset]
    exact tiles_append h.tiles ⟨rfl, hpos, rfl⟩
  · have hold := hextends.distinct hdistinct
    rw [hsends.chunks, hsends.frames]
    intro c hc
    rcases List.mem_append.mp hc with hc | hc
    · exact h.slices hold c hc
    · obtain rfl := List.mem_singleton.mp hc
      exact hslice hold

theorem tiled_step
    (h : (∃ file segs, Invariant host maxFileSize w file segs) ∧ Tiled w)
    (hM : maxFileSize < 2 ^ 31) (hact : action.Admissible maxFileSize)
    (htransmits : w.Transmits platform action) (hstep : w.step host platform action = some w') :
    (∃ file segs, Invariant host maxFileSize w' file segs) ∧ Tiled w' := by
  obtain ⟨⟨file, segs, hinv⟩, htiled⟩ := h
  obtain ⟨w₁, file', segs', hstep₁, hinv', hchange⟩ := hinv.step hM platform hact
  obtain rfl := Option.some.inj (hstep₁.symm.trans hstep)
  have hextends := step_filesExtend hstep
  refine ⟨⟨file', segs', hinv'⟩, ?_⟩
  cases hchange with
  | grows more hmore hgrows hwire => exact htiled.grows hgrows hextends
  | sends bytesToSend r fd bytes haction hsends hpos hslice =>
      refine htiled.sends hsends hextends hpos fun hdistinct => ?_
      rw [← hinv.log_frames hdistinct]
      exact hslice htransmits

/-- A step whose failures are clean puts nothing on the wire but a chunk. -/
theorem Accounted.change (h : Accounted w) (hclean : action.FailsClean platform)
    (hchange : Change platform w w' action) : Accounted w' := by
  cases hchange with
  | grows more hmore hgrows hwire =>
      rw [Accounted, hwire hclean, hgrows.chunks]
      exact h
  | sends bytesToSend r fd bytes haction hsends hpos hslice =>
      rw [Accounted, hsends.wire, hsends.chunks, tag_append, tag_singleton, ← h]

theorem Invariant.next (h : Invariant host maxFileSize w file segs) {bytesToSend : Nat}
    {r : SendfileResult} {sent : SentToSocket}
    (hsent : w.consumer.sendfileToSocket platform bytesToSend r = some sent)
    (htransmits : w.Transmits platform (.sendfileToSocket bytesToSend r)) (hpos : 0 < sent.value) :
    sent.bytes <+: w.log.drop w.writeOffset ∧
      sent.consumer.socket.currentWriteOffset = w.writeOffset + sent.bytes.length := by
  obtain ⟨w', hstep, -, hchange⟩ := h.send platform bytesToSend r
  obtain rfl := Option.some.inj ((step_send hsent).symm.trans hstep)
  have hchunk : w.sentChunks sent = [⟨sent.fd, w.writeOffset, sent.bytes⟩] := if_pos hpos
  cases hchange with
  | grows more hmore hgrows hwire =>
      have hsame : w.chunks ++ w.sentChunks sent = w.chunks := hgrows.chunks
      rw [hchunk] at hsame
      exact absurd (List.append_right_eq_self.mp hsame) (List.cons_ne_nil _ _)
  | sends _ _ fd bytes _ hsends _ hslice =>
      have hnew : w.chunks ++ w.sentChunks sent = w.chunks ++ [⟨fd, w.writeOffset, bytes⟩] :=
        hsends.chunks
      rw [hchunk, List.append_cancel_left_eq, List.cons.injEq, Chunk.mk.injEq] at hnew
      obtain ⟨⟨-, -, rfl⟩, -⟩ := hnew
      exact ⟨hslice htransmits, hsends.writeOffset⟩

end Steps

/-- The chunks are ranges of the log, adjacent from its start to the write
offset, which is also the number of bytes read.  The next call sends from there,
or moves nothing.  When the files of the log are different ones, the chunks are
what it holds there. -/
structure TilesLog (platform : Platform) (w : World) : Prop where
  tiles : Tiles 0 w.chunks w.writeOffset
  offset_le : w.writeOffset ≤ w.log.length
  read_eq : w.totalBytesRead = w.writeOffset
  failed : ∀ bytesToSend r sent, w.consumer.sendfileToSocket platform bytesToSend r = some sent →
    sent.value ≤ 0 →
    sent.consumer.storage = w.consumer.storage ∧
      sent.consumer.socket.currentWriteOffset = w.writeOffset
  next : ∀ bytesToSend r sent, w.consumer.sendfileToSocket platform bytesToSend r = some sent →
    w.Transmits platform (.sendfileToSocket bytesToSend r) → 0 < sent.value →
    sent.bytes <+: w.log.drop w.writeOffset ∧
      sent.consumer.socket.currentWriteOffset = w.writeOffset + sent.bytes.length
  slices : w.consumer.storage.FilesDistinct →
    w.log = w.frames.flatten ∧ (∀ c ∈ w.chunks, c.bytes <+: w.log.drop c.offset) ∧
      (w.chunks.map Chunk.bytes).flatten = w.log.take w.writeOffset

/-- In every state of every run the chunks that were sent tile the log. -/
theorem sent_chunks_tile_log (host : ByteOrder) (platform : Platform) (outputDirectory id : Bytes)
    {maxFileSize : Nat} (hM : 0 < maxFileSize) (hM₃₁ : maxFileSize < 2 ^ 31)
    {actions : List Action} {w : World}
    (hallowed : Runs.Along (step host platform) (fun w action =>
      action.Admissible maxFileSize ∧ w.Transmits platform action)
      (start outputDirectory id maxFileSize) actions)
    (hrun : Runs.run (step host platform) (start outputDirectory id maxFileSize) actions = some w) :
    w.TilesLog platform := by
  obtain ⟨⟨file, segs, hinv⟩, htiled⟩ := Runs.run_invariant
    (I := fun w => (∃ file segs, Invariant host maxFileSize w file segs) ∧ Tiled w)
    (P := fun w action => action.Admissible maxFileSize ∧ w.Transmits platform action)
    (fun hI hP hstep => tiled_step hI hM₃₁ hP.1 hP.2 hstep)
    ⟨⟨_, _, invariant_start host outputDirectory id hM⟩,
      rfl, fun _ _ hc => absurd hc List.not_mem_nil⟩ hallowed hrun
  refine ⟨htiled.tiles, ?_, hinv.read_eq, ?_, ?_, fun hdistinct => ?_⟩
  · rw [hinv.length_log]
    exact hinv.offset_le
  · intro bytesToSend r sent hsent hvalue
    exact SocketConsumer.sendfileToSocket_of_nonpos hsent hvalue
  · intro bytesToSend r sent hsent htransmits hpos
    exact hinv.next hsent htransmits hpos
  · have hlog := hinv.log_frames hdistinct
    obtain ⟨hbytes, -⟩ := flatten_of_tiles htiled.tiles (htiled.slices hdistinct)
    rw [List.drop_zero, Nat.sub_zero, ← hlog] at hbytes
    exact ⟨hlog, by rw [hlog]; exact htiled.slices hdistinct, hbytes⟩

/-- Two consumers, two messages, and a first call that sends part of them. -/
def partialSend : List Action :=
  [.accept 5, .accept 6, .addToStorage .string (ascii "ab") [] [],
    .addToStorage .pointer (ascii "cd") [] [.wrote 3], .sendfileToSocket maxMsgSize (.sent 8),
    .sendfileToSocket maxMsgSize (.failed 0), .sendfileToSocket 4 (.sent 9)]

theorem partialSend_allowed (w : World) :
    Runs.Along (step .little .apple) (fun w action =>
      action.Admissible 100 ∧ w.Transmits .apple action) w partialSend := by
  have hall : ∀ action ∈ partialSend, action.Admissible 100 := by
    intro action hmem
    simp only [partialSend, List.mem_cons, List.not_mem_nil, or_false] at hmem
    rcases hmem with rfl | rfl | rfl | rfl | rfl | rfl | rfl
    · exact (by decide : (0 : Int) ≤ 5)
    · exact (by decide : (0 : Int) ≤ 6)
    · exact ⟨by decide, by decide, by decide⟩
    · exact ⟨by decide, by decide, by decide⟩
    · trivial
    · trivial
    · trivial
  exact (Runs.along_of_forall hall).mono fun w action h => ⟨h, w.transmits_apple action⟩

theorem sent_chunks_tile_log_partialSend :
    ∃ w, Runs.run (step .little .apple) (start (ascii "/tmp") (ascii "t") 100) partialSend = some w ∧
      w.consumer.storage.FilesDistinct ∧ w.TilesLog .apple := by
  have hrun : (Runs.run (step .little .apple) (start (ascii "/tmp") (ascii "t") 100)
      partialSend).map (fun w => decide w.consumer.storage.FilesDistinct) = some true := by decide
  obtain ⟨w, hw, hdistinct⟩ := Option.map_eq_some_iff.mp hrun
  exact ⟨w, hw, of_decide_eq_true hdistinct,
    sent_chunks_tile_log .little .apple (ascii "/tmp") (ascii "t") (by decide) (by decide)
      (partialSend_allowed _) hw⟩

end SocketTopic.World

end LightQ
