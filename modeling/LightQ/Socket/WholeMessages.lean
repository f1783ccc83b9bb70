/-
# `Socket.WholeMessages` — who gets which frame

`sendfile_to_socket` picks a socket for every chunk, and where chunks end is
decided by the clamps of `send_file` and by how much a call gets through: at
the end of a file, after `max_msg_size` bytes, or anywhere.  A chunk that
ends inside a frame leaves the rest of it to the next socket.

`Dealt` is the invariant of the runs in which that does not happen: all that
is on the wire are whole frames, each for one socket, and a part of the next
frame that went to the socket of the last chunk.  `KeepsSocket` is the
condition that keeps it, and `whole_messages` what it gives once the consumers
have caught up: each frame has gone to one socket, whole, and each socket has
received whole frames.

A step that sends nothing may add frames and keeps it (`Dealt.grows`).  A chunk
is for the socket that has the begun frame, or for any socket if there is none
(`Dealt.sends`); at a boundary no frame has been begun (`Dealt.part_eq_nil`).
`dealt_step` is the step lemma, and when everything has been sent every frame has
an owner (`Dealt.caught_up`).

Two more things can spoil the stream of a socket.  `sendfile` on Apple may
fail after it has sent something; the offset stays where it is, and the next
socket is sent the same bytes again.  And where two files of the log are one
(`FilesDistinct` fails), what is sent are no frames.
-/
import LightQ.Socket.SentLog

namespace LightQ

open MachineInt FrameLog

namespace SocketTopic.World

/-- The socket of the last chunk. -/
def lastFd (w : World) : Option Int := w.chunks.getLast?.map Chunk.fd

/-- The bytes that one socket has received. -/
def received (w : World) (fd : Int) : Bytes := (w.wire.filter fun p => p.1 = fd).map Prod.snd

/-- A call that starts inside a frame finds no socket or picks the one of the
last chunk. -/
def KeepsSocket (w : World) : Action → Prop
  | .sendfileToSocket _ _ =>
      OnBoundary w.frames w.writeOffset ∨ w.consumer.socket.nextFd < 0 ∨
        w.lastFd = some w.consumer.socket.nextFd
  | _ => True

/-- The frames in `pre` have gone to `owners`, and of the frame behind them
`part` to the socket of the last chunk. -/
structure Dealt (w : World) (owners : List Int) (pre rest : List Bytes) (part : Bytes) : Prop where
  split : w.frames = pre ++ rest
  owned : owners.length = pre.length
  stream : w.wire =
    tag Prod.snd Prod.fst (pre.zip owners) ++ part.map fun b => (w.lastFd.getD 0, b)
  offset : w.writeOffset = pre.flatten.length + part.length
  inside : part = [] ∨ ∃ fr rest', rest = fr :: rest' ∧ part <+: fr ∧ part.length < fr.length

section Steps

variable {host : ByteOrder} {platform : Platform} {maxFileSize : Nat} {w w' : World}
  {owners : List Int} {pre rest : List Bytes}
  {part : Bytes}

theorem Dealt.part_eq_nil (h : Dealt w owners pre rest part) (hne : Nonempties w.frames)
    (hon : OnBoundary w.frames w.writeOffset) : part = [] := by
  rcases h.inside with hnil | ⟨fr, rest', rfl, -, hlt⟩
  · exact hnil
  · by_contra hpart
    have hpos : 0 < part.length := List.length_pos_iff.mpr hpart
    have hpre : Nonempties pre := fun x hx => hne x (by rw [h.split]; exact List.mem_append_left _ hx)
    have hat : frameAt w.frames pre.flatten.length = some fr := by
      rw [h.split]
      exact frameAt_flatten hpre fr rest'
    have hoffset := h.offset
    exact not_onBoundary_of_inside hne hat (by omega) (by omega) hon

theorem Dealt.grows (h : Dealt w owners pre rest part) {more : List Bytes}
    (hgrows : Grows w w' more) (hwire : w'.wire = w.wire) :
    Dealt w' owners pre (rest ++ more) part := by
  refine ⟨?_, h.owned, ?_, ?_, ?_⟩
  · rw [hgrows.frames, h.split, List.append_assoc]
  · rw [lastFd, hgrows.chunks, hwire]
    exact h.stream
  · rw [hgrows.writeOffset]
    exact h.offset
  · rcases h.inside with hnil | ⟨fr, rest', rfl, hpre, hlt⟩
    · exact Or.inl hnil
    · exact Or.inr ⟨fr, rest' ++ more, rfl, hpre, hlt⟩

theorem Dealt.sends (h : Dealt w owners pre rest part) {fd : Int} {bytes : Bytes}
    (hsends : Sends w w' fd bytes) (hslice : bytes <+: w.frames.flatten.drop w.writeOffset)
    (hsame : part = [] ∨ w.lastFd = some fd) :
    ∃ owners' pre' rest' part', Dealt w' owners' pre' rest' part' := by
  have hpart : part <+: rest.flatten := by
    rcases h.inside with rfl | ⟨fr, rest', rfl, hpre, -⟩
    · exact List.nil_prefix
    · exact hpre.trans (List.prefix_append _ _)
  -- what has been sent of `rest` is `part` and the chunk
  obtain ⟨tail, htail⟩ := hpart
  have hsent : part ++ bytes <+: rest.flatten := by
    rw [h.split, List.flatten_append, h.offset, List.drop_append,
      List.drop_eq_nil_of_le (Nat.le_add_right _ _), List.nil_append, Nat.add_sub_cancel_left,
      ← htail, List.drop_left' rfl] at hslice
    rw [← htail]
    exact (List.prefix_append_right_inj _).mpr hslice
  obtain ⟨whole, rest', part', hrest, hcut, hinside⟩ := exists_cut hsent
  have hlast : w'.lastFd = some fd := by
    rw [lastFd, hsends.chunks, List.getLast?_append]
    rfl
  have hmark : part.map (fun b => (w.lastFd.getD 0, b)) = part.map fun b => (fd, b) := by
    rcases hsame with rfl | hsame
    · rfl
    · rw [hsame]
      rfl
  have hlen : part.length + bytes.length = whole.flatten.length + part'.length := by
    rw [← List.length_append, hcut, List.length_append]
  refine ⟨owners ++ List.replicate whole.length fd, pre ++ whole, rest', part', ?_, ?_, ?_, ?_,
    hinside⟩
  · rw [hsends.frames, h.split, hrest, List.append_assoc]
  · rw [List.length_append, List.length_append, h.owned, List.length_replicate]
  · rw [hsends.wire, h.stream, hmark, List.append_assoc, ← List.map_append, hcut, hlast,
      List.zip_append h.owned.symm, tag_append, tag_zip_replicate, List.map_append,
      List.append_assoc]
    rfl
  · rw [hsends.writeOffset, h.offset, List.flatten_append, List.length_append]
    omega

/-- A step that keeps the socket of a begun frame. -/
theorem dealt_step {action : Action}
    (h : (∃ file segs, Invariant host maxFileSize w file segs) ∧
      ∃ owners pre rest part, Dealt w owners pre rest part)
    (hM : maxFileSize < 2 ^ 31) (hact : action.Admissible maxFileSize)
    (htransmits : w.Transmits platform action) (hclean : action.FailsClean platform)
    (hkeeps : w.KeepsSocket action) (hdistinct : w.consumer.storage.FilesDistinct)
    (hstep : w.step host platform action = some w') :
    (∃ file segs, Invariant host maxFileSize w' file segs) ∧
      ∃ owners pre rest part, Dealt w' owners pre rest part := by
  obtain ⟨⟨file, segs, hinv⟩, owners, pre, rest, part, hdealt⟩ := h
  obtain ⟨w₁, file', segs', hstep₁, hinv', hchange⟩ := hinv.step hM platform hact
  obtain rfl := Option.some.inj (hstep₁.symm.trans hstep)
  refine ⟨⟨file', segs', hinv'⟩, ?_⟩
  cases hchange with
  | grows more hmore hgrows hwire =>
      exact ⟨owners, pre, _, part, hdealt.grows hgrows (hwire hclean)⟩
  | sends bytesToSend r fd bytes haction hsends hpos hslice =>
      have hchunk := hslice htransmits
      rw [hinv.log_frames hdistinct] at hchunk
      refine hdealt.sends hsends hchunk ?_
      subst haction
      rcases hkeeps with hon | hnone | hlast
      · exact Or.inl (hdealt.part_eq_nil hinv.nonempties hon)
      · exact absurd hsends.nonneg (Int.not_le.mpr (hsends.nextFd ▸ hnone))
      · exact Or.inr (hsends.nextFd ▸ hlast)

/-- When everything has been sent, every frame has an owner. -/
theorem Dealt.caught_up (h : Dealt w owners pre rest part) (hne : Nonempties w.frames)
    (hend : w.writeOffset = w.frames.flatten.length) : part = [] ∧ pre = w.frames := by
  have hnil := h.part_eq_nil hne (Or.inr hend)
  subst hnil
  have hlen := h.offset
  rw [hend, h.split, List.flatten_append, List.length_append, List.length_nil] at hlen
  have hrest : rest = [] := by
    cases rest with
    | nil => rfl
    | cons fr rest =>
        have hfr : 0 < fr.length :=
          List.length_pos_iff.mpr (hne fr (by rw [h.split]; exact List.mem_append_right _ List.mem_cons_self))
        rw [List.flatten_cons, List.length_append] at hlen
        omega
  refine ⟨rfl, ?_⟩
  rw [h.split, hrest, List.append_nil]

end Steps

/-- In every run that never sends the rest of a frame to another socket, nor
anything from a log that holds one file twice or by a call that fails: once the
write offset is the size of the log, each frame has gone to one
socket, whole, and each socket has received whole frames. -/
theorem whole_messages (host : ByteOrder) (platform : Platform) (outputDirectory id : Bytes)
    {maxFileSize : Nat} (hM : 0 < maxFileSize) (hM₃₁ : maxFileSize < 2 ^ 31)
    {actions : List Action} {w : World}
    (hallowed : Runs.Along (step host platform) (fun w action =>
      (action.Admissible maxFileSize ∧ w.Transmits platform action) ∧
        action.FailsClean platform ∧ w.KeepsSocket action ∧ w.consumer.storage.FilesDistinct)
      (start outputDirectory id maxFileSize) actions)
    (hrun : Runs.run (step host platform) (start outputDirectory id maxFileSize) actions = some w)
    (hcaught : w.writeOffset = w.written) :
    (∀ fr ∈ w.frames, WellFramed host fr) ∧
      ∃ owners : List Int, owners.length = w.frames.length ∧
        w.wire = tag Prod.snd Prod.fst (w.frames.zip owners) ∧
        ∀ fd, w.received fd
          = ((w.frames.zip owners).filter fun p => p.2 = fd).flatMap Prod.fst := by
  have hstart : Dealt (start outputDirectory id maxFileSize) [] [] [] [] :=
    ⟨rfl, rfl, rfl, rfl, Or.inl rfl⟩
  obtain ⟨⟨file, segs, hinv⟩, owners, pre, rest, part, hdealt⟩ := Runs.run_invariant
    (I := fun w => (∃ file segs, Invariant host maxFileSize w file segs) ∧
      ∃ owners pre rest part, Dealt w owners pre rest part)
    (P := fun w action => (action.Admissible maxFileSize ∧ w.Transmits platform action) ∧
      action.FailsClean platform ∧ w.KeepsSocket action ∧ w.consumer.storage.FilesDistinct)
    (fun hI hP hstep => dealt_step hI hM₃₁ hP.1.1 hP.1.2 hP.2.1 hP.2.2.1 hP.2.2.2 hstep)
    ⟨⟨_, _, invariant_start host outputDirectory id hM⟩, _, _, _, _, hstart⟩ hallowed hrun
  have hend : w.writeOffset = w.frames.flatten.length := by
    rw [hcaught, hinv.written_frames]
  obtain ⟨rfl, rfl⟩ := hdealt.caught_up hinv.nonempties hend
  have hstream := hdealt.stream
  rw [List.map_nil, List.append_nil] at hstream
  refine ⟨?_, owners, hdealt.owned, hstream, fun fd => ?_⟩
  · rw [← hinv.frames_eq]
    exact hinv.log.framed
  · rw [received, hstream, filter_tag]

/-- One consumer, one message, one call that gets it all through. -/
def oneCall : List Action :=
  [.accept 5, .addToStorage .string (ascii "ab") [] [], .sendfileToSocket maxMsgSize (.sent 6)]

theorem oneCall_keepsSocket :
    Runs.Along (step .little .apple) (fun w action =>
      (action.Admissible 100 ∧ w.Transmits .apple action) ∧
        action.FailsClean .apple ∧ w.KeepsSocket action ∧ w.consumer.storage.FilesDistinct)
      (start (ascii "/tmp") (ascii "t") 100) oneCall := by
  have haccept : (0 : Int) ≤ 5 := by decide
  exact .cons ⟨⟨haccept, trivial⟩, trivial, trivial, by decide⟩ rfl
    (.cons ⟨⟨⟨by decide, by decide, by decide⟩, trivial⟩, trivial, trivial, by decide⟩ rfl
      ⟨⟨⟨trivial, transmits_apple _ _⟩, trivial, Or.inl (onBoundary_zero _), by decide⟩,
        fun _ _ => trivial⟩)

theorem whole_messages_oneCall :
    ∃ w, Runs.run (step .little .apple) (start (ascii "/tmp") (ascii "t") 100) oneCall = some w ∧
      (∀ fr ∈ w.frames, WellFramed .little fr) ∧
        ∃ owners : List Int, owners.length = w.frames.length ∧
          w.wire = tag Prod.snd Prod.fst (w.frames.zip owners) ∧
          ∀ fd, w.received fd
            = ((w.frames.zip owners).filter fun p => p.2 = fd).flatMap Prod.fst := by
  have hrun : ((Runs.run (step .little .apple) (start (ascii "/tmp") (ascii "t") 100) oneCall).map
      fun w => (w.writeOffset, w.written)) = some (6, 6) := by decide
  obtain ⟨w, hw, hoffsets⟩ := Option.map_eq_some_iff.mp hrun
  obtain ⟨hoffset, hwritten⟩ := Prod.mk.inj hoffsets
  exact ⟨w, hw, whole_messages .little .apple (ascii "/tmp") (ascii "t") (by decide) (by decide)
    oneCall_keepsSocket hw (hoffset.trans hwritten.symm)⟩

/-- Two consumers, and a first call that gets five of six bytes through. -/
def splitFrame : List Action :=
  [.accept 5, .accept 6, .addToStorage .string (ascii "ab") [] [],
    .sendfileToSocket maxMsgSize (.sent 5), .sendfileToSocket maxMsgSize (.sent 5)]

theorem splitFrame_allowed (w : World) :
    Runs.Along (step .little .apple) (fun w action =>
      action.Admissible 100 ∧ w.Transmits .apple action) w splitFrame := by
  have hall : ∀ action ∈ splitFrame, action.Admissible 100 := by
    intro action hmem
    simp only [splitFrame, List.mem_cons, List.not_mem_nil, or_false] at hmem
    rcases hmem with rfl | rfl | rfl | rfl | rfl
    · exact (by decide : (0 : Int) ≤ 5)
    · exact (by decide : (0 : Int) ≤ 6)
    · exact ⟨by decide, by decide, by decide⟩
    · trivial
    · trivial
  exact (Runs.along_of_forall hall).mono fun w action h => ⟨h, w.transmits_apple action⟩

/-- One consumer gets the header and the first byte of the message, the
other one the second byte. -/
theorem not_whole_messages :
    ¬ ∀ (host : ByteOrder) (platform : Platform) (outputDirectory id : Bytes) (maxFileSize : Nat)
        (actions : List Action) (w : World), 0 < maxFileSize → maxFileSize < 2 ^ 31 →
        Runs.Along (step host platform) (fun w action =>
          action.Admissible maxFileSize ∧ w.Transmits platform action)
          (start outputDirectory id maxFileSize) actions →
        Runs.run (step host platform) (start outputDirectory id maxFileSize) actions = some w →
        w.writeOffset = w.written →
        ∃ owners : List Int, owners.length = w.frames.length ∧ ∀ fd, w.received fd
          = ((w.frames.zip owners).filter fun p => p.2 = fd).flatMap Prod.fst := by
  intro h
  have hrun : ((Runs.run (step .little .apple) (start (ascii "/tmp") (ascii "t") 100) splitFrame).map
      fun w => (w.writeOffset, w.written, w.frames, w.received 5))
        = some (6, 6, [[2, 0, 0, 0, 97, 98]], [2, 0, 0, 0, 97]) := by decide
  obtain ⟨w, hw, hfacts⟩ := Option.map_eq_some_iff.mp hrun
  simp only [Prod.mk.injEq] at hfacts
  obtain ⟨hoffset, hwritten, hframes, hreceived⟩ := hfacts
  obtain ⟨owners, hlen, hall⟩ := h .little .apple (ascii "/tmp") (ascii "t") 100 splitFrame w
    (by decide) (by decide) (splitFrame_allowed _) hw (hoffset.trans hwritten.symm)
  have hfive := hall 5
  rw [hreceived] at hfive
  rw [hframes] at hlen hfive
  obtain ⟨owner, rfl⟩ := List.length_eq_one_iff.mp hlen
  by_cases howner : owner = 5
  · simp [howner] at hfive
  · simp [howner] at hfive

end SocketTopic.World

end LightQ
