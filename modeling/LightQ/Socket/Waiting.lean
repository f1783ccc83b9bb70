/-
# `Socket.Waiting` — when `process_consumers` sleeps

Both loops of the file branch compare byte counters with a slack of four, the
length of a header.  The reader of the ZeroMQ path moves over whole frames,
of five bytes at least, so that its loop waits only when nothing is left.
`sendfile_to_socket` moves by what a call gets through, and one that leaves
one, two or three bytes puts the loop to sleep in front of them.

Whether a call does so depends on the backlog in front of it and on how far it
can reach (`sendReach`): on what the socket takes, on what is asked for, on the
message limit and, on Linux, on what the file holds behind the clamped size.
A call goes as far as it can reach and not past the append position of its file
(`sendCount_eq`), and what the files behind it hold are whole frames; so a
backlog that goes beyond the file cannot end in a remainder, however much is sent
(`Invariant.backlog`).  Inside the file it ends in one when it exceeds the reach
by less than four bytes.

`sleeps_only_when_drained_iff` says for the raw path that the loop never sleeps
too early in exactly the runs without such a call, and for the other path that
it never does as long as the files of the log are different ones.

In a step the loop waits and nothing happens, or it is a step of the topic
(`loopStep_cases`).  Frames that are added are longer than the slack
(`Drained.grows`, `length_flatten_wellFramed`), so that nothing but a call can
lose the property.  A call that reports success has sent as many bytes as it says
and moved the write offset by them (`length_sendFile`, `Invariant.sends_count`);
one that leaves no remainder keeps the property (`drained_step`), and one that
does puts the loop to sleep in front of it (`Invariant.leaves_remainder`).  On the
ZeroMQ path every frame has been read when the loop waits (`Invariant.drained`).
-/
import LightQ.Socket.ConnectionSocket
import LightQ.Storage.FileToConsumer

namespace LightQ

open MachineInt FrameLog

/-- What the socket takes. -/
def SendfileResult.taken : SendfileResult → Nat
  | .sent k => k
  | .failed _ => 0

namespace FileDetails

/-- How many bytes one `sendfile` gets through: at most what it is asked for
behind the clamps, and what the file holds where it starts. -/
def sendCount (platform : Platform) (f : FileDetails) (offset size : Nat) : SendfileResult → Nat
  | .sent k =>
      min (min k (f.sendSize offset size)) (f.content.length - sendPosition platform f offset size)
  | .failed _ => 0

/-- How far a call can reach, if the append position is not in the way: what the
socket takes, what is asked for, the message limit, and what the file holds
where `sendfile` starts. -/
def sendReach (platform : Platform) (f : FileDetails) (offset size : Nat) (r : SendfileResult) :
    Nat :=
  min r.taken (min size (min maxMsgSize
    (f.content.length - sendPosition platform f offset size)))

/-- A call goes as far as it can reach, and not past the append position. -/
theorem sendCount_eq {f : FileDetails} {offset : Nat} (platform : Platform) (size : Nat)
    (r : SendfileResult) (h : offset ≤ f.offset) :
    f.sendCount platform offset size r
      = min (f.sendReach platform offset size r) (f.offset - offset) := by
  cases r with
  | failed k => simp [sendCount, sendReach, SendfileResult.taken]
  | sent k =>
      have hsize : f.sendSize offset size = min (min size maxMsgSize) (f.offset - offset) := by
        rw [sendSize]
        split
        · split
          · rw [subU64_of_le h]
            omega
          · omega
        · split
          · rw [subU64_of_le h]
            omega
          · omega
      rw [sendCount, sendReach]
      generalize f.content.length - sendPosition platform f offset size = room
      rw [hsize, SendfileResult.taken]
      omega

theorem length_sendFile_sent {platform : Platform} {f : FileDetails} {offset size : Nat} (k : Nat) :
    (f.sendFile platform offset size (.sent k)).2.length = f.sendCount platform offset size (.sent k) ∧
      (f.sendFile platform offset size (.sent k)).1 = f.sendCount platform offset size (.sent k) := by
  have hlen : ((f.content.drop (sendPosition platform f offset size)).take
      (min k (f.sendSize offset size))).length = f.sendCount platform offset size (.sent k) := by
    rw [List.length_take, List.length_drop]
    rfl
  rw [sendFile_sent]
  exact ⟨hlen, by rw [hlen]⟩

theorem length_sendFile {platform : Platform} {f : FileDetails} {offset size : Nat}
    {r : SendfileResult} (hpos : 0 < (f.sendFile platform offset size r).1) :
    (f.sendFile platform offset size r).2.length = f.sendCount platform offset size r := by
  cases r with
  | failed k => exact absurd (sendFile_failed k) (Int.not_le.mpr hpos)
  | sent k => exact (length_sendFile_sent k).1

theorem sendFile_pos {platform : Platform} {f : FileDetails} {offset size : Nat}
    {r : SendfileResult} (hcount : 0 < f.sendCount platform offset size r) :
    0 < (f.sendFile platform offset size r).1 := by
  cases r with
  | failed k => exact absurd hcount (Nat.lt_irrefl 0)
  | sent k =>
      rw [(length_sendFile_sent k).2]
      exact_mod_cast hcount

end FileDetails

/-! ## The raw-socket path -/

namespace SocketTopic.World

/-- The test of the loop in front of `sendfile_to_socket`. -/
def Waits (w : World) : Prop := w.written < w.writeOffset + 4

instance (w : World) : Decidable w.Waits := Nat.decLt _ _

/-- A step of the topic; `process_consumers` calls `sendfile_to_socket` when
its loop does not wait. -/
def loopStep (host : ByteOrder) (platform : Platform) (w : World) (action : Action) :
    Option World :=
  match action with
  | .sendfileToSocket _ _ => if w.Waits then some w else w.step host platform action
  | _ => w.step host platform action

/-- Whenever the loop waits, everything has been sent. -/
def Drained (w : World) : Prop := w.Waits → w.writeOffset = w.written

/-- A call that finds a socket is in front of a backlog that goes beyond the
file, or one that it can clear, or one that exceeds its reach by more than the
slack. -/
def LeavesNoRemainder (platform : Platform) (w : World) : Action → Prop
  | .sendfileToSocket bytesToSend r =>
      ¬ w.Waits → 0 ≤ w.consumer.socket.nextFd → ∀ file f o,
        w.consumer.storage.pFile = some file →
        ConnectionFile.locate w.writeOffset file.fileFds none = some (f, o) →
        let backlog := w.written - w.writeOffset
        let reach := f.sendReach platform o bytesToSend r
        f.offset - o < backlog ∨ backlog ≤ reach ∨ reach + 3 < backlog
  | _ => True

section Steps

variable {host : ByteOrder} {platform : Platform} {maxFileSize : Nat} {w w' : World}
  {file : ConnectionFile} {segs : List Segment}

theorem length_flatten_wellFramed {frames : List Bytes} (h : ∀ fr ∈ frames, WellFramed host fr) :
    frames.flatten.length = 0 ∨ 4 < frames.flatten.length := by
  cases frames with
  | nil => exact Or.inl rfl
  | cons fr frames =>
      obtain ⟨n, hpos, hlen, -⟩ := h fr List.mem_cons_self
      rw [List.flatten_cons, List.length_append]
      omega

/-- The backlog is the rest of the file that the write offset lies in and what
the files behind it hold. -/
theorem Invariant.backlog (h : Invariant host maxFileSize w file segs) {f : FileDetails} {o : Nat}
    (hmore : w.writeOffset < w.written)
    (hfind : ConnectionFile.locate w.writeOffset file.fileFds none = some (f, o)) :
    o < f.offset ∧ ∃ later, w.written = w.writeOffset + (f.offset - o) + later ∧
      (later = 0 ∨ 4 < later) := by
  rcases h.log.sendFile_cases .apple w.writeOffset 0 (.sent 0) with
    ⟨hend, -⟩ | ⟨pre, x, post, hsplit, hle, hlt, hfind', -⟩
  · rw [← h.written_eq] at hend
    omega
  · obtain ⟨rfl, rfl⟩ := Prod.mk.inj (Option.some.inj (hfind.symm.trans hfind'))
    have htotal := h.written_eq
    rw [h.log.total_eq, hsplit, logBytes_append, logBytes_cons, List.length_append,
      List.length_append] at htotal
    have hframed : ∀ fr ∈ logFrames post, WellFramed host fr := by
      intro fr hfr
      refine h.log.framed fr ?_
      rw [hsplit, logFrames_append, logFrames_cons]
      exact List.mem_append_right _ (List.mem_append_right _ hfr)
    have hlater := length_flatten_wellFramed hframed
    rw [flatten_logFrames] at hlater
    rw [x.offset_eq]
    exact ⟨by omega, (logBytes post).length, by omega, hlater⟩

theorem Sends.written {fd : Int} {bytes : Bytes} (h : Sends w w' fd bytes) :
    w'.written = w.written := by
  rw [World.written, h.storage]
  rfl

theorem Drained.grows (h : Drained w) {more : List Bytes} (hinv : Invariant host maxFileSize w file segs)
    {file' : ConnectionFile} {segs' : List Segment}
    (hinv' : Invariant host maxFileSize w' file' segs') (hmore : ∀ fr ∈ more, 4 < fr.length)
    (hgrows : Grows w w' more) : Drained w' := by
  intro hwaits
  have hle := hinv.offset_le
  have htotal := hinv.written_eq
  have hwritten : w'.written = w.written + more.flatten.length := by
    rw [hinv'.written_frames, hgrows.frames, List.flatten_append, List.length_append,
      hinv.written_frames]
  rw [Waits, hgrows.writeOffset, hwritten] at hwaits
  cases more with
  | nil =>
      rw [List.flatten_nil, List.length_nil] at hwaits hwritten
      rw [hgrows.writeOffset, hwritten]
      exact h hwaits
  | cons fr more =>
      have hfr := hmore fr List.mem_cons_self
      rw [List.flatten_cons, List.length_append] at hwaits
      omega

theorem loopStep_cases {action : Action} (hstep : w.loopStep host platform action = some w') :
    w' = w ∨ (w.step host platform action = some w' ∧
      ∀ bytesToSend r, action = .sendfileToSocket bytesToSend r → ¬ w.Waits) := by
  cases action with
  | sendfileToSocket bytesToSend r =>
      rw [loopStep] at hstep
      split at hstep
      · exact Or.inl (Option.some.inj hstep).symm
      · next hwaits => exact Or.inr ⟨hstep, fun _ _ _ => hwaits⟩
  | addToStorage overload message content sched => exact Or.inr ⟨hstep, nofun⟩
  | setCurrentFile content => exact Or.inr ⟨hstep, nofun⟩
  | accept connfd => exact Or.inr ⟨hstep, nofun⟩

theorem Invariant.sends_count (h : Invariant host maxFileSize w file segs) {bytesToSend : Nat}
    {r : SendfileResult} {fd : Int} {bytes : Bytes} (hpos : 0 < bytes.length)
    (hstep : w.step host platform (.sendfileToSocket bytesToSend r) = some w')
    (hsends : Sends w w' fd bytes) :
    ∃ f o, ConnectionFile.locate w.writeOffset file.fileFds none = some (f, o) ∧
      w'.writeOffset = w.writeOffset + f.sendCount platform o bytesToSend r := by
  obtain ⟨w₁, hstep₁, hidle | ⟨pre, x, post, -, -, -, hfind, hvalue, fd', hsends'⟩⟩ :=
    h.send_cases platform bytesToSend r
  · obtain rfl := Option.some.inj (hstep₁.symm.trans hstep)
    have hmoved := hsends.writeOffset
    rw [hidle.grows.writeOffset] at hmoved
    omega
  · obtain rfl := Option.some.inj (hstep₁.symm.trans hstep)
    exact ⟨x.file, _, hfind, by rw [hsends'.writeOffset, FileDetails.length_sendFile hvalue]⟩

theorem drained_step {action : Action}
    (h : (∃ file segs, Invariant host maxFileSize w file segs) ∧ Drained w)
    (hM : maxFileSize < 2 ^ 31) (hact : action.Admissible maxFileSize)
    (hleaves : w.LeavesNoRemainder platform action)
    (hstep : w.loopStep host platform action = some w') :
    (∃ file segs, Invariant host maxFileSize w' file segs) ∧ Drained w' := by
  rcases loopStep_cases hstep with rfl | ⟨hplain, hawake⟩
  · exact h
  obtain ⟨⟨file, segs, hinv⟩, hdrained⟩ := h
  obtain ⟨w₁, file', segs', hstep₁, hinv', hchange⟩ := hinv.step hM platform hact
  obtain rfl := Option.some.inj (hstep₁.symm.trans hplain)
  refine ⟨⟨file', segs', hinv'⟩, ?_⟩
  cases hchange with
  | grows more hmore hgrows hwire => exact hdrained.grows hinv hinv' hmore hgrows
  | sends bytesToSend r fd bytes haction hsends hpos hslice =>
      subst haction
      obtain ⟨f, o, hfind, hmoved⟩ := hinv.sends_count hpos hplain hsends
      have hbehind : w.writeOffset + 4 ≤ w.written := Nat.not_lt.mp (hawake _ _ rfl)
      obtain ⟨hinside, later, hbacklog, hlater⟩ := hinv.backlog (by omega) hfind
      have hclear := hleaves (hawake _ _ rfl) (hsends.nextFd ▸ hsends.nonneg) file f o
        hinv.file_eq hfind
      rw [FileDetails.sendCount_eq platform bytesToSend r (Nat.le_of_lt hinside)] at hmoved
      dsimp only at hclear
      intro hwaits
      rw [Waits, hmoved, hsends.written] at hwaits
      rw [hmoved, hsends.written]
      omega

/-- A call that leaves a remainder puts the loop to sleep in front of it. -/
theorem Invariant.leaves_remainder (h : Invariant host maxFileSize w file segs) {action : Action}
    (hbad : ¬ w.LeavesNoRemainder platform action) :
    ∃ w', w.loopStep host platform action = some w' ∧ ¬ Drained w' := by
  cases action with
  | sendfileToSocket bytesToSend r =>
      simp only [LeavesNoRemainder, not_forall, not_or] at hbad
      obtain ⟨hawake, hfd, file', f, o, hfile, hfind, hfits, hshort, hnear⟩ := hbad
      obtain rfl := Option.some.inj (h.file_eq.symm.trans hfile)
      have hbehind : w.writeOffset + 4 ≤ w.written := Nat.not_lt.mp hawake
      obtain ⟨hinside, later, hbacklog, -⟩ := h.backlog (by omega) hfind
      have hreach : f.sendCount platform o bytesToSend r
          = f.sendReach platform o bytesToSend r := by
        rw [FileDetails.sendCount_eq platform bytesToSend r (Nat.le_of_lt hinside)]
        omega
      have hvalue := FileDetails.sendFile_pos
        (show 0 < f.sendCount platform o bytesToSend r by omega)
      obtain ⟨hcount, -⟩ := FileDetails.sendFile_value hvalue
      have hsend := ConnectionFile.sendFile_of_locate platform bytesToSend
        (show w.writeOffset < file.totalBytesWriten by rw [← h.written_eq]; omega) hfind r
      rw [if_pos hvalue] at hsend
      obtain ⟨w', hstep, hsends⟩ := step_sends host h.file_eq rfl hfd
        (show 0 < (f.sendFile platform o bytesToSend r).2.length by omega)
        (hsend.trans (Prod.ext hcount rfl))
      refine ⟨w', (if_neg hawake).trans hstep, ?_⟩
      intro hdrained
      have hmoved := hsends.writeOffset
      rw [FileDetails.length_sendFile hvalue, hreach] at hmoved
      have hall := hdrained (by rw [Waits, hmoved, hsends.written]; omega)
      rw [hmoved, hsends.written] at hall
      omega
  | addToStorage overload message content sched => exact absurd trivial hbad
  | setCurrentFile content => exact absurd trivial hbad
  | accept connfd => exact absurd trivial hbad

end Steps

end SocketTopic.World

/-! ## The ZeroMQ path -/

namespace Topic

/-- The test of the loop in front of `file_to_consumer`. -/
def Waits (t : Topic) : Prop :=
  t.storage.getFileTotalBytesWritten ≤ t.storage.totalBytesRead + 4

instance (t : Topic) : Decidable t.Waits := Nat.decLe _ _

/-- A step of the topic; `process_consumers` calls `file_to_consumer` when its
loop does not wait. -/
def loopStep (host : ByteOrder) (t : Topic) (op : TopicOp) : Option Topic :=
  match op with
  | .deliver _ => if t.Waits then some t else t.step host op
  | _ => t.step host op

section Steps

variable {host : ByteOrder} {t : Topic} {messages : List Bytes} {ghost : Session}
  {segs : List Segment}

theorem Invariant.drained (h : Invariant host t messages ghost segs)
    (hdistinct : t.storage.FilesDistinct) (hwaits : t.Waits) :
    t.storage.totalBytesRead = t.storage.getFileTotalBytesWritten := by
  have hdifferent : ghost.conn.Distinct := hdistinct _ h.file
  have hreader := h.session.reader hdifferent
  obtain ⟨rest, hrest⟩ := hreader.got_prefix
  have hsplit : ghost.got ++ rest = ghost.frames := hrest
  have hoffset : ghost.offset = ghost.got.flatten.length := hreader.offset_eq
  have htotal : t.storage.getFileTotalBytesWritten = ghost.conn.totalBytesWriten :=
    BrokerStorage.getFileTotalBytesWritten_of_file h.file
  rw [Waits, htotal, h.offset hdifferent, h.session.total_eq, hoffset, ← hsplit, List.flatten_append,
    List.length_append] at hwaits
  rw [htotal, h.offset hdifferent, h.session.total_eq, hoffset, ← hsplit, List.flatten_append,
    List.length_append]
  cases rest with
  | nil => rfl
  | cons fr rest =>
      have hmem : fr ∈ logFrames segs := by
        rw [h.session.frames_eq, ← hsplit]
        exact List.mem_append_right _ List.mem_cons_self
      obtain ⟨n, hpos, hlen, -⟩ := h.session.files.framed fr hmem
      rw [List.flatten_cons, List.length_append] at hwaits
      omega

theorem invariant_loopStep {t' : Topic} {op : TopicOp}
    (h : ∃ messages ghost segs, Invariant host t messages ghost segs) (hop : op.Admissible)
    (hstep : t.loopStep host op = some t') :
    ∃ messages ghost segs, Invariant host t' messages ghost segs := by
  obtain ⟨messages, ghost, segs, h⟩ := h
  cases op with
  | publish overload message content sched =>
      obtain ⟨t₁, ghost', segs', hstep₁, -, hinv⟩ := h.publish hop
      obtain rfl := Option.some.inj (hstep₁.symm.trans hstep)
      exact ⟨_, ghost', segs', hinv⟩
  | deliver written =>
      rw [loopStep] at hstep
      split at hstep
      · obtain rfl := Option.some.inj hstep
        exact ⟨messages, ghost, segs, h⟩
      · obtain ⟨t₁, ghost', hstep₁, -, hinv⟩ := h.deliver written
        obtain rfl := Option.some.inj (hstep₁.symm.trans hstep)
        exact ⟨messages, ghost', segs, hinv⟩

end Steps

end Topic

/-! ## Both -/

namespace SocketTopic.World

/-- The raw path sleeps only when everything is sent, in exactly the runs in
which no call leaves a remainder of less than four bytes; the ZeroMQ path in
every run of a log of different files. -/
theorem sleeps_only_when_drained_iff (host : ByteOrder) (platform : Platform)
    (outputDirectory id : Bytes) {maxFileSize : Nat} (hM : 0 < maxFileSize)
    (hM₃₁ : maxFileSize < 2 ^ 31) {actions : List Action} {ops : List TopicOp}
    (hactions : ∀ action ∈ actions, action.Admissible maxFileSize)
    (hops : ∀ op ∈ ops, op.Admissible) :
    (Runs.Everywhere (loopStep host platform) Drained (start outputDirectory id maxFileSize) actions ↔
      Runs.Along (loopStep host platform) (LeavesNoRemainder platform)
        (start outputDirectory id maxFileSize) actions) ∧
    ∀ t, Runs.run (Topic.loopStep host) (Topic.start outputDirectory id) ops = some t →
      t.storage.FilesDistinct → t.Waits →
      t.storage.totalBytesRead = t.storage.getFileTotalBytesWritten := by
  constructor
  · refine Runs.everywhere_iff_along
      (I := fun w => (∃ file segs, Invariant host maxFileSize w file segs) ∧ Drained w)
      (P := fun _ action => action.Admissible maxFileSize) ?_ ?_ ?_
      ⟨⟨_, _, invariant_start host outputDirectory id hM⟩, fun _ => rfl⟩
      (Runs.along_of_forall hactions)
    · intro w action w' hI hact hleaves hstep
      exact drained_step hI hM₃₁ hact hleaves hstep
    · intro w hI
      exact hI.2
    · rintro w action ⟨⟨file, segs, hinv⟩, -⟩ - hbad
      exact hinv.leaves_remainder hbad
  · intro t hrun hdistinct hwaits
    obtain ⟨messages, ghost, segs, hinv⟩ := Runs.run_invariant
      (I := fun t => ∃ messages ghost segs, Topic.Invariant host t messages ghost segs)
      (P := fun _ op => op.Admissible) Topic.invariant_loopStep
      ⟨_, _, _, Topic.invariant_start host outputDirectory id⟩ (Runs.along_of_forall hops) hrun
    exact hinv.drained hdistinct hwaits

/-- A call that gets five of six bytes through. -/
def leaveOne : List Action :=
  [.accept 5, .addToStorage .string (ascii "ab") [] [], .sendfileToSocket maxMsgSize (.sent 5)]

theorem leaveOne_admissible : ∀ action ∈ leaveOne, action.Admissible 100 := by
  intro action hmem
  simp only [leaveOne, List.mem_cons, List.not_mem_nil, or_false] at hmem
  rcases hmem with rfl | rfl | rfl
  · exact (by decide : (0 : Int) ≤ 5)
  · exact ⟨by decide, by decide, by decide⟩
  · trivial

theorem sleeps_only_when_drained_iff_leaveOne :
    (Runs.Everywhere (loopStep .little .apple) Drained (start (ascii "/tmp") (ascii "t") 100)
        leaveOne ↔
      Runs.Along (loopStep .little .apple) (LeavesNoRemainder .apple)
        (start (ascii "/tmp") (ascii "t") 100) leaveOne) ∧
    ∀ t, Runs.run (Topic.loopStep .little) (Topic.start (ascii "/tmp") (ascii "t"))
        Topic.oneMessage = some t →
      t.storage.FilesDistinct → t.Waits →
      t.storage.totalBytesRead = t.storage.getFileTotalBytesWritten :=
  sleeps_only_when_drained_iff .little .apple (ascii "/tmp") (ascii "t") (by decide) (by decide)
    leaveOne_admissible Topic.oneMessage_admissible

/-- The last byte stays behind, and the loop sleeps. -/
theorem sleeps_not_drained :
    ¬ ∀ (host : ByteOrder) (platform : Platform) (outputDirectory id : Bytes) (maxFileSize : Nat)
        (actions : List Action), 0 < maxFileSize → maxFileSize < 2 ^ 31 →
        (∀ action ∈ actions, action.Admissible maxFileSize) →
        Runs.Everywhere (loopStep host platform) Drained (start outputDirectory id maxFileSize)
          actions := by
  intro h
  have hrun : ((Runs.run (loopStep .little .apple) (start (ascii "/tmp") (ascii "t") 100)
      leaveOne).map fun w => (w.writeOffset, w.written)) = some (5, 6) := by decide
  obtain ⟨w, hw, hoffsets⟩ := Option.map_eq_some_iff.mp hrun
  obtain ⟨hoffset, hwritten⟩ := Prod.mk.inj hoffsets
  have hdrained : Drained w := h .little .apple (ascii "/tmp") (ascii "t") 100 leaveOne (by decide)
    (by decide) leaveOne_admissible leaveOne w List.prefix_rfl hw
  have hall := hdrained (by rw [Waits, hoffset, hwritten]; decide)
  rw [hoffset, hwritten] at hall
  exact absurd hall (by decide)

end SocketTopic.World

end LightQ
