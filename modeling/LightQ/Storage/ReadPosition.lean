/-
# `Storage.ReadPosition` — where `file_to_consumer` stands in the log

A file topic with a ZeroMQ consumer is read at `total_bytes_read_`, which
moves by whatever `read` returns.  The broker does not look at the length of
a message it stores, while the reader's buffer has `max_msg_size` bytes, and
of a message that does not fit there `read_msg` returns the header: four
bytes less than the frame takes.  From then on payload bytes are read as
lengths.

`read_position_on_boundary_iff` is about messages of every length: the
position stays on frame boundaries if no call meets a message longer than the
buffer and the files of the log are different ones, and when they are that is
the only way it does.  The log may hold frames longer than a file here, which
is why its invariant is `LogFiles`, without the quota.

A step adds a message or delivers.  Adding keeps the position where it is, in
front of the same frames (`Invariant.publish`).  Delivering moves it by the
value of `read`, if that is positive, and touches nothing else that it looks at
(`step_deliver`): where the next message fits, to the next boundary
(`Invariant.deliver`), where it does not, into the middle of the frame, off every
boundary (`Invariant.deliver_oversize`).
In no case is what is sent the message itself (`fileToConsumer_frame`): the
length is too short by four, or for fewer than four bytes beyond the buffer
(`sent_length_ne`).

Whether the files are different ones is a matter of the name, which no step
changes (`step_noZero`): `along_distinct` gives it for every run of a topic
without a zero byte.
-/
import LightQ.Lib.Runs
import LightQ.Storage.FileToConsumer

namespace LightQ

open MachineInt FrameLog

namespace BrokerStorage

theorem sent_length_ne {n v : Nat} {buffer : Bytes} (hpos : 0 < n)
    (hv : v = 4 + n ∧ n + 6 ≤ buffer.length ∨ v = n ∧ maxMsgSize < n) :
    ((buffer.drop 4).take (u32OfInt ((v : Int) - 4 - 4))).length ≠ n := by
  rw [List.length_take, List.length_drop, u32OfInt]
  have hmax : maxMsgSize = 1048576 := rfl
  omega

theorem fileToConsumer_frame {host : ByteOrder} {s : BrokerStorage} {conn : ConnectionFile}
    {segs : List Segment} {fr : Bytes} {written : Int} {d : Delivery}
    (hlog : LogFiles host conn segs) (hdistinct : conn.Distinct) (hfile : s.pFile = some conn)
    (hconsumer : s.pConsumerSocket = some .zmq)
    (hat : frameAt (logFrames segs) s.totalBytesRead = some fr)
    (hd : s.fileToConsumer host false [] written = some d) :
    s.totalBytesRead < d.storage.totalBytesRead ∧
      ∃ bytes, d.sent.map Prod.fst = [bytes] ∧ bytes ≠ fr.drop 4 := by
  obtain ⟨⟨n, hpos, hlen, -⟩, -⟩ := hlog.read_segment hat
  have hn : (fr.drop 4).length = n := by
    rw [List.length_drop]
    omega
  have hinside : s.totalBytesRead < conn.totalBytesWriten := by
    obtain ⟨pre, post, hframes, hstart⟩ := exists_of_frameAt hat
    rw [hlog.total_eq, ← flatten_logFrames, hframes, List.flatten_append, List.flatten_cons]
    simp only [List.length_append]
    omega
  generalize hr : conn.read host (store s.buffer 0 [0]) maxMsgSize s.totalBytesRead false [] = r
  obtain ⟨v, hvalue, hv⟩ : ∃ v : Nat, r.value = v ∧
      (v = 4 + n ∧ 4 + n ≤ r.buffer.length ∨ v = n ∧ maxMsgSize < n) := by
    rcases Nat.lt_or_ge (4 + maxMsgSize) fr.length with hbig | hfit
    · refine ⟨n, ?_, Or.inr ⟨rfl, by omega⟩⟩
      rw [← hr, hlog.read_oversize hdistinct _ hat hbig]
      omega
    · obtain ⟨hvalue, htake⟩ := hlog.read_frame hdistinct (store s.buffer 0 [0]) hat hfit
      rw [hr] at hvalue htake
      refine ⟨4 + n, by rw [hvalue, hlen], Or.inl ⟨rfl, ?_⟩⟩
      have hshort := congrArg List.length htake
      rw [List.length_take] at hshort
      omega
  have hvpos : 0 < v := by omega
  rw [fileToConsumer_of_pos hfile hconsumer (by omega) hr hvalue hvpos written] at hd
  obtain rfl := Option.some.inj hd
  refine ⟨Nat.lt_add_of_pos_right hvpos, _, rfl, ?_⟩
  intro heq
  refine sent_length_ne hpos (hv.imp_left fun ⟨hv, _⟩ => ⟨hv, ?_⟩) ((congrArg List.length heq).trans hn)
  rw [store, Overlay.length_overlay (List.cons_ne_nil _ _), List.length_singleton]
  omega

end BrokerStorage

namespace Topic

theorem step_deliver {t : Topic} {file : ConnectionFile} (host : ByteOrder)
    (hfile : t.storage.pFile = some file) (hconsumer : t.storage.pConsumerSocket = some .zmq)
    (hmore : t.storage.totalBytesRead < file.totalBytesWriten + 4) (written : Int) :
    ∃ t' buffer, t.step host (.deliver written) = some t' ∧
      t'.storage.brokerType = t.storage.brokerType ∧ t'.storage.pConsumerSocket = some .zmq ∧
      t'.storage.pFile = some file ∧
      t'.storage.totalBytesRead = t.storage.totalBytesRead
        + (file.read host buffer maxMsgSize t.storage.totalBytesRead false []).value.toNat := by
  generalize hr : file.read host (store t.storage.buffer 0 [0]) maxMsgSize t.storage.totalBytesRead
    false [] = r
  rcases le_or_gt r.value 0 with hnone | hsome
  · obtain ⟨buffer, -, hd⟩ := BrokerStorage.fileToConsumer_of_nonpos hfile hmore hr hnone written
    refine ⟨_, store t.storage.buffer 0 [0], step_deliver_of_some hd, rfl, hconsumer, hfile, ?_⟩
    rw [hr, Int.toNat_of_nonpos hnone]
    rfl
  · have hvalue : r.value = r.value.toNat := (Int.toNat_of_nonneg (Int.le_of_lt hsome)).symm
    have hd := BrokerStorage.fileToConsumer_of_pos hfile hconsumer hmore hr hvalue (by omega) written
    exact ⟨_, store t.storage.buffer 0 [0], step_deliver_of_some hd, rfl, hconsumer, hfile,
      by rw [hr]⟩

end Topic

/-- The length of messages is what a header has room for, and no call
fails. -/
def TopicOp.Accepted : TopicOp → Prop
  | .publish _ message _ sched =>
      0 < message.length ∧ message.length < 2 ^ 31 - 4 ∧ PwriteResult.error ∉ sched
  | .deliver written => 0 ≤ written

/-- A file topic and the messages added to it so far. -/
structure DurableTopic where
  topic : Topic
  added : List Bytes

namespace DurableTopic

def start (outputDirectory id : Bytes) : DurableTopic := ⟨Topic.start outputDirectory id, []⟩

def step (host : ByteOrder) (t : DurableTopic) (op : TopicOp) : Option DurableTopic :=
  (t.topic.step host op).map fun topic => ⟨topic, t.added ++ published [op]⟩

/-- The frames that the messages became. -/
def frames (host : ByteOrder) (t : DurableTopic) : List Bytes :=
  t.added.map fun message => frame host message false 0

/-- The read position is inside the log, at the start of a frame or at the
end. -/
def OnFrame (host : ByteOrder) (t : DurableTopic) : Prop :=
  t.topic.storage.totalBytesRead ≤ t.topic.storage.getFileTotalBytesWritten ∧
    ((∃ fr, frameAt (t.frames host) t.topic.storage.totalBytesRead = some fr) ∨
      t.topic.storage.totalBytesRead = t.topic.storage.getFileTotalBytesWritten)

/-- `file_to_consumer` is not called in front of a message that is longer
than the buffer it reads into. -/
def NextFits (host : ByteOrder) (t : DurableTopic) : TopicOp → Prop
  | .publish _ _ _ _ => True
  | .deliver _ => ∀ fr, frameAt (t.frames host) t.topic.storage.totalBytesRead = some fr →
      fr.length ≤ 4 + maxMsgSize

structure Invariant (host : ByteOrder) (t : DurableTopic) (conn : ConnectionFile)
    (segs : List Segment) : Prop where
  brokerType : t.topic.storage.brokerType = .file
  consumer : t.topic.storage.pConsumerSocket = some .zmq
  file : t.topic.storage.pFile = some conn
  log : LogFiles host conn segs
  frames_eq : logFrames segs = t.frames host
  position : OnBoundary (t.frames host) t.topic.storage.totalBytesRead

section Steps

variable {host : ByteOrder} {t t' : DurableTopic} {conn : ConnectionFile} {segs : List Segment}

theorem invariant_start (host : ByteOrder) (outputDirectory id : Bytes) :
    Invariant host (start outputDirectory id)
      (ConnectionFile.create outputDirectory id ConnectionFile.defaultMaxFileSize) [] where
  brokerType := rfl
  consumer := rfl
  file := rfl
  log := (logInvariant_create host outputDirectory id (by decide)).logFiles
  frames_eq := rfl
  position := onBoundary_zero []

theorem Invariant.nonempties (h : Invariant host t conn segs) : Nonempties (t.frames host) := by
  rw [← h.frames_eq]
  exact h.log.nonempties

theorem Invariant.total_eq (h : Invariant host t conn segs) :
    conn.totalBytesWriten = (t.frames host).flatten.length := by
  rw [h.log.total_eq, ← flatten_logFrames, h.frames_eq]

theorem Invariant.file_total (h : Invariant host t conn segs) :
    t.topic.storage.getFileTotalBytesWritten = conn.totalBytesWriten :=
  BrokerStorage.getFileTotalBytesWritten_of_file h.file

theorem Invariant.onFrame (h : Invariant host t conn segs) : t.OnFrame host := by
  rw [OnFrame, h.file_total, h.total_eq]
  exact ⟨h.position.le h.nonempties, h.position⟩

theorem Invariant.publish_step (h : Invariant host t conn segs)
    {overload : ConnectionFile.Overload} {message content : Bytes} {sched : List PwriteResult}
    (hstep : t.step host (.publish overload message content sched) = some t') :
    ∃ a, conn.write host overload message false (some content) sched = some a ∧
      t' = ⟨⟨(t.topic.storage.bookFile a).storage, t.topic.sent⟩, t.added ++ [message]⟩ := by
  rw [step, Topic.step_publish h.brokerType h.file, Option.map_map] at hstep
  obtain ⟨a, hwrite, rfl⟩ := Option.map_eq_some_iff.mp hstep
  exact ⟨a, hwrite, rfl⟩

theorem Invariant.publish (h : Invariant host t conn segs) {overload : ConnectionFile.Overload}
    {message content : Bytes} {sched : List PwriteResult}
    (hop : (TopicOp.publish overload message content sched).Accepted)
    (hstep : t.step host (.publish overload message content sched) = some t') :
    ∃ conn' segs', Invariant host t' conn' segs' := by
  obtain ⟨hpos, hlen, hno⟩ := hop
  obtain ⟨a, hwrite, rfl⟩ := h.publish_step hstep
  have hshort : frameLength message false < 2 ^ 31 := by
    show 4 + message.length + 0 < 2 ^ 31
    omega
  obtain ⟨segs', hlog, -, hframes⟩ :=
    h.log.write overload content (List.length_pos_iff.mp hpos) hshort hno hwrite
  obtain ⟨n, hbook⟩ := BrokerStorage.bookFile_eq t.topic.storage a
  have hgrow : logFrames segs' = t.frames host ++ [frame host message false 0] := by
    rw [hframes, h.frames_eq]
    rfl
  have hadd : (t.added ++ [message]).map (fun message => frame host message false 0)
      = t.frames host ++ [frame host message false 0] := List.map_append
  rw [hbook]
  refine ⟨a.conn, segs', h.brokerType, h.consumer, rfl, hlog, hgrow.trans hadd.symm, ?_⟩
  rw [frames, hadd]
  exact h.position.append (hgrow ▸ hlog.nonempties)

theorem Invariant.deliver_step (h : Invariant host t conn segs) (written : Int) :
    ∃ t' buffer, t.step host (.deliver written) = some t' ∧
      t'.topic.storage.brokerType = .file ∧ t'.topic.storage.pConsumerSocket = some .zmq ∧
      t'.topic.storage.pFile = some conn ∧ t'.frames host = t.frames host ∧
      t'.topic.storage.totalBytesRead = t.topic.storage.totalBytesRead
        + (conn.read host buffer maxMsgSize t.topic.storage.totalBytesRead false []).value.toNat := by
  have hle := h.position.le h.nonempties
  rw [← h.total_eq] at hle
  obtain ⟨topic, buffer, hstep, htype, hconsumer, hfile, hread⟩ :=
    Topic.step_deliver host h.file h.consumer (by omega) written
  refine ⟨⟨topic, t.added ++ []⟩, buffer, by rw [step, hstep]; rfl, htype.trans h.brokerType,
    hconsumer, hfile, ?_, hread⟩
  simp [frames]

/-- Where the next message fits, the position moves to the next boundary or
stays at the end. -/
theorem Invariant.deliver (h : Invariant host t conn segs) (hdistinct : conn.Distinct)
    {written : Int} (hfits : t.NextFits host (.deliver written))
    (hstep : t.step host (.deliver written) = some t') : Invariant host t' conn segs := by
  obtain ⟨t₁, buffer, hstep₁, htype, hconsumer, hfile, hframes, hread⟩ := h.deliver_step written
  obtain rfl := Option.some.inj (hstep₁.symm.trans hstep)
  refine ⟨htype, hconsumer, hfile, h.log, h.frames_eq.trans hframes.symm, ?_⟩
  rw [hframes, hread]
  rcases h.position with ⟨fr, hat⟩ | hend
  · obtain ⟨hvalue, -⟩ := h.log.read_frame hdistinct buffer
      (by rw [h.frames_eq]; exact hat) (hfits fr hat)
    rw [hvalue, Int.toNat_natCast]
    exact onBoundary_next h.nonempties hat
  · have hvalue := h.log.read_end (o := t.topic.storage.totalBytesRead) buffer maxMsgSize
      [] (by rw [hend, h.total_eq])
    rw [Int.toNat_of_nonpos hvalue]
    exact Or.inr hend

/-- Where it does not, the position ends up inside the frame. -/
theorem Invariant.deliver_oversize (h : Invariant host t conn segs) (hdistinct : conn.Distinct)
    {written : Int} (hbig : ¬ t.NextFits host (.deliver written)) :
    ∃ t', t.step host (.deliver written) = some t' ∧ ¬ t'.OnFrame host := by
  obtain ⟨t₁, buffer, hstep, -, -, hfile, hframes, hread⟩ := h.deliver_step written
  obtain ⟨fr, hfr⟩ := not_forall.mp hbig
  obtain ⟨hat, hlong⟩ := Classical.not_imp.mp hfr
  have hvalue := h.log.read_oversize hdistinct buffer (by rw [h.frames_eq]; exact hat)
    (Nat.not_le.mp hlong)
  have hinside : t₁.topic.storage.totalBytesRead = t.topic.storage.totalBytesRead + (fr.length - 4) := by
    rw [hread, hvalue]
    omega
  have hoff : ¬ OnBoundary (t.frames host) t₁.topic.storage.totalBytesRead :=
    not_onBoundary_of_inside h.nonempties hat (by omega) (by omega)
  refine ⟨t₁, hstep, ?_⟩
  rintro ⟨-, hpos⟩
  rw [hframes, BrokerStorage.getFileTotalBytesWritten, hfile] at hpos
  exact hoff (hpos.imp_right fun hend => hend.trans h.total_eq)

theorem Invariant.step {op : TopicOp} (h : ∃ conn segs, Invariant host t conn segs)
    (hop : op.Accepted) (hdistinct : t.topic.storage.FilesDistinct) (hfits : t.NextFits host op)
    (hstep : t.step host op = some t') :
    ∃ conn segs, Invariant host t' conn segs := by
  obtain ⟨conn, segs, h⟩ := h
  cases op with
  | publish overload message content sched => exact h.publish hop hstep
  | deliver written => exact ⟨conn, segs, h.deliver (hdistinct conn h.file) hfits hstep⟩

end Steps

/-- In every state of a run the position is on a frame boundary if the run never
reads in front of a message longer than the buffer, from files that are
different ones; and of runs with such files only then. -/
theorem read_position_on_boundary_iff (host : ByteOrder) (outputDirectory id : Bytes)
    {ops : List TopicOp} (hops : ∀ op ∈ ops, op.Accepted) :
    (Runs.Along (step host) (fun t op => NextFits host t op ∧ t.topic.storage.FilesDistinct)
          (start outputDirectory id) ops →
        Runs.Everywhere (step host) (OnFrame host) (start outputDirectory id) ops) ∧
      (Runs.Along (step host) (fun t _ => t.topic.storage.FilesDistinct)
          (start outputDirectory id) ops →
        Runs.Everywhere (step host) (OnFrame host) (start outputDirectory id) ops →
        Runs.Along (step host) (NextFits host) (start outputDirectory id) ops) := by
  have hiff (hdistinct : Runs.Along (step host) (fun t _ => t.topic.storage.FilesDistinct)
      (start outputDirectory id) ops) :
      Runs.Everywhere (step host) (OnFrame host) (start outputDirectory id) ops ↔
        Runs.Along (step host) (NextFits host) (start outputDirectory id) ops := by
    refine Runs.everywhere_iff_along (I := fun t => ∃ conn segs, Invariant host t conn segs)
      (P := fun t op => op.Accepted ∧ t.topic.storage.FilesDistinct) ?_ ?_ ?_
      ⟨_, _, invariant_start host outputDirectory id⟩ ((Runs.along_of_forall hops).and hdistinct)
    · rintro t op t' hinv ⟨hop, hfiles⟩ hfits hstep
      exact Invariant.step hinv hop hfiles hfits hstep
    · rintro t ⟨conn, segs, hinv⟩
      exact hinv.onFrame
    · rintro t op ⟨conn, segs, hinv⟩ ⟨-, hfiles⟩ hbig
      cases op with
      | publish overload message content sched => exact absurd trivial hbig
      | deliver written => exact hinv.deliver_oversize (hfiles conn hinv.file) hbig
  constructor
  · intro hfits
    exact (hiff (hfits.mono fun _ _ h => h.2)).mpr (hfits.mono fun _ _ h => h.1)
  · exact fun hdistinct => (hiff hdistinct).mp

theorem step_noZero {host : ByteOrder} {t t' : DurableTopic} {op : TopicOp}
    (h : t.topic.storage.NoZero) (hstep : t.step host op = some t') :
    t'.topic.storage.NoZero := by
  obtain ⟨topic, htopic, rfl⟩ := Option.map_eq_some_iff.mp hstep
  cases op with
  | publish overload message content sched =>
      have hadd : ∃ stored, t.topic.storage.add host overload message ⟨some content, sched, 0⟩
          = some stored ∧ topic = { t.topic with storage := stored.storage } := by
        cases overload with
        | string =>
            obtain ⟨stored, hstored, hrest⟩ := Option.bind_eq_some_iff.mp htopic
            exact ⟨stored, hstored, (Option.some.inj hrest).symm⟩
        | pointer =>
            obtain ⟨stored, hstored, hrest⟩ := Option.bind_eq_some_iff.mp htopic
            exact ⟨stored, hstored, (Option.some.inj hrest).symm⟩
      obtain ⟨stored, hstored, rfl⟩ := hadd
      exact (BrokerStorage.add_filesExtend hstored).noZero h
  | deliver written =>
      obtain ⟨d, hd, hrest⟩ := Option.bind_eq_some_iff.mp htopic
      obtain rfl := Option.some.inj hrest
      exact (BrokerStorage.fileToConsumer_filesExtend hd).noZero h

theorem start_noZero {outputDirectory id : Bytes} (hdirectory : 0 ∉ outputDirectory) (hid : 0 ∉ id) :
    (start outputDirectory id).topic.storage.NoZero := by
  intro file hfile
  obtain rfl := Option.some.inj hfile
  exact ⟨hdirectory, hid⟩

theorem along_distinct {host : ByteOrder} {outputDirectory id : Bytes} (hdirectory : 0 ∉ outputDirectory)
    (hid : 0 ∉ id) (ops : List TopicOp) :
    Runs.Along (step host) (fun t _ => t.topic.storage.FilesDistinct) (start outputDirectory id)
      ops :=
  (Runs.along_of_kept step_noZero (start_noZero hdirectory hid)).mono fun _ _ h => h.distinct

theorem read_position_on_boundary_iff_oneMessage :
    Runs.Everywhere (step .little) (OnFrame .little) (start (ascii "/tmp") (ascii "t"))
        Topic.oneMessage ↔
      Runs.Along (step .little) (NextFits .little) (start (ascii "/tmp") (ascii "t"))
        Topic.oneMessage := by
  have hdistinct : Runs.Along (step .little) (fun t _ => t.topic.storage.FilesDistinct)
      (start (ascii "/tmp") (ascii "t")) Topic.oneMessage :=
    along_distinct (by decide) (by decide) Topic.oneMessage
  have haccepted : ∀ op ∈ Topic.oneMessage, op.Accepted := by
    intro op hop
    rcases List.mem_cons.mp hop with rfl | hop
    · exact ⟨by decide, by decide, by decide⟩
    · obtain rfl := List.mem_singleton.mp hop
      exact (by decide : (0 : Int) ≤ 5)
  obtain ⟨hsafe, hconverse⟩ :=
    read_position_on_boundary_iff .little (ascii "/tmp") (ascii "t") haccepted
  exact ⟨hconverse hdistinct, fun hfits => hsafe (hfits.and hdistinct)⟩

/-- One byte more than the buffer has. -/
def longMessage : Bytes := List.replicate (maxMsgSize + 1) 0

theorem length_longMessage : longMessage.length = 1048577 := List.length_replicate

/-- The long message is added, and read from behind its header on. -/
def longRead : List TopicOp := [.publish .string longMessage [] [], .deliver 0]

theorem longRead_accepted : ∀ op ∈ longRead, op.Accepted := by
  intro op hop
  rcases List.mem_cons.mp hop with rfl | hop
  · refine ⟨?_, ?_, List.not_mem_nil⟩
    · rw [length_longMessage]
      decide
    · rw [length_longMessage]
      decide
  · obtain rfl := List.mem_singleton.mp hop
    exact Int.le_refl 0

theorem read_position_not_on_boundary :
    ¬ ∀ (host : ByteOrder) (outputDirectory id : Bytes) (ops : List TopicOp),
        (∀ op ∈ ops, op.Accepted) →
        Runs.Everywhere (step host) (OnFrame host) (start outputDirectory id) ops := by
  intro h
  have hevery := h .little (ascii "/tmp") (ascii "t") longRead longRead_accepted
  have hstart := invariant_start .little (ascii "/tmp") (ascii "t")
  have hlen : frameLength longMessage false = 1048581 := by
    rw [frameLength, length_longMessage]
    rfl
  -- the message is accepted
  have hempty : LogInvariant .little (ConnectionFile.create (ascii "/tmp") (ascii "t")
      ConnectionFile.defaultMaxFileSize) [] := logInvariant_create .little _ _ (by decide)
  have hne : longMessage ≠ [] := List.length_pos_iff.mp (by rw [length_longMessage]; decide)
  obtain ⟨a, -, hwrite, -⟩ := hempty.write .string [] hne (by rw [hlen]; decide)
    (by rw [hlen]; decide) (List.not_mem_nil (a := PwriteResult.error))
  obtain ⟨t₁, hpublish, hadded, hread⟩ : ∃ t₁, step .little (start (ascii "/tmp") (ascii "t"))
      (.publish .string longMessage [] []) = some t₁ ∧ t₁.added = [longMessage] ∧
        t₁.topic.storage.totalBytesRead = 0 := by
    let storage := (start (ascii "/tmp") (ascii "t")).topic.storage
    obtain ⟨n, hbook⟩ := BrokerStorage.bookFile_eq storage a
    refine ⟨⟨⟨(storage.bookFile a).storage, []⟩, [longMessage]⟩, ?_, rfl, by rw [hbook]; rfl⟩
    rw [step, Topic.step_publish hstart.brokerType hstart.file, hwrite]
    rfl
  obtain ⟨conn, segs, hinv⟩ := hstart.publish
    (longRead_accepted _ List.mem_cons_self) hpublish
  -- and the read in front of it does not fit
  have hbig : ¬ t₁.NextFits .little (.deliver 0) := by
    intro hfits
    have hshort := hfits (frame .little longMessage false 0) (by rw [frames, hadded, hread]; rfl)
    rw [length_frame, hlen] at hshort
    exact absurd hshort (by decide)
  have hfiles := step_noZero (start_noZero (by decide) (by decide)) hpublish
  obtain ⟨t, hdeliver, hoff⟩ := hinv.deliver_oversize (hfiles.distinct conn hinv.file) hbig
  refine hoff (hevery longRead t List.prefix_rfl ?_)
  rw [longRead, Runs.run_cons_of_some hpublish, Runs.run_cons_of_some hdeliver]
  rfl

end DurableTopic

end LightQ
