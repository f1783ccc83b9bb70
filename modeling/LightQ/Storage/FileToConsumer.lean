/-
# `Storage.FileToConsumer` — what a ZeroMQ consumer of a file topic is sent

The writer of a durable topic puts a header in front of the message and
nothing behind it.  `file_to_consumer` cuts the header off, and four bytes
more for an offset that is not there: the length it passes on is that of the
message less four, as an `unsigned` (`sentLength_ne`: never the length of the
message).

`file_topic_delivers_iff` draws the conclusion for whole runs: the consumer
is sent what was published if nothing was, and only then.  The reader itself is
right; that part is `Storage.RoundTrip`, used here through a ghost `Session`.
Like there, what is known of the reader is known of logs whose files are
different ones, and so the second half asks for them; a log has two files only
when more than `max_file_size_` bytes have been written, two billion unless it
is set.

`add_to_storage` is a step of the session (`step_publish`), and a call of
`file_to_consumer` sends the next frame's length less eight, or nothing at the
end of the log (`Invariant.deliver_next`); whatever it sends, the log stays as
it is (`Invariant.deliver`).  With as many further calls as messages are
missing a length has been passed on for every frame (`run_deliver`,
`sent_lengths`), so that the first message published is passed on with another
length (`not_delivers_of_published`), and without a message nothing is sent
(`delivers_of_not_published`).
-/
import LightQ.Storage.BrokerStorage
import LightQ.Storage.RoundTrip

namespace LightQ

open MachineInt FrameLog

/-- One call: a message is accepted by `add_to_storage`, of which `content` is
what `open` finds if a file is created, or `file_to_consumer` is called and
`write_msg` returns `written`. -/
inductive TopicOp where
  | publish (overload : ConnectionFile.Overload) (message content : Bytes)
      (sched : List PwriteResult)
  | deliver (written : Int)
deriving DecidableEq, Repr

/-- No call fails, and messages are as long as `publish_message` allows. -/
def TopicOp.Admissible : TopicOp → Prop
  | .publish _ message _ sched =>
      0 < message.length ∧ message.length ≤ maxMsgSize ∧ PwriteResult.error ∉ sched
  | .deliver written => 0 ≤ written

def published : List TopicOp → List Bytes
  | [] => []
  | .publish _ message _ _ :: ops => message :: published ops
  | .deliver _ :: ops => published ops

/-- A topic of type file with a ZeroMQ consumer, and the calls of `write_msg`
made so far. -/
structure Topic where
  storage : BrokerStorage
  sent : List (Bytes × Nat)

namespace Topic

def start (outputDirectory id : Bytes) : Topic :=
  ⟨(BrokerStorage.init .file outputDirectory id).2.setConsumerSocket .zmq, []⟩

def step (host : ByteOrder) (t : Topic) : TopicOp → Option Topic
  | .publish overload message content sched => do
      let env : AddEnv := ⟨some content, sched, 0⟩
      let stored ← match overload with
        | .string => t.storage.addToStorage host message env
        | .pointer => t.storage.addToStoragePtr host message (MachineInt.u32 message.length) env
      some { t with storage := stored.storage }
  | .deliver written => do
      let d ← t.storage.fileToConsumer host false [] written
      some ⟨d.storage, t.sent ++ d.sent⟩

def run (host : ByteOrder) (t : Topic) (ops : List TopicOp) : Option Topic :=
  ops.foldlM (step host) t

/-- The length that `file_to_consumer` passes on for a frame of `n` bytes. -/
def sentLength (n : Nat) : Nat := u32OfInt (n - 4 - 4)

/-- Every message is in the log behind a header, and the topic stands where the
session does whose reader has read what was sent. -/
structure Invariant (host : ByteOrder) (t : Topic) (messages : List Bytes) (ghost : Session)
    (segs : List Segment) : Prop where
  session : ghost.Invariant host ConnectionFile.defaultMaxFileSize (4 + maxMsgSize) segs
  brokerType : t.storage.brokerType = .file
  consumer : t.storage.pConsumerSocket = some .zmq
  file : t.storage.pFile = some ghost.conn
  offset : ghost.conn.Distinct → t.storage.totalBytesRead = ghost.offset
  sent : ghost.conn.Distinct → t.sent.map Prod.snd = ghost.got.map fun fr => sentLength fr.length
  frames : ghost.frames.map List.length = messages.map fun m => 4 + m.length

section Steps

variable {host : ByteOrder} {t : Topic} {messages : List Bytes} {ghost : Session}
  {segs : List Segment}

theorem invariant_start (host : ByteOrder) (outputDirectory id : Bytes) :
    Invariant host (start outputDirectory id) []
      (Session.start outputDirectory id ConnectionFile.defaultMaxFileSize) [] where
  session := Session.invariant_start host outputDirectory id _ (by decide)
  brokerType := rfl
  consumer := rfl
  file := rfl
  offset := fun _ => rfl
  sent := fun _ => rfl
  frames := rfl

theorem step_publish {file : ConnectionFile} (htype : t.storage.brokerType = .file)
    (hfile : t.storage.pFile = some file) (overload : ConnectionFile.Overload)
    (message content : Bytes) (sched : List PwriteResult) :
    t.step host (.publish overload message content sched) =
      (file.write host overload message false (some content) sched).map fun a =>
        { t with storage := (t.storage.bookFile a).storage } := by
  have hadd : t.step host (.publish overload message content sched) =
      (t.storage.add host overload message ⟨some content, sched, 0⟩).bind fun stored =>
        some { t with storage := stored.storage } := by
    cases overload with
    | string => rfl
    | pointer => rfl
  rw [hadd, BrokerStorage.add_file htype hfile]
  cases file.write host overload message false (some content) sched with
  | none => rfl
  | some a => rfl

theorem Invariant.publish (h : Invariant host t messages ghost segs)
    {overload : ConnectionFile.Overload} {message content : Bytes} {sched : List PwriteResult}
    (hop : (TopicOp.publish overload message content sched).Admissible) :
    ∃ t' ghost' segs', t.step host (.publish overload message content sched) = some t' ∧
      ghost.conn.Extends ghost'.conn ∧ Invariant host t' (messages ++ [message]) ghost' segs' := by
  obtain ⟨hpos, hmax, hno⟩ := hop
  have hlen : frameLength message false = 4 + message.length := rfl
  have hmax' : message.length ≤ 1048576 := hmax
  have hwrite : (Op.write overload message false content sched).Admissible
      ConnectionFile.defaultMaxFileSize (4 + maxMsgSize) := by
    refine ⟨List.length_pos_iff.mp hpos, by rw [hlen]; omega, ?_, ?_, hno⟩
    · rw [hlen]
      show 4 + message.length ≤ 2000000000
      omega
    · rw [hlen]
      exact Nat.add_le_add_left hmax 4
  obtain ⟨ghost', segs', position, hstep, hinv, hlog⟩ := h.session.step_write hwrite
  obtain ⟨a, hconn, hghost⟩ : ∃ a,
      ghost.conn.write host overload message false (some content) sched = some a ∧
        ghost'.conn = a.conn := by
    rw [Session.step] at hstep
    obtain ⟨a, ha, hrest⟩ := Option.bind_eq_some_iff.mp hstep
    exact ⟨a, ha, congrArg Session.conn (Option.some.inj hrest).symm⟩
  obtain ⟨n, hbook⟩ := BrokerStorage.bookFile_eq t.storage a
  have hextends : ghost.conn.Extends ghost'.conn := by
    rw [hghost]
    exact ConnectionFile.write_extends hconn
  refine ⟨{ t with storage := (t.storage.bookFile a).storage }, ghost', segs',
    by rw [step_publish h.brokerType h.file, hconn]; rfl, hextends, ?_⟩
  rw [hbook]
  have hframes : ghost'.frames = ghost.frames ++ [frame host message false position] :=
    congrArg Log.frames hlog
  have hgot : ghost'.got = ghost.got := congrArg Log.got hlog
  have hoffset : ghost'.offset = ghost.offset := congrArg Log.offset hlog
  constructor
  · exact hinv
  · exact h.brokerType
  · exact h.consumer
  · rw [hghost]
  · intro hdistinct
    rw [hoffset]
    exact h.offset (hextends.distinct hdistinct)
  · intro hdistinct
    rw [hgot]
    exact h.sent (hextends.distinct hdistinct)
  · rw [hframes, List.map_append, List.map_append, h.frames, List.map_singleton, length_frame, hlen]
    rfl

theorem offset_le_total (h : Invariant host t messages ghost segs)
    (hdistinct : ghost.conn.Distinct) : ghost.offset ≤ ghost.conn.totalBytesWriten := by
  have hreader := h.session.reader hdistinct
  obtain ⟨rest, hrest⟩ := hreader.got_prefix
  have hoffset : ghost.offset = ghost.got.flatten.length := hreader.offset_eq
  have hsplit : ghost.got ++ rest = ghost.frames := hrest
  rw [h.session.total_eq, hoffset, ← hsplit, List.flatten_append, List.length_append]
  exact Nat.le_add_right _ _

theorem step_deliver_of_some {d : Delivery} {written : Int}
    (hd : t.storage.fileToConsumer host false [] written = some d) :
    t.step host (.deliver written) = some ⟨d.storage, t.sent ++ d.sent⟩ := by
  rw [step, hd]
  rfl

theorem Invariant.deliver_next (h : Invariant host t messages ghost segs)
    (hdistinct : ghost.conn.Distinct) (written : Int) :
    ∃ t' ghost', t.step host (.deliver written) = some t' ∧ ghost'.conn = ghost.conn ∧
      Invariant host t' messages ghost' segs ∧ ghost'.log = ghost.log.next := by
  have hle := offset_le_total h hdistinct
  have hoffset := h.offset hdistinct
  have hmore : t.storage.totalBytesRead < ghost.conn.totalBytesWriten + 4 := by
    rw [hoffset]
    omega
  have hcases := h.session.read_cases hdistinct (store t.storage.buffer 0 [0])
    (Nat.le_refl (4 + maxMsgSize))
  rw [← hoffset] at hcases
  generalize hr : ghost.conn.read host (store t.storage.buffer 0 [0]) maxMsgSize
    t.storage.totalBytesRead false [] = r at hcases
  rcases hcases with ⟨hdone, hvalue⟩ | ⟨fr, rest, hsplit, hpos, hvalue, -⟩
  · have hnext : ghost.log = ghost.log.next :=
      (Log.next_of_done (h.session.reader hdistinct) hdone).symm
    obtain ⟨buffer, -, hd⟩ := BrokerStorage.fileToConsumer_of_nonpos h.file hmore hr hvalue written
    refine ⟨_, ghost, step_deliver_of_some hd, rfl,
      ⟨h.session, h.brokerType, h.consumer, h.file, h.offset, ?_, h.frames⟩, hnext⟩
    rw [List.append_nil]
    exact h.sent
  · obtain ⟨hlog, hinv⟩ := h.session.advance hdistinct hsplit
    have hd := BrokerStorage.fileToConsumer_of_pos h.file h.consumer hmore hr hvalue hpos written
    refine ⟨_, ghost.advance fr, step_deliver_of_some hd, rfl,
      ⟨hinv, h.brokerType, h.consumer, h.file, fun _ => ?_, fun _ => ?_, h.frames⟩, hlog⟩
    · rw [hoffset]
      rfl
    · rw [List.map_append, h.sent hdistinct]
      show _ = (ghost.got ++ [fr]).map _
      rw [List.map_append]
      rfl

theorem Invariant.deliver (h : Invariant host t messages ghost segs) (written : Int) :
    ∃ t' ghost', t.step host (.deliver written) = some t' ∧ ghost'.conn = ghost.conn ∧
      Invariant host t' messages ghost' segs := by
  by_cases hdistinct : ghost.conn.Distinct
  · obtain ⟨t', ghost', hstep, hsame, hinv, -⟩ := h.deliver_next hdistinct written
    exact ⟨t', ghost', hstep, hsame, hinv⟩
  · have hreturns : (t.storage.fileToConsumer host false [] written).isSome :=
      BrokerStorage.isSome_fileToConsumer h.file h.consumer false [] written
    obtain ⟨d, hd⟩ := Option.isSome_iff_exists.mp hreturns
    obtain ⟨buffer, n, hstorage⟩ := BrokerStorage.fileToConsumer_storage hd
    refine ⟨_, ghost, step_deliver_of_some hd, rfl, h.session, ?_, ?_, ?_,
      fun hno => absurd hno hdistinct, fun hno => absurd hno hdistinct, h.frames⟩
    · rw [hstorage]
      exact h.brokerType
    · rw [hstorage]
      exact h.consumer
    · rw [hstorage]
      exact h.file

theorem run_invariant {ops : List TopicOp} (h : Invariant host t messages ghost segs)
    (hops : ∀ op ∈ ops, op.Admissible) :
    ∃ t' ghost' segs', t.run host ops = some t' ∧
      Invariant host t' (messages ++ published ops) ghost' segs' ∧
      ghost.conn.Extends ghost'.conn ∧ (published ops = [] → ghost'.conn = ghost.conn) := by
  induction ops generalizing t messages ghost segs with
  | nil =>
      exact ⟨t, ghost, segs, rfl, by rwa [published, List.append_nil], .refl _, fun _ => rfl⟩
  | cons op ops ih =>
      have hop := hops op List.mem_cons_self
      have hrest := fun o ho => hops o (List.mem_cons_of_mem _ ho)
      cases op with
      | publish overload message content sched =>
          obtain ⟨t₁, ghost₁, segs₁, hstep, hone, hinv⟩ := h.publish hop
          obtain ⟨t', ghost', segs', hrun, hinv', hextends, -⟩ := ih hinv hrest
          refine ⟨t', ghost', segs', ?_, ?_, hone.trans hextends,
            fun hno => absurd hno (List.cons_ne_nil _ _)⟩
          · rw [run, List.foldlM_cons, hstep]
            exact hrun
          · rwa [List.append_assoc] at hinv'
      | deliver written =>
          obtain ⟨t₁, ghost₁, hstep, hconn, hinv⟩ := h.deliver written
          obtain ⟨t', ghost', segs', hrun, hinv', hextends, hsame⟩ := ih hinv hrest
          refine ⟨t', ghost', segs', ?_, hinv', hconn ▸ hextends, fun hno => (hsame hno).trans hconn⟩
          rw [run, List.foldlM_cons, hstep]
          exact hrun

theorem run_deliver (h : Invariant host t messages ghost segs) (hdistinct : ghost.conn.Distinct)
    (calls : List Int) :
    ∃ t' ghost', t.run host (calls.map .deliver) = some t' ∧ ghost'.conn = ghost.conn ∧
      Invariant host t' messages ghost' segs ∧ ghost'.log = Log.next^[calls.length] ghost.log := by
  induction calls generalizing t ghost with
  | nil => exact ⟨t, ghost, rfl, rfl, h, rfl⟩
  | cons written calls ih =>
      obtain ⟨t₁, ghost₁, hstep, hsame, hinv, hlog⟩ := h.deliver_next hdistinct written
      obtain ⟨t', ghost', hrun, hconn, hinv', hlog'⟩ := ih hinv (hsame ▸ hdistinct)
      refine ⟨t', ghost', ?_, hconn.trans hsame, hinv', ?_⟩
      · rw [run, List.map_cons, List.foldlM_cons, hstep]
        exact hrun
      · rw [hlog', hlog, List.length_cons, Function.iterate_succ_apply]

theorem sent_lengths (h : Invariant host t messages ghost segs)
    (hdistinct : ghost.conn.Distinct) {calls : List Int} (hmany : messages.length ≤ calls.length) :
    ∃ t', t.run host (calls.map .deliver) = some t' ∧
      t'.sent.map Prod.snd = messages.map fun m => sentLength (4 + m.length) := by
  obtain ⟨t', ghost', hrun, hconn, hinv, hlog⟩ := run_deliver h hdistinct calls
  have hcount : ghost.frames.length = messages.length := by
    simpa using congrArg List.length h.frames
  have hmissing : ghost.log.frames.length - ghost.log.got.length ≤ calls.length := by
    show ghost.frames.length - ghost.got.length ≤ calls.length
    omega
  obtain ⟨hgot, -⟩ := Log.drain (h.session.reader hdistinct) hmissing
  rw [← hlog] at hgot
  have hall : ghost'.got.map List.length = messages.map fun m => 4 + m.length := by
    have hgot' : ghost'.got = ghost.frames := hgot
    rw [hgot', h.frames]
  refine ⟨t', hrun, ?_⟩
  have hmap := congrArg (List.map sentLength) hall
  rw [List.map_map, List.map_map] at hmap
  rw [hinv.sent (hconn ▸ hdistinct)]
  exact hmap

end Steps

/-- No message is passed on with its own length. -/
theorem sentLength_ne {n : Nat} (hpos : 0 < n) (hmax : n ≤ maxMsgSize) :
    sentLength (4 + n) ≠ n := by
  have hmax' : n ≤ 1048576 := hmax
  have hdiff : (((4 + n : Nat) : Int) - 4 - 4) = n - 4 := by omega
  rw [sentLength, hdiff, u32OfInt]
  omega

theorem published_length {ops : List TopicOp} (hops : ∀ op ∈ ops, op.Admissible) :
    ∀ m ∈ published ops, 0 < m.length ∧ m.length ≤ maxMsgSize := by
  induction ops with
  | nil =>
      intro m hm
      exact absurd hm List.not_mem_nil
  | cons op ops ih =>
      have hrest := ih (fun o ho => hops o (List.mem_cons_of_mem _ ho))
      cases op with
      | publish overload message content sched =>
          intro m hm
          rcases List.mem_cons.mp hm with rfl | hm
          · obtain ⟨hpos, hmax, -⟩ := hops _ List.mem_cons_self
            exact ⟨hpos, hmax⟩
          · exact hrest m hm
      | deliver written => exact hrest

/-- The consumer is sent exactly what was published, once the reader has had
time to catch up. -/
def Delivers (host : ByteOrder) (outputDirectory id : Bytes) (ops : List TopicOp) : Prop :=
  ∃ t, (start outputDirectory id).run host ops = some t ∧
    ∀ calls : List Int, (∀ written ∈ calls, 0 ≤ written) →
      (published ops).length ≤ calls.length →
      ∃ t', t.run host (calls.map .deliver) = some t' ∧
        t'.sent = (published ops).map fun m => (m, m.length)

section Delivers

variable {host : ByteOrder} {outputDirectory id : Bytes} {ops : List TopicOp}

/-- The files of the log are different ones at the end of the run. -/
def EndsDistinct (host : ByteOrder) (outputDirectory id : Bytes) (ops : List TopicOp) : Prop :=
  ∀ t, (start outputDirectory id).run host ops = some t → t.storage.FilesDistinct

theorem endsDistinct_of_not_mem (hops : ∀ op ∈ ops, op.Admissible) (hdirectory : 0 ∉ outputDirectory)
    (hid : 0 ∉ id) : EndsDistinct host outputDirectory id ops := by
  intro t hrun
  obtain ⟨t', ghost, segs, hrun', hinv, hextends, -⟩ :=
    run_invariant (invariant_start host outputDirectory id) hops
  obtain rfl : t = t' := Option.some.inj (hrun.symm.trans hrun')
  intro file hfile
  obtain rfl := Option.some.inj (hinv.file.symm.trans hfile)
  exact hextends.distinct_of_not_mem hdirectory hid

theorem not_delivers_of_published (hops : ∀ op ∈ ops, op.Admissible)
    (hdistinct : EndsDistinct host outputDirectory id ops) (hne : published ops ≠ []) :
    ¬ Delivers host outputDirectory id ops := by
  rintro ⟨t, hrun, hall⟩
  obtain ⟨t', ghost, segs, hrun', hinv, -⟩ :=
    run_invariant (invariant_start host outputDirectory id) hops
  obtain rfl : t = t' := Option.some.inj (hrun.symm.trans hrun')
  rw [List.nil_append] at hinv
  have hmany : (published ops).length ≤ (List.replicate (published ops).length (0 : Int)).length :=
    Nat.le_of_eq List.length_replicate.symm
  obtain ⟨t₁, hrun₁, hsent⟩ := hall _
    (fun w hw => Int.le_of_eq (List.eq_of_mem_replicate hw).symm) hmany
  obtain ⟨t₂, hrun₂, hlengths⟩ := sent_lengths hinv (hdistinct t hrun _ hinv.file) hmany
  obtain rfl : t₁ = t₂ := Option.some.inj (hrun₁.symm.trans hrun₂)
  rw [hsent, List.map_map] at hlengths
  obtain ⟨m, rest, hpub⟩ := List.exists_cons_of_ne_nil hne
  rw [hpub] at hlengths
  obtain ⟨hpos, hmax⟩ := published_length hops m (by rw [hpub]; exact List.mem_cons_self)
  have hhead : m.length = sentLength (4 + m.length) := (List.cons.inj hlengths).1
  exact sentLength_ne hpos hmax hhead.symm

theorem delivers_of_not_published (hops : ∀ op ∈ ops, op.Admissible) (hpub : published ops = []) :
    Delivers host outputDirectory id ops := by
  obtain ⟨t, ghost, segs, hrun, hinv, -, hsame⟩ :=
    run_invariant (invariant_start host outputDirectory id) hops
  rw [hpub] at hinv
  have hdistinct : ghost.conn.Distinct := by
    rw [hsame hpub]
    exact fun _ => Nat.zero_le 1
  refine ⟨t, hrun, ?_⟩
  intro calls _ _
  obtain ⟨t', ghost', hrun', hconn, hinv', -⟩ := run_deliver hinv hdistinct calls
  have hframes : ghost'.frames = [] := List.map_eq_nil_iff.mp hinv'.frames
  have hgot : ghost'.got = [] := by
    have hreader := hinv'.session.reader (hconn ▸ hdistinct)
    have hpre : ghost'.got <+: ghost'.frames := hreader.got_prefix
    rwa [hframes, List.prefix_nil] at hpre
  have hsent := hinv'.sent (hconn ▸ hdistinct)
  rw [hgot] at hsent
  refine ⟨t', hrun', ?_⟩
  rw [hpub, List.map_eq_nil_iff.mp hsent]
  rfl

/-- A durable topic delivers what was published if nothing was published, and if
its files are different ones, only then. -/
theorem file_topic_delivers_iff (host : ByteOrder) (outputDirectory id : Bytes)
    (hops : ∀ op ∈ ops, op.Admissible) :
    (published ops = [] → Delivers host outputDirectory id ops) ∧
      (EndsDistinct host outputDirectory id ops → Delivers host outputDirectory id ops →
        published ops = []) := by
  constructor
  · exact delivers_of_not_published hops
  · intro hdistinct hdelivers
    by_contra hne
    exact not_delivers_of_published hops hdistinct hne hdelivers

end Delivers

/-- One message of five bytes. -/
def oneMessage : List TopicOp := [.publish .string (ascii "hello") [] [], .deliver 5]

theorem oneMessage_admissible : ∀ op ∈ oneMessage, op.Admissible := by
  intro op hop
  rcases List.mem_cons.mp hop with rfl | hop
  · exact ⟨by decide, by decide, by decide⟩
  · obtain rfl := List.mem_singleton.mp hop
    exact (by decide : (0 : Int) ≤ 5)

theorem oneMessage_endsDistinct :
    EndsDistinct .little (ascii "/tmp") (ascii "t") oneMessage :=
  endsDistinct_of_not_mem oneMessage_admissible (by decide) (by decide)

theorem file_topic_delivers_iff_oneMessage :
    Delivers .little (ascii "/tmp") (ascii "t") oneMessage ↔ published oneMessage = [] :=
  have hdelivers := file_topic_delivers_iff .little (ascii "/tmp") (ascii "t") oneMessage_admissible
  ⟨hdelivers.2 oneMessage_endsDistinct, hdelivers.1⟩

/-- A message of five bytes is passed on as one of a single byte. -/
theorem file_topic_not_delivers :
    ¬ ∀ (host : ByteOrder) (outputDirectory id : Bytes) (ops : List TopicOp),
        (∀ op ∈ ops, op.Admissible) → Delivers host outputDirectory id ops := by
  intro h
  exact not_delivers_of_published oneMessage_admissible oneMessage_endsDistinct (by decide)
    (h .little (ascii "/tmp") (ascii "t") oneMessage oneMessage_admissible)

end Topic

end LightQ
