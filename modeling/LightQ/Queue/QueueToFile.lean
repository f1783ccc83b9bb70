/-
# `Queue.QueueToFile` — the two stages of a queue_file topic

`add_to_storage` puts a message into the queue and counts it;
`run_queue_to_file_loop`, in a thread of its own, waits for the size to be
positive, takes a message into a local string, counts it and appends it to
the file.  Each of these is a step, and a run is any list of them.

    producer    idle → enqueued m → counted m → idle
    loop        waiting → ready → dequeued m → holding m → waiting

`Invariant.order` is the conservation law: what was appended to the log, what
the loop has in hand and what the queue holds, one behind the other, are the
messages enqueued so far.  Only `tryEnqueue` moves the right side; the others
move a message from one place to the next, or none.  `step_cases` says this of
every step, for this module and for `Queue.BothModes`.

`pipeline_conserves` adds what the files hold: the frames of what was appended,
as long as the files are different ones.  A topic whose name has a zero byte is
written to one file under every index, and loses what was in front of a
rotation (`reopened_not_conserved`).

Undisturbed, the steps of the producer are `add_to_storage`
(`run_addToStorage`), and two of the loop's are `get_message_from_queue`
(`run_getMessageFromQueue`).
-/
import LightQ.Lib.Runs
import LightQ.Queue.Accounting
import LightQ.Storage.SendFile

namespace LightQ

open FrameLog

namespace QueueToFile

open Accounting (ProducerPc)

/-- Where `run_queue_to_file_loop` is. -/
inductive LoopPc where
  | waiting
  | ready
  | dequeued (message : Bytes)
  | holding (message : Bytes)
deriving DecidableEq, Repr

/-- The message that the loop has taken and not appended. -/
def LoopPc.held : LoopPc → List Bytes
  | .dequeued message => [message]
  | .holding message => [message]
  | _ => []

/-- A queue_file topic and its two threads; `enqueued` is a ghost. -/
structure World where
  storage : BrokerStorage
  producer : ProducerPc
  loop : LoopPc
  enqueued : List Bytes

/-- One step of one thread.  `content` is what `open` finds if the append
creates a file. -/
inductive Action where
  | tryEnqueue (message : Bytes)
  | countEnqueued
  | countBytes
  | testSize
  | tryDequeue
  | countDequeued
  | writeToFile (content : Bytes) (sched : List PwriteResult)
deriving DecidableEq, Repr

/-- No message is empty, no frame is longer than a file, and no `pwrite`
fails. -/
def Action.Admissible (maxFileSize : Nat) : Action → Prop
  | .tryEnqueue message => message ≠ [] ∧ frameLength message false ≤ maxFileSize
  | .writeToFile _ sched => PwriteResult.error ∉ sched
  | _ => True

namespace World

/-- A topic after `init`, and after `set_max_file_size`. -/
def start (outputDirectory id : Bytes) (maxFileSize : Nat) : World :=
  ⟨{ (BrokerStorage.init .queueFile outputDirectory id).2 with
      pFile := some (ConnectionFile.create outputDirectory id maxFileSize) },
    .idle, .waiting, []⟩

/-- One step; `none` when the thread is elsewhere. -/
def step (host : ByteOrder) (w : World) : Action → Option World
  | .tryEnqueue message =>
      match w.producer with
      | .idle =>
          some { w with
            storage := w.storage.tryEnqueue message
            producer := .enqueued message
            enqueued := w.enqueued ++ [message] }
      | _ => none
  | .countEnqueued =>
      match w.producer with
      | .enqueued message =>
          some { w with storage := w.storage.countEnqueued, producer := .counted message }
      | _ => none
  | .countBytes =>
      match w.producer with
      | .counted message =>
          some { w with storage := w.storage.countBytes message, producer := .idle }
      | _ => none
  | .testSize =>
      match w.loop with
      | .waiting => some { w with loop := if w.storage.getQueueSize ≤ 0 then .waiting else .ready }
      | _ => none
  | .tryDequeue =>
      match w.loop with
      | .ready =>
          match w.storage.tryDequeue with
          | some (message, storage) =>
              some { w with storage := storage, loop := .dequeued message }
          | none => some { w with loop := .waiting }
      | _ => none
  | .countDequeued =>
      match w.loop with
      | .dequeued message =>
          -- an empty message is taken and not written
          some { w with
            storage := w.storage.countDequeued
            loop := if 0 < message.length then .holding message else .waiting }
      | _ => none
  | .writeToFile content sched =>
      match w.loop with
      | .holding message =>
          (w.storage.writeToFile host message true ⟨some content, sched, 0⟩).map fun stored =>
            { w with storage := stored.storage, loop := .waiting }
      | _ => none

/-- Undisturbed, the steps of the producer are `add_to_storage`. -/
theorem run_addToStorage {w : World} {host : ByteOrder} (hp : w.producer = .idle)
    (htype : w.storage.brokerType = .queueFile) (message : Bytes) (env : AddEnv) :
    ∃ stored, w.storage.addToStorage host message env = some stored ∧
      Runs.run (step host) w [.tryEnqueue message, .countEnqueued, .countBytes] =
        some { w with storage := stored.storage, enqueued := w.enqueued ++ [message] } := by
  refine ⟨_, by rw [BrokerStorage.addToStorage, htype], ?_⟩
  simp [Runs.run, step, hp, BrokerStorage.writeToQueue]

/-- Undisturbed, a step and another of the loop are `get_message_from_queue`. -/
theorem run_getMessageFromQueue {w : World} {host : ByteOrder} (hl : w.loop = .ready)
    {message : Bytes} {rest : List Bytes} (hne : message ≠ [])
    (hq : w.storage.pQueue = message :: rest) :
    Runs.run (step host) w [.tryDequeue, .countDequeued] =
      some { w with
        storage := w.storage.getMessageFromQueue.2.2
        loop := .holding message } := by
  have hpos : 0 < message.length := List.length_pos_iff.mpr hne
  simp [Runs.run, step, hl, BrokerStorage.tryDequeue, BrokerStorage.getMessageFromQueue, hq, hpos]

/-- A step appends the message that the loop holds, or enqueues one, or leaves
all messages where they are; but an empty one that the loop holds may go. -/
theorem step_cases {host : ByteOrder} {w w' : World} {action : Action}
    (hstep : w.step host action = some w') :
    (∃ message content sched file a, action = .writeToFile content sched ∧
      w.loop = .holding message ∧ w.storage.pFile = some file ∧
      file.writeToFile host message true false (some content) sched = some a ∧
      w' = { w with storage := (w.storage.bookFile a).storage, loop := .waiting }) ∨
    (∃ message, action = .tryEnqueue message ∧
      w' = { w with
        storage := w.storage.tryEnqueue message
        producer := .enqueued message
        enqueued := w.enqueued ++ [message] }) ∨
    (w'.storage.pFile = w.storage.pFile ∧ w'.storage.brokerType = w.storage.brokerType ∧
      w'.storage.pConsumerSocket = w.storage.pConsumerSocket ∧
      w'.storage.totalBytesRead = w.storage.totalBytesRead ∧ w'.enqueued = w.enqueued ∧
      ((∀ message ∈ w.loop.held, message ≠ []) →
        w'.loop.held ++ w'.storage.pQueue = w.loop.held ++ w.storage.pQueue)) := by
  cases action with
  | tryEnqueue message =>
      cases hp : w.producer <;> simp only [World.step, hp, reduceCtorEq] at hstep
      exact Or.inr (Or.inl ⟨message, rfl, (Option.some.inj hstep).symm⟩)
  | countEnqueued =>
      cases hp : w.producer <;> simp only [World.step, hp, reduceCtorEq] at hstep
      obtain rfl := Option.some.inj hstep
      exact Or.inr (Or.inr ⟨rfl, rfl, rfl, rfl, rfl, fun _ => rfl⟩)
  | countBytes =>
      cases hp : w.producer <;> simp only [World.step, hp, reduceCtorEq] at hstep
      obtain rfl := Option.some.inj hstep
      exact Or.inr (Or.inr ⟨rfl, rfl, rfl, rfl, rfl, fun _ => rfl⟩)
  | testSize =>
      cases hl : w.loop <;> simp only [World.step, hl, reduceCtorEq] at hstep
      obtain rfl := Option.some.inj hstep
      refine Or.inr (Or.inr ⟨rfl, rfl, rfl, rfl, rfl, fun _ => ?_⟩)
      split
      · rfl
      · rfl
  | tryDequeue =>
      cases hl : w.loop <;> simp only [World.step, hl, reduceCtorEq] at hstep
      cases hq : w.storage.pQueue with
      | nil =>
          simp only [BrokerStorage.tryDequeue, hq] at hstep
          obtain rfl := Option.some.inj hstep
          exact Or.inr (Or.inr ⟨rfl, rfl, rfl, rfl, rfl, fun _ => by rw [hq]; rfl⟩)
      | cons message rest =>
          simp only [BrokerStorage.tryDequeue, hq] at hstep
          obtain rfl := Option.some.inj hstep
          exact Or.inr (Or.inr ⟨rfl, rfl, rfl, rfl, rfl, fun _ => rfl⟩)
  | countDequeued =>
      cases hl : w.loop <;> simp only [World.step, hl, reduceCtorEq] at hstep
      rename_i message
      obtain rfl := Option.some.inj hstep
      refine Or.inr (Or.inr ⟨rfl, rfl, rfl, rfl, rfl, fun hheld => ?_⟩)
      rw [if_pos (List.length_pos_iff.mpr (hheld message (List.mem_singleton_self _)))]
      rfl
  | writeToFile content sched =>
      cases hl : w.loop <;> simp only [World.step, hl, reduceCtorEq] at hstep
      rename_i message
      obtain ⟨stored, hstored, rfl⟩ := Option.map_eq_some_iff.mp hstep
      obtain ⟨file, hfile, hbooked⟩ := Option.bind_eq_some_iff.mp hstored
      obtain ⟨a, hwrite, hbook⟩ := Option.bind_eq_some_iff.mp hbooked
      obtain rfl := Option.some.inj hbook
      exact Or.inl ⟨message, content, sched, file, a, rfl, rfl, hfile, hwrite, rfl⟩

theorem step_filesExtend {host : ByteOrder} {w w' : World} {action : Action}
    (hstep : w.step host action = some w') : w.storage.FilesExtend w'.storage := by
  rcases step_cases hstep with
    ⟨message, content, sched, file, a, -, -, hfile, hwrite, rfl⟩ | ⟨message, -, rfl⟩ | ⟨hfile, -⟩
  · obtain ⟨n, hbook⟩ := BrokerStorage.bookFile_eq w.storage a
    have hcall : file.write host .string message false (some content) sched = some a := hwrite
    rw [hbook]
    exact .of_write hfile hcall
  · exact .of_eq rfl
  · exact .of_eq hfile

/-- The log has the frames of `payloads`, and the messages enqueued are where
they should be. -/
structure Invariant (host : ByteOrder) (maxFileSize : Nat) (w : World) (conn : ConnectionFile)
    (segs : List Segment) (payloads : List Bytes) : Prop where
  file : w.storage.pFile = some conn
  log : LogInvariant host conn segs
  max_eq : conn.maxFileSize = maxFileSize
  frames : logFrames segs = payloads.map fun message => frame host message false 0
  order : payloads ++ w.loop.held ++ w.storage.pQueue = w.enqueued
  fits : ∀ message ∈ w.enqueued, message ≠ [] ∧ frameLength message false ≤ maxFileSize

section Steps

variable {host : ByteOrder} {maxFileSize : Nat} {w w' : World} {conn : ConnectionFile}
  {segs : List Segment} {payloads : List Bytes}

theorem invariant_start (host : ByteOrder) (outputDirectory id : Bytes) (hM : 0 < maxFileSize) :
    Invariant host maxFileSize (start outputDirectory id maxFileSize)
      (ConnectionFile.create outputDirectory id maxFileSize) [] [] where
  file := rfl
  log := logInvariant_create host outputDirectory id hM
  max_eq := rfl
  frames := rfl
  order := rfl
  fits := fun _ h => absurd h List.not_mem_nil

theorem Invariant.held_fits (h : Invariant host maxFileSize w conn segs payloads) (message : Bytes)
    (hmem : message ∈ w.loop.held) :
    message ≠ [] ∧ frameLength message false ≤ maxFileSize := by
  refine h.fits message ?_
  rw [← h.order]
  exact List.mem_append_left _ (List.mem_append_right _ hmem)

theorem Invariant.keep (h : Invariant host maxFileSize w conn segs payloads)
    (hfile : w'.storage.pFile = w.storage.pFile) (henq : w'.enqueued = w.enqueued)
    (hmoved : w'.loop.held ++ w'.storage.pQueue = w.loop.held ++ w.storage.pQueue) :
    Invariant host maxFileSize w' conn segs payloads where
  file := hfile.trans h.file
  log := h.log
  max_eq := h.max_eq
  frames := h.frames
  order := by rw [List.append_assoc, hmoved, henq, ← List.append_assoc, h.order]
  fits := by rw [henq]; exact h.fits

theorem Invariant.tryEnqueue (h : Invariant host maxFileSize w conn segs payloads)
    {message : Bytes} (hmessage : message ≠ [] ∧ frameLength message false ≤ maxFileSize)
    (producer : ProducerPc) :
    Invariant host maxFileSize
      { w with
        storage := w.storage.tryEnqueue message
        producer := producer
        enqueued := w.enqueued ++ [message] } conn segs payloads where
  file := h.file
  log := h.log
  max_eq := h.max_eq
  frames := h.frames
  order := by
    show payloads ++ w.loop.held ++ (w.storage.pQueue ++ [message]) = w.enqueued ++ [message]
    rw [← List.append_assoc, h.order]
  fits := by
    intro m hm
    rcases List.mem_append.mp hm with hold | hnew
    · exact h.fits m hold
    · rw [List.mem_singleton.mp hnew]
      exact hmessage

theorem Invariant.writeToFile (h : Invariant host maxFileSize w conn segs payloads)
    (hM : maxFileSize < 2 ^ 31) {message : Bytes} (content : Bytes) {sched : List PwriteResult}
    (hl : w.loop = .holding message) (hno : PwriteResult.error ∉ sched) :
    ∃ w' conn' segs', w.step host (.writeToFile content sched) = some w' ∧
      Invariant host maxFileSize w' conn' segs' (payloads ++ [message]) := by
  obtain ⟨hne, hmax⟩ := h.held_fits message (by rw [hl]; exact List.mem_singleton_self _)
  obtain ⟨a, segs', hwrite, -, hlog, hframes, hsame⟩ :=
    h.log.write .string content hne (Nat.lt_of_le_of_lt hmax hM) (by rw [h.max_eq]; exact hmax) hno
  have hbook : ∃ stored, w.storage.writeToFile host message true ⟨some content, sched, 0⟩
      = some stored ∧ stored = w.storage.bookFile a := by
    have hcall : conn.writeToFile host message true false (some content) sched = some a := hwrite
    refine ⟨_, ?_, rfl⟩
    simp only [BrokerStorage.writeToFile, h.file, Option.bind_eq_bind, Option.bind_some, hcall]
  obtain ⟨stored, hstored, rfl⟩ := hbook
  obtain ⟨n, hbooked⟩ := BrokerStorage.bookFile_eq w.storage a
  have hstep : w.step host (.writeToFile content sched) =
      some { w with storage := (w.storage.bookFile a).storage, loop := .waiting } := by
    rw [step, hl]
    simp only [hstored, Option.map_some]
  rw [hbooked] at hstep
  refine ⟨_, a.conn, segs', hstep, rfl, hlog, hsame.trans h.max_eq, ?_, ?_, h.fits⟩
  · rw [hframes, h.frames, List.map_append]
    rfl
  · show payloads ++ [message] ++ [] ++ w.storage.pQueue = w.enqueued
    rw [List.append_nil, ← h.order, hl]
    rfl

theorem Invariant.step (h : Invariant host maxFileSize w conn segs payloads)
    (hM : maxFileSize < 2 ^ 31) {action : Action} (hact : action.Admissible maxFileSize)
    (hstep : w.step host action = some w') :
    ∃ conn' segs' payloads', Invariant host maxFileSize w' conn' segs' payloads' := by
  rcases step_cases hstep with
    ⟨message, content, sched, _, _, rfl, hl, -⟩ | ⟨message, rfl, rfl⟩ | ⟨hfile, -, -, -, henq, hmoved⟩
  · obtain ⟨w₁, conn', segs', hstep₁, hinv⟩ := h.writeToFile hM content hl hact
    obtain rfl := Option.some.inj (hstep₁.symm.trans hstep)
    exact ⟨conn', segs', _, hinv⟩
  · exact ⟨conn, segs, payloads, h.tryEnqueue hact _⟩
  · exact ⟨conn, segs, payloads, h.keep hfile henq (hmoved fun m hm => (h.held_fits m hm).1)⟩

end Steps

/-- The messages in the log, in the loop's hand and in the queue are the ones
enqueued, in order. -/
def Conserves (host : ByteOrder) (w : World) : Prop :=
  ∃ conn payloads, w.storage.pFile = some conn ∧
    conn.log = (payloads.map fun message => frame host message false 0).flatten ∧
    payloads ++ w.loop.held ++ w.storage.pQueue = w.enqueued

/-- What is enqueued is conserved while no two files are the same; and the loop
is never stuck with a message. -/
theorem pipeline_conserves (host : ByteOrder) (outputDirectory id : Bytes) {maxFileSize : Nat}
    (hM : 0 < maxFileSize) (hM₃₁ : maxFileSize < 2 ^ 31) {actions : List Action} {w : World}
    (hactions : ∀ action ∈ actions, action.Admissible maxFileSize)
    (hrun : Runs.run (step host) (start outputDirectory id maxFileSize) actions = some w) :
    (w.storage.FilesDistinct → w.Conserves host) ∧
      ∀ message content sched, w.loop = .holding message → PwriteResult.error ∉ sched →
        ∃ w', w.step host (.writeToFile content sched) = some w' := by
  obtain ⟨conn, segs, payloads, hinv⟩ := Runs.run_invariant
    (I := fun w => ∃ conn segs payloads, Invariant host maxFileSize w conn segs payloads)
    (P := fun _ action => action.Admissible maxFileSize)
    (fun ⟨_, _, _, h⟩ hact hstep => h.step hM₃₁ hact hstep)
    ⟨_, _, _, invariant_start host outputDirectory id hM⟩ (Runs.along_of_forall hactions) hrun
  constructor
  · intro hdistinct
    refine ⟨conn, payloads, hinv.file, ?_, hinv.order⟩
    rw [hinv.log.toFilesOf.log_eq (hdistinct conn hinv.file), ← flatten_logFrames, hinv.frames]
  · intro message content sched hl hno
    obtain ⟨w', -, -, hstep, -⟩ := hinv.writeToFile hM₃₁ content hl hno
    exact ⟨w', hstep⟩

/-- Two messages, one after the other, all the way to the file. -/
def twoAppended : List Action :=
  [.tryEnqueue (ascii "ab"), .countEnqueued, .testSize, .countBytes, .tryDequeue, .countDequeued,
    .writeToFile [] [.wrote 3], .tryEnqueue (ascii "c"), .countEnqueued, .countBytes, .testSize,
    .tryDequeue, .countDequeued, .writeToFile [] []]

theorem twoAppended_admissible : ∀ action ∈ twoAppended, action.Admissible 6 := by
  intro action hmem
  simp only [twoAppended, List.mem_cons, List.not_mem_nil, or_false] at hmem
  rcases hmem with rfl | rfl | rfl | rfl | rfl | rfl | rfl | rfl | rfl | rfl | rfl | rfl | rfl | rfl
  · exact ⟨by decide, by decide⟩
  · trivial
  · trivial
  · trivial
  · trivial
  · trivial
  · exact (by decide : PwriteResult.error ∉ [PwriteResult.wrote 3])
  · exact ⟨by decide, by decide⟩
  · trivial
  · trivial
  · trivial
  · trivial
  · trivial
  · exact List.not_mem_nil

theorem pipeline_conserves_twoAppended :
    ∃ w, Runs.run (step .little) (start (ascii "/tmp") (ascii "t") 6) twoAppended = some w ∧
      w.Conserves .little ∧
        ∀ message content sched, w.loop = .holding message → PwriteResult.error ∉ sched →
          ∃ w', w.step .little (.writeToFile content sched) = some w' := by
  obtain ⟨w, hw, hdistinct⟩ := Option.map_eq_some_iff.mp (show
    (Runs.run (step .little) (start (ascii "/tmp") (ascii "t") 6) twoAppended).map
      (fun w => decide w.storage.FilesDistinct) = some true by decide)
  obtain ⟨hconserves, hreturns⟩ := pipeline_conserves .little (ascii "/tmp") (ascii "t") (by decide)
    (by decide) twoAppended_admissible hw
  exact ⟨w, hw, hconserves (of_decide_eq_true hdistinct), hreturns⟩

/-- With a zero byte behind the topic's name the second message is written over
the first one. -/
theorem reopened_not_conserved :
    ¬ ∀ (host : ByteOrder) (outputDirectory id : Bytes) (maxFileSize : Nat) (actions : List Action)
        (w : World), 0 < maxFileSize → maxFileSize < 2 ^ 31 →
        (∀ action ∈ actions, action.Admissible maxFileSize) →
        Runs.run (step host) (start outputDirectory id maxFileSize) actions = some w →
        w.Conserves host := by
  intro h
  obtain ⟨w, hw, hfields⟩ := Option.map_eq_some_iff.mp (show
    (Runs.run (step .little) (start (ascii "/tmp") [116, 0] 6) twoAppended).map
      (fun w => (w.storage.pFile.map ConnectionFile.log, w.loop.held ++ w.storage.pQueue,
        w.enqueued)) = some (some ([1, 0, 0, 0] ++ ascii "cb" ++ [1, 0, 0, 0] ++ ascii "c"), [],
          [ascii "ab", ascii "c"]) by decide)
  obtain ⟨hlog, hrest, henqueued⟩ : _ ∧ _ ∧ _ := by simpa only [Prod.mk.injEq] using hfields
  obtain ⟨conn, payloads, hfile, hheld, horder⟩ := h .little (ascii "/tmp") [116, 0] 6 twoAppended w
    (by decide) (by decide) twoAppended_admissible hw
  rw [List.append_assoc, hrest, List.append_nil, henqueued] at horder
  rw [hfile, Option.map_some, hheld, horder] at hlog
  exact absurd hlog (by decide)

end World

end QueueToFile

end LightQ
