/-
# `Queue.BothModes` — pullers and subscribers of one topic

A topic is to serve both modes, load balancing and subscription, whatever its
type.  A queue topic does, if no client goes away between the departure of a
message and the test of its socket.  The other types write to the push socket
only (`served_push_iff`), and from a file never the whole message
(`fileToConsumer_frame`).

`both_modes_served_iff` makes this exact.  A departure that misses a client is
never made good, so that `Good` is lost at exactly the steps that do not meet
`Keeps`; that is `Steady.exact`, and `Runs.run_iff_along` does the rest.

`Steady` is the invariant of the trace, and there is a lemma for each kind of
step: `Steady.receive` and `Steady.enqueue` for a message that comes in,
`Steady.grow` for a file that is appended to, `Steady.client` for a client that
comes or goes, `Steady.deliver` for a call of `file_to_consumer`
(`Steady.moved` when a message leaves and `Steady.unmoved` when none does), and
`Queue.Departures` for the consumer thread of a queue topic.  `Steady.step` has
them all: every step but one that misses a client is exact.

What a file holds matters for one half only: `Disk`, and that the files of the
log are different ones, which they are unless a topic with a zero byte in its
name has been written more than a file's size.  With `Disk` the position moves
from where a message starts, or no message leaves (`deliver_cases`); an append
that gets through adds its message (`Disk.append`), whether it is the producer's
or that of the loop of a queue_file topic (`Disk.pipeline`).  A message that
leaves a file is missed by every client (`Steady.deliver_iff`).
-/
import LightQ.Storage.ReadPosition
import LightQ.Queue.Departures

namespace LightQ

open MachineInt FrameLog Runs

namespace BothModes

open ProcessConsumers (Socket Event)
open QueueToFile (LoopPc)
open Accounting (ProducerPc)

namespace World

section Steps

variable {host : ByteOrder} {w w' : World}

/-! What a step can do, one lemma for each kind of step that not every topic
takes. -/

theorem step_tryEnqueue {message : Bytes} (hstep : w.step host (.tryEnqueue message) = some w') :
    w.storage.brokerType = .queue ∧ message ≠ [] ∧
      w' = { w with toWorld := w.toWorld.step (.tryEnqueue message) } := by
  unfold step at hstep
  cases htype : w.storage.brokerType <;> simp only [htype, reduceCtorEq] at hstep
  split at hstep
  · cases hstep
  · next hne => exact ⟨rfl, hne, (Option.some.inj hstep).symm⟩

theorem step_countEnqueued (hstep : w.step host .countEnqueued = some w') :
    w.storage.brokerType = .queue ∧ w' = { w with toWorld := w.toWorld.step .countEnqueued } := by
  unfold step at hstep
  cases htype : w.storage.brokerType <;> simp only [htype, reduceCtorEq] at hstep
  exact ⟨rfl, (Option.some.inj hstep).symm⟩

theorem step_consumer {ok : Bool} (hstep : w.step host (.consumer ok) = some w') :
    w.storage.brokerType = .queue ∧ w' = { w with toWorld := w.consumerStep ok } := by
  unfold step at hstep
  cases htype : w.storage.brokerType <;> simp only [htype, reduceCtorEq] at hstep
  exact ⟨rfl, (Option.some.inj hstep).symm⟩

theorem step_publish {overload : ConnectionFile.Overload} {message content : Bytes}
    {sched : List PwriteResult}
    (hstep : w.step host (.publish overload message content sched) = some w') :
    w.storage.brokerType = .file ∧ ∃ file a n, w.storage.pFile = some file ∧
      file.write host overload message false (some content) sched = some a ∧
      w' = w.grow { w.storage with pFile := some a.conn, totalBytesWritten := n } [message] := by
  unfold step at hstep
  cases htype : w.storage.brokerType <;> simp only [htype, reduceCtorEq] at hstep
  obtain ⟨stored, hadd, hw⟩ := Option.bind_eq_some_iff.mp hstep
  obtain ⟨file, a, hfile, hwrite, rfl⟩ := BrokerStorage.add_file_some htype hadd
  obtain ⟨n, hbook⟩ := BrokerStorage.bookFile_eq w.storage a
  rw [hbook] at hw
  exact ⟨rfl, file, a, n, hfile, hwrite, (Option.some.inj hw).symm⟩

theorem step_pipeline {action : QueueToFile.Action}
    (hstep : w.step host (.pipeline action) = some w') :
    w.storage.brokerType = .queueFile ∧
      ∃ p, QueueToFile.World.step host ⟨w.storage, w.producer, w.loop, w.enqueued⟩ action = some p ∧
        w' = { w.grow p.storage w.loop.held with
          producer := p.producer, loop := p.loop, enqueued := p.enqueued } := by
  unfold step at hstep
  cases htype : w.storage.brokerType <;> simp only [htype, reduceCtorEq] at hstep
  obtain ⟨p, hp, hw⟩ := Option.bind_eq_some_iff.mp hstep
  exact ⟨rfl, p, hp, (Option.some.inj hw).symm⟩

theorem step_receive (hconsumer : w.storage.pConsumerSocket = some .zmq) {message : Bytes}
    {env : AddEnv} (hstep : w.step host (.receive message env) = some w') :
    w.storage.brokerType = .direct ∧ ∃ n, w' = { w with
      storage := { w.storage with totalBytesWritten := n }
      trace := w.trace ++ episode message [message] (0 ≤ env.writeMsg) } := by
  unfold step at hstep
  cases htype : w.storage.brokerType <;> simp only [htype, reduceCtorEq] at hstep
  split at hstep
  · cases hstep
  · obtain ⟨ok, n, hwrite⟩ := BrokerStorage.directWriteConsumer_of_some hconsumer message env
    rw [BrokerStorage.addToStorage, htype] at hstep
    simp only [hwrite, Option.bind_eq_bind, Option.bind_some] at hstep
    exact ⟨rfl, n, (Option.some.inj hstep).symm⟩

theorem step_fileToConsumer {sched : List PreadResult} {written : Int}
    (hstep : w.step host (.fileToConsumer sched written) = some w') :
    w.storage.brokerType ≠ .queue ∧ w.deliver host sched written = some w' := by
  unfold step at hstep
  cases htype : w.storage.brokerType <;> simp only [htype, reduceCtorEq] at hstep
  · exact ⟨by simp, hstep⟩
  · exact ⟨by simp, hstep⟩

theorem Steady.quiet (h : Steady w)
    (hclients : ∀ socket, (ledger w'.trace).clients socket = w'.clients socket)
    (hhand : (ledger w'.trace).hand = (ledger w.trace).hand)
    (hleft : (ledger w'.trace).left = (ledger w.trace).left)
    (hsockets : w'.sockets = w.sockets) (hpc : w'.pc = w.pc)
    (htype : w'.storage.brokerType = w.storage.brokerType)
    (hconsumer : w'.storage.pConsumerSocket = w.storage.pConsumerSocket)
    (hqueue : w.storage.brokerType = .queue → ∀ m ∈ w'.storage.pQueue, m ≠ []) :
    Steady w' ∧ (Good w' ↔ Good w) := by
  refine ⟨⟨hclients, ?_, ?_, ?_, ?_, ?_, ?_⟩, ?_⟩
  · rw [hsockets]
    exact h.sockets
  · exact hconsumer.trans h.consumer
  · rw [htype]
    exact hqueue
  · rw [htype, hpc]
    exact h.idle
  · rw [hpc]
    exact h.nonempty
  · rw [hpc, hhand]
    exact h.hand
  · rw [Good, Good, Served, Served, hhand, hleft, hpc]

theorem ledger_episode (trace : List Event) (message : Bytes) (sent : List Bytes) (ok : Bool) :
    ledger (trace ++ episode message sent ok) =
      { ledger trace with
        hand := none
        left := (ledger trace).left ++ [⟨message, fun socket => 0 < (ledger trace).clients socket,
          if ok then sent.map (Socket.push, ·) else []⟩] } := by
  rw [ledger, List.foldl_append, episode, List.foldl_cons, List.foldl_append, record_writes]
  rfl

theorem Steady.episode (h : Steady w) (hother : w.storage.brokerType ≠ .queue)
    {storage : BrokerStorage} (htype : storage.brokerType = w.storage.brokerType)
    (hconsumer : storage.pConsumerSocket = w.storage.pConsumerSocket)
    (message : Bytes) (sent : List Bytes) (ok : Bool) :
    Steady { w with storage := storage, trace := w.trace ++ episode message sent ok } ∧
      (Good { w with storage := storage, trace := w.trace ++ episode message sent ok } ↔
        Good w ∧ Departure.Served ⟨message, fun socket => 0 < w.clients socket,
          if ok then sent.map (Socket.push, ·) else []⟩) := by
  have hpc := h.idle hother
  have hd : (ledger w.trace).hand = none := h.no_hand (by rw [hpc]; rfl) (by simp [hpc])
  have hcounted : (fun socket => decide (0 < (ledger w.trace).clients socket)) =
      fun socket => decide (0 < w.clients socket) := by
    funext socket
    rw [h.clients]
  constructor
  · refine ⟨?_, h.sockets, hconsumer.trans h.consumer,
      fun hq => absurd (htype.symm.trans hq) hother, fun _ => hpc, h.nonempty, ?_⟩
    · rw [ledger_episode]
      exact h.clients
    · simp only [hpc, holding]
      exact Or.inr (by rw [ledger_episode])
  · rw [good_of_no_hand hd]
    refine Iff.trans (good_of_no_hand (by rw [ledger_episode])) ?_
    rw [Served, Served, ledger_episode, hcounted]
    simp only [List.mem_append, List.mem_singleton, or_imp, forall_and, forall_eq]

theorem served_push_iff {message bytes : Bytes} {clients : Socket → Int} {ok : Bool} :
    Departure.Served ⟨message, fun socket => 0 < clients socket,
        if ok then [bytes].map (Socket.push, ·) else []⟩ ↔
      clients .pub ≤ 0 ∧ (0 < clients .push → ok = true ∧ bytes = message) := by
  constructor
  · intro h
    constructor
    · by_contra hpub
      have := h .pub (decide_eq_true (Int.not_le.mp hpub))
      cases ok with
      | true => simp at this
      | false => simp at this
    · intro hpush
      have := h .push (decide_eq_true hpush)
      cases ok with
      | true => simpa [eq_comm] using this
      | false => simp at this
  · rintro ⟨hpub, hpush⟩ socket hcounted
    cases socket with
    | push =>
        obtain ⟨rfl, rfl⟩ := hpush (of_decide_eq_true hcounted)
        exact List.mem_singleton_self _
    | pub => exact absurd (of_decide_eq_true hcounted) (Int.not_lt.mpr hpub)

theorem deliver_cases {sched : List PreadResult} {written : Int}
    (hstep : w.deliver host sched written = some w') :
    ∃ d, w.storage.fileToConsumer host false sched written = some d ∧
      ((∃ message, w.next host = some message ∧
          w.storage.totalBytesRead < d.storage.totalBytesRead ∧
          w' = { w with
            storage := d.storage
            trace := w.trace ++ episode message (d.sent.map Prod.fst) (0 ≤ written) }) ∨
        ((w.next host = none ∨ d.storage.totalBytesRead ≤ w.storage.totalBytesRead) ∧
          w' = { w with storage := d.storage })) := by
  obtain ⟨d, hd, hw⟩ := Option.bind_eq_some_iff.mp hstep
  refine ⟨d, hd, ?_⟩
  rw [← Option.some.inj hw]
  by_cases hmoved : w.storage.totalBytesRead < d.storage.totalBytesRead
  · rw [if_pos hmoved]
    cases hnext : w.next host with
    | none =>
        refine Or.inr ⟨Or.inl rfl, ?_⟩
        rw [List.append_nil]
    | some message => exact Or.inl ⟨message, rfl, hmoved, rfl⟩
  · rw [if_neg hmoved]
    refine Or.inr ⟨Or.inr (Nat.not_lt.mp hmoved), ?_⟩
    rw [List.append_nil]

theorem Steady.unmoved (h : Steady w) {sched : List PreadResult} {written : Int} {d : Delivery}
    (hd : w.storage.fileToConsumer host false sched written = some d) :
    Steady { w with storage := d.storage } ∧ (Good { w with storage := d.storage } ↔ Good w) := by
  obtain ⟨buffer, n, hstorage⟩ := BrokerStorage.fileToConsumer_storage hd
  rw [hstorage]
  exact h.quiet h.clients rfl rfl rfl rfl rfl rfl h.queued

theorem Steady.moved (h : Steady w) (hother : w.storage.brokerType ≠ .queue)
    {sched : List PreadResult} {written : Int} {d : Delivery}
    (hd : w.storage.fileToConsumer host false sched written = some d) (message : Bytes) (ok : Bool) :
    let w' := { w with
      storage := d.storage
      trace := w.trace ++ World.episode message (d.sent.map Prod.fst) ok }
    Steady w' ∧ (Good w' ↔ Good w ∧ Departure.Served ⟨message, fun socket => 0 < w.clients socket,
      if ok then (d.sent.map Prod.fst).map (Socket.push, ·) else []⟩) := by
  obtain ⟨buffer, n, hstorage⟩ := BrokerStorage.fileToConsumer_storage hd
  exact h.episode hother (by rw [hstorage]) (by rw [hstorage]) message _ ok

theorem Steady.deliver (h : Steady w) (hother : w.storage.brokerType ≠ .queue)
    {sched : List PreadResult} {written : Int} (hstep : w.deliver host sched written = some w') :
    Steady w' ∧ ((w.next host ≠ none → ∀ socket, w.clients socket ≤ 0) → Good w → Good w') := by
  obtain ⟨d, hd, ⟨message, hnext, -, rfl⟩ | ⟨-, rfl⟩⟩ := deliver_cases hstep
  · obtain ⟨hsteady, hgood⟩ := h.moved hother hd message (0 ≤ written)
    refine ⟨hsteady, fun hkeeps hw => hgood.mpr ⟨hw, fun socket hcounted => ?_⟩⟩
    have hnone := hkeeps (by rw [hnext]; exact Option.some_ne_none _) socket
    exact absurd (of_decide_eq_true hcounted) (Int.not_lt.mpr hnone)
  · obtain ⟨hsteady, hgood⟩ := h.unmoved hd
    exact ⟨hsteady, fun _ hw => hgood.mpr hw⟩

theorem Steady.receive (h : Steady w) {message : Bytes} {env : AddEnv}
    (hstep : w.step host (.receive message env) = some w') :
    Steady w' ∧ (Good w' ↔ Good w ∧ Keeps host w (.receive message env)) := by
  obtain ⟨htype, n, rfl⟩ := step_receive h.consumer hstep
  have hsame : Departure.Served ⟨message, fun socket => 0 < w.clients socket,
      if decide (0 ≤ env.writeMsg) then [message].map (Socket.push, ·) else []⟩ ↔
      Keeps host w (.receive message env) := by
    rw [served_push_iff]
    simp [Keeps]
  rw [← hsame]
  refine h.episode (by simp [htype]) ?_ ?_ message [message] (0 ≤ env.writeMsg)
  · rfl
  · rfl

theorem Steady.enqueue (h : Steady w) {message : Bytes} (hne : message ≠ []) :
    let w' := { w with toWorld := w.toWorld.step (.tryEnqueue message) }
    Steady w' ∧ (Good w' ↔ Good w) := by
  refine h.quiet ?_ ?_ ?_ rfl rfl rfl rfl fun hq m hm => ?_
  · intro socket
    rw [ProcessConsumers.World.step, ledger_snoc]
    exact h.clients socket
  · rw [ProcessConsumers.World.step, ledger_snoc]
    rfl
  · rw [ProcessConsumers.World.step, ledger_snoc]
    rfl
  · rcases List.mem_append.mp hm with hold | hnew
    · exact h.queued hq m hold
    · rw [List.mem_singleton.mp hnew]
      exact hne

theorem Steady.countEnqueued (h : Steady w) :
    let w' := { w with toWorld := w.toWorld.step .countEnqueued }
    Steady w' ∧ (Good w' ↔ Good w) := by
  refine h.quiet ?_ rfl rfl rfl rfl rfl rfl h.queued
  exact h.clients

theorem Steady.grow (h : Steady w) (hother : w.storage.brokerType ≠ .queue)
    (storage : BrokerStorage) (messages : List Bytes) (producer : ProducerPc) (loop : LoopPc)
    (enqueued : List Bytes) (htype : storage.brokerType = w.storage.brokerType)
    (hconsumer : storage.pConsumerSocket = w.storage.pConsumerSocket) :
    let w' := { w.grow storage messages with
      producer := producer, loop := loop, enqueued := enqueued }
    Steady w' ∧ (Good w' ↔ Good w) :=
  h.quiet h.clients rfl rfl rfl rfl htype hconsumer (fun hq => absurd hq hother)

theorem Steady.client (h : Steady w) (socket : Socket) (e : Event) (n : Int)
    (hrecord : ∀ l : Ledger, l.record e =
      { l with clients := fun other => l.clients other + e.delta other })
    (hn : ∀ other, e.delta other = if other = socket then n else 0) :
    let w' := { w with clients := w.addClients socket n, trace := w.trace ++ [e] }
    Steady w' ∧ (Good w' ↔ Good w) := by
  refine h.quiet ?_ (by rw [ledger_snoc, hrecord]) (by rw [ledger_snoc, hrecord]) rfl rfl rfl rfl
    h.queued
  intro other
  rw [ledger_snoc, hrecord]
  show (ledger w.trace).clients other + e.delta other = w.addClients socket n other
  rw [h.clients, hn, ProcessConsumers.World.addClients]
  split
  · rfl
  · exact Int.add_zero _

/-- Every step but one is exact. -/
theorem Steady.step (h : Steady w) {a : Action}
    (ha : ∀ sched written, a ≠ .fileToConsumer sched written)
    (hstep : w.step host a = some w') : Steady w' ∧ (Good w' ↔ Good w ∧ Keeps host w a) := by
  cases a with
  | connect socket =>
      obtain rfl := Option.some.inj hstep
      obtain ⟨hsteady, hgood⟩ := h.client socket (.connected socket) 1 (fun _ => rfl) fun other => by
        simp [Event.delta, eq_comm]
      exact ⟨hsteady, hgood.trans (and_iff_left trivial).symm⟩
  | disconnect socket =>
      obtain rfl := Option.some.inj hstep
      obtain ⟨hsteady, hgood⟩ := h.client socket (.disconnected socket) (-1) (fun _ => rfl)
        fun other => by simp [Event.delta, eq_comm]
      exact ⟨hsteady, hgood.trans (and_iff_left trivial).symm⟩
  | tryEnqueue message =>
      obtain ⟨-, hne, rfl⟩ := step_tryEnqueue hstep
      obtain ⟨hsteady, hgood⟩ := h.enqueue hne
      exact ⟨hsteady, hgood.trans (and_iff_left trivial).symm⟩
  | countEnqueued =>
      obtain ⟨-, rfl⟩ := step_countEnqueued hstep
      obtain ⟨hsteady, hgood⟩ := h.countEnqueued
      exact ⟨hsteady, hgood.trans (and_iff_left trivial).symm⟩
  | consumer ok =>
      obtain ⟨htype, rfl⟩ := step_consumer hstep
      exact h.consumer_step htype host ok
  | publish overload message content sched =>
      obtain ⟨htype, _, a, n, -, -, rfl⟩ := step_publish hstep
      obtain ⟨hsteady, hgood⟩ := h.grow (by simp [htype])
        { w.storage with pFile := some a.conn, totalBytesWritten := n } [message] w.producer w.loop
        w.enqueued rfl rfl
      exact ⟨hsteady, hgood.trans (and_iff_left trivial).symm⟩
  | pipeline action =>
      obtain ⟨htype, p, hp, rfl⟩ := step_pipeline hstep
      obtain ⟨htype', hconsumer⟩ : p.storage.brokerType = w.storage.brokerType ∧
          p.storage.pConsumerSocket = w.storage.pConsumerSocket := by
        rcases QueueToFile.World.step_cases hp with
          ⟨_, _, _, _, a, -, -, -, -, rfl⟩ | ⟨_, -, rfl⟩ | ⟨-, h₁, h₂, -⟩
        · obtain ⟨n, hbook⟩ := BrokerStorage.bookFile_eq w.storage a
          exact ⟨by rw [hbook], by rw [hbook]⟩
        · exact ⟨rfl, rfl⟩
        · exact ⟨h₁, h₂⟩
      obtain ⟨hsteady, hgood⟩ := h.grow (by simp [htype]) p.storage w.loop.held
        p.producer p.loop p.enqueued htype' hconsumer
      exact ⟨hsteady, hgood.trans (and_iff_left trivial).symm⟩
  | fileToConsumer sched written => exact absurd rfl (ha sched written)
  | receive message env => exact h.receive hstep

theorem Steady.keeps (h : Steady w) {a : Action} (hstep : w.step host a = some w') :
    Steady w' ∧ (Keeps host w a → Good w → Good w') := by
  by_cases ha : ∃ sched written, a = .fileToConsumer sched written
  · obtain ⟨sched, written, rfl⟩ := ha
    obtain ⟨hother, hdeliver⟩ := step_fileToConsumer hstep
    exact h.deliver hother hdeliver
  · simp only [not_exists] at ha
    obtain ⟨hsteady, hgood⟩ := h.step ha hstep
    exact ⟨hsteady, fun hkeeps hw => hgood.mpr ⟨hw, hkeeps⟩⟩

end Steps

/-! ## What the file holds -/

/-- No message is empty or longer than a header has room for. -/
def Storable (message : Bytes) : Prop := message ≠ [] ∧ frameLength message false < 2 ^ 31

/-- Messages are storable, and no read or write of the file fails. -/
def Admissible : Action → Prop
  | .publish _ message _ sched => Storable message ∧ PwriteResult.error ∉ sched
  | .pipeline (.tryEnqueue message) => Storable message
  | .pipeline (.writeToFile _ sched) => PwriteResult.error ∉ sched
  | .fileToConsumer sched _ => sched = []
  | _ => True

/-- The file holds the frames of what was added, and what is on its way there
is storable. -/
structure Disk (host : ByteOrder) (w : World) : Prop where
  log : ∀ conn, w.storage.pFile = some conn →
    ∃ segs, LogFiles host conn segs ∧ logFrames segs = w.frames host
  fits : w.storage.brokerType = .queueFile →
    ∀ message ∈ w.loop.held ++ w.storage.pQueue, Storable message

theorem disk_start (host : ByteOrder) (brokerType : BrokerType) (outputDirectory id : Bytes) :
    Disk host (start brokerType outputDirectory id) where
  log := by
    have hlog := (logInvariant_create host outputDirectory id
      (show 0 < ConnectionFile.defaultMaxFileSize by decide)).logFiles
    intro conn hconn
    refine ⟨[], ?_, rfl⟩
    cases brokerType with
    | queue => cases hconn
    | direct => cases hconn
    | file =>
        obtain rfl := Option.some.inj hconn
        exact hlog
    | queueFile =>
        obtain rfl := Option.some.inj hconn
        exact hlog
  fits _ := by
    cases brokerType <;> exact fun m hm => absurd hm List.not_mem_nil

section Disk

variable {host : ByteOrder} {w w' : World} {message : Bytes}

theorem Disk.keep (h : Disk host w) (hfile : w'.storage.pFile = w.storage.pFile)
    (hadded : w'.added = w.added)
    (hfits : w'.storage.brokerType = .queueFile →
      ∀ message ∈ w'.loop.held ++ w'.storage.pQueue, Storable message) : Disk host w' where
  log conn hconn := by
    rw [frames, hadded]
    exact h.log conn (hfile.symm.trans hconn)
  fits := hfits

theorem grow_of_same {storage : BrokerStorage} (h : storage.pFile = w.storage.pFile)
    (messages : List Bytes) : (w.grow storage messages).added = w.added := by
  rw [grow, BrokerStorage.getFileTotalBytesWritten, BrokerStorage.getFileTotalBytesWritten, h]
  simp

/-- An append that gets through adds its message. -/
theorem Disk.append (h : Disk host w) {file : ConnectionFile} (hfile : w.storage.pFile = some file)
    {overload : ConnectionFile.Overload} {content : Bytes} {sched : List PwriteResult}
    {a : Appended}
    (hwrite : file.write host overload message false (some content) sched = some a)
    (hmessage : Storable message) (hno : PwriteResult.error ∉ sched) (n : Nat) :
    let w' := w.grow { w.storage with pFile := some a.conn, totalBytesWritten := n } [message]
    ∀ conn, w'.storage.pFile = some conn →
      ∃ segs, LogFiles host conn segs ∧ logFrames segs = w'.frames host := by
  obtain ⟨segs, hlog, hframes⟩ := h.log file hfile
  obtain ⟨segs', hlog', -, hgrow⟩ :=
    hlog.write overload content hmessage.1 hmessage.2 hno hwrite
  have hadd : logFrames segs' = logFrames segs ++ [frame host message false 0] := hgrow
  have hgrown : w.storage.getFileTotalBytesWritten <
      { w.storage with pFile := some a.conn, totalBytesWritten := n }.getFileTotalBytesWritten := by
    rw [BrokerStorage.getFileTotalBytesWritten, BrokerStorage.getFileTotalBytesWritten, hfile]
    show file.totalBytesWriten < a.conn.totalBytesWriten
    rw [hlog.total_eq, hlog'.total_eq, ← flatten_logFrames, ← flatten_logFrames, hadd,
      List.flatten_append, List.length_append, List.flatten_singleton, length_frame]
    have hpos : 0 < message.length := List.length_pos_iff.mpr hmessage.1
    simp only [frameLength]
    omega
  intro w' conn hconn
  obtain rfl := Option.some.inj hconn
  refine ⟨segs', hlog', ?_⟩
  have hadded : w'.added = w.added ++ [message] := by
    show (w.grow _ _).added = _
    rw [grow, if_pos hgrown]
  rw [hadd, hframes, frames, frames, hadded, List.map_append]
  rfl

theorem Disk.publish (h : Disk host w) {overload : ConnectionFile.Overload} {content : Bytes}
    {sched : List PwriteResult} (hmessage : Storable message) (hno : PwriteResult.error ∉ sched)
    (hstep : w.step host (.publish overload message content sched) = some w') : Disk host w' := by
  obtain ⟨htype, file, a, n, hfile, hwrite, rfl⟩ := step_publish hstep
  exact ⟨h.append hfile hwrite hmessage hno n, fun hq => by cases htype.symm.trans hq⟩

theorem Disk.pipeline (h : Disk host w) {action : QueueToFile.Action}
    (hadm : Admissible (.pipeline action))
    (hstep : w.step host (.pipeline action) = some w') : Disk host w' := by
  obtain ⟨htype, p, hp, rfl⟩ := step_pipeline hstep
  have hfits := h.fits htype
  rcases QueueToFile.World.step_cases hp with
    ⟨m, content, sched, file, a, rfl, hloop, hfile, hwrite, rfl⟩ | ⟨m, rfl, rfl⟩ |
    ⟨hfile, -, -, -, -, hmoved⟩
  · have hheld : w.loop.held = [m] := by rw [show w.loop = .holding m from hloop]; rfl
    have hcall : file.write host .string m false (some content) sched = some a := hwrite
    have hm : Storable m := hfits m (by rw [hheld]; exact List.mem_cons_self)
    obtain ⟨n, hbook⟩ := BrokerStorage.bookFile_eq w.storage a
    rw [hheld, hbook]
    exact ⟨h.append hfile hcall hm hadm n, fun _ m' hm' => hfits m' (List.mem_append_right _ hm')⟩
  · refine h.keep rfl (grow_of_same rfl w.loop.held) ?_
    intro _ m' hm'
    have hmem : m' ∈ w.loop.held ++ (w.storage.pQueue ++ [m]) := hm'
    rw [← List.append_assoc] at hmem
    rcases List.mem_append.mp hmem with hold | hnew
    · exact hfits m' hold
    · rw [List.mem_singleton.mp hnew]
      exact hadm
  · have hheld : ∀ m ∈ w.loop.held, m ≠ [] := fun m hm =>
      (hfits m (List.mem_append_left _ hm)).1
    refine h.keep hfile (grow_of_same hfile w.loop.held) fun _ m hm => hfits m ?_
    rw [← hmoved hheld]
    exact hm

theorem Disk.step (h : Disk host w) (hconsumer : w.storage.pConsumerSocket = some .zmq)
    {a : Action} (hadm : Admissible a) (hstep : w.step host a = some w') : Disk host w' := by
  cases a with
  | connect socket =>
      obtain rfl := Option.some.inj hstep
      exact h.keep rfl rfl h.fits
  | disconnect socket =>
      obtain rfl := Option.some.inj hstep
      exact h.keep rfl rfl h.fits
  | tryEnqueue message =>
      obtain ⟨htype, -, rfl⟩ := step_tryEnqueue hstep
      exact h.keep rfl rfl fun hq => by cases htype.symm.trans hq
  | countEnqueued =>
      obtain ⟨htype, rfl⟩ := step_countEnqueued hstep
      exact h.keep rfl rfl fun hq => by cases htype.symm.trans hq
  | consumer ok =>
      obtain ⟨htype, rfl⟩ := step_consumer hstep
      obtain ⟨-, hfile, htype'⟩ := w.consumerStep_frame ok
      exact h.keep hfile rfl fun hq => by cases (htype'.trans htype).symm.trans hq
  | publish overload message content sched => exact h.publish hadm.1 hadm.2 hstep
  | pipeline action => exact h.pipeline hadm hstep
  | fileToConsumer sched written =>
      obtain ⟨-, hdeliver⟩ := step_fileToConsumer hstep
      obtain ⟨d, hd, hw⟩ := deliver_cases hdeliver
      obtain ⟨buffer, n, hstorage⟩ := BrokerStorage.fileToConsumer_storage hd
      have hfits := h.fits
      rcases hw with ⟨_, -, -, rfl⟩ | ⟨-, rfl⟩
      · exact h.keep (by rw [hstorage]) rfl (by rw [hstorage]; exact hfits)
      · exact h.keep (by rw [hstorage]) rfl (by rw [hstorage]; exact hfits)
  | receive message env =>
      obtain ⟨htype, n, rfl⟩ := step_receive hconsumer hstep
      exact h.keep rfl rfl fun hq => by cases htype.symm.trans hq

theorem step_filesExtend {a : Action} (hstep : w.step host a = some w') :
    w.storage.FilesExtend w'.storage := by
  cases a with
  | connect socket =>
      obtain rfl := Option.some.inj hstep
      exact .of_eq rfl
  | disconnect socket =>
      obtain rfl := Option.some.inj hstep
      exact .of_eq rfl
  | tryEnqueue message =>
      obtain ⟨-, -, rfl⟩ := step_tryEnqueue hstep
      exact .of_eq rfl
  | countEnqueued =>
      obtain ⟨-, rfl⟩ := step_countEnqueued hstep
      exact .of_eq rfl
  | consumer ok =>
      obtain ⟨-, rfl⟩ := step_consumer hstep
      exact .of_eq (w.consumerStep_frame ok).2.1
  | publish overload message content sched =>
      obtain ⟨-, file, a, n, hfile, hwrite, rfl⟩ := step_publish hstep
      have hextends := BrokerStorage.FilesExtend.of_write (n := n) hfile hwrite
      exact hextends
  | pipeline action =>
      obtain ⟨-, p, hp, rfl⟩ := step_pipeline hstep
      exact QueueToFile.World.step_filesExtend hp
  | fileToConsumer sched written =>
      obtain ⟨-, hdeliver⟩ := step_fileToConsumer hstep
      obtain ⟨d, hd, ⟨_, -, -, rfl⟩ | ⟨-, rfl⟩⟩ := deliver_cases hdeliver
      · exact BrokerStorage.fileToConsumer_filesExtend hd
      · exact BrokerStorage.fileToConsumer_filesExtend hd
  | receive message env =>
      unfold step at hstep
      cases htype : w.storage.brokerType <;> simp only [htype, reduceCtorEq] at hstep
      split at hstep
      · cases hstep
      · obtain ⟨stored, hstored, hw⟩ := Option.bind_eq_some_iff.mp hstep
        have hadd : w.storage.add host .string message env = some stored := hstored
        obtain rfl := Option.some.inj hw
        exact BrokerStorage.add_filesExtend hadd

theorem Steady.deliver_iff (h : Steady w) (hdisk : Disk host w)
    (hdistinct : w.storage.FilesDistinct) {sched : List PreadResult}
    {written : Int} (hsched : sched = [])
    (hstep : w.step host (.fileToConsumer sched written) = some w') :
    Good w' ↔ Good w ∧ Keeps host w (.fileToConsumer sched written) := by
  subst hsched
  obtain ⟨hother, hdeliver⟩ := step_fileToConsumer hstep
  obtain ⟨d, hd, hw⟩ := deliver_cases hdeliver
  obtain ⟨conn, hfile, -⟩ := Option.bind_eq_some_iff.mp hd
  obtain ⟨segs, hlog, hframes⟩ := hdisk.log conn hfile
  have hframe : ∀ message, w.next host = some message →
      w.storage.totalBytesRead < d.storage.totalBytesRead ∧
        ∃ bytes, d.sent.map Prod.fst = [bytes] ∧ bytes ≠ message := by
    intro message hnext
    obtain ⟨fr, hat, rfl⟩ := Option.map_eq_some_iff.mp hnext
    rw [← hframes] at hat
    exact BrokerStorage.fileToConsumer_frame hlog (hdistinct conn hfile) hfile h.consumer hat hd
  rcases hw with ⟨message, hnext, -, rfl⟩ | ⟨hstay, rfl⟩
  · obtain ⟨-, bytes, hsent, hne⟩ := hframe message hnext
    obtain ⟨-, hgood⟩ := h.moved hother hd message (0 ≤ written)
    rw [hgood, hsent, served_push_iff]
    refine and_congr_right ?_
    intro _
    simp only [Keeps, hnext, ne_eq, reduceCtorEq, not_false_eq_true, forall_true_left, hne,
      and_false, imp_false, Int.not_lt]
    constructor
    · rintro ⟨hpub, hpush⟩ socket
      cases socket with
      | push => exact hpush
      | pub => exact hpub
    · intro hall
      exact ⟨hall .pub, hall .push⟩
  · obtain ⟨-, hgood⟩ := h.unmoved hd
    rw [hgood]
    refine (and_iff_left fun hnext => ?_).symm
    obtain ⟨message, hsome⟩ := Option.ne_none_iff_exists'.mp hnext
    rcases hstay with hnone | hle
    · exact absurd hnone hnext
    · exact absurd (hframe message hsome).1 (Nat.not_lt.mpr hle)

theorem Steady.exact (h : Steady w) (hdisk : Disk host w) (hdistinct : w.storage.FilesDistinct)
    {a : Action} (hadm : Admissible a) (hstep : w.step host a = some w') :
    (Steady w' ∧ Disk host w') ∧ (Good w' ↔ Good w ∧ Keeps host w a) := by
  refine ⟨⟨(h.keeps hstep).1, hdisk.step h.consumer hadm hstep⟩, ?_⟩
  by_cases ha : ∃ sched written, a = .fileToConsumer sched written
  · obtain ⟨sched, written, rfl⟩ := ha
    exact h.deliver_iff hdisk hdistinct hadm hstep
  · simp only [not_exists] at ha
    exact (h.step ha hstep).2

end Disk

/-! ## Runs -/

theorem good_start (brokerType : BrokerType) (outputDirectory id : Bytes) :
    Good (start brokerType outputDirectory id) :=
  (good_of_no_hand rfl).mpr fun _ hd => absurd hd List.not_mem_nil

end World

open World

/-- In a run of a topic of any type whose steps all look to the clients that
count, every client that counted when a message left is served.  When no
message is in hand these are the only such runs, if the file does not fail and
the files of its log are different ones. -/
theorem both_modes_served_iff (host : ByteOrder) (brokerType : BrokerType)
    (outputDirectory id : Bytes) {actions : List Action} {w : World}
    (hrun : run (step host) (start brokerType outputDirectory id) actions = some w) :
    (Along (step host) (Keeps host) (start brokerType outputDirectory id) actions → Served w) ∧
      ((∀ a ∈ actions, Admissible a) → w.storage.FilesDistinct → w.pc = .waiting → Served w →
        Along (step host) (Keeps host) (start brokerType outputDirectory id) actions) := by
  constructor
  · intro hkeeps
    exact (run_invariant (I := fun w => Steady w ∧ Good w) (P := Keeps host)
      (fun ⟨hsteady, hgood⟩ hkeeps hstep =>
        ⟨(hsteady.keeps hstep).1, (hsteady.keeps hstep).2 hkeeps hgood⟩)
      ⟨steady_start brokerType outputDirectory id, good_start brokerType outputDirectory id⟩
      hkeeps hrun).2.1
  · intro hadm hdistinct hidle hserved
    have hfiles : Along (step host) (fun w _ => w.storage.FilesDistinct)
        (start brokerType outputDirectory id) actions :=
      along_of_end (fun hstep => (step_filesExtend hstep).distinct) hrun hdistinct
    have hiff : Good w ↔ _ := run_iff_along (I := fun w => Steady w ∧ Disk host w)
      (P := fun w a => Admissible a ∧ w.storage.FilesDistinct)
      (fun ⟨hsteady, hdisk⟩ ⟨hadm, hfiles⟩ hstep => hsteady.exact hdisk hfiles hadm hstep)
      ⟨steady_start brokerType outputDirectory id, disk_start host brokerType outputDirectory id⟩
      (good_start brokerType outputDirectory id) ((along_of_forall hadm).and hfiles) hrun
    refine hiff.mp ⟨hserved, ?_⟩
    intro d _ socket hpassed
    rw [hidle] at hpassed
    cases hpassed

/-- A puller, a subscriber, and a message for both. -/
def forBoth : List Action :=
  [.connect .push, .connect .pub, .tryEnqueue (ascii "a"), .countEnqueued, .consumer true,
    .consumer true, .consumer true, .consumer true, .consumer true, .consumer true, .consumer true,
    .consumer true]

theorem both_modes_served_iff_forBoth :
    ∃ w, run (step .little) (start .queue (ascii "/tmp") (ascii "t")) forBoth = some w ∧
      (Along (step .little) (Keeps .little) (start .queue (ascii "/tmp") (ascii "t")) forBoth →
        Served w) ∧
      ((∀ a ∈ forBoth, Admissible a) → w.storage.FilesDistinct → w.pc = .waiting → Served w →
        Along (step .little) (Keeps .little) (start .queue (ascii "/tmp") (ascii "t")) forBoth) := by
  obtain ⟨w, hrun⟩ := Option.isSome_iff_exists.mp
    (show (run (step .little) (start .queue (ascii "/tmp") (ascii "t")) forBoth).isSome = true by
      decide)
  exact ⟨w, hrun, both_modes_served_iff .little .queue (ascii "/tmp") (ascii "t") hrun⟩

/-- A direct topic with a subscriber: the message is not written to the pub
socket. -/
theorem both_modes_not_served :
    ¬ ∀ (host : ByteOrder) (brokerType : BrokerType) (outputDirectory id : Bytes)
        (actions : List Action) (w : World),
        run (step host) (start brokerType outputDirectory id) actions = some w → Served w := by
  intro h
  obtain ⟨w, hrun, hleft⟩ := Option.map_eq_some_iff.mp
    (show (run (step .little) (start .direct (ascii "/tmp") (ascii "t"))
        [.connect .pub, .receive (ascii "a") ⟨none, [], 1⟩]).map
          (fun w => (ledger w.trace).left.map fun d => (d.counted .pub, d.message, d.written))
      = some [(true, ascii "a", [(.push, ascii "a")])] by rfl)
  have hserved := h .little .direct _ _ _ w hrun
  obtain ⟨d, rest, hd, hfields, -⟩ := List.map_eq_cons_iff.mp hleft
  obtain ⟨hcounted, hmessage, hwritten⟩ : d.counted .pub = true ∧ d.message = ascii "a" ∧
      d.written = [(.push, ascii "a")] := by
    simpa only [Prod.mk.injEq] using hfields
  have hmem := hserved d (by rw [hd]; exact List.mem_cons_self) .pub hcounted
  rw [hwritten, hmessage] at hmem
  exact absurd hmem (by decide)

end BothModes

end LightQ
