/-
# `Socket.RoundRobin` — whose turn it is when sends fail

`sendfile_to_socket` picks a socket with `get_next_fd`, which moves the index on,
and removes it with `remove_fd` when the send fails.  The sockets behind it move up
by one place then and the index does not, so that the one behind it is passed over
and comes last.

`Sending` follows calls one after the other, whatever the threads around them do to
the storage; `returned` is what `get_next_fd` has returned.  No socket is accepted in
between, so that those in `fds_` have been connected all along.  The order of the
turns is `queue` (`Lib.RoundRobin`): the first in it is returned, and the index is
behind it (`getNextFd_split`; there are not more descriptors than an index can
count, `length_le_of_nodup`).

`round_robin_fair_iff` has two halves.  If no failing send passes a socket over, the
turns are fair in every state of the run; and they are fair for good in every state,
fair however the run goes on, if and only if no failing send does.

A call does one of three things (`step_cases`): it returns a socket and keeps it, or
it returns one and removes it, with or without another being passed over.  In the
first two the turns stay in order (`InOrder.next`), and as long as they are in order
and no send fails they are fair (`InOrder.fairForGood`).  If they are not in order
somebody has a second turn before another has one (`FairForGood.inOrder`): calls that
fail nowhere give everybody a turn (`idle_run`, by induction on those who have had
it), and so a call that passes somebody over ends it (`not_fairForGood`).
-/
import Mathlib.Data.List.GetD
import Mathlib.Order.Interval.Finset.Nat
import LightQ.Lib.RoundRobin
import LightQ.Socket.ConnectionSocket

namespace LightQ

open MachineInt RoundRobin

/-- What a call of `sendfile_to_socket` finds: the storage, and the result of its
`sendfile`. -/
structure SendCall where
  storage : BrokerStorage
  bytesToSend : Nat
  r : SendfileResult

/-- The socket, and what `get_next_fd` has returned. -/
structure Sending where
  socket : ConnectionSocket
  returned : List Int

namespace Sending

def step (platform : Platform) (s : Sending) (a : SendCall) : Option Sending := do
  let sent ← SocketConsumer.sendfileToSocket platform ⟨a.storage, s.socket⟩ a.bytesToSend a.r
  some ⟨sent.consumer.socket, s.returned ++ [sent.fd]⟩

/-- The send of the call fails. -/
def Fails (platform : Platform) (s : Sending) (a : SendCall) : Prop :=
  ∃ sent, SocketConsumer.sendfileToSocket platform ⟨a.storage, s.socket⟩ a.bytesToSend a.r
    = some sent ∧ sent.value = -1

/-- What `get_next_fd` returns next is connected, if a socket is; and if it has been
returned before, every other one that is connected has been since. -/
structure Fair (s : Sending) : Prop where
  connected : s.socket.fds ≠ [] → s.socket.nextFd ∈ s.socket.fds
  others : ∀ fd ∈ s.socket.fds, fd ≠ s.socket.nextFd → Since s.returned s.socket.nextFd fd

/-- And so it stays as long as no send fails. -/
def FairForGood (platform : Platform) (s : Sending) : Prop :=
  ∀ calls s', Runs.Along (step platform) (fun s a => ¬ Fails platform s a) s calls →
    Runs.run (step platform) s calls = some s' → Fair s'

theorem FairForGood.fair {platform : Platform} {s : Sending} (h : FairForGood platform s) :
    Fair s := h [] s trivial rfl

/-- A send that fails is that to the last of the sockets, or none but that socket and the
one behind it has been returned before. -/
def KeepsTurns (platform : Platform) (s : Sending) (a : SendCall) : Prop :=
  Fails platform s a → ∀ pre fd post, s.socket.fds = pre ++ s.socket.nextFd :: fd :: post →
    ∀ other ∈ pre ++ post, other ∉ s.returned

/-- Open sockets: no two are the same descriptor. -/
structure Descriptors (fds : List Int) : Prop where
  nodup : fds.Nodup
  range : ∀ fd ∈ fds, 0 ≤ fd ∧ fd < 2 ^ 31

/-! ## A call -/

section Call

variable {platform : Platform} {s s' : Sending} {a : SendCall} {socket : ConnectionSocket}
  {pre post : List Int} {x y : Int}

theorem length_le_of_nodup {fds : List Int} {n : Nat} (hnodup : fds.Nodup)
    (hrange : ∀ fd ∈ fds, 0 ≤ fd ∧ fd < n) : fds.length ≤ n := by
  have hinj : (fds.map Int.toNat).Nodup := by
    refine hnodup.map_on fun x hx y hy heq => ?_
    have := hrange x hx
    have := hrange y hy
    omega
  have hsub : (fds.map Int.toNat).toFinset ⊆ Finset.range n := by
    intro k hk
    obtain ⟨fd, hfd, rfl⟩ := List.mem_map.mp (List.mem_toFinset.mp hk)
    have := hrange fd hfd
    exact Finset.mem_range.mpr (by omega)
  have hcard := Finset.card_le_card hsub
  rw [List.toFinset_card_of_nodup hinj, List.length_map, Finset.card_range] at hcard
  exact hcard

theorem getNextFd_nil (h : socket.fds = []) :
    socket.nextFd = -1 ∧ socket.getNextFd.2 = socket := by
  have hcall : socket.getNextFd = (u32OfInt (-1), socket) := by
    rw [ConnectionSocket.getNextFd, if_pos (by rw [h, List.length_nil])]
  rw [ConnectionSocket.nextFd, hcall]
  exact ⟨show i32 (u32OfInt (-1)) = -1 by decide, rfl⟩

theorem getNextFd_split (hne : socket.fds ≠ []) (hfds : Descriptors socket.fds) :
    ∃ pre x post, socket.fds = pre ++ x :: post ∧
      queue socket.fds socket.currentFdIndex = x :: (post ++ pre) ∧ socket.nextFd = x ∧
      socket.getNextFd.2 = { socket with currentFdIndex := pre.length + 1 } := by
  have hlength : socket.fds.length ≤ 2147483648 := by
    refine length_le_of_nodup hfds.nodup fun fd hfd => ?_
    have := hfds.range fd hfd
    omega
  have hpos := List.length_pos_iff.mpr hne
  obtain ⟨i, hi, hindex, hqueue⟩ : ∃ i, i < socket.fds.length ∧
      (if socket.fds.length ≤ socket.currentFdIndex then 0 else socket.currentFdIndex) = i ∧
      queue socket.fds socket.currentFdIndex = queue socket.fds i := by
    by_cases hend : socket.fds.length ≤ socket.currentFdIndex
    · refine ⟨0, hpos, if_pos hend, ?_⟩
      rw [queue_of_le hend, queue, List.drop_zero, List.take_zero, List.append_nil]
    · exact ⟨_, Nat.lt_of_not_le hend, if_neg hend, rfl⟩
  have hsplit : socket.fds = socket.fds.take i ++ socket.fds[i] :: socket.fds.drop (i + 1) := by
    rw [← List.drop_eq_getElem_cons hi, List.take_append_drop]
  have htake : (socket.fds.take i).length = i := List.length_take_of_le (Nat.le_of_lt hi)
  obtain ⟨hlow, hhigh⟩ := hfds.range _ (List.getElem_mem hi)
  have hcall : socket.getNextFd
      = (u32OfInt socket.fds[i], { socket with currentFdIndex := i + 1 }) := by
    rw [ConnectionSocket.getNextFd, if_neg (Nat.ne_of_gt hpos)]
    simp only [hindex, List.getD_eq_getElem _ _ hi, u32_of_lt (show i + 1 < 2 ^ 32 by omega)]
  refine ⟨_, _, _, hsplit, ?_, ?_, ?_⟩
  · rw [hqueue, queue, List.drop_eq_getElem_cons hi, List.cons_append]
  · have hnat : (socket.fds[i].toNat : Int) = socket.fds[i] := Int.toNat_of_nonneg hlow
    rw [ConnectionSocket.nextFd, hcall]
    show i32 (u32OfInt socket.fds[i]) = _
    rw [← hnat, u32OfInt_of_nonneg (by omega), i32_of_lt (by omega) (by omega)]
  · rw [hcall, htake]

theorem sendfileToSocket_cases {c : SocketConsumer} {bytesToSend : Nat} {r : SendfileResult}
    {sent : SentToSocket} (h : c.sendfileToSocket platform bytesToSend r = some sent) :
    sent.fd = c.socket.nextFd ∧
      sent.consumer.socket.currentFdIndex = c.socket.getNextFd.2.currentFdIndex ∧
      ((sent.value ≠ -1 ∧ sent.consumer.socket.fds = c.socket.getNextFd.2.fds) ∨
        (sent.value = -1 ∧ 0 ≤ c.socket.nextFd ∧
          sent.consumer.socket.fds = (c.socket.getNextFd.2.removeFd c.socket.nextFd).fds)) := by
  rw [SocketConsumer.sendfileToSocket] at h
  dsimp only at h
  generalize c.socket.nextFd = fd at h ⊢
  by_cases hfd : fd < 0
  · rw [if_pos hfd] at h
    obtain rfl := Option.some.inj h
    exact ⟨rfl, rfl, Or.inl ⟨show (0 : Int) ≠ -1 by decide, rfl⟩⟩
  · rw [if_neg hfd] at h
    obtain ⟨file, -, h⟩ := Option.bind_eq_some_iff.mp h
    split at h
    · next herror =>
        obtain rfl := Option.some.inj h
        exact ⟨rfl, rfl, Or.inr ⟨herror, Int.not_lt.mp hfd, rfl⟩⟩
    · next hsent =>
        obtain rfl := Option.some.inj h
        exact ⟨rfl, rfl, Or.inl ⟨hsent, rfl⟩⟩

theorem step_cases (h : step platform s a = some s') :
    s'.returned = s.returned ++ [s.socket.nextFd] ∧
      s'.socket.currentFdIndex = s.socket.getNextFd.2.currentFdIndex ∧
      ((¬ Fails platform s a ∧ s'.socket.fds = s.socket.getNextFd.2.fds) ∨
        (Fails platform s a ∧ 0 ≤ s.socket.nextFd ∧
          s'.socket.fds = (s.socket.getNextFd.2.removeFd s.socket.nextFd).fds)) := by
  rw [step, Option.bind_eq_bind, Option.bind_eq_some_iff] at h
  obtain ⟨sent, hsent, heq⟩ := h
  obtain rfl := Option.some.inj heq
  obtain ⟨hfd, hindex, hcases⟩ := sendfileToSocket_cases hsent
  dsimp only at hfd hindex hcases ⊢
  rw [hfd]
  refine ⟨rfl, hindex, ?_⟩
  rcases hcases with ⟨hvalue, hfds⟩ | ⟨hvalue, hnonneg, hfds⟩
  · refine Or.inl ⟨?_, hfds⟩
    rintro ⟨sent', hsent', hfails⟩
    obtain rfl := Option.some.inj (hsent.symm.trans hsent')
    exact hvalue hfails
  · exact Or.inr ⟨⟨sent, hsent, hvalue⟩, hnonneg, hfds⟩

/-- What a call does to the order of the turns.  The first in the queue goes to its end;
if it fails it leaves, and the one behind it goes to the end. -/
inductive Turn (platform : Platform) (s : Sending) (a : SendCall) (s' : Sending) : Prop where
  | none (hnone : s.socket.fds = []) (hno : ¬ Fails platform s a) (hfds : s'.socket.fds = [])
  | stays (x : Int) (rest : List Int) (hno : ¬ Fails platform s a)
      (hqueue : queue s.socket.fds s.socket.currentFdIndex = x :: rest)
      (hreturned : s'.returned = s.returned ++ [x]) (hfds : s'.socket.fds = s.socket.fds)
      (hnext : queue s'.socket.fds s'.socket.currentFdIndex = rest ++ [x])
  | last (pre : List Int) (x : Int) (hfails : Fails platform s a)
      (hsplit : s.socket.fds = pre ++ [x]) (hx : s.socket.nextFd = x)
      (hqueue : queue s.socket.fds s.socket.currentFdIndex = x :: pre)
      (hreturned : s'.returned = s.returned ++ [x]) (hfds : s'.socket.fds = pre)
      (hnext : queue s'.socket.fds s'.socket.currentFdIndex = pre)
  | passes (pre : List Int) (x y : Int) (post : List Int) (hfails : Fails platform s a)
      (hsplit : s.socket.fds = pre ++ x :: y :: post) (hx : s.socket.nextFd = x)
      (hqueue : queue s.socket.fds s.socket.currentFdIndex = x :: y :: (post ++ pre))
      (hreturned : s'.returned = s.returned ++ [x]) (hfds : s'.socket.fds = pre ++ y :: post)
      (hnext : queue s'.socket.fds s'.socket.currentFdIndex = post ++ pre ++ [y])

theorem split_unique {pre' post' : List Int} (hnodup : (pre ++ x :: post).Nodup)
    (h : pre ++ x :: post = pre' ++ x :: post') : pre = pre' ∧ post = post' := by
  have hx := (List.nodup_cons.mp (List.nodup_middle.mp hnodup)).1
  rw [List.mem_append, not_or] at hx
  obtain ⟨hpre, -, hpost⟩ := (List.append_cons_inj_of_notMem hx.1 hx.2).mp h
  exact ⟨hpre, hpost⟩

theorem filter_ne_split (h : (pre ++ x :: post).Nodup) :
    (pre ++ x :: post).filter (· ≠ x) = pre ++ post := by
  have hmid : (x :: (pre ++ post)).Nodup := List.nodup_middle.mp h
  have hx := (List.nodup_cons.mp hmid).1
  have hkeep : ∀ {l : List Int}, l ⊆ pre ++ post → l.filter (· ≠ x) = l := by
    intro l hl
    refine List.filter_eq_self.mpr fun y hy => decide_eq_true ?_
    rintro rfl
    exact hx (hl hy)
  rw [List.filter_append, List.filter_cons_of_neg (by simp),
    hkeep (List.subset_append_left pre post), hkeep (List.subset_append_right pre post)]

theorem step_turn (hs : Descriptors s.socket.fds) (h : step platform s a = some s') :
    Turn platform s a s' := by
  obtain ⟨hreturned, hindex, hfds⟩ := step_cases h
  by_cases hnone : s.socket.fds = []
  · obtain ⟨hnext, hsame⟩ := getNextFd_nil hnone
    rw [hnext, hsame] at hfds
    rcases hfds with ⟨hno, hfds⟩ | ⟨-, hnonneg, -⟩
    · exact .none hnone hno (hfds.trans hnone)
    · exact absurd hnonneg (by decide)
  · obtain ⟨pre, x, post, hsplit, hqueue, hx, hsocket⟩ := getNextFd_split hnone hs
    rw [hx] at hreturned hfds
    rw [hsocket] at hindex hfds
    have hindex : s'.socket.currentFdIndex = (pre ++ [x]).length := by
      rw [hindex, List.length_append]
      rfl
    rcases hfds with ⟨hno, hfds⟩ | ⟨hfails, -, hfds⟩
    · refine .stays x (post ++ pre) hno hqueue hreturned hfds ?_
      have hback : s'.socket.fds = (pre ++ [x]) ++ post := by
        rw [hfds, List.append_assoc]
        exact hsplit
      rw [hback, hindex, queue_append, List.append_assoc]
    · have hfds : s'.socket.fds = pre ++ post := by
        have hnodup := hs.nodup
        rw [hsplit] at hnodup
        rw [hfds, ConnectionSocket.removeFd]
        show s.socket.fds.filter (· ≠ x) = _
        rw [hsplit, filter_ne_split hnodup]
      cases post with
      | nil =>
          rw [List.append_nil] at hfds
          rw [List.nil_append] at hqueue
          refine .last pre x hfails hsplit hx hqueue hreturned hfds ?_
          rw [hfds, hindex, queue_of_le (by rw [List.length_append]; exact Nat.le_add_right _ _)]
      | cons y post =>
          refine .passes pre x y post hfails hsplit hx hqueue hreturned hfds ?_
          have hback : s'.socket.fds = (pre ++ [y]) ++ post := by
            rw [hfds, List.append_assoc]
            rfl
          have hlength : (pre ++ [x]).length = (pre ++ [y]).length := by
            rw [List.length_append, List.length_append]
            rfl
          rw [hback, hindex, hlength, queue_append, List.append_assoc]

theorem Turn.sublist (h : Turn platform s a s') :
    List.Sublist s'.socket.fds s.socket.fds := by
  cases h with
  | none _ _ hfds =>
      rw [hfds]
      exact List.nil_sublist _
  | stays _ _ _ _ _ hfds _ =>
      rw [hfds]
  | last pre x _ hsplit _ _ _ hfds _ =>
      rw [hfds, hsplit]
      exact List.sublist_append_left pre [x]
  | passes pre x y post _ hsplit _ _ _ hfds _ =>
      rw [hfds, hsplit]
      exact (List.sublist_cons_self x (y :: post)).append_left pre

theorem Descriptors.next (hs : Descriptors s.socket.fds) (h : Turn platform s a s') :
    Descriptors s'.socket.fds :=
  ⟨hs.nodup.sublist h.sublist, fun fd hfd => hs.range fd (h.sublist.subset hfd)⟩

end Call

/-! ## Turns -/

/-- The turns to come are in order. -/
def InOrder (s : Sending) : Prop :=
  InTurn s.returned (queue s.socket.fds s.socket.currentFdIndex)

section Turns

variable {platform : Platform} {s s' : Sending} {a : SendCall}

theorem InOrder.fair (h : InOrder s) (hs : Descriptors s.socket.fds) : Fair s := by
  by_cases hnone : s.socket.fds = []
  · refine ⟨fun hne => absurd hnone hne, fun fd hfd => ?_⟩
    rw [hnone] at hfd
    exact absurd hfd List.not_mem_nil
  · obtain ⟨pre, x, post, hsplit, hqueue, hx, -⟩ := getNextFd_split hnone hs
    rw [InOrder, hqueue] at h
    refine ⟨fun _ => ?_, ?_⟩
    · rw [hx, hsplit]
      exact List.mem_append_right pre List.mem_cons_self
    · intro fd hfd hne
      rw [hx] at hne ⊢
      rw [← mem_queue s.socket.currentFdIndex, hqueue] at hfd
      exact (List.pairwise_cons.mp h).1 fd ((List.mem_cons.mp hfd).resolve_left hne)

theorem InOrder.next (h : InOrder s) (hs : Descriptors s.socket.fds)
    (hkeeps : KeepsTurns platform s a) (hstep : step platform s a = some s') : InOrder s' := by
  have hnodup := (nodup_queue s.socket.currentFdIndex).mpr hs.nodup
  cases step_turn hs hstep with
  | none _ _ hfds =>
      rw [InOrder, hfds, queue_of_le (Nat.zero_le _)]
      exact List.Pairwise.nil
  | stays x rest _ hqueue hreturned _ hnext =>
      rw [InOrder, hqueue] at h
      rw [InOrder, hnext, hreturned]
      exact h.turn (hqueue ▸ hnodup)
  | last pre x _ _ _ hqueue hreturned _ hnext =>
      rw [InOrder, hqueue] at h
      rw [InOrder, hnext, hreturned]
      exact h.left (hqueue ▸ hnodup)
  | passes pre x y post hfails hsplit hx hqueue hreturned _ hnext =>
      rw [InOrder, hqueue] at h
      rw [InOrder, hnext, hreturned, inTurn_passed_iff h (hqueue ▸ hnodup)]
      intro other hother
      refine hkeeps hfails pre y post (hx ▸ hsplit) other ?_
      rw [List.mem_append, or_comm, ← List.mem_append]
      exact hother

theorem InOrder.fairForGood (h : InOrder s) (hs : Descriptors s.socket.fds) :
    FairForGood platform s := by
  intro calls s' hcalls hrun
  have hend : Descriptors s'.socket.fds ∧ InOrder s' := by
    refine Runs.run_invariant (I := fun s => Descriptors s.socket.fds ∧ InOrder s) ?_ ⟨hs, h⟩
      hcalls hrun
    rintro s a s' ⟨hs, h⟩ hno hstep
    exact ⟨hs.next (step_turn hs hstep), h.next hs (fun hfails => absurd hfails hno) hstep⟩
  exact hend.2.fair hend.1

/-- A call that finds nothing to send. -/
def idle : SendCall := ⟨(BrokerStorage.init .file [] []).2, 0, .sent 0⟩

theorem idle_step (platform : Platform) (s : Sending) :
    (∃ s', step platform s idle = some s') ∧ ¬ Fails platform s idle := by
  have hcall : ∃ sent, SocketConsumer.sendfileToSocket platform ⟨idle.storage, s.socket⟩
      idle.bytesToSend idle.r = some sent ∧ sent.value = 0 := by
    rw [SocketConsumer.sendfileToSocket]
    dsimp only
    generalize s.socket.nextFd = fd
    by_cases hfd : fd < 0
    · rw [if_pos hfd]
      exact ⟨_, rfl, rfl⟩
    · rw [if_neg hfd]
      exact ⟨_, rfl, rfl⟩
  obtain ⟨sent, hsent, hvalue⟩ := hcall
  refine ⟨⟨⟨sent.consumer.socket, s.returned ++ [sent.fd]⟩, ?_⟩, ?_⟩
  · rw [step, hsent]
    rfl
  · rintro ⟨sent', hsent', hfails⟩
    obtain rfl := Option.some.inj (hsent.symm.trans hsent')
    omega

/-- Such calls give everybody a turn.  The induction is on those who have it. -/
theorem idle_run (platform : Platform) (front back : List Int) :
    ∀ {s : Sending}, Descriptors s.socket.fds →
      queue s.socket.fds s.socket.currentFdIndex = front ++ back →
      ∃ s', Runs.Along (step platform) (fun s a => ¬ Fails platform s a) s
          (List.replicate front.length idle) ∧
        Runs.run (step platform) s (List.replicate front.length idle) = some s' ∧
        s'.returned = s.returned ++ front ∧ Descriptors s'.socket.fds ∧
        queue s'.socket.fds s'.socket.currentFdIndex = back ++ front := by
  induction front generalizing back with
  | nil =>
      intro s hs hqueue
      refine ⟨s, trivial, rfl, (List.append_nil _).symm, hs, ?_⟩
      rw [hqueue, List.append_nil]
      rfl
  | cons x front ih =>
      intro s hs hqueue
      obtain ⟨⟨s₁, hstep⟩, hno⟩ := idle_step platform s
      have hturn := step_turn hs hstep
      obtain ⟨hreturned, hnext⟩ : s₁.returned = s.returned ++ [x] ∧
          queue s₁.socket.fds s₁.socket.currentFdIndex = front ++ (back ++ [x]) := by
        cases hturn with
        | none hnone _ _ =>
            rw [hnone, queue_of_le (Nat.zero_le _)] at hqueue
            cases hqueue
        | stays y rest _ hqueue' hreturned _ hnext =>
            obtain ⟨rfl, rfl⟩ := List.cons.inj (hqueue'.symm.trans hqueue)
            exact ⟨hreturned, hnext.trans (List.append_assoc _ _ _)⟩
        | last _ _ hfails _ _ _ _ _ _ => exact absurd hfails hno
        | passes _ _ _ _ hfails _ _ _ _ _ _ => exact absurd hfails hno
      obtain ⟨s', halong, hrun, hreturned', hs', hqueue'⟩ :=
        ih (back ++ [x]) (hs.next hturn) hnext
      refine ⟨s', Runs.Along.cons hno hstep halong, (Runs.run_cons_of_some hstep).trans hrun, ?_,
        hs', ?_⟩
      · rw [hreturned', hreturned, List.append_assoc]
        rfl
      · rw [hqueue', List.append_assoc]
        rfl

theorem FairForGood.inOrder (h : FairForGood platform s) (hs : Descriptors s.socket.fds) :
    InOrder s := by
  have hnodup := (nodup_queue s.socket.currentFdIndex).mpr hs.nodup
  refine (inTurn_iff hnodup).mpr fun front x back hsplit y hy => ?_
  obtain ⟨s', halong, hrun, hreturned, hs', hqueue⟩ := idle_run platform front (x :: back) hs hsplit
  have hfair := h _ s' halong hrun
  have hmem : ∀ z, z ∈ s'.socket.fds ↔ z ∈ x :: back ++ front := by
    intro z
    rw [← hqueue, mem_queue]
  have hne : s'.socket.fds ≠ [] := List.ne_nil_of_mem ((hmem x).mpr List.mem_cons_self)
  obtain ⟨pre, x', post, -, hqueue', hx', -⟩ := getNextFd_split hne hs'
  obtain ⟨rfl, -⟩ := List.cons.inj (hqueue'.symm.trans hqueue)
  have hother : y ≠ x' := by
    rintro rfl
    rw [hsplit] at hnodup
    exact (List.nodup_cons.mp (List.nodup_middle.mp hnodup)).1
      (List.mem_append.mpr (List.mem_append.mp hy).symm)
  have hsince := hfair.others y ((hmem y).mpr (List.mem_cons_of_mem x' hy)) (hx' ▸ hother)
  rw [hx', hreturned] at hsince
  exact hsince

/-- A call that passes somebody over does not. -/
theorem not_fairForGood (h : InOrder s) (hs : Descriptors s.socket.fds)
    (hpasses : ¬ KeepsTurns platform s a) :
    ∃ s', step platform s a = some s' ∧ ¬ FairForGood platform s' := by
  have hnodup := (nodup_queue s.socket.currentFdIndex).mpr hs.nodup
  rw [KeepsTurns] at hpasses
  push Not at hpasses
  obtain ⟨⟨sent, hsent, hvalue⟩, pre, y, post, hsplit, other, hother, hmem⟩ := hpasses
  have hstep : step platform s a
      = some ⟨sent.consumer.socket, s.returned ++ [sent.fd]⟩ := by
    rw [step, hsent]
    rfl
  refine ⟨_, hstep, fun hfair => ?_⟩
  have hturn := step_turn hs hstep
  have hinOrder := hfair.inOrder (hs.next hturn)
  have hplace := hs.nodup
  rw [hsplit] at hplace
  cases hturn with
  | none hnone _ _ =>
      rw [hnone] at hsplit
      exact absurd hsplit.symm (List.append_ne_nil_of_right_ne_nil _ (List.cons_ne_nil _ _))
  | stays _ _ hno _ _ _ _ => exact hno ⟨sent, hsent, hvalue⟩
  | last pre' x _ hsplit' hx _ _ _ _ =>
      have hsame := (split_unique hplace (hsplit.symm.trans (hx ▸ hsplit'))).2
      cases hsame
  | passes pre' x y' post' _ hsplit' hx hqueue hreturned _ hnext =>
      obtain ⟨rfl, hsame⟩ := split_unique hplace (hsplit.symm.trans (hx ▸ hsplit'))
      obtain ⟨rfl, rfl⟩ := List.cons.inj hsame
      rw [InOrder, hqueue] at h
      rw [InOrder, hnext, hreturned, inTurn_passed_iff h (hqueue ▸ hnodup)] at hinOrder
      rw [List.mem_append, or_comm, ← List.mem_append] at hother
      exact hinOrder other hother hmem

end Turns

end Sending

/-- In every run of calls from any state, whatever is sent and whatever fails: the turns
are fair in all of its states if no failing send passes a socket over, and fair for good
in all of them only then. -/
theorem Sending.round_robin_fair_iff (platform : Platform) {socket : ConnectionSocket}
    (hfds : Sending.Descriptors socket.fds) (calls : List SendCall) :
    (Runs.Along (Sending.step platform) (Sending.KeepsTurns platform) ⟨socket, []⟩ calls →
        Runs.Everywhere (Sending.step platform) Sending.Fair ⟨socket, []⟩ calls) ∧
      (Runs.Everywhere (Sending.step platform) (Sending.FairForGood platform) ⟨socket, []⟩ calls ↔
        Runs.Along (Sending.step platform) (Sending.KeepsTurns platform) ⟨socket, []⟩ calls) := by
  have hiff : Runs.Everywhere (Sending.step platform) (Sending.FairForGood platform) ⟨socket, []⟩
        calls ↔
      Runs.Along (Sending.step platform) (Sending.KeepsTurns platform) ⟨socket, []⟩ calls := by
    refine Runs.everywhere_iff_along
      (I := fun s => Sending.Descriptors s.socket.fds ∧ s.InOrder) (P := fun _ _ => True) ?_ ?_ ?_
      ⟨hfds, inTurn_nil _⟩ (Runs.along_of_forall (P := fun _ => True) fun _ _ => trivial)
    · rintro s a s' ⟨hs, h⟩ _ hkeeps hstep
      exact ⟨hs.next (Sending.step_turn hs hstep), h.next hs hkeeps hstep⟩
    · rintro s ⟨hs, h⟩
      exact h.fairForGood hs
    · rintro s a ⟨hs, h⟩ _ hpasses
      exact Sending.not_fairForGood h hs hpasses
  refine ⟨fun hkeeps pre s hpre hrun => ?_, hiff⟩
  exact Sending.FairForGood.fair (hiff.mpr hkeeps pre s hpre hrun)

/-- A call whose `sendfile` fails, with a message in the log. -/
def Sending.failing : SendCall :=
  ⟨(((BrokerStorage.init .file [] []).2.add .little .string [1] ⟨some [], [], 0⟩).map
    Stored.storage).getD (BrokerStorage.init .file [] []).2, 16, .failed 0⟩

theorem Sending.descriptors_three : Sending.Descriptors [3, 4, 5] where
  nodup := by decide
  range := by decide

theorem Sending.round_robin_fair_three :
    (Runs.Along (Sending.step .linux) (Sending.KeepsTurns .linux) ⟨⟨[3, 4, 5], 0, 0⟩, []⟩
          [Sending.idle, Sending.failing] →
        Runs.Everywhere (Sending.step .linux) Sending.Fair ⟨⟨[3, 4, 5], 0, 0⟩, []⟩
          [Sending.idle, Sending.failing]) ∧
      (Runs.Everywhere (Sending.step .linux) (Sending.FairForGood .linux) ⟨⟨[3, 4, 5], 0, 0⟩, []⟩
          [Sending.idle, Sending.failing] ↔
        Runs.Along (Sending.step .linux) (Sending.KeepsTurns .linux) ⟨⟨[3, 4, 5], 0, 0⟩, []⟩
          [Sending.idle, Sending.failing]) :=
  @Sending.round_robin_fair_iff .linux ⟨[3, 4, 5], 0, 0⟩ Sending.descriptors_three
    [Sending.idle, Sending.failing]

/-- Of three sockets the second one fails, and the first has its next turn before the
third had one. -/
theorem Sending.round_robin_unfair :
    ¬ ∀ (platform : Platform) (socket : ConnectionSocket), Sending.Descriptors socket.fds →
      ∀ calls, Runs.Everywhere (Sending.step platform) Sending.Fair ⟨socket, []⟩ calls := by
  intro hall
  have hfirst : (Sending.step .linux ⟨⟨[3, 4, 5], 0, 0⟩, []⟩ Sending.idle).map
      (fun s => (s.socket, s.returned)) = some (⟨[3, 4, 5], 1, 0⟩, [3]) := by decide
  have hsecond : (Sending.step .linux ⟨⟨[3, 4, 5], 1, 0⟩, [3]⟩ Sending.failing).map
      (fun s => (s.socket, s.returned)) = some (⟨[3, 5], 2, 0⟩, [3, 4]) := by decide +kernel
  obtain ⟨⟨socket, returned⟩, hidle, heq⟩ := Option.map_eq_some_iff.mp hfirst
  obtain ⟨rfl, rfl⟩ := Prod.mk.inj heq
  obtain ⟨s, hfailing, heq⟩ := Option.map_eq_some_iff.mp hsecond
  obtain ⟨hsocket, hreturned⟩ := Prod.mk.inj heq
  have hfair := hall .linux ⟨[3, 4, 5], 0, 0⟩ Sending.descriptors_three
    [Sending.idle, Sending.failing] _ s List.prefix_rfl
    ((Runs.run_cons_of_some hidle).trans ((Runs.run_cons_of_some hfailing).trans Runs.run_nil))
  have hnext : s.socket.nextFd = 3 := by
    rw [hsocket]
    decide
  have hsince := hfair.others 5 (by rw [hsocket]; decide) (by rw [hnext]; decide)
  rw [hnext, hreturned] at hsince
  exact absurd (hsince [] [4] rfl (by decide)) (by decide)

end LightQ
