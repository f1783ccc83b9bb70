/-
# `Socket.WouldBlock` — reads that fail with `EAGAIN`

A `read` that would have to wait fails with `EAGAIN`.  `read_size` returns 0
then, and its callers ask for a header once more; `read_buffer` returns what it
has, or -1.  Neither says how much of the stream it has taken, and the next
call starts from there.

`would_block_iff`: the messages are those of the same reads without the
failures if and only if no failure comes inside a header or inside a message.

Failures before a header are passed over (`sizeLoop_resumed`), and a header that
is not disturbed is read (`sizeLoop_smooth`), as is a message
(`read_smooth`).  One whose body is disturbed is not returned
(`read_body_disturbed`), since `read_buffer` comes back with less than the header
said.  A failure inside a header is noticed by counting: a header takes four bytes
(`sizeLoop_takes`) and a disturbed one more (`sizeLoop_disturbed`), while a message
that is returned takes its header and its bytes (`read_takes`), so that messages
that are returned have been on the stream (`readAll_takes`) and there is none for
the bytes that were taken too many.  `readAll_iff` puts these together by induction
on the messages.

Without failures there is none inside a message (`betweenMessages_positive`), so
that the reads to compare with are a case of the same statement.
-/
import LightQ.Socket.ClientRead

namespace LightQ

open MachineInt Transfer

namespace WouldBlock

/-- The values of a number of calls, with what they hand over. -/
def readAll (overload : ConnectionFile.Overload) (host : ByteOrder) (ntohl : Bool) :
    Nat → Bytes → Bytes → List ReadCall → Option (List (Int × Option Bytes))
  | 0, _, _, _ => some []
  | n + 1, buffer, stream, calls => do
      let r ← ConnectionSocket.clientSocketRead overload host buffer ntohl stream calls
      let results ← readAll overload host ntohl n r.buffer r.stream r.calls
      some ((r.value, r.message) :: results)

/-- The calls return what they would without the failures. -/
def LosesNothing (overload : ConnectionFile.Overload) (host : ByteOrder) (ntohl : Bool)
    (messages : List Bytes) (buffer : Bytes) (calls : List ReadCall) : Prop :=
  readAll overload host ntohl messages.length buffer (Framing.frames host ntohl messages) calls
    = readAll overload host ntohl messages.length buffer (Framing.frames host ntohl messages)
        (without .again calls)

/-- The calls that are left behind messages of these lengths, if every failure
comes before a header. -/
def betweenMessages : List Nat → List ReadCall → Option (List ReadCall)
  | [], calls => some calls
  | length :: lengths, calls => do
      let calls ← smooth 4 (resumed .again calls)
      let calls ← smooth length calls
      betweenMessages lengths calls

/-- What the two functions take for a message. -/
def Readable (overload : ConnectionFile.Overload) (message : Bytes) : Prop :=
  0 < message.length ∧ message.length < 2 ^ 32 ∧
    ConnectionSocket.rereads overload message.length = false

/-- What the calls return for a list of messages. -/
def results (messages : List Bytes) : List (Int × Option Bytes) :=
  messages.map fun m => ((m.length : Int), some m)

section Loop

variable {again : Int → Bool} {host : ByteOrder} {ntohl : Bool} {stream : Bytes}
  {calls : List ReadCall} {s : Sized}

theorem sizeLoop_resumed (hagain : again 0 = true) :
    (∃ turns, ConnectionSocket.sizeLoop again host ntohl turns stream calls = some s) ↔
      ∃ turns, ConnectionSocket.sizeLoop again host ntohl turns stream (resumed .again calls)
        = some s := by
  induction calls with
  | nil => exact Iff.rfl
  | cons r calls ih =>
      by_cases hr : r = .failed .again
      · subst hr
        have hskip : resumed ReadError.again (Outcome.failed .again :: calls)
            = resumed .again calls :=
          List.dropWhile_cons_of_pos (decide_eq_true rfl)
        have hturn : ∀ turns, ConnectionSocket.sizeLoop again host ntohl (turns + 1) stream
            (Outcome.failed .again :: calls)
              = ConnectionSocket.sizeLoop again host ntohl turns stream calls :=
          fun turns => if_pos hagain
        rw [hskip, ← ih]
        constructor
        · rintro ⟨turns, h⟩
          cases turns with
          | zero => cases h
          | succ turns => exact ⟨turns, hturn turns ▸ h⟩
        · rintro ⟨turns, h⟩
          exact ⟨turns + 1, (hturn turns).trans h⟩
      · have hstay : resumed ReadError.again (r :: calls) = r :: calls :=
          List.dropWhile_cons_of_neg (by simpa using hr)
        rw [hstay]

theorem sizeLoop_takes (hagain : again 0 = true) {turns : Nat}
    (h : ConnectionSocket.sizeLoop again host ntohl turns stream calls = some s)
    (hvalue : 0 ≤ s.value) : s.stream.length + 4 ≤ stream.length := by
  induction turns generalizing stream calls with
  | zero => cases h
  | succ turns ih =>
      have happend := congrArg List.length (get_append true 4 stream calls)
      rw [List.length_append] at happend
      rw [ConnectionSocket.sizeLoop] at h
      split at h
      · have hrest := ih h
        have hless : (Utils.readSize host ntohl stream calls).stream
            = (get true 4 stream calls).rest := by
          rw [Utils.readSize]
          split
          all_goals rfl
        rw [hless] at hrest
        omega
      · next hstop =>
          obtain rfl := Option.some.inj h
          rw [Utils.readSize] at hvalue hstop ⊢
          split at hstop
          · next hstatus =>
              have hfour := length_of_complete true hstatus
              dsimp only
              omega
          · exact absurd hagain hstop
          · exact absurd hagain hstop
          · next hstatus =>
              rw [hstatus] at hvalue
              cases hvalue

theorem sizeLoop_disturbed (hagain : again 0 = true) (hcalls : Interrupted .again calls)
    (hfour : 4 ≤ stream.length) (hsmooth : smooth 4 (resumed .again calls) = none) {turns : Nat}
    (h : ConnectionSocket.sizeLoop again host ntohl turns stream calls = some s)
    (hvalue : 0 ≤ s.value) : s.stream.length + 4 < stream.length := by
  obtain ⟨turns, h⟩ := (sizeLoop_resumed hagain).mp ⟨turns, h⟩
  obtain ⟨⟨e, hmem, hstatus⟩, -⟩ :=
    get_disturbed true (interrupted_resumed hcalls).moving hfour hsmooth
  obtain rfl : e = .again := interrupted_failed (interrupted_resumed hcalls) hmem
  -- the first call that is left does not fail, so that something is read
  have hsome : 0 < (get true 4 stream (resumed .again calls)).data.length := by
    cases hresumed : resumed ReadError.again calls with
    | nil =>
        rw [hresumed] at hsmooth
        cases hsmooth
    | cons r rest =>
        obtain ⟨k, rfl⟩ := resumed_head hcalls hresumed
        exact get_data_pos true hfour rest
  have happend := congrArg List.length (get_append true 4 stream (resumed .again calls))
  rw [List.length_append] at happend
  cases turns with
  | zero => cases h
  | succ turns =>
      rw [ConnectionSocket.sizeLoop, Utils.readSize, hstatus] at h
      have hmore := sizeLoop_takes hagain ((if_pos hagain).symm.trans h) hvalue
      dsimp only at hmore
      omega

end Loop

section Read

variable {overload : ConnectionFile.Overload} {host : ByteOrder} {ntohl : Bool}
  {buffer stream message rest : Bytes} {calls calls₁ calls₂ : List ReadCall} {r : Reading}

theorem sizeLoop_smooth (host : ByteOrder) (ntohl : Bool) (rest : Bytes)
    (hmessage : Readable overload message) (hcalls : Interrupted .again calls)
    (hheader : smooth 4 (resumed .again calls) = some calls₁) :
    ∃ turns, ConnectionSocket.sizeLoop (ConnectionSocket.rereads overload) host ntohl turns
      (Framing.frame host ntohl message ++ rest) calls
        = some ⟨(message.length : Nat), message ++ rest, calls₁⟩ := by
  refine (sizeLoop_resumed (ConnectionSocket.rereads_zero overload)).mpr ⟨1, ?_⟩
  obtain ⟨-, hlt, hstop⟩ := hmessage
  have hfour := Framing.length_header host ntohl message.length
  have hget := get_smooth true (interrupted_resumed hcalls).moving
    (show 4 ≤ (Framing.header host ntohl message.length ++ (message ++ rest)).length by
      rw [List.length_append, hfour]
      exact Nat.le_add_right _ _) hheader
  rw [List.take_left' hfour, List.drop_left' hfour] at hget
  have hsize := Framing.readSize_complete host ntohl (message ++ rest) hget
  rw [Framing.headerSize_header host ntohl hlt] at hsize
  rw [Framing.frame, List.append_assoc, ConnectionSocket.sizeLoop, hsize]
  exact if_neg (by rw [hstop]; exact Bool.false_ne_true)

/-- A message that is not disturbed is returned. -/
theorem read_smooth (host : ByteOrder) (ntohl : Bool) (buffer rest : Bytes)
    (hmessage : Readable overload message) (hcalls : Interrupted .again calls)
    (hheader : smooth 4 (resumed .again calls) = some calls₁)
    (hbody : smooth message.length calls₁ = some calls₂) :
    ∃ buffer', ConnectionSocket.clientSocketRead overload host buffer ntohl
      (Framing.frame host ntohl message ++ rest) calls
        = some ⟨message.length, some message, buffer', rest, calls₂⟩ := by
  obtain ⟨turns, hloop⟩ := sizeLoop_smooth host ntohl rest hmessage hcalls hheader
  have hget := get_smooth false (interrupted_smooth (interrupted_resumed hcalls) hheader).moving
    (show message.length ≤ (message ++ rest).length by
      rw [List.length_append]
      exact Nat.le_add_right _ _) hbody
  rw [List.take_left' rfl, List.drop_left' rfl] at hget
  have hvalue : (message.length : Int) ≠ -1 := by omega
  obtain ⟨buffer', -, hhand⟩ := ConnectionSocket.handOver_of_ne overload
    (r := ⟨message.length, store (store buffer 0 [0]) 0 message, rest, calls₂⟩) hvalue
  refine ⟨buffer', ?_⟩
  rw [ConnectionSocket.clientSocketRead_of_sizeLoop _ hmessage.2.1 hloop, Utils.readBuffer, hget,
    Option.map_some, hhand]
  dsimp only
  rw [Int.toNat_natCast, store, Overlay.overlay_zero, List.take_left' rfl]

theorem read_body_disturbed (hmessage : Readable overload message)
    (hcalls : Interrupted .again calls)
    (hheader : smooth 4 (resumed .again calls) = some calls₁)
    (hbody : smooth message.length calls₁ = none)
    (h : ConnectionSocket.clientSocketRead overload host buffer ntohl
      (Framing.frame host ntohl message ++ rest) calls = some r) : r.value ≠ message.length := by
  obtain ⟨turns, hloop⟩ := sizeLoop_smooth host ntohl rest hmessage hcalls hheader
  obtain ⟨-, hless⟩ := get_disturbed false
    (interrupted_smooth (interrupted_resumed hcalls) hheader).moving
    (show message.length ≤ (message ++ rest).length by
      rw [List.length_append]
      exact Nat.le_add_right _ _) hbody
  rw [ConnectionSocket.clientSocketRead_of_sizeLoop _ hmessage.2.1 hloop] at h
  obtain ⟨received, hreceived, rfl⟩ := Option.map_eq_some_iff.mp h
  rw [(ConnectionSocket.handOver_eq overload received).1]
  rcases (ConnectionSocket.readBuffer_cases hreceived).2 with hvalue | hfailed
  · omega
  · omega

theorem read_takes {n : Nat} (h : ConnectionSocket.clientSocketRead overload host buffer ntohl
      stream calls = some r) (hvalue : r.value = n) :
    ∃ turns s, ConnectionSocket.sizeLoop (ConnectionSocket.rereads overload) host ntohl turns stream
        calls = some s ∧ 0 ≤ s.value ∧ r.stream.length + n = s.stream.length := by
  rw [ConnectionSocket.clientSocketRead_eq, ConnectionSocket.clientRead] at h
  obtain ⟨s, hloop, h⟩ := Option.bind_eq_some_iff.mp h
  refine ⟨_, s, hloop, ?_⟩
  split at h
  · obtain rfl := Option.some.inj h
    cases hvalue
  · next hpos =>
      obtain ⟨received, hreceived, rfl⟩ := Option.map_eq_some_iff.mp h
      obtain ⟨hsame, hstream⟩ := ConnectionSocket.handOver_eq overload received
      rw [hsame] at hvalue
      have happend := congrArg List.length (get_append false (u32OfInt s.value) s.stream s.calls)
      rw [List.length_append] at happend
      rw [hstream, ConnectionSocket.readBuffer_stream hreceived]
      refine ⟨Int.not_lt.mp hpos, ?_⟩
      rcases (ConnectionSocket.readBuffer_cases hreceived).2 with hlen | hfailed
      · omega
      · omega

end Read

section All

variable {overload : ConnectionFile.Overload} {host : ByteOrder} {ntohl : Bool} {buffer : Bytes}
  {messages : List Bytes} {calls : List ReadCall}

theorem readAll_succ {n : Nat} {stream : Bytes} {x : Int × Option Bytes}
    {xs : List (Int × Option Bytes)}
    (h : readAll overload host ntohl (n + 1) buffer stream calls = some (x :: xs)) :
    ∃ r, ConnectionSocket.clientSocketRead overload host buffer ntohl stream calls = some r ∧
      r.value = x.1 ∧ readAll overload host ntohl n r.buffer r.stream r.calls = some xs := by
  rw [readAll] at h
  obtain ⟨r, hread, h⟩ := Option.bind_eq_some_iff.mp h
  obtain ⟨more, hmore, h⟩ := Option.bind_eq_some_iff.mp h
  obtain ⟨hx, hxs⟩ := List.cons.inj (Option.some.inj h)
  exact ⟨r, hread, by rw [← hx], hxs ▸ hmore⟩

theorem length_frames_cons (host : ByteOrder) (ntohl : Bool) (message : Bytes)
    (messages : List Bytes) :
    (Framing.frames host ntohl (message :: messages)).length
      = 4 + message.length + (Framing.frames host ntohl messages).length := by
  rw [show Framing.frames host ntohl (message :: messages)
    = Framing.frame host ntohl message ++ Framing.frames host ntohl messages from rfl,
    List.length_append, Framing.frame, List.length_append, Framing.length_header]

theorem readAll_takes {stream : Bytes}
    (h : readAll overload host ntohl messages.length buffer stream calls = some (results messages)) :
    (Framing.frames host ntohl messages).length ≤ stream.length := by
  induction messages generalizing buffer stream calls with
  | nil => exact Nat.zero_le _
  | cons message messages ih =>
      obtain ⟨r, hread, hvalue, hmore⟩ := readAll_succ h
      obtain ⟨turns, s, hloop, hs, hbody⟩ := read_takes hread hvalue
      have hheader := sizeLoop_takes (ConnectionSocket.rereads_zero overload) hloop hs
      have hrest := ih hmore
      rw [length_frames_cons]
      omega

/-- The calls return the messages if and only if no failure comes inside one. -/
theorem readAll_iff (hmessages : ∀ m ∈ messages, Readable overload m)
    (hcalls : Interrupted .again calls) :
    readAll overload host ntohl messages.length buffer (Framing.frames host ntohl messages) calls
        = some (results messages) ↔
      (betweenMessages (messages.map List.length) calls).isSome := by
  induction messages generalizing buffer calls with
  | nil => exact iff_of_true rfl rfl
  | cons message messages ih =>
      have hmessage := hmessages message List.mem_cons_self
      have hlater : ∀ m ∈ messages, Readable overload m :=
        fun m hm => hmessages m (List.mem_cons_of_mem message hm)
      have hframes : Framing.frames host ntohl (message :: messages)
          = Framing.frame host ntohl message ++ Framing.frames host ntohl messages := rfl
      have hlength := length_frames_cons host ntohl message messages
      rw [hframes] at hlength
      rw [hframes, List.map_cons, List.length_cons, betweenMessages]
      cases hheader : smooth 4 (resumed ReadError.again calls) with
      | none =>
          refine iff_of_false ?_ Bool.false_ne_true
          intro h
          obtain ⟨r, hread, hvalue, hmore⟩ := readAll_succ h
          obtain ⟨turns, s, hloop, hs, hbody⟩ := read_takes hread hvalue
          -- what the header has lost is missing in the end
          have hlost := sizeLoop_disturbed (ConnectionSocket.rereads_zero overload) hcalls (by omega) hheader hloop hs
          have hrest := readAll_takes hmore
          omega
      | some calls₁ =>
          rw [Option.bind_eq_bind, Option.bind_some]
          cases hbody : smooth message.length calls₁ with
          | none =>
              refine iff_of_false ?_ Bool.false_ne_true
              intro h
              obtain ⟨r, hread, hvalue, -⟩ := readAll_succ h
              exact read_body_disturbed hmessage hcalls hheader hbody hread hvalue
          | some calls₂ =>
              obtain ⟨buffer', hread⟩ := read_smooth host ntohl buffer
                (Framing.frames host ntohl messages) hmessage hcalls hheader hbody
              have hleft := interrupted_smooth
                (interrupted_smooth (interrupted_resumed hcalls) hheader) hbody
              rw [Option.bind_some, ← ih hlater hleft, readAll, hread,
                Option.bind_eq_bind, Option.bind_some]
              dsimp only
              constructor
              · intro h
                obtain ⟨more, hmore, h⟩ := Option.bind_eq_some_iff.mp h
                obtain ⟨-, hsame⟩ := List.cons.inj (Option.some.inj h)
                exact hsame ▸ hmore
              · intro h
                rw [h]
                rfl

theorem betweenMessages_positive (lengths : List Nat) (h : Positive calls) :
    (betweenMessages lengths calls).isSome := by
  induction lengths generalizing calls with
  | nil => rfl
  | cons length lengths ih =>
      obtain ⟨calls₁, hheader, h₁⟩ := smooth_positive (positive_resumed ReadError.again h) 4
      obtain ⟨calls₂, hbody, h₂⟩ := smooth_positive h₁ length
      rw [betweenMessages, hheader, Option.bind_eq_bind, Option.bind_some, hbody, Option.bind_some]
      exact ih h₂

end All

/-- Any messages, cut in any way, with any number of failures: the calls return
what they would without them if and only if each failure comes before a header
or behind the last message. -/
theorem would_block_iff (overload : ConnectionFile.Overload) (host : ByteOrder) (ntohl : Bool)
    {messages : List Bytes} {buffer : Bytes} {calls : List ReadCall}
    (hmessages : ∀ m ∈ messages, m ≠ [] ∧ m.length ≤ buffer.length)
    (hbuffer : buffer.length < 2 ^ 32) (hstring : overload = .string → buffer.length = maxMsgSize)
    (hcalls : Interrupted .again calls) :
    LosesNothing overload host ntohl messages buffer calls ↔
      (betweenMessages (messages.map List.length) calls).isSome := by
  have hreadable : ∀ m ∈ messages, Readable overload m := by
    intro m hm
    obtain ⟨hne, hle⟩ := hmessages m hm
    have hpos := List.length_pos_iff.mpr hne
    refine ⟨hpos, Nat.lt_of_le_of_lt hle hbuffer, ?_⟩
    have hzero : (m.length : Int) ≠ 0 := by omega
    cases overload with
    | pointer => exact decide_eq_false hzero
    | string =>
        have hfits : ¬ (maxMsgSize : Int) < m.length := by
          have hmax := hstring rfl
          omega
        exact Bool.or_eq_false_iff.mpr ⟨decide_eq_false hzero, decide_eq_false hfits⟩
  have hwithout := positive_without hcalls
  have hright : readAll overload host ntohl messages.length buffer
      (Framing.frames host ntohl messages) (without .again calls) = some (results messages) :=
    (readAll_iff hreadable (hwithout.interrupted .again)).mpr (betweenMessages_positive _ hwithout)
  rw [LosesNothing, hright]
  exact readAll_iff hreadable hcalls

/-- Two messages, and a failure between them. -/
theorem would_block_iff_between :
    LosesNothing .pointer .little false [[7], [8]] [0] [.moved 5, .moved 1, .failed .again, .moved 3]
      ↔ (betweenMessages [1, 1] [.moved 5, .moved 1, .failed .again, .moved 3]).isSome := by
  have hcalls : Interrupted ReadError.again
      [.moved 5, .moved 1, .failed .again, .moved 3] := by
    intro r hr
    simp only [List.mem_cons, List.not_mem_nil, or_false] at hr
    rcases hr with rfl | rfl | rfl | rfl
    · exact Or.inl ⟨4, rfl⟩
    · exact Or.inl ⟨0, rfl⟩
    · exact Or.inr rfl
    · exact Or.inl ⟨2, rfl⟩
  have hmessages : ∀ m ∈ ([[7], [8]] : List Bytes), m ≠ [] ∧ m.length ≤ ([0] : Bytes).length := by
    decide
  exact would_block_iff .pointer .little false hmessages (by decide) (fun h => by cases h) hcalls

/-- One message, and a failure between its header and its body: the call returns
-1, and the header is gone. -/
theorem would_block_loses :
    ¬ LosesNothing .pointer .little false [[7]] [0] [.moved 4, .failed .again] := by
  intro h
  have hread : readAll .pointer .little false 1 [0] (Framing.frames .little false [[7]])
      [.moved 4, .failed .again] = some [(-1, none)] := by
    decide
  have hwithout : readAll .pointer .little false 1 [0] (Framing.frames .little false [[7]])
      [.moved 4] = some [(1, some [7])] := by
    decide
  have hsame : some [((-1 : Int), (none : Option Bytes))] = some [(1, some [7])] :=
    (hread.symm.trans h).trans hwithout
  exact absurd hsame (by decide)

end WouldBlock

end LightQ
