/-
# `Socket.PubSub` — publishing and subscribing with ZeroMQ (`connection_zmq.h`)

A socket of type `zmq_pub` sends two parts for a message, the topic and the
message; one of type `zmq_sub` subscribes to the topic, and ZeroMQ hands it
the parts of every message that begins with it.  `read_msg` takes one part at
a time and does not ask whether more follow, so that every other value it
returns is the topic.

`Part` is a part on the wire, with its `ZMQ_SNDMORE`; `delivered` is what
ZeroMQ is assumed to do, without loss: the parts are cut into messages at the
last part of each, and those of a message whose first part begins with the
subscription are handed over.

Every message of a publisher reaches a subscriber to its topic, in its two parts
(`delivered_publishAll`), so that a subscriber reads the topic before each
message (`readAll_delivered`).  What `read_msg` returns is what was written if
and only if nothing was (`pub_sub_round_trip_iff`): already the number of values
is twice that of the messages.
-/
import LightQ.Storage.ConnectionFile

namespace LightQ

open MachineInt

/-- A message part; `more` is set by `ZMQ_SNDMORE`. -/
structure Part where
  data : Bytes
  more : Bool
deriving DecidableEq, Repr

/-- What `send` of a part does: it returns true or false, or throws. -/
inductive SendResult where
  | sent
  | again
  | threw
deriving DecidableEq, Repr

/-- What `recv` of a part does; one that returns false leaves the part empty. -/
inductive RecvResult where
  | got (part : Part)
  | again
  | threw
deriving DecidableEq, Repr

/-- `connection_zmq::zmq_socket_type`. -/
inductive ZmqType where
  | pair
  | pub
  | sub
  | req
  | rep
  | dealer
  | router
  | pull
  | push
  | xpub
  | xsub
  | stream
deriving DecidableEq, Repr

/-- `connection_zmq`, as far as it sends and receives. -/
structure ConnectionZmq where
  topic : Bytes
  zmqSocketType : ZmqType
  totalMsgWritten : Nat
  totalMsgRead : Nat
  totalBytesWritten : Nat
  totalBytesRead : Nat
deriving DecidableEq, Repr

namespace ConnectionZmq

/-- `setsockopt(ZMQ_SUBSCRIBE, ..)` in `init`, of a socket that connects. -/
def subscription (c : ConnectionZmq) : Option Bytes :=
  if c.zmqSocketType = .sub then some c.topic else none

/-- `write_msg(const std::string &)`: its value, the object after it and the
parts sent.  The value of `s_sendmore` is not looked at. -/
def writeMsg (c : ConnectionZmq) (message : Bytes) (sendmore send : SendResult) :
    Int × ConnectionZmq × List Part :=
  let head : Option (List Part) :=
    if c.zmqSocketType = .pub then
      match sendmore with
      | .sent => some [⟨c.topic, true⟩]
      | .again => some []
      | .threw => none
    else some []
  match head, send with
  | none, _ => (-1, c, [])
  | some parts, .sent =>
      (message.length,
        { c with
          totalBytesWritten := c.totalBytesWritten + message.length
          totalMsgWritten := c.totalMsgWritten + 1 }, parts ++ [⟨message, false⟩])
  | some parts, .again => (-1, c, parts)
  | some parts, .threw => (-1, c, parts)

/-- `write_msg(const char *, unsigned)`. -/
def writeMsgPtr (c : ConnectionZmq) (message : Bytes) (length : Nat)
    (sendmore send : SendResult) : Int × ConnectionZmq × List Part :=
  c.writeMsg (message.take length) sendmore send

/-- Either `write_msg`, on a message whose length the caller has at hand. -/
def write (c : ConnectionZmq) (overload : ConnectionFile.Overload) (message : Bytes)
    (sendmore send : SendResult) : Int × ConnectionZmq × List Part :=
  match overload with
  | .string => c.writeMsg message sendmore send
  | .pointer => c.writeMsgPtr message (u32 message.length) sendmore send

/-- `read_msg(std::string &)`: its value, the message and the object after it. -/
def readMsg (c : ConnectionZmq) (recv : RecvResult) : Int × Option Bytes × ConnectionZmq :=
  match recv with
  | .got part =>
      (part.data.length, some part.data,
        { c with
          totalBytesRead := c.totalBytesRead + part.data.length
          totalMsgRead := c.totalMsgRead + 1 })
  | .again => (0, some [], { c with totalMsgRead := c.totalMsgRead + 1 })
  | .threw => (-1, none, c)

end ConnectionZmq

/-! ## What ZeroMQ does -/

namespace PubSub

/-- The messages made up of parts: each ends with a part that is not followed
by another one. -/
def multiparts : List Part → List (List Part)
  | [] => []
  | part :: parts =>
      if part.more then
        match multiparts parts with
        | [] => [[part]]
        | message :: messages => (part :: message) :: messages
      else [part] :: multiparts parts

/-- The parts that reach a socket with this subscription: those of every
message whose first part begins with it, and none without one. -/
def delivered (subscription : Option Bytes) (parts : List Part) : List Part :=
  match subscription with
  | some subscription =>
      ((multiparts parts).filter fun message =>
        message.head?.any fun part => subscription.isPrefixOf part.data).flatten
  | none => []

/-! ## A publisher and a subscriber -/

/-- The parts sent for a list of messages, when no send fails. -/
def publishAll (c : ConnectionZmq) : List (ConnectionFile.Overload × Bytes) → List Part
  | [] => []
  | (overload, message) :: messages =>
      let (_, c, parts) := c.write overload message .sent .sent
      parts ++ publishAll c messages

/-- The values that `read_msg` returns for the parts, called once for each. -/
def readAll (c : ConnectionZmq) : List Part → List Bytes
  | [] => []
  | part :: parts =>
      match c.readMsg (.got part) with
      | (_, some message, c) => message :: readAll c parts
      | (_, none, c) => readAll c parts

section Framing

variable {publisher subscriber : ConnectionZmq}

/-- What one message is sent as. -/
def written : ConnectionFile.Overload → Bytes → Bytes
  | .string, message => message
  | .pointer, message => message.take (u32 message.length)

theorem publishAll_pub (hpub : publisher.zmqSocketType = .pub)
    (messages : List (ConnectionFile.Overload × Bytes)) :
    publishAll publisher messages = messages.flatMap fun entry =>
      [⟨publisher.topic, true⟩, ⟨written entry.1 entry.2, false⟩] := by
  induction messages generalizing publisher with
  | nil => rfl
  | cons entry messages ih =>
      obtain ⟨overload, message⟩ := entry
      have hwrite : ∃ (value : Int) (c : ConnectionZmq), c.zmqSocketType = .pub ∧
          c.topic = publisher.topic ∧ publisher.write overload message .sent .sent =
            (value, c, [⟨publisher.topic, true⟩, ⟨written overload message, false⟩]) := by
        cases overload with
        | string =>
            simp only [ConnectionZmq.write, ConnectionZmq.writeMsg, hpub, if_true]
            exact ⟨_, ⟨_, _, _, _, _, _⟩, rfl, rfl, rfl⟩
        | pointer =>
            simp only [ConnectionZmq.write, ConnectionZmq.writeMsgPtr, ConnectionZmq.writeMsg, hpub,
              if_true]
            exact ⟨_, ⟨_, _, _, _, _, _⟩, rfl, rfl, rfl⟩
      obtain ⟨value, c, hc, htopic, heq⟩ := hwrite
      rw [publishAll, heq, List.flatMap_cons]
      dsimp only
      rw [ih hc, htopic]

/-- Every message of a publisher reaches a subscriber to its topic. -/
theorem delivered_publishAll (hpub : publisher.zmqSocketType = .pub)
    (messages : List (ConnectionFile.Overload × Bytes)) :
    delivered (some publisher.topic) (publishAll publisher messages)
      = publishAll publisher messages := by
  rw [publishAll_pub hpub]
  have hparts : multiparts (messages.flatMap fun entry =>
      [⟨publisher.topic, true⟩, ⟨written entry.1 entry.2, false⟩])
        = messages.map fun entry =>
          [⟨publisher.topic, true⟩, ⟨written entry.1 entry.2, false⟩] := by
    induction messages with
    | nil => rfl
    | cons entry messages ih =>
        rw [List.flatMap_cons, List.map_cons, ← ih]
        rfl
  have hall : (messages.map fun entry =>
      [(⟨publisher.topic, true⟩ : Part), ⟨written entry.1 entry.2, false⟩]).filter
        (fun message => message.head?.any fun part => publisher.topic.isPrefixOf part.data)
        = messages.map fun entry =>
          [⟨publisher.topic, true⟩, ⟨written entry.1 entry.2, false⟩] := by
    refine List.filter_eq_self.mpr ?_
    intro parts hmem
    obtain ⟨entry, -, rfl⟩ := List.mem_map.mp hmem
    exact List.isPrefixOf_iff_prefix.mpr (List.prefix_refl _)
  rw [delivered, hparts, hall, ← List.flatMap_def]

theorem readAll_eq (subscriber : ConnectionZmq) (parts : List Part) :
    readAll subscriber parts = parts.map Part.data := by
  induction parts generalizing subscriber with
  | nil => rfl
  | cons part parts ih =>
      rw [List.map_cons, ← ih]
      rfl

/-- What a subscriber reads: the topic before each message. -/
theorem readAll_delivered (hpub : publisher.zmqSocketType = .pub)
    (hsub : subscriber.zmqSocketType = .sub) (htopic : subscriber.topic = publisher.topic)
    (messages : List (ConnectionFile.Overload × Bytes)) :
    readAll subscriber (delivered subscriber.subscription (publishAll publisher messages)) =
      messages.flatMap fun entry => [publisher.topic, written entry.1 entry.2] := by
  rw [ConnectionZmq.subscription, if_pos hsub, htopic, delivered_publishAll hpub, readAll_eq,
    publishAll_pub hpub, List.map_flatMap]
  rfl

end Framing

/-- A publisher and a subscriber to the same topic, and any messages, without
loss: what `read_msg` returns is what was written if and only if nothing
was. -/
theorem pub_sub_round_trip_iff (publisher subscriber : ConnectionZmq)
    (hpub : publisher.zmqSocketType = .pub) (hsub : subscriber.zmqSocketType = .sub)
    (htopic : subscriber.topic = publisher.topic)
    (messages : List (ConnectionFile.Overload × Bytes)) :
    readAll subscriber (delivered subscriber.subscription (publishAll publisher messages))
      = messages.map Prod.snd ↔ messages = [] := by
  rw [readAll_delivered hpub hsub htopic]
  constructor
  · intro h
    have hlen := congrArg List.length h
    rw [List.length_flatMap, List.length_map] at hlen
    have hsum : (messages.map fun entry : ConnectionFile.Overload × Bytes =>
        ([publisher.topic, written entry.1 entry.2] : List Bytes).length).sum
          = 2 * messages.length := by
      simp [Nat.mul_comm]
    rw [hsum] at hlen
    exact List.length_eq_zero_iff.mp (by omega)
  · rintro rfl
    rfl

/-- A publisher and a subscriber of a topic. -/
def publisherOf (topic : Bytes) : ConnectionZmq := ⟨topic, .pub, 0, 0, 0, 0⟩

def subscriberTo (topic : Bytes) : ConnectionZmq := ⟨topic, .sub, 0, 0, 0, 0⟩

theorem pub_sub_round_trip_iff_hello :
    readAll (subscriberTo (ascii "t")) (delivered (subscriberTo (ascii "t")).subscription
      (publishAll (publisherOf (ascii "t")) [(.string, ascii "hello")])) = [ascii "hello"] ↔
      [(ConnectionFile.Overload.string, ascii "hello")] = [] :=
  pub_sub_round_trip_iff (publisherOf (ascii "t")) (subscriberTo (ascii "t")) rfl rfl rfl
    [(.string, ascii "hello")]

/-- Two messages are read as four. -/
theorem pub_sub_topic_read :
    readAll (subscriberTo (ascii "t")) (delivered (subscriberTo (ascii "t")).subscription
        (publishAll (publisherOf (ascii "t")) [(.string, ascii "a"), (.pointer, ascii "b")]))
      = [ascii "t", ascii "a", ascii "t", ascii "b"] ∧
    readAll (subscriberTo (ascii "t")) (delivered (subscriberTo (ascii "t")).subscription
        (publishAll (publisherOf (ascii "t")) [(.string, ascii "a"), (.pointer, ascii "b")]))
      ≠ [ascii "a", ascii "b"] := by
  decide

end PubSub

end LightQ
