/-
# `Admin.AdminCmd` — the admin commands and their replies (`admin_cmd.h`)

The broker manager reads requests from JSON and writes replies to it, its
clients do the opposite.  An object is fresh when `from_json` is called on it,
so that a field which is missing or of another type is empty afterwards, or 0.

`get_cmd` and the `from_json` functions parse the same string.  All of them
throw where the value is no object; `get_cmd`, which comes first, is also the
only one that takes a field without asking for its type.  So it finds a command
in an object whose `cmd` is a string and nowhere else (`getCmd_some_iff`),
returns false exactly on what does not parse (`getCmd_none_iff`), and throws on
the rest.

A `picojson::value::object` that is written holds strings and integers;
`Member` is such a value, and `serialize` is `serialize(true)` of the object.

The six messages are six structures with their own `to_json` and `from_json`,
each with the field names of the source.  What they share is stated once:
`stringField` and `int64Field` are the two ways in which a field is read, of which
`textField` and `integerField` are the values on an object, and `objectOf` is how
members come into the order of a `std::map`.
-/
import LightQ.Admin.Picojson

namespace LightQ

open Picojson

/-! ## Writing JSON -/

inductive Member where
  | string (s : Bytes)
  | int64 (i : Int64)
deriving DecidableEq

def hexDigit (n : Nat) : UInt8 := UInt8.ofNat (if n < 10 then 0x30 + n else 0x61 + (n - 10))

/-- What `serialize_str` writes for one byte. -/
def escape (b : UInt8) : Bytes :=
  if b = quote then [backslash, quote]
  else if b = backslash then [backslash, backslash]
  else if b = 0x2f then [backslash, 0x2f]
  else if b = 0x08 then [backslash, 0x62]
  else if b = 0x0c then [backslash, 0x66]
  else if b = 0x0a then [backslash, 0x6e]
  else if b = 0x0d then [backslash, 0x72]
  else if b = 0x09 then [backslash, 0x74]
  else if b < 0x20 ∨ b = 0x7f then
    [backslash, 0x75, 0x30, 0x30, hexDigit (b.toNat / 16), hexDigit (b.toNat % 16)]
  else [b]

/-- `serialize_str`. -/
def serializeStr (s : Bytes) : Bytes := [quote] ++ s.flatMap escape ++ [quote]

/-- `to_str` of an integer. -/
def int64ToStr (i : Int64) : Bytes :=
  if i.toInt < 0 then 0x2d :: decimal i.toInt.natAbs else decimal i.toInt.natAbs

def Member.serialize : Member → Bytes
  | .string s => serializeStr s
  | .int64 i => int64ToStr i

/-- `serialize(true)` of an object: each member on a line of its own. -/
def serialize (obj : List (Bytes × Member)) : Bytes :=
  let members := obj.map fun (key, m) =>
    ascii "\n  " ++ serializeStr key ++ ascii ": " ++ m.serialize
  let body := (members.intersperse (ascii ",")).flatten
  [0x7b] ++ body ++ (if obj = [] then [] else ascii "\n") ++ [0x7d] ++ ascii "\n"

/-- `obj[key] = value` for each member in turn. -/
def objectOf (members : List (Bytes × Member)) : List (Bytes × Member) :=
  members.foldl (fun obj (key, m) => OrderedMap.assign key m obj) []

/-! ## Reading JSON -/

/-- `get_cmd`: the command, or `none` where it returns false. -/
def getCmd (jsonStr : Bytes) : Except Thrown (Option Bytes) := do
  match ← parse jsonStr with
  | none => return none
  | some v =>
      let cmd ← (← v.get (ascii "cmd")).getString
      return some cmd

/-- `if (v.get(key).is<std::string>()) field = v.get(key).get<std::string>();`
on an empty field. -/
def stringField (v : Value) (key : Bytes) : Except Thrown Bytes := do
  let w ← v.get key
  if w.isString then w.getString else return []

/-- `if (v.get(key).is<int64_t>()) field = v.get(key).get<int64_t>();` on a
field that is 0. -/
def int64Field (v : Value) (key : Bytes) : Except Thrown Int64 := do
  let w ← v.get key
  if w.isInt64 then w.getInt64 else return 0

/-! ## Requests -/

/-- What `to_json(mask_password)` writes for a password. -/
def masked (maskPassword : Bool) (password : Bytes) : Member :=
  if maskPassword then .string (ascii "******") else .string password

/-- `join_req`. -/
structure JoinReq where
  type : Bytes
  topic : Bytes
  userId : Bytes
  password : Bytes
  connectionType : Bytes
deriving DecidableEq, Repr

def JoinReq.cmd : Bytes := ascii "join"

/-- `join_req::from_json`; `none` is false. -/
def JoinReq.fromJson (jsonStr : Bytes) : Except Thrown (Option JoinReq) := do
  match ← parse jsonStr with
  | none => return none
  | some v =>
      let type ← stringField v (ascii "type")
      let topic ← stringField v (ascii "topic")
      let userId ← stringField v (ascii "user_id")
      let password ← stringField v (ascii "password")
      let connectionType ← stringField v (ascii "connection_type")
      return some ⟨type, topic, userId, password, connectionType⟩

/-- `join_req::to_json`. -/
def JoinReq.toJson (r : JoinReq) (maskPassword : Bool) : Bytes :=
  serialize (objectOf [(ascii "cmd", .string JoinReq.cmd), (ascii "type", .string r.type),
    (ascii "topic", .string r.topic), (ascii "user_id", .string r.userId),
    (ascii "password", masked maskPassword r.password),
    (ascii "connection_type", .string r.connectionType)])

/-- `stats_req`. -/
structure StatsReq where
  topic : Bytes
  userId : Bytes
  password : Bytes
deriving DecidableEq, Repr

def StatsReq.cmd : Bytes := ascii "stats"

/-- `stats_req::from_json`. -/
def StatsReq.fromJson (jsonStr : Bytes) : Except Thrown (Option StatsReq) := do
  match ← parse jsonStr with
  | none => return none
  | some v =>
      let topic ← stringField v (ascii "topic")
      let userId ← stringField v (ascii "user_id")
      let password ← stringField v (ascii "password")
      return some ⟨topic, userId, password⟩

/-- `stats_req::to_json`. -/
def StatsReq.toJson (r : StatsReq) (maskPassword : Bool) : Bytes :=
  serialize (objectOf [(ascii "cmd", .string StatsReq.cmd), (ascii "topic", .string r.topic),
    (ascii "user_id", .string r.userId), (ascii "password", masked maskPassword r.password)])

/-- `create_topic_req`. -/
structure CreateTopicReq where
  topic : Bytes
  brokerType : Bytes
  adminUserId : Bytes
  adminPassword : Bytes
  userId : Bytes
  password : Bytes
deriving DecidableEq, Repr

def CreateTopicReq.cmd : Bytes := ascii "create_topic"

/-- `create_topic_req::from_json`. -/
def CreateTopicReq.fromJson (jsonStr : Bytes) : Except Thrown (Option CreateTopicReq) := do
  match ← parse jsonStr with
  | none => return none
  | some v =>
      let topic ← stringField v (ascii "topic")
      let brokerType ← stringField v (ascii "broker_type")
      let adminUserId ← stringField v (ascii "admin_user_id")
      let adminPassword ← stringField v (ascii "admin_password")
      let userId ← stringField v (ascii "user_id")
      let password ← stringField v (ascii "password")
      return some ⟨topic, brokerType, adminUserId, adminPassword, userId, password⟩

/-- `create_topic_req::to_json`. -/
def CreateTopicReq.toJson (r : CreateTopicReq) (maskPassword : Bool) : Bytes :=
  serialize (objectOf [(ascii "cmd", .string CreateTopicReq.cmd),
    (ascii "topic", .string r.topic), (ascii "broker_type", .string r.brokerType),
    (ascii "admin_user_id", .string r.adminUserId),
    (ascii "admin_password", masked maskPassword r.adminPassword),
    (ascii "user_id", .string r.userId), (ascii "password", masked maskPassword r.password)])

/-! ## Replies -/

/-- `common_resp`. -/
structure CommonResp where
  cmd : Bytes
  status : Bytes
  description : Bytes
deriving DecidableEq, Repr

/-- `common_resp::to_json`. -/
def CommonResp.toJson (r : CommonResp) : Bytes :=
  serialize (objectOf [(ascii "cmd", .string r.cmd), (ascii "status", .string r.status),
    (ascii "description", .string r.description)])

/-- `common_resp::from_json`. -/
def CommonResp.fromJson (jsonStr : Bytes) : Except Thrown (Option CommonResp) := do
  match ← parse jsonStr with
  | none => return none
  | some v =>
      let cmd ← stringField v (ascii "cmd")
      let status ← stringField v (ascii "status")
      let description ← stringField v (ascii "description")
      return some ⟨cmd, status, description⟩

/-- `join_resp`. -/
structure JoinResp where
  status : Bytes
  topic : Bytes
  bindUri : Bytes
deriving DecidableEq, Repr

/-- `join_resp::to_json`. -/
def JoinResp.toJson (r : JoinResp) : Bytes :=
  serialize (objectOf [(ascii "cmd", .string JoinReq.cmd), (ascii "status", .string r.status),
    (ascii "topic", .string r.topic), (ascii "bind_uri", .string r.bindUri)])

/-- `join_resp::from_json`. -/
def JoinResp.fromJson (jsonStr : Bytes) : Except Thrown (Option JoinResp) := do
  match ← parse jsonStr with
  | none => return none
  | some v =>
      let topic ← stringField v (ascii "topic")
      let status ← stringField v (ascii "status")
      let bindUri ← stringField v (ascii "bind_uri")
      return some ⟨status, topic, bindUri⟩

/-- `stats_resp`. -/
structure StatsResp where
  status : Bytes
  topic : Bytes
  topicType : Bytes
  queueSize : Int64
  messagesSent : Int64
  messagesReceived : Int64
  publishersCount : Int64
  subscribersCount : Int64
  totalBytesWritten : Int64
  totalBytesRead : Int64
deriving DecidableEq

/-- `stats_resp::to_json`. -/
def StatsResp.toJson (r : StatsResp) : Bytes :=
  serialize (objectOf [(ascii "cmd", .string StatsReq.cmd), (ascii "topic", .string r.topic),
    (ascii "topic_type", .string r.topicType), (ascii "status", .string r.status),
    (ascii "queue_size", .int64 r.queueSize), (ascii "messages_sent", .int64 r.messagesSent),
    (ascii "messages_received", .int64 r.messagesReceived),
    (ascii "publishers_count", .int64 r.publishersCount),
    (ascii "subscribers_count", .int64 r.subscribersCount),
    (ascii "total_bytes_written", .int64 r.totalBytesWritten),
    (ascii "total_bytes_read", .int64 r.totalBytesRead)])

/-- `stats_resp::from_json`. -/
def StatsResp.fromJson (jsonStr : Bytes) : Except Thrown (Option StatsResp) := do
  match ← parse jsonStr with
  | none => return none
  | some v =>
      let topic ← stringField v (ascii "topic")
      let topicType ← stringField v (ascii "topic_type")
      let status ← stringField v (ascii "status")
      let queueSize ← int64Field v (ascii "queue_size")
      let messagesSent ← int64Field v (ascii "messages_sent")
      let messagesReceived ← int64Field v (ascii "messages_received")
      let publishersCount ← int64Field v (ascii "publishers_count")
      let subscribersCount ← int64Field v (ascii "subscribers_count")
      let totalBytesWritten ← int64Field v (ascii "total_bytes_written")
      let totalBytesRead ← int64Field v (ascii "total_bytes_read")
      return some ⟨status, topic, topicType, queueSize, messagesSent, messagesReceived,
        publishersCount, subscribersCount, totalBytesWritten, totalBytesRead⟩

/-- What the broker manager replies with. -/
inductive Reply where
  | pong
  | common (resp : CommonResp)
  | join (resp : JoinResp)
  | stats (resp : StatsResp)
deriving DecidableEq

/-- The text handed to `reply_cmd`. -/
def Reply.text : Reply → Bytes
  | .pong => ascii "pong"
  | .common resp => resp.toJson
  | .join resp => resp.toJson
  | .stats resp => resp.toJson

/-- The `status` of a reply; `pong` has none. -/
def Reply.status : Reply → Option Bytes
  | .pong => none
  | .common resp => some resp.status
  | .join resp => some resp.status
  | .stats resp => some resp.status

/-! ## What is read from an object -/

/-- A field of a request: its text, or nothing when it is missing or no
string. -/
def textField (o : List (Bytes × Value)) (key : Bytes) : Bytes :=
  match OrderedMap.find key o with
  | some (.string s) => s
  | _ => []

theorem stringField_object (o : List (Bytes × Value)) (key : Bytes) :
    stringField (.object o) key = .ok (textField o key) := by
  simp only [stringField, textField, Value.get, bind, Except.bind]
  cases OrderedMap.find key o with
  | none => rfl
  | some w =>
      cases w with
      | string s => rfl
      | _ => rfl

/-- An integer field of a reply: its value, or 0 when it is missing or no
integer. -/
def integerField (o : List (Bytes × Value)) (key : Bytes) : Int64 :=
  match OrderedMap.find key o with
  | some (.int64 i) => i
  | _ => 0

theorem int64Field_object (o : List (Bytes × Value)) (key : Bytes) :
    int64Field (.object o) key = .ok (integerField o key) := by
  simp only [int64Field, integerField, Value.get, bind, Except.bind]
  cases OrderedMap.find key o with
  | none => rfl
  | some w =>
      cases w with
      | int64 i => rfl
      | _ => rfl

section Object

variable {s : Bytes} {o : List (Bytes × Value)} (h : parse s = .ok (some (.object o)))

include h

theorem joinReq_fromJson : JoinReq.fromJson s = .ok (some
    ⟨textField o (ascii "type"), textField o (ascii "topic"), textField o (ascii "user_id"),
      textField o (ascii "password"), textField o (ascii "connection_type")⟩) := by
  simp only [JoinReq.fromJson, h, stringField_object, bind, Except.bind, pure, Except.pure]

theorem statsReq_fromJson : StatsReq.fromJson s = .ok (some
    ⟨textField o (ascii "topic"), textField o (ascii "user_id"),
      textField o (ascii "password")⟩) := by
  simp only [StatsReq.fromJson, h, stringField_object, bind, Except.bind, pure, Except.pure]

theorem createTopicReq_fromJson : CreateTopicReq.fromJson s = .ok (some
    ⟨textField o (ascii "topic"), textField o (ascii "broker_type"),
      textField o (ascii "admin_user_id"), textField o (ascii "admin_password"),
      textField o (ascii "user_id"), textField o (ascii "password")⟩) := by
  simp only [CreateTopicReq.fromJson, h, stringField_object, bind, Except.bind, pure, Except.pure]

theorem commonResp_fromJson : CommonResp.fromJson s = .ok (some
    ⟨textField o (ascii "cmd"), textField o (ascii "status"),
      textField o (ascii "description")⟩) := by
  simp only [CommonResp.fromJson, h, stringField_object, bind, Except.bind, pure, Except.pure]

theorem joinResp_fromJson : JoinResp.fromJson s = .ok (some
    ⟨textField o (ascii "status"), textField o (ascii "topic"),
      textField o (ascii "bind_uri")⟩) := by
  simp only [JoinResp.fromJson, h, stringField_object, bind, Except.bind, pure, Except.pure]

theorem statsResp_fromJson : StatsResp.fromJson s = .ok (some
    { status := textField o (ascii "status")
      topic := textField o (ascii "topic")
      topicType := textField o (ascii "topic_type")
      queueSize := integerField o (ascii "queue_size")
      messagesSent := integerField o (ascii "messages_sent")
      messagesReceived := integerField o (ascii "messages_received")
      publishersCount := integerField o (ascii "publishers_count")
      subscribersCount := integerField o (ascii "subscribers_count")
      totalBytesWritten := integerField o (ascii "total_bytes_written")
      totalBytesRead := integerField o (ascii "total_bytes_read") }) := by
  simp only [StatsResp.fromJson, h, stringField_object, int64Field_object, bind, Except.bind, pure,
    Except.pure]

end Object

theorem getCmd_value {s cmd : Bytes} (h : getCmd s = .ok (some cmd)) :
    ∃ v w, parse s = .ok (some v) ∧ v.get (ascii "cmd") = .ok w ∧ w.getString = .ok cmd := by
  obtain ⟨r, hp, h⟩ := Reader.bind_ok h
  cases r with
  | none => cases h
  | some v =>
      obtain ⟨w, hw, h⟩ := Reader.bind_ok h
      obtain ⟨c, hc, h⟩ := Reader.bind_ok h
      cases h
      exact ⟨v, w, hp, hw, hc⟩

theorem getCmd_none {s : Bytes} (h : parse s = .ok none) : getCmd s = .ok none := by
  simp only [getCmd, h, bind, Except.bind, pure, Except.pure]

theorem get_ok {v w : Value} {key : Bytes} (h : v.get key = .ok w) :
    ∃ o, v = .object o ∧ w = (OrderedMap.find key o).getD .null := by
  cases v with
  | object o =>
      cases h
      exact ⟨o, rfl, rfl⟩
  | _ => cases h

theorem getString_ok {w : Value} {s : Bytes} (h : w.getString = .ok s) : w = .string s := by
  cases w with
  | string s' =>
      cases h
      rfl
  | _ => cases h

/-- `get_cmd` finds a command in an object whose `cmd` is a string, and
nowhere else. -/
theorem getCmd_some_iff {s cmd : Bytes} :
    getCmd s = .ok (some cmd) ↔
      ∃ o, parse s = .ok (some (.object o)) ∧
        OrderedMap.find (ascii "cmd") o = some (.string cmd) := by
  constructor
  · intro h
    obtain ⟨v, w, hp, hw, hc⟩ := getCmd_value h
    obtain ⟨o, rfl, hfind⟩ := get_ok hw
    obtain rfl := getString_ok hc
    refine ⟨o, hp, ?_⟩
    cases hf : OrderedMap.find (ascii "cmd") o with
    | none =>
        rw [hf] at hfind
        cases hfind
    | some w =>
        rw [hf] at hfind
        exact congrArg some hfind.symm
  · rintro ⟨o, hp, hf⟩
    simp only [getCmd, hp, Value.get, hf, bind, Except.bind]
    rfl

/-- It returns false exactly on what does not parse. -/
theorem getCmd_none_iff {s : Bytes} : getCmd s = .ok none ↔ parse s = .ok none := by
  constructor
  · intro h
    obtain ⟨r, hp, h⟩ := Reader.bind_ok h
    cases r with
    | none => exact hp
    | some v =>
        obtain ⟨w, -, h⟩ := Reader.bind_ok h
        obtain ⟨c, -, h⟩ := Reader.bind_ok h
        cases h
  · exact getCmd_none

end LightQ
