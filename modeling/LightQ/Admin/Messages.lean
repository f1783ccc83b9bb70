/-
# `Admin.Messages` — admin messages, from `to_json` to `from_json`

A client writes a request and reads a reply, the broker manager does the
opposite.  All six messages are objects of named fields, and `from_json` skips
a field whose name or type does not match without a word.
`admin_messages_round_trip` says that none is skipped: writer and reader agree
on every field of each message, whatever bytes and integers are in it.

What `to_json` writes parses, as the object that was written (`parse_objectOf`).
In it a text that was written is read (`textField_written`), and an integer is
(`integerField_written`), which settles each field of each message by its name; and
the broker manager sees which command a request is (`createTopicReq_getCmd` and its
siblings).

An error comes as a `common_resp`, also where a `join_resp` or a `stats_resp`
is expected, and is seen as one: the members that these have on top are missing in
it, and are empty or 0 in what is read.
-/
import LightQ.Admin.Serialize

namespace LightQ

open Picojson

/-! ## The fields of what was written -/

/-- The object that is read where the members have been written. -/
def written (members : List (Bytes × Member)) : List (Bytes × Value) :=
  (objectOf members).map fun e => (e.1, e.2.value)

section Written

variable (members : List (Bytes × Member))

/-- What `to_json` writes parses, as the object that was written. -/
theorem parse_objectOf :
    parse (serialize (objectOf members)) = .ok (some (.object (written members))) :=
  parse_serialize (OrderedMap.ordered_assignAll List.Pairwise.nil members)

variable {members} (hkeys : (members.map Prod.fst).Nodup)

include hkeys

theorem find_written (key : Bytes) :
    OrderedMap.find key (written members) = (OrderedMap.find key members).map Member.value := by
  have hfind : OrderedMap.find key (objectOf members) = (OrderedMap.find key members).or none :=
    OrderedMap.find_assignAll hkeys key []
  rw [written, OrderedMap.find_map, hfind, Option.or_none]

theorem textField_written (key : Bytes) :
    textField (written members) key =
      match OrderedMap.find key members with
      | some (.string s) => s
      | _ => [] := by
  rw [textField, find_written hkeys]
  cases OrderedMap.find key members with
  | none => rfl
  | some m => cases m <;> rfl

theorem integerField_written (key : Bytes) :
    integerField (written members) key =
      match OrderedMap.find key members with
      | some (.int64 i) => i
      | _ => 0 := by
  rw [integerField, find_written hkeys]
  cases OrderedMap.find key members with
  | none => rfl
  | some m => cases m <;> rfl

end Written

/-! ## The messages -/

/-! Each proof names the keys of the message; that they are different is what
lets every field be found. -/

theorem commonResp_round_trip (r : CommonResp) :
    CommonResp.fromJson r.toJson = .ok (some r) := by
  have hkeys : [ascii "cmd", ascii "status", ascii "description"].Nodup := by decide
  rw [CommonResp.toJson, commonResp_fromJson (parse_objectOf _)]
  simp (disch := simpa only [List.map_cons, List.map_nil] using hkeys) only
    [textField_written]
  rfl

theorem joinReq_round_trip (r : JoinReq) :
    JoinReq.fromJson (r.toJson false) = .ok (some r) := by
  have hkeys : [ascii "cmd", ascii "type", ascii "topic", ascii "user_id", ascii "password",
      ascii "connection_type"].Nodup := by decide
  rw [JoinReq.toJson, joinReq_fromJson (parse_objectOf _)]
  simp (disch := simpa only [List.map_cons, List.map_nil] using hkeys) only
    [textField_written]
  rfl

theorem joinResp_round_trip (r : JoinResp) :
    JoinResp.fromJson r.toJson = .ok (some r) := by
  have hkeys : [ascii "cmd", ascii "status", ascii "topic", ascii "bind_uri"].Nodup := by decide
  rw [JoinResp.toJson, joinResp_fromJson (parse_objectOf _)]
  simp (disch := simpa only [List.map_cons, List.map_nil] using hkeys) only
    [textField_written]
  rfl

theorem statsReq_round_trip (r : StatsReq) :
    StatsReq.fromJson (r.toJson false) = .ok (some r) := by
  have hkeys : [ascii "cmd", ascii "topic", ascii "user_id", ascii "password"].Nodup := by decide
  rw [StatsReq.toJson, statsReq_fromJson (parse_objectOf _)]
  simp (disch := simpa only [List.map_cons, List.map_nil] using hkeys) only
    [textField_written]
  rfl

theorem statsResp_round_trip (r : StatsResp) :
    StatsResp.fromJson r.toJson = .ok (some r) := by
  have hkeys : [ascii "cmd", ascii "topic", ascii "topic_type", ascii "status",
      ascii "queue_size", ascii "messages_sent", ascii "messages_received",
      ascii "publishers_count", ascii "subscribers_count", ascii "total_bytes_written",
      ascii "total_bytes_read"].Nodup := by decide
  rw [StatsResp.toJson, statsResp_fromJson (parse_objectOf _)]
  simp (disch := simpa only [List.map_cons, List.map_nil] using hkeys) only
    [textField_written, integerField_written]
  rfl

theorem createTopicReq_round_trip (r : CreateTopicReq) :
    CreateTopicReq.fromJson (r.toJson false) = .ok (some r) := by
  have hkeys : [ascii "cmd", ascii "topic", ascii "broker_type", ascii "admin_user_id",
      ascii "admin_password", ascii "user_id", ascii "password"].Nodup := by decide
  rw [CreateTopicReq.toJson, createTopicReq_fromJson (parse_objectOf _)]
  simp (disch := simpa only [List.map_cons, List.map_nil] using hkeys) only
    [textField_written]
  rfl

theorem createTopicReq_getCmd (r : CreateTopicReq) (maskPassword : Bool) :
    getCmd (r.toJson maskPassword) = .ok (some CreateTopicReq.cmd) := by
  have hkeys : [ascii "cmd", ascii "topic", ascii "broker_type", ascii "admin_user_id",
      ascii "admin_password", ascii "user_id", ascii "password"].Nodup := by decide
  refine getCmd_some_iff.mpr ⟨_, parse_objectOf _, ?_⟩
  rw [find_written (by exact hkeys)]
  rfl

theorem joinReq_getCmd (r : JoinReq) (maskPassword : Bool) :
    getCmd (r.toJson maskPassword) = .ok (some JoinReq.cmd) := by
  have hkeys : [ascii "cmd", ascii "type", ascii "topic", ascii "user_id", ascii "password",
      ascii "connection_type"].Nodup := by decide
  refine getCmd_some_iff.mpr ⟨_, parse_objectOf _, ?_⟩
  rw [find_written (by exact hkeys)]
  rfl

theorem statsReq_getCmd (r : StatsReq) (maskPassword : Bool) :
    getCmd (r.toJson maskPassword) = .ok (some StatsReq.cmd) := by
  have hkeys : [ascii "cmd", ascii "topic", ascii "user_id", ascii "password"].Nodup := by decide
  refine getCmd_some_iff.mpr ⟨_, parse_objectOf _, ?_⟩
  rw [find_written (by exact hkeys)]
  rfl

/-! A `common_resp` has no other field of the two replies than the status. -/

theorem joinResp_of_commonResp (r : CommonResp) :
    JoinResp.fromJson r.toJson = .ok (some ⟨r.status, [], []⟩) := by
  have hkeys : [ascii "cmd", ascii "status", ascii "description"].Nodup := by decide
  rw [CommonResp.toJson, joinResp_fromJson (parse_objectOf _)]
  simp (disch := simpa only [List.map_cons, List.map_nil] using hkeys) only
    [textField_written]
  rfl

theorem statsResp_of_commonResp (r : CommonResp) :
    StatsResp.fromJson r.toJson = .ok (some ⟨r.status, [], [], 0, 0, 0, 0, 0, 0, 0⟩) := by
  have hkeys : [ascii "cmd", ascii "status", ascii "description"].Nodup := by decide
  rw [CommonResp.toJson, statsResp_fromJson (parse_objectOf _)]
  simp (disch := simpa only [List.map_cons, List.map_nil] using hkeys) only
    [textField_written, integerField_written]
  rfl

/-- Every admin message is read as it was written, and an error as an error. -/
theorem admin_messages_round_trip :
    (∀ r : CommonResp, CommonResp.fromJson r.toJson = .ok (some r)) ∧
      (∀ r : JoinReq, JoinReq.fromJson (r.toJson false) = .ok (some r)) ∧
      (∀ r : JoinResp, JoinResp.fromJson r.toJson = .ok (some r)) ∧
      (∀ r : StatsReq, StatsReq.fromJson (r.toJson false) = .ok (some r)) ∧
      (∀ r : StatsResp, StatsResp.fromJson r.toJson = .ok (some r)) ∧
      (∀ r : CreateTopicReq, CreateTopicReq.fromJson (r.toJson false) = .ok (some r)) ∧
      ∀ cmd description : Bytes,
        (∃ resp, JoinResp.fromJson (CommonResp.toJson ⟨cmd, ascii "error", description⟩) =
            .ok (some resp) ∧ resp.status = ascii "error") ∧
          ∃ resp, StatsResp.fromJson (CommonResp.toJson ⟨cmd, ascii "error", description⟩) =
            .ok (some resp) ∧ resp.status = ascii "error" := by
  refine ⟨commonResp_round_trip, joinReq_round_trip, joinResp_round_trip, statsReq_round_trip,
    statsResp_round_trip, createTopicReq_round_trip, fun cmd description => ⟨?_, ?_⟩⟩
  · exact ⟨_, joinResp_of_commonResp _, rfl⟩
  · exact ⟨_, statsResp_of_commonResp _, rfl⟩

end LightQ
