import LightQ.Lib.FrameLog
import LightQ.Storage.FailedAppend
import LightQ.Storage.SendFile
import LightQ.Storage.ReadMsg
import LightQ.Storage.BrokerStorage
import LightQ.Storage.FileToConsumer
import LightQ.Queue.Accounting
import LightQ.Lib.Episodes
import LightQ.Queue.ProcessConsumers
import LightQ.Admin.Picojson
import LightQ.Admin.AdminCmd
import LightQ.Admin.Broker
import LightQ.Admin.BrokerManager
import LightQ.Admin.Replies
import LightQ.Admin.AdminLoop
import LightQ.Admin.Access
import LightQ.Storage.ReadPosition
import LightQ.Queue.QueueToFile
import LightQ.Socket.SentLog
import LightQ.Socket.WholeMessages
import LightQ.Socket.Waiting
import LightQ.Storage.Restart
import LightQ.Admin.TopicFiles
import LightQ.Queue.ProcessProducers
import LightQ.Queue.BothModes
import LightQ.Admin.JoinUris
import LightQ.Admin.JoinEndpoints
import LightQ.Admin.Casts
import LightQ.Socket.Framing
import LightQ.Socket.DirectDelivery
import LightQ.Socket.PubSub
import LightQ.Queue.Stats
import LightQ.Admin.CreateTopic
import LightQ.Admin.Secrecy
import LightQ.Storage.CurrentFile
import LightQ.Storage.BufferBounds
import LightQ.Socket.EndOfStream
import LightQ.Socket.ReceiveBuffer
import LightQ.Socket.WouldBlock
import LightQ.Socket.OneConsumer
import LightQ.Socket.BoundReader
import LightQ.Socket.Overloads
import LightQ.Utils.Replace
import LightQ.Utils.HostPort
import LightQ.Utils.ReadLine
import LightQ.Utils.Zlib
import LightQ.Admin.Ports
import LightQ.Socket.RoundRobin
import LightQ.Client.Handles
import LightQ.Storage.Placement
import LightQ.Queue.TopicQueueRuns
import LightQ.Admin.Grammar
import LightQ.Socket.SoleConsumer
import LightQ.Socket.ConcurrentSend
import LightQ.Queue.Draining
import LightQ.Client.Sessions
import LightQ.Client.Publish
