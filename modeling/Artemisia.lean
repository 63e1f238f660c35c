import Artemisia.Lib.Machine
import Artemisia.Lib.LinkedQueue
import Artemisia.Lib.Handshake
import Artemisia.Lib.Codec
import Artemisia.Lib.Memory
import Artemisia.Lib.Receipt
import Artemisia.Lib.Utf8
import Artemisia.Lib.Wildcard
import Artemisia.Lib.Literal
import Artemisia.Lib.Stream
import Artemisia.Lib.Handles
import Artemisia.Lib.Split
import Artemisia.Property.Datatypes
import Artemisia.Property.Writers
import Artemisia.Property.List
import Artemisia.Property.Write
import Artemisia.Property.Section
import Artemisia.Property.Swift
import Artemisia.Property.Utf8
import Artemisia.Property.Utf8Memory
import Artemisia.Property.Raw
import Artemisia.Property.Copy
import Artemisia.Property.Prefix
import Artemisia.Property.BinaryData
import Artemisia.Topic.Match
import Artemisia.Client.Types
import Artemisia.Client.Messages
import Artemisia.Client.Handlers
import Artemisia.Client.Actions
import Artemisia.Client.Tails
import Artemisia.Client.Connect
import Artemisia.Client.Frames
import Artemisia.Client.Store
import Artemisia.Client.Quota
import Artemisia.Client.Subscribe
import Artemisia.Client.Sends
import Artemisia.Client.Counted
import Artemisia.Client.Sendings
import Artemisia.Client.Release
import Artemisia.Client.Handed
import Artemisia.Client.Refused
import Artemisia.Client.Will
import Artemisia.Client.Config
import Artemisia.Topic.Check
import Artemisia.Topic.Subscriber
import Artemisia.Wire.Packet
import Artemisia.Wire.Framing
import Artemisia.Wire.Writer
import Artemisia.Wire.Publish
import Artemisia.Topic.Delivery
import Artemisia.Inbound.Receive
import Artemisia.Inbound.Session
import Artemisia.Inbound.ExactlyOnce
import Artemisia.Inbound.FreshSession
import Artemisia.Threads.System
import Artemisia.Threads.Moves
import Artemisia.Threads.Outflow
import Artemisia.Threads.Liveness
import Artemisia.Threads.Disconnect
import Artemisia.Threads.Closing
import Artemisia.Threads.Connected
import Artemisia.Threads.Flow
import Artemisia.Threads.Stranded
import Artemisia.Threads.Republish
import Artemisia.Threads.Calls
import Artemisia.Threads.StoreInvariant
import Artemisia.Threads.Sendings
import Artemisia.Threads.Dup
import Artemisia.Threads.SendOrder
import Artemisia.Threads.PacketIds
import Artemisia.Threads.NoLoss
import Artemisia.Threads.Limits
import Artemisia.Threads.Sides
import Artemisia.Threads.Overlap
import Artemisia.Threads.ConnectFirst
import Artemisia.Threads.Clock
import Artemisia.Threads.Keepalive
import Artemisia.Threads.Backoff
import Artemisia.Threads.Upstream
import Artemisia.Threads.Delivered
import Artemisia.Swift.Version
import Artemisia.Swift.SameConnect
import Artemisia.Swift.Options
import Artemisia.Swift.Publish
import Artemisia.Wire.Oversize
import Artemisia.Wire.Connect
import Artemisia.Wire.Requests
import Artemisia.Wire.Link
import Artemisia.Wire.Incoming
import Artemisia.Tls.Options
import Artemisia.Tls.Connect
import Artemisia.Tls.Plaintext
import Artemisia.Inbound.Window
import Artemisia.Net.Descriptors
import Artemisia.Threads.Locks
import Artemisia.Threads.Sockets
import Artemisia.Threads.Wakeup
import Artemisia.Client.Heap
