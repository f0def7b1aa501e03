import SpdyStream.Foundation.Words
import SpdyStream.Foundation.Multimap
import SpdyStream.Foundation.Machine
import SpdyStream.Foundation.Settling
import SpdyStream.Foundation.Simulation
import SpdyStream.Foundation.Splitting
import SpdyStream.Framing.Frame
import SpdyStream.Framing.Http
import SpdyStream.Framing.HeaderBlock
import SpdyStream.Framing.HeaderRoundTrip
import SpdyStream.Framing.Zlib
import SpdyStream.Framing.Dictionary
import SpdyStream.Framing.Framer
import SpdyStream.Framing.Reference
import SpdyStream.Framing.FrameRoundTrip
import SpdyStream.Framing.Decompression
import SpdyStream.Framing.ReadLoop
import SpdyStream.Framing.Received
import SpdyStream.Framing.HeaderGrammar
import SpdyStream.Framing.FrameBoundary
import SpdyStream.Framing.Canonical
import SpdyStream.Framing.Truncated
import SpdyStream.Framing.Unambiguous
import SpdyStream.Framing.WordSize
import SpdyStream.Session.Stream
import SpdyStream.Session.Connection
import SpdyStream.Session.Steps
import SpdyStream.Session.OwnSteps
import SpdyStream.Session.Registry
import SpdyStream.Session.Routing
import SpdyStream.Session.Admission
import SpdyStream.Session.Delivery
import SpdyStream.Session.GoAway
import SpdyStream.Session.Calls
import SpdyStream.Session.LocalFin
import SpdyStream.Session.Reset
import SpdyStream.Session.OneStream
import SpdyStream.Session.ReplyGate
import SpdyStream.Session.FinStored
import SpdyStream.Session.Wakeups
import SpdyStream.Session.Settling
import SpdyStream.Session.Finished
import SpdyStream.Session.Readers
import SpdyStream.Session.Teardown
import SpdyStream.Session.WriteOrder
import SpdyStream.Session.Backlog
import SpdyStream.Session.AtRest
import SpdyStream.Session.Stalled
import SpdyStream.Session.ShutDown
import SpdyStream.Session.CallOutcomes
import SpdyStream.Session.CallOrder
import SpdyStream.Session.CloseOnce
import SpdyStream.Session.HalfClosed
import SpdyStream.Session.EndOfStream
import SpdyStream.Session.Drained
import SpdyStream.Session.ReadHalf
import SpdyStream.Session.Handle
import SpdyStream.Session.ReadOrder
import SpdyStream.Session.PollBytes
import SpdyStream.Session.PollEnd
import SpdyStream.Session.PollWake
import SpdyStream.Session.PingSteps
import SpdyStream.Session.Pings
import SpdyStream.Session.PingLeaks
import SpdyStream.Session.Echo
import SpdyStream.Session.Sequential
import SpdyStream.Session.Shadow
import SpdyStream.Session.ShadowTask
import SpdyStream.Session.Isolation
import SpdyStream.Upgrade.Text
import SpdyStream.Upgrade.Server
import SpdyStream.Upgrade.BlankLine
import SpdyStream.Upgrade.RequestRoundTrip
import SpdyStream.Upgrade.RequestGrammar
import SpdyStream.Wire.Endpoint
import SpdyStream.Wire.Inbound
import SpdyStream.Wire.Outbound
import SpdyStream.Wire.Spoken
import SpdyStream.Wire.Accepted
import SpdyStream.Wire.Ended
import SpdyStream.Wire.Served
