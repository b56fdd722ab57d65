import NixWire.Base.Bytes
import NixWire.Base.Utf8
import NixWire.Base.Number
import NixWire.Base.Text
import NixWire.Base.Reader
import NixWire.Base.Loop
import NixWire.Base.Lines
import NixWire.Base.Layout
import NixWire.Base.LayoutRead
import NixWire.Base.Padded
import NixWire.Handshake
import NixWire.Ops
import NixWire.Stderr
import NixWire.Wire
import NixWire.Script
import NixWire.WireProofs
import NixWire.Protocol
import NixWire.Layouts
import NixWire.Mirror
import NixWire.Results
import NixWire.HandshakeProofs
import NixWire.Serialize
import NixWire.Negotiation
import NixWire.Reencode
import NixWire.Decompile
import NixWire.Messages
import NixWire.Unpack
import NixWire.Repack
import NixWire.Requests
import NixWire.Responses
import NixWire.Safety
import NixWire.Recording
import NixWire.Tools
import NixWire.Drivers
import NixWire.RawBytes
import NixWire.Chunked
import NixWire.Format
import NixWire.Parse
import NixWire.Values
import NixWire.Blocks
import NixWire.Roundtrip
import NixWire.Base.Steps
import NixWire.Recorder
import NixWire.Paths
import NixWire.Packed
import NixWire.Takeover
import NixWire.Comments
import NixWire.DaemonText
import NixWire.Payloads
import NixWire.Quoted
import NixWire.Fields
import NixWire.Extract
import NixWire.Expect
import NixWire.Assertions
import NixWire.Base.Lag
import NixWire.Live
import NixWire.Replay
import NixWire.Base.Residual
import NixWire.Insertion
import NixWire.Bounds
import NixWire.Sessions
import NixWire.Base.Stamps
import NixWire.Timestamps
import NixWire.WireSync
import NixWire.Base.Tally
import NixWire.Stats
import NixWire.Consumed
import NixWire.Visits
import NixWire.Warnings
import NixWire.Timeline
import NixWire.Unpacked
import NixWire.Commands
import NixWire.Base.Serve
import NixWire.Served
import NixWire.Outcome
import NixWire.Pipes
import NixWire.Verdict
import NixWire.Stall
import NixWire.Sender
import NixWire.Rerun
import NixWire.Accepted
import NixWire.Base.Yields
import NixWire.Authored
import NixWire.Base.Buffered
import NixWire.DiskFull
import NixWire.Base.LineRel
import NixWire.Texts
import NixWire.Base.Trim
import NixWire.Truncated
