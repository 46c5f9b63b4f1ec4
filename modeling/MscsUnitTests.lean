import MscsUnitTests.Lib.Bytes
import MscsUnitTests.Lib.Words
import MscsUnitTests.Lib.Loop
import MscsUnitTests.Lib.Files
import MscsUnitTests.Rng
import MscsUnitTests.Rng.States
import MscsUnitTests.Corpus
import MscsUnitTests.Corpus.Hash
import MscsUnitTests.Corpus.Order
import MscsUnitTests.Corpus.RoundTrip
import MscsUnitTests.Corpus.Accounting
import MscsUnitTests.Frame.Wire
import MscsUnitTests.Frame.Drive
import MscsUnitTests.Frame.Cases
import MscsUnitTests.Lib.History
import MscsUnitTests.Frame.Harness
import MscsUnitTests.Frame.Trace
import MscsUnitTests.Frame.Verdict
import MscsUnitTests.Frame.Replay
import MscsUnitTests.Frame.Repro
import MscsUnitTests.Frame.CorpusReplay
import MscsUnitTests.Frame.Bounds
import MscsUnitTests.Frame.Delivery
import MscsUnitTests.Frame.ShortReads
import MscsUnitTests.Lib.Traced
import MscsUnitTests.Frame.Access
import MscsUnitTests.Block.Blocks
import MscsUnitTests.Block.Access
import MscsUnitTests.Block.Harness
import MscsUnitTests.Block.Runs
import MscsUnitTests.Block.Oracle
import MscsUnitTests.Block.Revoke
import MscsUnitTests.Lib.Edits
import MscsUnitTests.Block.Script
import MscsUnitTests.Block.Replay
import MscsUnitTests.Block.Promote
import MscsUnitTests.Ci.Report
import MscsUnitTests.Ci.Wiring
import MscsUnitTests.Ci.Status
import MscsUnitTests.Ci.Suites
import MscsUnitTests.Lib.Conditionals
import MscsUnitTests.Ci.Linking
import MscsUnitTests.Lib.Lines
import MscsUnitTests.Lib.PyText
import MscsUnitTests.Ci.PostBuild
import MscsUnitTests.Lib.Regex
import MscsUnitTests.Ci.Commands
import MscsUnitTests.Ci.Declared
import MscsUnitTests.Ci.StatusLines
import MscsUnitTests.Ci.Security
import MscsUnitTests.Lib.Shell
import MscsUnitTests.Hooks.PrePush
import MscsUnitTests.Lib.Unicode
import MscsUnitTests.Seal.Wide
import MscsUnitTests.Seal.Vector
import MscsUnitTests.Lib.Transitions
import MscsUnitTests.LinkCost.Window
import MscsUnitTests.SealScan.Wire
import MscsUnitTests.SealScan.Bcast
import MscsUnitTests.FrameGate.Sweep
import MscsUnitTests.Frame.Spin
import MscsUnitTests.Mesh.NullModem
import MscsUnitTests.Runner.Framework
import MscsUnitTests.Hooks.CommitMsg
import MscsUnitTests.Scripts.Sanitizers
import MscsUnitTests.Frame.Ceiling
import MscsUnitTests.Lib.Drawn
import MscsUnitTests.Mutators
import MscsUnitTests.Rng.Stream
import MscsUnitTests.Lib.Vectors
import MscsUnitTests.Seal.Verify
import MscsUnitTests.Seal.Scheme
import MscsUnitTests.Seal.SumScheme
import MscsUnitTests.Seal.Genuine
import MscsUnitTests.Seal.Emit
import MscsUnitTests.LinkCost.Progress
import MscsUnitTests.Lib.Monitor
import MscsUnitTests.PerfAb.Wait
import MscsUnitTests.Lib.SharedStream
import MscsUnitTests.AuthRelay.Relay
import MscsUnitTests.Lib.Watchdog
import MscsUnitTests.Watchdogs
import MscsUnitTests.Lib.Numerals
import MscsUnitTests.Lib.Arguments
import MscsUnitTests.CommandLines
import MscsUnitTests.TeardownStress.Churn
import MscsUnitTests.PumpBound.Bound
import MscsUnitTests.Lib.Fields
import MscsUnitTests.Ci.Attributes
import MscsUnitTests.Ci.Sources
import MscsUnitTests.Ci.Script
import MscsUnitTests.Lib.Network
import MscsUnitTests.Lib.WideText
import MscsUnitTests.Payload
import MscsUnitTests.Mesh.Delivery
import MscsUnitTests.GcmDirection.Replies
import MscsUnitTests.HubWake.Burst
import MscsUnitTests.HubWake.Main
import MscsUnitTests.Lib.Isolation
import MscsUnitTests.TempFiles
import MscsUnitTests.HubSnap.Monitor
import MscsUnitTests.Waits
