import AdbClient.Guarantees.RequestFraming
import AdbClient.Guarantees.TransportHandshake
import AdbClient.Guarantees.TransportRefusal
import AdbClient.Guarantees.ReplyReassembly
import AdbClient.Guarantees.HostFailure
import AdbClient.Guarantees.DeviceListing
import AdbClient.Guarantees.BufferIsolation
import AdbClient.Guarantees.CallConnection
import AdbClient.Guarantees.WakeUp
import AdbClient.Guarantees.LostUpdate
import AdbClient.Guarantees.TrackedUpdates
import AdbClient.Guarantees.ShellData
import AdbClient.Guarantees.Screencap
import AdbClient.Source.CallHistory
import AdbClient.Guarantees.HistoryIndependence
import AdbClient.Guarantees.Acknowledgement
import AdbClient.Guarantees.SerialRequests
import AdbClient.Guarantees.TwoPieces
import AdbClient.Guarantees.DeviceLines
import AdbClient.Guarantees.Lines
import AdbClient.Guarantees.SpaceRuns
import AdbClient.Guarantees.Version
import AdbClient.Guarantees.TwoHandshakes
import AdbClient.Guarantees.DeviceFields
import AdbClient.Guarantees.ShortListing
import AdbClient.Guarantees.ReverseListing
import AdbClient.Guarantees.ReadBounds
import AdbClient.Guarantees.UniqueSpaces
import AdbClient.Guarantees.ProtocolString
import AdbClient.Abstract.SequentialObject
import AdbClient.Guarantees.Interleaving
import AdbClient.Guarantees.CallReturns
import AdbClient.Source.EventLoop
import AdbClient.Source.EventLoopThread
import AdbClient.Guarantees.LoopStart
import AdbClient.Guarantees.FirstCall
import AdbClient.Guarantees.ConnectionBounds
import AdbClient.Guarantees.ConnectionWire
import AdbClient.Guarantees.Agreement
import AdbClient.Guarantees.NoSocket
import AdbClient.Guarantees.TrackedReads
import AdbClient.Guarantees.PartialListings
import AdbClient.Guarantees.RequestIdentity
import AdbClient.Guarantees.FormattedText
import AdbClient.Guarantees.LoopLifetime
import AdbClient.Guarantees.LoopStop
import AdbClient.Guarantees.LoopInside
import AdbClient.Source.LoopedExecution
import AdbClient.Guarantees.FromTheStart
import AdbClient.Guarantees.OpenConnection
import AdbClient.Guarantees.TimelyStarts
import AdbClient.Support.Outcome
import AdbClient.Guarantees.CallbackFailures
import AdbClient.Guarantees.TimelyCalls
import AdbClient.Source.Destruction
import AdbClient.Guarantees.Destruction
