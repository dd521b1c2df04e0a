import SyscallTrace.Command.Run
import SyscallTrace.Event
import SyscallTrace.FileTree
import SyscallTrace.Main
import SyscallTrace.Proofs.Argument.AddressArguments
import SyscallTrace.Proofs.Argument.CursorAgreement
import SyscallTrace.Proofs.Argument.Flags
import SyscallTrace.Proofs.Argument.Integers
import SyscallTrace.Proofs.Argument.PollArrays
import SyscallTrace.Proofs.Argument.Resplitting
import SyscallTrace.Proofs.Argument.StatFields
import SyscallTrace.Proofs.Argument.StringArrays
import SyscallTrace.Proofs.Argument.Truncation
import SyscallTrace.Proofs.Detection
import SyscallTrace.Proofs.Line.DetectedColumns
import SyscallTrace.Proofs.Line.ElapsedDetection
import SyscallTrace.Proofs.Line.PollReports
import SyscallTrace.Proofs.Line.PrintedResumption
import SyscallTrace.Proofs.Pending.Conservation
import SyscallTrace.Proofs.Record.Json
import SyscallTrace.Proofs.Session.Diagnostics
import SyscallTrace.Proofs.Session.Interleaving
import SyscallTrace.Proofs.Session.Interruption
import SyscallTrace.Proofs.Session.RecordShape
import SyscallTrace.Proofs.Session.Slots
import SyscallTrace.Proofs.Timestamp.Clock
import SyscallTrace.Proofs.Timestamp.Seconds
