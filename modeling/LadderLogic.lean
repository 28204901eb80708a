import LadderLogic.Block.CellCache
import LadderLogic.Config.File
import LadderLogic.Config.Json
import LadderLogic.Log.Logger
import LadderLogic.Program.Scan
import LadderLogic.Snapshot
import LadderLogic.Proofs.Scan.Edges
import LadderLogic.Proofs.Scan.Failure
import LadderLogic.Proofs.Scan.Preservation
import LadderLogic.Proofs.Program.Building
import LadderLogic.Proofs.Machine.Scan
import LadderLogic.Proofs.Program.Agenda
import LadderLogic.Proofs.Program.Unwinding
import LadderLogic.Proofs.Rung.Idle
import LadderLogic.Proofs.Rung.Still
import LadderLogic.Proofs.Program.Handles
import LadderLogic.Proofs.Program.Oneshots
import LadderLogic.Proofs.Program.Pulse
import LadderLogic.Proofs.Effect.Pending
import LadderLogic.Proofs.Effect.Transaction
import LadderLogic.Proofs.Drum.Turn
import LadderLogic.Proofs.Drum.Events
import LadderLogic.Proofs.Search.Continuous
import LadderLogic.Proofs.Binary.Exact
import LadderLogic.Proofs.Block.Names
import LadderLogic.Proofs.Pack.Inverse
import LadderLogic.Proofs.Text.RoundTrip
import LadderLogic.Proofs.Scan.Overlay
import LadderLogic.Proofs.Shift.Register
import LadderLogic.Proofs.Effect.PlainCopy
import LadderLogic.Proofs.Program.Numbering
import LadderLogic.Proofs.Scan.Faults
import LadderLogic.Proofs.Effect.BlockCopy
import LadderLogic.Proofs.Search.Representable
import LadderLogic.Proofs.Timer.Run
import LadderLogic.Proofs.Snapshot.RoundTrip
import LadderLogic.Proofs.Instruction.Passes
import LadderLogic.Proofs.Machine.Division
import LadderLogic.Proofs.Block.Addressing
import LadderLogic.Proofs.Block.Windows
import LadderLogic.Proofs.Counter.Run
import LadderLogic.Proofs.Block.Cache
import LadderLogic.Proofs.Text.Grammar
import LadderLogic.Proofs.FileTree.Directories
import LadderLogic.Proofs.Log.Slots
import LadderLogic.Proofs.Log.Rotation
import LadderLogic.Proofs.Log.Run
import LadderLogic.Proofs.Text.Utf8
import LadderLogic.Proofs.Toml.Rows
import LadderLogic.Proofs.Config.Text
import LadderLogic.Proofs.Config.File
