import Microbench.Main
import Microbench.Proofs.Machine
import Microbench.Proofs.Operands
import Microbench.Proofs.WrittenLine
import Microbench.Proofs.Mips.Processor
import Microbench.Proofs.Mips.Reader
import Microbench.Proofs.AArch64.Processor
import Microbench.Proofs.AArch64.Reader
import Microbench.Proofs.Assembly
import Microbench.Proofs.BuiltTarget
import Microbench.Proofs.Operations
import Microbench.Proofs.ControlFlow
import Microbench.Proofs.Effects
import Microbench.Proofs.Labels
import Microbench.Proofs.Frames
import Microbench.Proofs.MultiplyBody
import Microbench.Proofs.Acts
import Microbench.Proofs.Conventions
import Microbench.Proofs.MultiplyRoutine
import Microbench.Proofs.MultiplyRun
import Microbench.Proofs.Cycles
import Microbench.Proofs.ChainFlaws
import Microbench.Proofs.RandomChains
import Microbench.Proofs.CycleRoutine
import Microbench.Proofs.ChainReader
import Microbench.Proofs.CycleRun
import Microbench.Proofs.BranchReach
import Microbench.Proofs.MultiplyReach
import Microbench.Proofs.CycleReach
import Microbench.Proofs.ChainOrders
import Microbench.Proofs.HeaderReader
import Microbench.Proofs.Headers
import Microbench.Proofs.DiskChanges
import Microbench.Proofs.RunSteps
import Microbench.Proofs.Plans
import Microbench.Proofs.RunChecks
import Microbench.Proofs.RunTexts
import Microbench.Proofs.RunOutputs
import Microbench.Proofs.SeededFiles
import Microbench.Proofs.RunFailures
import Microbench.Proofs.Toml.Strings
import Microbench.Proofs.Toml.Values
import Microbench.Proofs.Toml.Sections
import Microbench.Proofs.SavedSettings
import Microbench.Proofs.LinkedOrders
import Microbench.Proofs.PoolFaults
import Microbench.Proofs.FrameLayout
import Microbench.Proofs.Transfers
import Microbench.Proofs.RoutineLines
import Microbench.Proofs.RoutineTransfers
import Microbench.Proofs.CountedBranch
import Microbench.Proofs.FrameRange
import Microbench.Proofs.LabelsResolve
import Microbench.Proofs.DelaySlots
import Microbench.Proofs.ListingReader
import Microbench.Proofs.MissingKeys
import Microbench.Proofs.TableReader
import Microbench.Proofs.NearestSettings
import Microbench.Proofs.SplitLines
