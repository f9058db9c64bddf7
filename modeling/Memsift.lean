import Memsift.Collection
import Memsift.DataType.Json
import Memsift.FileTree
import Memsift.Main
import Memsift.Memory
import Memsift.Proofs.Runs
import Memsift.Proofs.Narrowing
import Memsift.Proofs.Completed
import Memsift.Proofs.Numbering
import Memsift.Proofs.Reachable
import Memsift.Proofs.SpanElements
import Memsift.Proofs.Successive
import Memsift.Proofs.Position
import Memsift.Proofs.Listing
import Memsift.Proofs.TaskHistory
import Memsift.Proofs.Cancellation
import Memsift.Proofs.Changes
import Memsift.Proofs.Rearranged
import Memsift.Proofs.Coarsening
import Memsift.Proofs.Compilation
import Memsift.Proofs.MaximalRuns
import Memsift.Proofs.Reports
import Memsift.Proofs.TaskCalls
import Memsift.Proofs.IntegerLiterals
import Memsift.Proofs.JsonText
import Memsift.Proofs.StoredConstraints
import Memsift.Proofs.Trimming
import Memsift.Proofs.ModularComparisons
import Memsift.Proofs.GroupHistory
import Memsift.Proofs.Numerals
import Memsift.Proofs.IntegerTexts
import Memsift.Proofs.AddressTexts
import Memsift.Proofs.ChunkSlots
import Memsift.Proofs.PartialMap
