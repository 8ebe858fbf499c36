import StackVM.Session
import StackVM.Proofs.WellFormedStack
import StackVM.Proofs.Endings
import StackVM.Proofs.Variables
import StackVM.Proofs.MemoryModel
import StackVM.Proofs.SingleBinding
import StackVM.Proofs.SplitMemory
import StackVM.Proofs.Steps
import StackVM.Proofs.CellOrigin
import StackVM.Proofs.StoreHistory
import StackVM.Proofs.StackLimit
import StackVM.Proofs.Block
import StackVM.Proofs.WordArithmetic
import StackVM.Proofs.Expression
import StackVM.Proofs.ExpressionCode
import StackVM.Proofs.ControlFlow
import StackVM.Proofs.Locality
import StackVM.Proofs.Transitions
import StackVM.Proofs.Redirect
import StackVM.Proofs.Insertion
import StackVM.Proofs.Recurrence
import StackVM.Proofs.Numerals
import StackVM.Proofs.QuotedText
import StackVM.Proofs.TextLines
import StackVM.Proofs.ListingDecoder
import StackVM.Proofs.Unrolling
import StackVM.Proofs.Translation
import StackVM.Proofs.Renaming
import StackVM.Proofs.Frame
import StackVM.Proofs.BitVectors
import StackVM.Proofs.ForwardProgram
import StackVM.Proofs.FreshRun
import StackVM.Proofs.Assignment
import StackVM.Proofs.IncrementLoop
import StackVM.Proofs.Writing
import StackVM.Proofs.Taking
import StackVM.Proofs.Descriptions
import StackVM.Proofs.FaultText
import StackVM.Proofs.Residue
