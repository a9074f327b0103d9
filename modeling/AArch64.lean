import AArch64.BitMasks
import AArch64.Decode.KeyTable
import AArch64.Machine.Debugger
import AArch64.Main
import AArch64.Proofs.LoadOrder
import AArch64.Proofs.ReadOnly
import AArch64.Proofs.StackLimit
import AArch64.Proofs.Budget
import AArch64.Proofs.ProgramCounter
import AArch64.Proofs.Monitor
import AArch64.Proofs.StatusFlags
import AArch64.Proofs.NarrowForms
import AArch64.Proofs.UpperBits
import AArch64.Proofs.ScalarForms
import AArch64.Proofs.Comparison
import AArch64.Proofs.Loading
import AArch64.Proofs.Setup
import AArch64.Proofs.Floats.SignallingNaNs
import AArch64.Proofs.Floats.Comparisons
import AArch64.Proofs.Floats.FromInteger
import AArch64.Proofs.Floats.Widening
import AArch64.Proofs.Integers.CarryChain
import AArch64.Proofs.Integers.Bitfields
import AArch64.Proofs.Integers.LogicalImmediates
import AArch64.Proofs.Integers.Shifts
import AArch64.Proofs.Integers.MultiplyDivide
import AArch64.Proofs.Integers.Words
import AArch64.Proofs.Transfers.WriteBack
import AArch64.Proofs.Transfers.SingleRegister
import AArch64.Proofs.Transfers.Structures
import AArch64.Proofs.Vectors.LaneArithmetic
import AArch64.Proofs.Vectors.Saturation
import AArch64.Proofs.Vectors.LaneShifts
import AArch64.Proofs.Vectors.Halves
import AArch64.Proofs.Vectors.Permutations
import AArch64.Proofs.Vectors.Widening
import AArch64.Proofs.Vectors.TableLookup
import AArch64.Proofs.Vectors.Reductions
import AArch64.Proofs.Vectors.BitManipulation
import AArch64.Proofs.RegisterAccess
import AArch64.Proofs.Memory.Views
import AArch64.Proofs.Images.Encoding
import AArch64.Proofs.Text.Numerals
import AArch64.Proofs.Vectors.LaneViews
import AArch64.Proofs.Images.HeapSymbol
import AArch64.Proofs.Images.Segments
import AArch64.Proofs.Interpreter.StatusBits
import AArch64.Proofs.Vectors.Bytes
