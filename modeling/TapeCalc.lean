import TapeCalc.Main
import TapeCalc.Proofs.LoopTree
import TapeCalc.Proofs.LoopRun
import TapeCalc.Proofs.Reading
import TapeCalc.Proofs.Effect
import TapeCalc.Proofs.Steps
import TapeCalc.Proofs.StepLimit
import TapeCalc.Proofs.Calls
import TapeCalc.Proofs.Refinement
import TapeCalc.Proofs.Window
import TapeCalc.Proofs.Builtin
import TapeCalc.Proofs.DecimalText
import TapeCalc.Proofs.ExpressionText
import TapeCalc.Proofs.ExpressionRoundTrip
import TapeCalc.Proofs.PowerGuard
import TapeCalc.Proofs.ExactArithmetic
import TapeCalc.Proofs.Calculation
import TapeCalc.Proofs.ModeAgreement
import TapeCalc.Proofs.TapeSize
import TapeCalc.Proofs.RawCells
import TapeCalc.Proofs.LongDivision
import TapeCalc.Proofs.CarryChain
import TapeCalc.Proofs.Schoolbook
import TapeCalc.Proofs.RepeatedProduct
import TapeCalc.Proofs.PowerSize
import TapeCalc.Proofs.Brackets
import TapeCalc.Proofs.Unmatched
import TapeCalc.Proofs.Nesting
import TapeCalc.Proofs.WiderTape
import TapeCalc.Proofs.ConsumedInput
import TapeCalc.Proofs.SingleSteps
import TapeCalc.Proofs.WideEnough
import TapeCalc.Proofs.AfterFailure
import TapeCalc.Proofs.Comments
import TapeCalc.Proofs.LibraryEntries
import TapeCalc.Proofs.WordConversion
import TapeCalc.Proofs.TapeRing
import TapeCalc.Proofs.SmallLetters
import TapeCalc.Proofs.InputLines
import TapeCalc.Proofs.Prompt
import TapeCalc.Proofs.LoopDepth
import TapeCalc.Proofs.RoundTrip
import TapeCalc.Proofs.TransferLoop
import TapeCalc.Proofs.ShortOperations
