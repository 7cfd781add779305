import Calculator.Main
import Calculator.Cursor.Desk
import Calculator.Proofs.Blank.Evaluate
import Calculator.Proofs.Scan.Tokenization
import Calculator.Proofs.Parse.Bookkeeping
import Calculator.Proofs.Limits
import Calculator.Proofs.Location
import Calculator.Proofs.Written
import Calculator.Proofs.Composition
import Calculator.Proofs.Markup
import Calculator.Proofs.Session
import Calculator.Proofs.Modes
import Calculator.Proofs.CommandLine.Decoding
import Calculator.Proofs.Reprint
import Calculator.Proofs.SignOfZero
import Calculator.Proofs.Exact.Evaluate
import Calculator.Proofs.Message
import Calculator.Proofs.TreeBounds
import Calculator.Proofs.Decimal.Distinct
import Calculator.Proofs.Polish
import Calculator.Proofs.Nearest.Numeral
import Calculator.Proofs.Decimal.Fixed
import Calculator.Proofs.Cursor.Slice
