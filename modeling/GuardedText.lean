import GuardedText.Main
import GuardedText.Proofs.Condition.RoundTrip
import GuardedText.Proofs.Process.Concatenation
import GuardedText.Proofs.Selection.Scan
import GuardedText.Proofs.Statement.Partition
import GuardedText.Proofs.Statement.Written
import GuardedText.Proofs.Process.Location
import GuardedText.Proofs.Process.Influence
import GuardedText.Proofs.Process.Fidelity
import GuardedText.Proofs.Selection.Loop
import GuardedText.Proofs.Document.FirstFault
import GuardedText.Proofs.Condition.FirstFault
import GuardedText.Proofs.Process.FixedPoint
import GuardedText.Proofs.Selection.Inert
import GuardedText.Proofs.Directive.Textual
import GuardedText.Proofs.Statement.Closing
import GuardedText.Proofs.Process.PlainText
import GuardedText.Proofs.Document.Nesting
import GuardedText.Proofs.Json.Grammar
import GuardedText.Proofs.Json.Writing
import GuardedText.Proofs.Text.Pieces
import GuardedText.Proofs.Document.Json
import GuardedText.Proofs.Document.Drawing
import GuardedText.Proofs.Condition.Parentheses
import GuardedText.Proofs.Condition.InOrder
import GuardedText.Proofs.Text.LongestMatch
import GuardedText.Proofs.Statement.Positions
import GuardedText.Proofs.Condition.LongestMatch
