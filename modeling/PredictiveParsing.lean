import PredictiveParsing.Main
import PredictiveParsing.Session.Basic
import PredictiveParsing.Session.Datum
import PredictiveParsing.Proofs.Expression.Reading
import PredictiveParsing.Proofs.Running
import PredictiveParsing.Proofs.Tokens
import PredictiveParsing.Proofs.Expression.Grouping
import PredictiveParsing.Proofs.Expression.ReadBack
import PredictiveParsing.Proofs.Grammar.FirstSets
import PredictiveParsing.Proofs.Grammar.Reaching
import PredictiveParsing.Proofs.Grammar.Predicting
import PredictiveParsing.Proofs.Grammar.Standstill
import PredictiveParsing.Proofs.Grammar.Validation
import PredictiveParsing.Proofs.Safe
import PredictiveParsing.Proofs.Expression.Safety
import PredictiveParsing.Proofs.Grammar.Safety
import PredictiveParsing.Proofs.Alike
import PredictiveParsing.Proofs.Expression.Alike
import PredictiveParsing.Proofs.Grammar.Depth
import PredictiveParsing.Proofs.Grammar.Choosing
import PredictiveParsing.Proofs.Grammar.Unfolding
import PredictiveParsing.Proofs.Grammar.Reordering
import PredictiveParsing.Proofs.Grammar.Valid
import PredictiveParsing.Proofs.Halting
import PredictiveParsing.Proofs.Expression.Halting
import PredictiveParsing.Proofs.Grammar.Terminating
import PredictiveParsing.Proofs.Grammar.Relabelling
import PredictiveParsing.Proofs.Sharing.Keeping
import PredictiveParsing.Proofs.Sharing.Copying
import PredictiveParsing.Proofs.Lexing.Operating
import PredictiveParsing.Proofs.Lexing.Lossless
import PredictiveParsing.Proofs.Grammar.Advancing
import PredictiveParsing.Proofs.Nesting
import PredictiveParsing.Proofs.Expression.Nesting
import PredictiveParsing.Proofs.Grammar.Nesting
import PredictiveParsing.Proofs.Leaves
import PredictiveParsing.Proofs.Expression.Leaves
import PredictiveParsing.Proofs.Grammar.Leaves
import PredictiveParsing.Proofs.Reporting
import PredictiveParsing.Proofs.Expression.Reporting
import PredictiveParsing.Proofs.Grammar.Reporting
import PredictiveParsing.Proofs.Expression.Growing
import PredictiveParsing.Proofs.Expression.Evaluation
import PredictiveParsing.Proofs.Expression.Evaluating
import PredictiveParsing.Proofs.Grammar.Deciding
import PredictiveParsing.Proofs.Languages.Lambda
import PredictiveParsing.Proofs.Languages.Pi
import PredictiveParsing.Proofs.Regex.Running
import PredictiveParsing.Proofs.Lexing.Scanning
import PredictiveParsing.Proofs.Languages.Identifiers
import PredictiveParsing.Proofs.Languages.Printing
import PredictiveParsing.Proofs.Expression.Settling
import PredictiveParsing.Proofs.Languages.Numbers
import PredictiveParsing.Proofs.Languages.Arithmetic
import PredictiveParsing.Proofs.Languages.Calculator
import PredictiveParsing.Proofs.Grammar.LeastFirst
import PredictiveParsing.Proofs.Grammar.LeftCorners
import PredictiveParsing.Proofs.Lexing.PlainScan
import PredictiveParsing.Proofs.Languages.PrintedProcesses
import PredictiveParsing.Proofs.Forms
import PredictiveParsing.Proofs.Expression.Forms
import PredictiveParsing.Proofs.Grammar.Forms
import PredictiveParsing.Proofs.Languages.Forms
import PredictiveParsing.Proofs.Grammar.Repeating
import PredictiveParsing.Proofs.Grammar.Emptiness
import PredictiveParsing.Proofs.Expression.Ranking
import PredictiveParsing.Proofs.Expression.Transparency
import PredictiveParsing.Proofs.Source.Places
import PredictiveParsing.Proofs.Underlining
import PredictiveParsing.Proofs.Regex.Matching
import PredictiveParsing.Proofs.Regex.Enclosing
import PredictiveParsing.Proofs.Regex.Anchoring
import PredictiveParsing.Proofs.Lexing.Literals
import PredictiveParsing.Proofs.Lexing.CursorMoves
import PredictiveParsing.Proofs.Source.ReadingOrder
