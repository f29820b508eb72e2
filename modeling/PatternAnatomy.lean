import PatternAnatomy.Decoration.Order
import PatternAnatomy.Expectation
import PatternAnatomy.Files.Directory
import PatternAnatomy.Main
import PatternAnatomy.Proofs.Call.Joining
import PatternAnatomy.Proofs.Call.Literal
import PatternAnatomy.Proofs.Call.Location
import PatternAnatomy.Proofs.Color.Mixture
import PatternAnatomy.Proofs.Command.Redirection
import PatternAnatomy.Proofs.Decoration.Meaning
import PatternAnatomy.Proofs.Decoration.Neighbours
import PatternAnatomy.Proofs.Decoration.Nesting
import PatternAnatomy.Proofs.Decoration.Precedence
import PatternAnatomy.Proofs.Decoration.Recovery
import PatternAnatomy.Proofs.Decoration.Stretches
import PatternAnatomy.Proofs.Failure.Expectation
import PatternAnatomy.Proofs.Failure.Message
import PatternAnatomy.Proofs.Failure.Order
import PatternAnatomy.Proofs.Grammar.Concatenation
import PatternAnatomy.Proofs.Grammar.Quantifier
import PatternAnatomy.Proofs.Grammar.Recursion
import PatternAnatomy.Proofs.Grammar.Renaming
import PatternAnatomy.Proofs.Node.NormalForm
import PatternAnatomy.Proofs.Node.Outline
import PatternAnatomy.Proofs.Node.Ranges
import PatternAnatomy.Proofs.Settings.Resolution
import PatternAnatomy.Proofs.Span.Overlap
