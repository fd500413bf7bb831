import AllParses.Grammar.Blueprint
import AllParses.Main
import AllParses.Proofs.Count
import AllParses.Proofs.Grammar
import AllParses.Proofs.Remainder
import AllParses.Proofs.Characters
import AllParses.Proofs.Comparison
import AllParses.Proofs.Correspondence
import AllParses.Proofs.Agreement
import AllParses.Proofs.Representation
import AllParses.Proofs.Extension
import AllParses.Proofs.Marks
import AllParses.Proofs.Outcome
import AllParses.Proofs.Chains
import AllParses.Proofs.Nesting
import AllParses.Proofs.Failure
import AllParses.Proofs.RightRecursion
import AllParses.Proofs.Folds
import AllParses.Proofs.Walks
import AllParses.Proofs.Distribution
import AllParses.Proofs.LongestFirst
import AllParses.Proofs.Words
import AllParses.Proofs.Recognition
import AllParses.Proofs.Sums
import AllParses.Proofs.Spelling
import AllParses.Proofs.Membership
import AllParses.Proofs.Fields
import AllParses.Proofs.Spans
import AllParses.Proofs.Commitment
import AllParses.Proofs.Conservation
import AllParses.Proofs.Traces
