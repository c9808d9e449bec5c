import Propositional.Main
import Propositional.Proofs.CommandLine
import Propositional.Proofs.Enumeration
import Propositional.Proofs.Enumeration.Rows
import Propositional.Proofs.Grafting
import Propositional.Proofs.Grammar
import Propositional.Proofs.Grammar.Words
import Propositional.Proofs.Height
import Propositional.Proofs.Layout
import Propositional.Proofs.Layout.Alignment
import Propositional.Proofs.Outcome
import Propositional.Proofs.Reading.Acceptance
import Propositional.Proofs.Reading.Attention
import Propositional.Proofs.Reading.Chains
import Propositional.Proofs.Reading.Completeness
import Propositional.Proofs.Reading.Cursor
import Propositional.Proofs.Reading.Depth
import Propositional.Proofs.Reading.Descent
import Propositional.Proofs.Reading.Order
import Propositional.Proofs.Reading.Progress
import Propositional.Proofs.Reading.Soundness
import Propositional.Proofs.Reading.Verdict
import Propositional.Proofs.Renaming
import Propositional.Proofs.Renaming.Tables
import Propositional.Proofs.RoundTrip
import Propositional.Proofs.Scanning
import Propositional.Proofs.Scanning.Spacing
import Propositional.Proofs.Scanning.Stray
import Propositional.Proofs.Scanning.Tiling
import Propositional.Proofs.Session
import Propositional.Proofs.Session.History
import Propositional.Proofs.Session.Levels
import Propositional.Proofs.Session.Loops
import Propositional.Proofs.Session.Stripping
import Propositional.Proofs.Substitution
import Propositional.Proofs.Substitution.Meaning
import Propositional.Proofs.Survey
import Propositional.Proofs.Tabulation
import Propositional.Proofs.Tabulation.Building
import Propositional.Proofs.Tabulation.Pass
import Propositional.Proofs.Totality
import Propositional.Proofs.Walks
import Propositional.Proofs.Walks.Columns
import Propositional.Proofs.Walks.Faults
