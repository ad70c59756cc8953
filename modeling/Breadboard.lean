import Breadboard.Calc.Arithmetic
import Breadboard.Calc.Template
import Breadboard.Main
import Breadboard.Proofs.CallStack
import Breadboard.Proofs.Host
import Breadboard.Proofs.Suspension
import Breadboard.Proofs.Lifecycle
import Breadboard.Proofs.Refinement
import Breadboard.Proofs.Canonical.Sketches
import Breadboard.Proofs.SerialLog
import Breadboard.Proofs.Noninterference
import Breadboard.Proofs.Drive
import Breadboard.Proofs.Schedule
import Breadboard.Proofs.Failure
import Breadboard.Proofs.Overrun
import Breadboard.Proofs.BoardTrace
import Breadboard.Proofs.BoardInvariant
import Breadboard.Proofs.Observers
import Breadboard.Proofs.ErrorReports
import Breadboard.Proofs.Forgetting
import Breadboard.Proofs.FreshStart
import Breadboard.Proofs.Wiring
import Breadboard.Proofs.Circuit.Export
import Breadboard.Proofs.CallTables
import Breadboard.Proofs.Cutting
import Breadboard.Proofs.Compound.SharedLine
import Breadboard.Proofs.Compound.Braces
import Breadboard.Proofs.Parentheses
import Breadboard.Proofs.Spacing.Actions
import Breadboard.Proofs.Arithmetic.Substitution
import Breadboard.Proofs.Spacing.Breaks
import Breadboard.Proofs.Comments
import Breadboard.Proofs.Numbering.Sources
import Breadboard.Proofs.Templates
import Breadboard.Proofs.Circuit.Attaching
import Breadboard.Proofs.Polling
import Breadboard.Proofs.Highlighting
import Breadboard.Proofs.Nesting.Towers
import Breadboard.Proofs.Nesting.Limit
import Breadboard.Proofs.Selection
import Breadboard.Proofs.Scrolling
import Breadboard.Proofs.CommandLine
import Breadboard.Proofs.Separators
import Breadboard.Proofs.BlockSpans
