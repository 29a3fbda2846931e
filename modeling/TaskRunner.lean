import TaskRunner.Main
import TaskRunner.Proofs.Segmentation
import TaskRunner.Proofs.Interpretation
import TaskRunner.Proofs.Keys
import TaskRunner.Proofs.Reading
import TaskRunner.Proofs.Spelling
import TaskRunner.Proofs.Printing
import TaskRunner.Proofs.Statements
import TaskRunner.Proofs.Recognition
import TaskRunner.Proofs.Phrases
import TaskRunner.Proofs.Loop
import TaskRunner.Proofs.ExpressionTrees
import TaskRunner.Proofs.PhraseTrees
import TaskRunner.Proofs.RoundTrip
import TaskRunner.Proofs.Placement
import TaskRunner.Proofs.Refusals
import TaskRunner.Proofs.Causality
import TaskRunner.Proofs.Variables
import TaskRunner.Proofs.Extension
import TaskRunner.Proofs.Concatenation
import TaskRunner.Proofs.ControlFlow
import TaskRunner.Proofs.Order
import TaskRunner.Proofs.ReadScript
import TaskRunner.Proofs.SideBySide
import TaskRunner.Proofs.LineEnds
import TaskRunner.Proofs.Stopping
import TaskRunner.Proofs.ByteOrder
import TaskRunner.Proofs.Registration
import TaskRunner.Proofs.Shown
import TaskRunner.Proofs.TreeText
import TaskRunner.Proofs.Rounding
import TaskRunner.Proofs.ShortestDecimal
import TaskRunner.Proofs.JsonText
import TaskRunner.Proofs.JsonPrint
import TaskRunner.Proofs.Inspection
import TaskRunner.Proofs.Faults
import TaskRunner.Proofs.Pasting
import TaskRunner.Proofs.ExitCodes
import TaskRunner.Proofs.Precedence
import TaskRunner.Proofs.Inlining
import TaskRunner.Proofs.Ranges
import TaskRunner.Proofs.HelpLines
import TaskRunner.Proofs.Underline
import TaskRunner.Proofs.ReportedLine
import TaskRunner.Proofs.SixPlaces
import TaskRunner.Proofs.UsageColumns
import TaskRunner.Proofs.Colours
import TaskRunner.Proofs.ScriptSearch
import TaskRunner.Proofs.Literals
