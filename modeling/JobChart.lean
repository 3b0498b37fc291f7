import JobChart.Guard.Printer
import JobChart.Main
import JobChart.Proofs.Chain.AlwaysFlag
import JobChart.Proofs.Chain.Grouping
import JobChart.Proofs.Chain.Live
import JobChart.Proofs.Chain.Session
import JobChart.Proofs.Chain.Unbalanced
import JobChart.Proofs.Cli.Conversion
import JobChart.Proofs.Cli.Gates
import JobChart.Proofs.Cli.Outcome
import JobChart.Proofs.Convert.Agreement
import JobChart.Proofs.Diagram.BoxTexts
import JobChart.Proofs.Diagram.Endpoints
import JobChart.Proofs.Diagram.Escaping
import JobChart.Proofs.Diagram.Reach
import JobChart.Proofs.Diagram.StepLabels
import JobChart.Proofs.Diagram.StepWalk
import JobChart.Proofs.Guard.Checked
import JobChart.Proofs.Guard.Literals
import JobChart.Proofs.Guard.Partners
import JobChart.Proofs.Guard.Sparing
import JobChart.Proofs.Guard.Verbatim
import JobChart.Proofs.Workflow.GuardFindings
import JobChart.Proofs.Workflow.IdCollisions
import JobChart.Proofs.Workflow.Sweep
