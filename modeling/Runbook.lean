import Runbook.Config.File
import Runbook.Definition.File
import Runbook.Definition.Writer
import Runbook.Json.Writer
import Runbook.Proofs.Bookkeeping
import Runbook.Proofs.Condition.ExitCode
import Runbook.Proofs.Config.Nested
import Runbook.Proofs.Config.Use
import Runbook.Proofs.Definition.Refusal
import Runbook.Proofs.Definition.Stores
import Runbook.Proofs.Definition.WorkflowRoundTrip
import Runbook.Proofs.File.Failures
import Runbook.Proofs.Review.Reachability
import Runbook.Proofs.Review.Validity
import Runbook.Proofs.Run.Cap
import Runbook.Proofs.Run.Captures
import Runbook.Proofs.Run.Conditional
import Runbook.Proofs.Run.Filling
import Runbook.Proofs.Run.Inert
import Runbook.Proofs.Run.LastResult
import Runbook.Proofs.Run.Lookup
import Runbook.Proofs.Run.Origins
import Runbook.Proofs.Run.Paths
import Runbook.Proofs.Run.Results
import Runbook.Proofs.Run.Session
import Runbook.Proofs.Sanitize.FreeText
import Runbook.Proofs.Sanitize.JsonText
import Runbook.Proofs.Sanitize.Names
import Runbook.Proofs.Sanitize.Slashes
import Runbook.Proofs.Security.Aggregation
import Runbook.Proofs.Security.Appending
import Runbook.Proofs.ShellFunction.Accounting
import Runbook.Proofs.ShellFunction.CaseArms
import Runbook.Proofs.ShellFunction.Comments
import Runbook.Proofs.ShellFunction.ConvertedRun
import Runbook.Proofs.ShellFunction.Declared
import Runbook.Proofs.ShellFunction.Extraction
import Runbook.Proofs.ShellFunction.Positions
import Runbook.Proofs.ShellFunction.Printer
import Runbook.Proofs.ShellFunction.Requoting
import Runbook.Proofs.ShellFunction.Variables
import Runbook.Proofs.Template.Dependence
import Runbook.Proofs.Template.Levels
import Runbook.Review.Workflow
import Runbook.Run.SavedCommand
import Runbook.Run.Script
import Runbook.Sanitize.Input
import Runbook.Shell.Process
import Runbook.ShellFunction.Conversion
