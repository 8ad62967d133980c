import GCode.Files.Tree
import GCode.Main
import GCode.Proofs.Command.Findings
import GCode.Proofs.Editing.Session
import GCode.Proofs.Evaluation.ComputedIndex
import GCode.Proofs.Evaluation.Extended
import GCode.Proofs.Evaluation.Modulo
import GCode.Proofs.Flavor.CrossLinks
import GCode.Proofs.Flavor.Lookup
import GCode.Proofs.Flavor.Normalized
import GCode.Proofs.Flavor.Plan
import GCode.Proofs.Flavor.Ranges
import GCode.Proofs.Flavor.Registry
import GCode.Proofs.Flavor.Reordered
import GCode.Proofs.Printing.Program
import GCode.Proofs.Reading.Alone
import GCode.Proofs.Reading.Joined
import GCode.Proofs.Reading.Recased
import GCode.Proofs.Reading.Reused
import GCode.Proofs.Scanning.NumberTokens
import GCode.Proofs.Validation.Counts
import GCode.Proofs.Validation.Document
