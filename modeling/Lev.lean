import Lev.Analysis.Bindings
import Lev.Analysis.Calls
import Lev.Analysis.Reads
import Lev.Arithmetic
import Lev.Attempt
import Lev.Build.Constant
import Lev.Build.Draft
import Lev.Build.Frame
import Lev.Build.Lower
import Lev.Build.MergePoint
import Lev.Command.Arguments
import Lev.Command.Compile
import Lev.Command.Disk
import Lev.Command.Path
import Lev.Command.Plan
import Lev.Command.Usage
import Lev.Doc
import Lev.Environment
import Lev.Error
import Lev.IR.Basic
import Lev.IR.NameScope
import Lev.IR.Printer
import Lev.IR.Shown
import Lev.Identifier
import Lev.Json.Basic
import Lev.Json.Binary64
import Lev.Json.Reader
import Lev.Main
import Lev.Proofs.Agreement
import Lev.Proofs.Appending
import Lev.Proofs.Arities
import Lev.Proofs.Attempt
import Lev.Proofs.BackEdges
import Lev.Proofs.Building
import Lev.Proofs.Cells
import Lev.Proofs.Code
import Lev.Proofs.Compilation
import Lev.Proofs.CompileTime
import Lev.Proofs.Constancy
import Lev.Proofs.ConstantLets
import Lev.Proofs.Constants
import Lev.Proofs.Declarations
import Lev.Proofs.Dependence
import Lev.Proofs.Disputes
import Lev.Proofs.Effects
import Lev.Proofs.Encoding
import Lev.Proofs.Evaluation
import Lev.Proofs.Filled
import Lev.Proofs.Growth
import Lev.Proofs.Linked
import Lev.Proofs.LoadFailures
import Lev.Proofs.Locality
import Lev.Proofs.Loops
import Lev.Proofs.Lowering
import Lev.Proofs.Machine
import Lev.Proofs.Merging
import Lev.Proofs.Moments
import Lev.Proofs.Mutability
import Lev.Proofs.Names
import Lev.Proofs.Preservation
import Lev.Proofs.Reading
import Lev.Proofs.References
import Lev.Proofs.Reports
import Lev.Proofs.Representation
import Lev.Proofs.Resolution
import Lev.Proofs.SharedScopes
import Lev.Proofs.Signatures
import Lev.Proofs.Simulation
import Lev.Proofs.Sound
import Lev.Proofs.Steps
import Lev.Proofs.Visibility
import Lev.Proofs.WellFormed
import Lev.Proofs.Whole
import Lev.Proofs.Wrapping
import Lev.Syntax.Basic
import Lev.Syntax.Load
import Lev.Table
import Lev.Text.Basic
import Lev.Text.Digit
import Lev.Text.Printable
import Lev.Text.Quoted
import Lev.Text.Utf8
import Lev.Toolchain
