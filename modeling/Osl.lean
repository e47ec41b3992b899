import Osl.Main
import Osl.Proofs.Compile.Workspace
import Osl.Proofs.Machine.Operands
import Osl.Syntax.Printer
import Osl.Proofs.Machine.Code
import Osl.Proofs.Expr.Located
import Osl.Proofs.Machine.Fragment
import Osl.Proofs.Expr.Evaluation
import Osl.Proofs.Statement.Located
import Osl.Proofs.Machine.Routine
import Osl.Proofs.Executor.Execution
import Osl.Proofs.Machine.Cells
import Osl.Proofs.Machine.Output
import Osl.Proofs.Integer.LaidOut
import Osl.Proofs.Integer.Simulation
import Osl.Proofs.Arena.Initial
import Osl.Proofs.Integer.Correctness
import Osl.Proofs.Machine.Confinement
import Osl.Proofs.Machine.Stage
import Osl.Proofs.Executor.CodeIntegrity
import Osl.Proofs.Executor.SavedStack
import Osl.Proofs.Machine.ScratchStack
import Osl.Proofs.Isolation.Extent
import Osl.Proofs.Isolation.Careful
import Osl.Proofs.Isolation.Tidy
import Osl.Proofs.Isolation.Evaluation
import Osl.Proofs.Isolation.Store
import Osl.Proofs.Isolation.Execution
import Osl.Proofs.Isolation.Assignment
import Osl.Proofs.Isolation.Outcome
import Osl.Proofs.Isolation.Plan
import Osl.Proofs.Isolation.Discipline
import Osl.Proofs.Isolation.Follows
import Osl.Proofs.Isolation.Isolated
import Osl.Proofs.Executor.Exhaustion
import Osl.Proofs.Arena.Content
import Osl.Proofs.Values.Reference
import Osl.Proofs.Values.Cells
import Osl.Proofs.Values.Stored
import Osl.Proofs.Values.Store
import Osl.Proofs.Values.Evaluation
import Osl.Proofs.Values.Simulation
import Osl.Proofs.Values.Overlay
import Osl.Proofs.Values.ByValue
import Osl.Proofs.Machine.Balance
import Osl.Proofs.Machine.Printing
import Osl.Proofs.Executor.Faults
import Osl.Proofs.Executor.Printing
import Osl.Proofs.Parse.Success
import Osl.Proofs.Parse.Derivation
import Osl.Proofs.Parse.Lexemes
import Osl.Proofs.Parse.Soundness
import Osl.Proofs.Parse.Completeness
import Osl.Proofs.Parse.RoundTrip
import Osl.Proofs.Executor.Bindings
import Osl.Proofs.Executor.Deletion
import Osl.Proofs.Values.Literal
import Osl.Proofs.Machine.Assigning
import Osl.Proofs.Statement.DataFull
import Osl.Proofs.Executor.CellWrites
import Osl.Proofs.Instr.Decoding
import Osl.Proofs.Executor.LogIndependence
import Osl.Proofs.Instr.Listing
import Osl.Proofs.Executor.Atomicity
import Osl.Proofs.Executor.StringAssignment
import Osl.Proofs.Machine.PrintedInteger
import Osl.Proofs.Machine.FailedPrint
import Osl.Proofs.Executor.Installing
import Osl.Proofs.Statement.Shape
import Osl.Proofs.Expr.Words
import Osl.Proofs.Executor.RoutineShape
import Osl.Proofs.Machine.Termination
import Osl.Proofs.Compile.Interning
import Osl.Proofs.Config.Soundness
import Osl.Proofs.Session.Calls
import Osl.Proofs.Parse.Failures
import Osl.Proofs.Arena.Reset
import Osl.Proofs.Executor.Creation
import Osl.Proofs.Arena.Copy
import Osl.Proofs.Arena.Memory
