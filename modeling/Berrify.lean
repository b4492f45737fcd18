import Berrify.Main
import Berrify.Proofs.Success
import Berrify.Proofs.Expr.Writing
import Berrify.Proofs.Expr.Parts
import Berrify.Proofs.Meaning.Source
import Berrify.Proofs.Meaning.Target
import Berrify.Proofs.Meaning.Preservation
import Berrify.Proofs.Stmt.Emission
import Berrify.Proofs.Expr.Tidy
import Berrify.Proofs.Stmt.Blocks
import Berrify.Proofs.Stmt.Declarations
import Berrify.Proofs.Expr.Flaws
import Berrify.Proofs.Stmt.Flaws
import Berrify.Proofs.Expr.Verdict
import Berrify.Proofs.Stmt.Verdict
import Berrify.Proofs.Stmt.Operations
import Berrify.Proofs.Stmt.FlatScope
import Berrify.Proofs.Expr.Views
import Berrify.Proofs.Stmt.Isolation
import Berrify.Proofs.FileTree
import Berrify.Proofs.Batch.Interleaving
import Berrify.Proofs.Batch.Sources
import Berrify.Proofs.Batch.Survival
import Berrify.Proofs.Text.Search
import Berrify.Proofs.Text.Mark
import Berrify.Proofs.Refusal
import Berrify.Proofs.Expr.Mark
import Berrify.Proofs.Stmt.FirstFault
import Berrify.Proofs.Stmt.Lines
import Berrify.Proofs.Readback.Reader
import Berrify.Proofs.Readback.Unambiguous
import Berrify.Proofs.Scope.Stack
import Berrify.Proofs.Stmt.Reach
import Berrify.Proofs.Expr.Shape
import Berrify.Proofs.Concrete.Shape
import Berrify.Proofs.Text.Tagged
import Berrify.Proofs.Expr.Copies
import Berrify.Proofs.Stmt.Copies
import Berrify.Proofs.Text.Digits
import Berrify.Proofs.Meaning.Slice
import Berrify.Proofs.Stmt.BareReceivers
import Berrify.Proofs.Path.Ending
import Berrify.Proofs.Batch.SingleFile
import Berrify.Proofs.Text.Escape
import Berrify.Proofs.Text.Quoted
import Berrify.Proofs.Meaning.SliceSpelling
import Berrify.Proofs.Meaning.Template
import Berrify.Proofs.Stmt.Clauses
import Berrify.Proofs.Stmt.Fields
import Berrify.Proofs.Text.Assignment
import Berrify.Proofs.Expr.Assignment
import Berrify.Proofs.Stmt.MethodFields
import Berrify.Proofs.Stmt.MemberLine
import Berrify.Proofs.Text.Closed
import Berrify.Proofs.Expr.Closed
import Berrify.Proofs.Concrete.Asynchronous
import Berrify.Proofs.Stmt.Kinds
import Berrify.Proofs.Stmt.UnknownKinds
import Berrify.Proofs.Stmt.Events
import Berrify.Proofs.Stmt.MethodEntries
import Berrify.Proofs.Text.Replace
import Berrify.Proofs.Token.Words
import Berrify.Proofs.Substitution
import Berrify.Proofs.Concrete.SliceArithmetic
import Berrify.Proofs.Text.ByteOrder
import Berrify.Proofs.Path.Order
import Berrify.Proofs.Batch.Discovery
import Berrify.Proofs.Literal.Integer
