import TagScript.Text.Bytes
import TagScript.Text.Blank
import TagScript.Text.Words
import TagScript.Text.Printable
import TagScript.Text.Quoted
import TagScript.Decimal.Binary64
import TagScript.Decimal.Shortest
import TagScript.Decimal.Reading
import TagScript.Position
import TagScript.Token.Basic
import TagScript.Token.Scan
import TagScript.Tree.TypeName
import TagScript.Tree.Basic
import TagScript.Tree.Show
import TagScript.Parse.Reply
import TagScript.Parse.Expr
import TagScript.Parse.Stmt
import TagScript.Value.Tag
import TagScript.Value.Range
import TagScript.Value.Basic
import TagScript.Value.Text
import TagScript.Store.Basic
import TagScript.Diagnostic.Cause
import TagScript.Diagnostic.Error
import TagScript.Diagnostic.Paint
import TagScript.Diagnostic.Pending
import TagScript.Random.Source
import TagScript.Random.Words
import TagScript.Random.Generator
import TagScript.Machine.Basic
import TagScript.Machine.Builtin
import TagScript.Eval.Operation
import TagScript.Eval.Expr
import TagScript.Eval.Stmt
import TagScript.Eval.Program
import TagScript.Session
import TagScript.Console.Braces
import TagScript.Console.Keyboard
import TagScript.Console.Command
import TagScript.Console.Reader
import TagScript.Host.Path
import TagScript.Host.Basic
import TagScript.Host.Tree
import TagScript.Yaml.Scalar
import TagScript.Yaml.Node
import TagScript.Config.Basic
import TagScript.Config.Decode
import TagScript.Config.Load
import TagScript.Diagnostic.Log
import TagScript.Shell.Flags
import TagScript.Shell.Chunk
import TagScript.Shell.Console
import TagScript.Shell.Run
import TagScript.Main
import TagScript.Proofs.Steps.Basic
import TagScript.Proofs.Random.Bounds
import TagScript.Proofs.Machine.Changes
import TagScript.Proofs.Machine.Made
import TagScript.Proofs.Steps.Simulation
import TagScript.Proofs.Steps.Calls
import TagScript.Proofs.Store.Basic
import TagScript.Proofs.Store.Formed
import TagScript.Proofs.Store.Names
import TagScript.Proofs.Store.Extends
import TagScript.Proofs.Machine.Safe
import TagScript.Proofs.Steps.Formed
import TagScript.Proofs.Steps.Extends
import TagScript.Proofs.Steps.Annotations
import TagScript.Proofs.Session.Moments
import TagScript.Proofs.Session.Typing
import TagScript.Proofs.Session.Termination
import TagScript.Proofs.Session.Annotations
import TagScript.Proofs.Session.Depth
import TagScript.Proofs.Session.StackTrace
import TagScript.Proofs.Session.Declarations
import TagScript.Proofs.Session.Bindings
import TagScript.Proofs.Grammar.Basic
import TagScript.Proofs.Grammar.Complete.Expr
import TagScript.Proofs.Grammar.Complete.Stmt
import TagScript.Proofs.Grammar.Sound.Expr
import TagScript.Proofs.Grammar.Sound.Stmt
import TagScript.Proofs.Grammar.Unique.Expr
import TagScript.Proofs.Grammar.Unique.Stmt
import TagScript.Proofs.Grammar.Exact
import TagScript.Proofs.Grammar.Source
import TagScript.Proofs.Tree.Relocate
import TagScript.Proofs.Value.Relocate
import TagScript.Proofs.Store.Relocate
import TagScript.Proofs.Machine.Pairing
import TagScript.Proofs.Eval.Statements
import TagScript.Proofs.Eval.Pairing
import TagScript.Proofs.Eval.Unseen
import TagScript.Proofs.Session.Limit
import TagScript.Proofs.Session.Reset
import TagScript.Proofs.Text.Decode
import TagScript.Proofs.Token.Lines
import TagScript.Proofs.Grammar.Relocate
import TagScript.Proofs.Session.Unplaced
import TagScript.Proofs.Grammar.Append
import TagScript.Proofs.Session.Chunks
import TagScript.Proofs.Token.Layout
import TagScript.Proofs.Session.Alike
import TagScript.Proofs.Tree.Positions
import TagScript.Proofs.Session.Origin
import TagScript.Proofs.Text.Lines
import TagScript.Proofs.Session.Pointing
import TagScript.Proofs.Token.Lexemes
import TagScript.Proofs.Console.Passages
import TagScript.Proofs.Console.Braces
import TagScript.Proofs.Text.Encode
import TagScript.Proofs.Decimal.Numerals
import TagScript.Proofs.Diagnostic.Report
import TagScript.Proofs.Session.Report
import TagScript.Proofs.Text.Quoted
import TagScript.Proofs.Token.Words
import TagScript.Proofs.Eval.Literals
import TagScript.Proofs.Parse.Literals
import TagScript.Proofs.Value.Reread
import TagScript.Proofs.Session.Echo
import TagScript.Proofs.Grammar.Pinpoints.Expr
import TagScript.Proofs.Store.Resolution
import TagScript.Proofs.Value.Range
import TagScript.Proofs.Grammar.Pinpoints.Stmt
import TagScript.Proofs.Grammar.Impossible
import TagScript.Proofs.Eval.Spares
import TagScript.Proofs.Eval.Loop
import TagScript.Proofs.Session.Loop
import TagScript.Proofs.Eval.Pure
import TagScript.Proofs.Session.StaticTags
import TagScript.Proofs.Console.Line
import TagScript.Proofs.Text.Order
import TagScript.Proofs.Store.Listing
import TagScript.Proofs.Session.Introspection
import TagScript.Proofs.Machine.Random
import TagScript.Proofs.Token.Numbering
import TagScript.Proofs.Steps.Cursors
import TagScript.Proofs.Session.Unchecked
import TagScript.Proofs.Grammar.Sites
import TagScript.Proofs.Grammar.Targets
import TagScript.Proofs.Value.Equality
import TagScript.Proofs.Eval.Operators
import TagScript.Proofs.Diagnostic.Runs
import TagScript.Proofs.Parse.Unrolling
import TagScript.Proofs.Parse.Calls
import TagScript.Proofs.Parse.Progress
