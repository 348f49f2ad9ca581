import DocWire.AnyValue
import DocWire.Auth.Exchange
import DocWire.Auth.Mechanism
import DocWire.Bytes.Cursor
import DocWire.Bytes.Zigzag
import DocWire.Digest.Block
import DocWire.Digest.Sha1
import DocWire.Digest.Sha256
import DocWire.Error
import DocWire.Expr.Basic
import DocWire.Expr.Compile
import DocWire.Expr.Ladder
import DocWire.Expr.Literal
import DocWire.Expr.Operand
import DocWire.Expr.Path
import DocWire.Expr.Placeholders
import DocWire.Expr.Source
import DocWire.Frame
import DocWire.Json.Basic
import DocWire.Json.Numeral
import DocWire.Json.Parse
import DocWire.Message.Any
import DocWire.Message.Expr
import DocWire.Message.Notice
import DocWire.Message.Reply
import DocWire.Message.Request
import DocWire.Message.Scalar
import DocWire.Number.Binary
import DocWire.Number.Shortest
import DocWire.Protobuf.Field
import DocWire.Protobuf.Record
import DocWire.Protobuf.Varint
import DocWire.Queue.Callers
import DocWire.Queue.Desk
import DocWire.Queue.Operation
import DocWire.Queue.WorkQueue
import DocWire.ResultSet.Builder
import DocWire.ResultSet.Column
import DocWire.ResultSet.Execution
import DocWire.ResultSet.Outcome
import DocWire.ResultSet.Row
import DocWire.ResultSet.Value
import DocWire.Scalar
import DocWire.Session.Basic
import DocWire.Session.Connection
import DocWire.Session.Dialogue
import DocWire.Session.Params
import DocWire.Shell.Command
import DocWire.Shell.Prompt
import DocWire.Statement.Basic
import DocWire.Statement.Query
import DocWire.Text.Blank
import DocWire.Text.Hex
import DocWire.Text.Letters
import DocWire.Text.Quoted
import DocWire.Text.Ranges
import DocWire.Text.Utf8
import DocWire.Proofs.Queue.Head
import DocWire.Proofs.Queue.Ledger
import DocWire.Proofs.Queue.Course
import DocWire.Proofs.Queue.Alone
import DocWire.Proofs.Queue.Holdings
import DocWire.Proofs.Queue.Answers
import DocWire.Proofs.Queue.Isolation
import DocWire.Proofs.Queue.Complete
import DocWire.Proofs.Queue.InStep
import DocWire.Proofs.Frame.Reassembly
import DocWire.Proofs.ResultSet.Collected
import DocWire.Proofs.Expr.Holes
import DocWire.Proofs.Expr.Count
import DocWire.Proofs.Expr.Numbering
import DocWire.Proofs.Statement.Arguments
import DocWire.Proofs.Expr.Reading
import DocWire.Proofs.Expr.Rungs
import DocWire.Proofs.Expr.Tokens
import DocWire.Proofs.Expr.Numerals
import DocWire.Proofs.Number.Range
import DocWire.Proofs.Expr.Precision
import DocWire.Proofs.Message.Integers
import DocWire.Proofs.Expr.Quotation
import DocWire.Proofs.Expr.Precedence
import DocWire.Proofs.Expr.Phrase
import DocWire.Proofs.Expr.Readable.Basic
import DocWire.Proofs.Expr.Readable.Predicates
import DocWire.Proofs.Expr.Readable.Types
import DocWire.Proofs.Expr.Readable.Atoms
import DocWire.Proofs.Expr.RoundTrip
import DocWire.Proofs.Frame.Draining
import DocWire.Proofs.Frame.Pieces
import DocWire.Proofs.Session.Routing
import DocWire.Proofs.Auth.Turns
import DocWire.Proofs.Session.Run
import DocWire.Proofs.Session.Secrecy
import DocWire.Proofs.Session.Phases
import DocWire.Proofs.Session.Readers
import DocWire.Proofs.Session.Handshake
import DocWire.Proofs.Session.Script
import DocWire.Proofs.Session.Upgrade
import DocWire.Proofs.Session.WireOrder
import DocWire.Proofs.Session.Undisturbed
import DocWire.Proofs.Queue.NotUnderstood
import DocWire.Proofs.Queue.Subscriptions
import DocWire.Proofs.Text.Utf8
import DocWire.Proofs.ResultSet.Layouts
import DocWire.Proofs.Message.Any
import DocWire.Proofs.Expr.Formed
import DocWire.Proofs.Message.Trimmed
import DocWire.Proofs.Message.Expr
import DocWire.Proofs.Expr.Places
import DocWire.Proofs.Expr.Prolonged.Basic
import DocWire.Proofs.Expr.Prolonged.Tokens
import DocWire.Proofs.Expr.Prolonged.Operands
import DocWire.Proofs.Expr.Prolonged.Ladder
import DocWire.Proofs.Expr.Prolonged.Expressions
import DocWire.Proofs.Expr.Clauses
import DocWire.Proofs.Expr.Entries
import DocWire.Proofs.Expr.Roots
import DocWire.Proofs.Expr.Membership
import DocWire.Proofs.Expr.Boundaries
import DocWire.Proofs.Expr.Complaints
import DocWire.Proofs.Expr.PathTexts
import DocWire.Proofs.Message.Numbering
import DocWire.Proofs.Message.Positions
import DocWire.Proofs.Statement.Supplied
import DocWire.Proofs.ResultSet.Decimals
import DocWire.Proofs.ResultSet.Announced
import DocWire.Proofs.Auth.Scrambles
import DocWire.Proofs.Bytes.Spellings
import DocWire.Proofs.ResultSet.Spellings
import DocWire.Proofs.Bytes.Exactness
import DocWire.Proofs.Bytes.Failures
