import TypedData.Binary64.Approximate
import TypedData.Binary64.Basic
import TypedData.Binary64.Shortest
import TypedData.Capsule
import TypedData.CommandLine.Grammar
import TypedData.CommandLine.Help
import TypedData.Conversion
import TypedData.Decimal.Basic
import TypedData.Decimal.Literal
import TypedData.Decimal.Notation
import TypedData.Entries
import TypedData.Files.Job
import TypedData.Files.Pattern
import TypedData.Files.Tree
import TypedData.Fixtures.Cases
import TypedData.Fixtures.Description
import TypedData.Fixtures.Manifest
import TypedData.Inference
import TypedData.Json.Basic
import TypedData.Json.Pointer
import TypedData.Json.Printer
import TypedData.Json.Reader
import TypedData.Json.Token
import TypedData.Limits
import TypedData.Main
import TypedData.Marks
import TypedData.Msgpack.Basic
import TypedData.Msgpack.Reader
import TypedData.Msgpack.Writer
import TypedData.Native
import TypedData.Path.Apply
import TypedData.Path.Basic
import TypedData.Program.Fixtures
import TypedData.Program.Outcome
import TypedData.Program.Transcode
import TypedData.Proofs.Acceptance
import TypedData.Proofs.Assignable
import TypedData.Proofs.Binary64.Approximate
import TypedData.Proofs.Binary64.Exact
import TypedData.Proofs.Binary64.Nearest
import TypedData.Proofs.Checks
import TypedData.Proofs.Containers
import TypedData.Proofs.Conversion
import TypedData.Proofs.Convertibility
import TypedData.Proofs.Decimal.Faithful
import TypedData.Proofs.Decimal.Grammar
import TypedData.Proofs.Decimal.Literal
import TypedData.Proofs.Decimal.Plain
import TypedData.Proofs.Decimal.Rational
import TypedData.Proofs.Decimal.Scientific
import TypedData.Proofs.Depth
import TypedData.Proofs.Fixtures.Description
import TypedData.Proofs.Inference
import TypedData.Proofs.Json.Documented
import TypedData.Proofs.Json.FirstValue
import TypedData.Proofs.Json.Induction
import TypedData.Proofs.Json.Injective
import TypedData.Proofs.Json.Lexing
import TypedData.Proofs.Json.Literals
import TypedData.Proofs.Json.Numbers
import TypedData.Proofs.Json.Observed
import TypedData.Proofs.Json.RoundTrip
import TypedData.Proofs.Json.Typing
import TypedData.Proofs.Json.Validation
import TypedData.Proofs.Msgpack.Induction
import TypedData.Proofs.Msgpack.Reader
import TypedData.Proofs.Msgpack.RoundTrip
import TypedData.Proofs.Observations
import TypedData.Proofs.Path
import TypedData.Proofs.PathComposition
import TypedData.Proofs.PathTyping
import TypedData.Proofs.Recovery
import TypedData.Proofs.Refinement
import TypedData.Proofs.Rendering
import TypedData.Proofs.Satisfaction
import TypedData.Proofs.Spelling
import TypedData.Proofs.Text.Decomposition
import TypedData.Proofs.Text.NormalForm
import TypedData.Proofs.Text.Plain
import TypedData.Proofs.Text.Utf8
import TypedData.Proofs.Ty.AsText
import TypedData.Proofs.Ty.Assignability
import TypedData.Proofs.Ty.Batches
import TypedData.Proofs.Ty.Canonical
import TypedData.Proofs.Ty.Convertible
import TypedData.Proofs.Ty.LeastBound
import TypedData.Proofs.Ty.Names
import TypedData.Proofs.Ty.Objects
import TypedData.Proofs.Ty.Parts
import TypedData.Proofs.Ty.RoundTrip
import TypedData.Proofs.Ty.SameTypes
import TypedData.Proofs.Ty.Shared
import TypedData.Proofs.Ty.Spelling
import TypedData.Proofs.Ty.Text
import TypedData.Proofs.Ty.Unify
import TypedData.Proofs.Ty.Usable
import TypedData.Proofs.Ty.WellFormed
import TypedData.Proofs.Unmarked
import TypedData.Proofs.Validation
import TypedData.Proofs.Value.Classes
import TypedData.Proofs.Value.Equality
import TypedData.Proofs.Value.Equivalence
import TypedData.Proofs.Value.Identity
import TypedData.Proofs.Value.Induction
import TypedData.Proofs.Value.Marks
import TypedData.Proofs.Value.Members
import TypedData.Proofs.Value.Nesting
import TypedData.Proofs.Value.Order
import TypedData.Proofs.Value.Reachable
import TypedData.Proofs.Value.SetImages
import TypedData.Proofs.Value.SetMarks
import TypedData.Proofs.Value.SetOrder
import TypedData.Proofs.Value.Slots
import TypedData.Proofs.Value.Unmarked
import TypedData.Proofs.Value.WellFormed
import TypedData.Proofs.Value.WhollyKnown
import TypedData.Proofs.Wire.Accepted
import TypedData.Proofs.Wire.Agreement
import TypedData.Proofs.Wire.Assigned
import TypedData.Proofs.Wire.Bounded
import TypedData.Proofs.Wire.Canonical
import TypedData.Proofs.Wire.Delivered
import TypedData.Proofs.Wire.Distinct
import TypedData.Proofs.Wire.Documents
import TypedData.Proofs.Wire.DynamicSets
import TypedData.Proofs.Wire.Echoed
import TypedData.Proofs.Wire.Elements
import TypedData.Proofs.Wire.Extensional
import TypedData.Proofs.Wire.Injective
import TypedData.Proofs.Wire.Intact
import TypedData.Proofs.Wire.JsonLaws
import TypedData.Proofs.Wire.JsonLeaves
import TypedData.Proofs.Wire.JsonRoundTrip
import TypedData.Proofs.Wire.JsonValidated
import TypedData.Proofs.Wire.JsonWritten
import TypedData.Proofs.Wire.Members
import TypedData.Proofs.Wire.MsgpackLaws
import TypedData.Proofs.Wire.MsgpackLeaves
import TypedData.Proofs.Wire.MsgpackReceived
import TypedData.Proofs.Wire.MsgpackRoundTrip
import TypedData.Proofs.Wire.MsgpackWritten
import TypedData.Proofs.Wire.OfJson
import TypedData.Proofs.Wire.OfMsgpack
import TypedData.Proofs.Wire.Placed
import TypedData.Proofs.Wire.ReadBack
import TypedData.Proofs.Wire.ReadElements
import TypedData.Proofs.Wire.Received
import TypedData.Proofs.Wire.Refusals
import TypedData.Proofs.Wire.Reread
import TypedData.Proofs.Wire.Rewritten
import TypedData.Proofs.Wire.Settled
import TypedData.Proofs.Wire.Undeclared
import TypedData.Proofs.Wire.Wrapped
import TypedData.Proofs.Wire.WrittenOrder
import TypedData.Refinement
import TypedData.Settings
import TypedData.Text.Blank
import TypedData.Text.NormalForm
import TypedData.Text.Parts
import TypedData.Text.Quoted
import TypedData.Text.Unicode.CombiningClass
import TypedData.Text.Unicode.Decomposition
import TypedData.Text.Unicode.Unprintable
import TypedData.Text.Utf8
import TypedData.Toml.Basic
import TypedData.Toml.Reader
import TypedData.Toml.Scalar
import TypedData.Ty.Basic
import TypedData.Ty.Name
import TypedData.Ty.Text
import TypedData.Ty.Unify
import TypedData.Validation
import TypedData.Value.Basic
import TypedData.Value.Collection
import TypedData.Value.Equality
import TypedData.Value.Order
import TypedData.Wire.Error
import TypedData.Wire.Members
import TypedData.Wire.OfJson
import TypedData.Wire.OfMsgpack
import TypedData.Wire.ToJson
import TypedData.Wire.ToMsgpack
import TypedData.Word
