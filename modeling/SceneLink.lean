import SceneLink.Caller.Basic
import SceneLink.Caller.Pump
import SceneLink.Caller.Reaction
import SceneLink.Caller.Tables
import SceneLink.Dict
import SceneLink.Double.Arithmetic
import SceneLink.Double.Basic
import SceneLink.Double.Decimal
import SceneLink.Exchange
import SceneLink.Expression.Apply
import SceneLink.Expression.Basic
import SceneLink.Host.Basic
import SceneLink.Host.Creation
import SceneLink.Host.Session
import SceneLink.Json.Basic
import SceneLink.Json.Draft
import SceneLink.Json.Numeral
import SceneLink.Json.Printer
import SceneLink.Json.Reader
import SceneLink.Json.Record
import SceneLink.Link.Outbox
import SceneLink.Link.Procedure
import SceneLink.Log
import SceneLink.Motion.Animation
import SceneLink.Motion.Animator
import SceneLink.Motion.Ease
import SceneLink.Motion.Lerp
import SceneLink.Operation.Basic
import SceneLink.Operation.Batch
import SceneLink.Operation.Issuer
import SceneLink.Operation.Payload
import SceneLink.Path.Basic
import SceneLink.Path.Step
import SceneLink.Scene.Basic
import SceneLink.Scene.Error
import SceneLink.Scene.Node
import SceneLink.Scene.Object
import SceneLink.Settings
import SceneLink.Text.Blank
import SceneLink.Text.Numeral
import SceneLink.Text.Split
import SceneLink.World.Read
import SceneLink.World.Registry
import SceneLink.World.Write
import SceneLink.Proofs.Dict
import SceneLink.Proofs.Outcome
import SceneLink.Proofs.Double.Rounding
import SceneLink.Proofs.Json.Numeral
import SceneLink.Proofs.Double.Decimal
import SceneLink.Proofs.Json.Number
import SceneLink.Proofs.Json.RoundTrip
import SceneLink.Proofs.Json.Record
import SceneLink.Proofs.Json.Order
import SceneLink.Proofs.Operation.Batch
import SceneLink.Proofs.Operation.Cutting
import SceneLink.Proofs.Caller.Response
import SceneLink.Proofs.Caller.Hearing
import SceneLink.Proofs.Host.Frame
import SceneLink.Proofs.Host.Handlers
import SceneLink.Proofs.Host.Deeds
import SceneLink.Proofs.Session.Basic
import SceneLink.Proofs.Session.Boundaries
import SceneLink.Proofs.Caller.Echo
import SceneLink.Proofs.Caller.Recount
import SceneLink.Proofs.Caller.Course
import SceneLink.Proofs.Caller.Ledger
import SceneLink.Proofs.Caller.Continuations
import SceneLink.Proofs.Session.Flow
import SceneLink.Proofs.Session.Exchange
import SceneLink.Proofs.Operation.Issuer
import SceneLink.Proofs.Operation.Payload
import SceneLink.Proofs.Operation.Minimal
import SceneLink.Proofs.Caller.Tables
import SceneLink.Proofs.Session.Objects
import SceneLink.Proofs.Session.Interests
import SceneLink.Proofs.Caller.Callbacks
import SceneLink.Proofs.Session.Answers
import SceneLink.Proofs.Session.Queries
import SceneLink.Proofs.Session.Arrivals
import SceneLink.Proofs.Session.Events
import SceneLink.Proofs.Link.Triple
import SceneLink.Proofs.Link.Conservation
import SceneLink.Proofs.Host.Refusal
import SceneLink.Proofs.Caller.Moves
import SceneLink.Proofs.Caller.Refusal
import SceneLink.Proofs.World.Edit
import SceneLink.Proofs.World.FailedWrite
import SceneLink.Proofs.World.Slot
import SceneLink.Proofs.Scene.Basic
import SceneLink.Proofs.Scene.Cell
import SceneLink.Proofs.Scene.Hierarchy
import SceneLink.Proofs.Scene.Order
import SceneLink.Proofs.World.Aliasing
import SceneLink.Proofs.World.Excited
import SceneLink.Proofs.World.Preservation
import SceneLink.Proofs.World.Order
import SceneLink.Proofs.Expression.Order
import SceneLink.Proofs.Motion.Order
import SceneLink.Proofs.Path.Grammar
import SceneLink.Proofs.Host.Lifecycle
import SceneLink.Proofs.Host.Creation
import SceneLink.Proofs.Host.Hierarchy
import SceneLink.Proofs.Host.Order
import SceneLink.Proofs.Host.Sending
import SceneLink.Proofs.Host.Delivery
import SceneLink.Proofs.Caller.Lives
import SceneLink.Proofs.Host.Grouping
import SceneLink.Proofs.Host.Speech
import SceneLink.Proofs.Link.Grouping
import SceneLink.Proofs.World.Conditional
import SceneLink.Proofs.World.Locality
import SceneLink.Proofs.World.Record
import SceneLink.Proofs.World.Calls
import SceneLink.Proofs.Host.Reports
import SceneLink.Proofs.Host.Naming
import SceneLink.Proofs.Host.Steady
import SceneLink.Proofs.Host.Registry
import SceneLink.Proofs.Host.Queries
import SceneLink.Proofs.Expression.RoundTrip
import SceneLink.Proofs.Caller.Pump
import SceneLink.Proofs.Json.Weight
import SceneLink.Proofs.Expression.Reference
import SceneLink.Proofs.World.Termination
import SceneLink.Proofs.Scene.Received
import SceneLink.Proofs.Host.Template
import SceneLink.Proofs.Double.Whole
import SceneLink.Proofs.Scene.Position
import SceneLink.Proofs.Motion.Account
import SceneLink.Proofs.Scene.Methods
import SceneLink.Proofs.World.Literal
import SceneLink.Proofs.World.NumericKey
import SceneLink.Proofs.Text.Trim
import SceneLink.Proofs.Double.Order
import SceneLink.Proofs.Motion.Interpolation
import SceneLink.Proofs.Expression.Bounds
import SceneLink.Proofs.Json.Framing
import SceneLink.Proofs.Operation.Entries
import SceneLink.Proofs.Caller.Identifiers
import SceneLink.Proofs.Path.Spelling
import SceneLink.Proofs.World.Identifier
import SceneLink.Proofs.World.Validation
