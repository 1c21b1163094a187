import GroupingSets.Json.Descriptor
import GroupingSets.Json.Explain
import GroupingSets.Json.Scalar
import GroupingSets.Json.Settings
import GroupingSets.Operator.Script
import GroupingSets.Operator.Values
import GroupingSets.Repeat
import GroupingSets.Proofs.Encoding
import GroupingSets.Proofs.Encoding.RoundTrip
import GroupingSets.Proofs.Encoding.Integer
import GroupingSets.Proofs.Arena
import GroupingSets.Proofs.Arena.Run
import GroupingSets.Proofs.Arena.Limit
import GroupingSets.Proofs.Arena.Pop
import GroupingSets.Proofs.Arena.Representation
import GroupingSets.Proofs.Row
import GroupingSets.Proofs.Batch.Draft
import GroupingSets.Proofs.Batch.Operation
import GroupingSets.Proofs.Batch.Frame
import GroupingSets.Proofs.Batch.Rows
import GroupingSets.Proofs.Batch.Readable
import GroupingSets.Proofs.Batch.Acceptance
import GroupingSets.Proofs.Batch.Locality
import GroupingSets.Proofs.Batch.Refusal
import GroupingSets.Proofs.Batch.Allocation
import GroupingSets.Proofs.Bitmap
import GroupingSets.Proofs.Dealing
import GroupingSets.Proofs.Operator.Values
import GroupingSets.Proofs.Repeat.Plan
import GroupingSets.Proofs.Layout.Table
import GroupingSets.Proofs.Layout.Tiling
import GroupingSets.Proofs.Repeat.Acceptance
import GroupingSets.Proofs.Repeat.Masks
import GroupingSets.Proofs.Repeat.Run
import GroupingSets.Proofs.Repeat.View
import GroupingSets.Proofs.Repeat.Writes
import GroupingSets.Proofs.Repeat.Expansion
import GroupingSets.Proofs.Repeat.Replay
import GroupingSets.Proofs.Repeat.Failure
import GroupingSets.Proofs.Repeat.Sufficiency
import GroupingSets.Proofs.Repeat.Hiding
import GroupingSets.Proofs.Repeat.Counters
import GroupingSets.Proofs.Repeat.Protocol
import GroupingSets.Proofs.Repeat.Ending
import GroupingSets.Proofs.Repeat.Drain
import GroupingSets.Proofs.Repeat.Cancelling
import GroupingSets.Proofs.Repeat.Conformance
import GroupingSets.Proofs.Json.Reader
import GroupingSets.Proofs.Json.Text
import GroupingSets.Proofs.Json.Number
import GroupingSets.Proofs.Json.Form
import GroupingSets.Proofs.Json.RoundTrip
import GroupingSets.Proofs.Settings
