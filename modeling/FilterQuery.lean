import FilterQuery.Proofs.CodePoint
import FilterQuery.Proofs.Composition
import FilterQuery.Proofs.Condition.Agreement
import FilterQuery.Proofs.Filter.Balance
import FilterQuery.Proofs.Filter.Causes
import FilterQuery.Proofs.Filter.Depth
import FilterQuery.Proofs.Filter.Image
import FilterQuery.Proofs.Injection
import FilterQuery.Proofs.Loading
import FilterQuery.Proofs.Monotonicity
import FilterQuery.Proofs.Noninterference
import FilterQuery.Proofs.Numbering
import FilterQuery.Proofs.Projection
import FilterQuery.Proofs.ReadBack
import FilterQuery.Proofs.Renumbering
import FilterQuery.Proofs.Reports
import FilterQuery.Proofs.Select.Binding
import FilterQuery.Proofs.Select.Columns
import FilterQuery.Proofs.Streaming
import FilterQuery.Proofs.Token.Fault
import FilterQuery.Proofs.Token.Layout
import FilterQuery.Proofs.Token.Offsets
import FilterQuery.Proofs.Vocabulary
