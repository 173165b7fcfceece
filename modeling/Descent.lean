import Descent.Handle.Json
import Descent.Json.Interchange
import Descent.Main
import Descent.Optional
import Descent.Proofs.Algebra
import Descent.Proofs.Congruence
import Descent.Proofs.Json.RoundTrip
import Descent.Proofs.Suffix
import Descent.Proofs.Json.Delimited
import Descent.Proofs.Failure
import Descent.Proofs.Json.Boundary
import Descent.Proofs.Json.Failure
import Descent.Proofs.Json.Meaning
import Descent.Proofs.Json.NonFinite
import Descent.Proofs.Json.Equality
import Descent.Proofs.Json.Separation
import Descent.Proofs.Json.Extent
import Descent.Proofs.Json.Layout
import Descent.Proofs.Chain
import Descent.Proofs.CommandLine.Delivery
import Descent.Proofs.Handle.Construction
import Descent.Proofs.Handle.Identity
import Descent.Proofs.Json.Dispatch
import Descent.Proofs.Handle.Reading
import Descent.Proofs.Interleaving
import Descent.Proofs.Json.LongestNumeral
import Descent.Proofs.Json.ClosingQuote
import Descent.Proofs.Threading
import Descent.Proofs.FirstMatch
import Descent.Proofs.Literal
import Descent.Proofs.Naturality
import Descent.Proofs.Labelling
import Descent.Proofs.Span
import Descent.Proofs.Unrolling
import Descent.Proofs.Json.Rebinding
import Descent.Proofs.Json.Minified
