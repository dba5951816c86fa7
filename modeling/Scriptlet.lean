import Scriptlet.Evaluation.Steps
import Scriptlet.Grammar.Steps
import Scriptlet.Session
import Scriptlet.Tree.Equality
import Scriptlet.Proofs.Reading.Law
import Scriptlet.Proofs.Reading.Reaches
import Scriptlet.Proofs.Reading.Limit
import Scriptlet.Proofs.Reading.Found
import Scriptlet.Proofs.Spelling
import Scriptlet.Proofs.Spelling.Sound
import Scriptlet.Proofs.Evaluation.Law
import Scriptlet.Proofs.Evaluation.Frame
import Scriptlet.Proofs.Evaluation.Plain
import Scriptlet.Proofs.Reading.Gives
import Scriptlet.Proofs.Spelling.Complete
import Scriptlet.Proofs.Reading.Alike
import Scriptlet.Proofs.Spelling.Write
import Scriptlet.Proofs.Spelling.RoundTrip
import Scriptlet.Proofs.Token.Form
import Scriptlet.Proofs.Token.Lossless
import Scriptlet.Proofs.Evaluation.Events
import Scriptlet.Proofs.Session.Failure
import Scriptlet.Proofs.Spelling.Rendered
import Scriptlet.Proofs.Token.Append
import Scriptlet.Proofs.Reading.Composition
import Scriptlet.Proofs.Spelling.Span
import Scriptlet.Proofs.Token.Place
import Scriptlet.Proofs.Spelling.Recovered
import Scriptlet.Proofs.Reading.About
import Scriptlet.Proofs.Reading.Respaced
import Scriptlet.Proofs.Evaluation.Pairing
import Scriptlet.Proofs.Evaluation.Locality
import Scriptlet.Proofs.Spelling.Braces
import Scriptlet.Proofs.Session.Resumed
import Scriptlet.Proofs.Reading.Recovery
import Scriptlet.Proofs.Reading.Diagnostics
import Scriptlet.Proofs.Token.Standing
import Scriptlet.Proofs.Token.Munch
import Scriptlet.Proofs.Reading.Rounds
import Scriptlet.Proofs.Evaluation.Changes
import Scriptlet.Proofs.Evaluation.History
import Scriptlet.Proofs.Evaluation.Unmentioned
import Scriptlet.Proofs.Value.Kinds
import Scriptlet.Proofs.Evaluation.Arithmetic
import Scriptlet.Proofs.Evaluation.Made
import Scriptlet.Proofs.Reading.Announced
import Scriptlet.Proofs.Session.Rejected
import Scriptlet.Proofs.Reading.Tracers
import Scriptlet.Proofs.Reading.Numerals
import Scriptlet.Proofs.Value.Comparison
import Scriptlet.Proofs.Value.Sameness
import Scriptlet.Proofs.Evaluation.Created
import Scriptlet.Proofs.Evaluation.Identity
