import GrammarService.Main
import GrammarService.Sample.Arithmetic
import GrammarService.Proofs.Prediction.Verdicts
import GrammarService.Proofs.Lexer.Tokens
import GrammarService.Proofs.Lexer.Matching
import GrammarService.Proofs.Parser.Soundness
import GrammarService.Proofs.Network.Places
import GrammarService.Proofs.Prediction.Reaching
import GrammarService.Proofs.Network.FreeWalks
import GrammarService.Proofs.Prediction.Simulation
import GrammarService.Proofs.Prediction.SingleToken
import GrammarService.Proofs.Parser.Crossing
import GrammarService.Proofs.Prediction.Overapproximation
import GrammarService.Proofs.Prediction.Finished
import GrammarService.Proofs.Prediction.Remembering
import GrammarService.Proofs.Arithmetic.Programs
import GrammarService.Proofs.Parser.Rounds
import GrammarService.Proofs.Parser.Drifting
import GrammarService.Proofs.Parser.Faults
import GrammarService.Proofs.Parser.Invocations
import GrammarService.Proofs.Token.Sight
import GrammarService.Proofs.Prediction.Settling
import GrammarService.Proofs.Prediction.Alternatives
import GrammarService.Proofs.Prediction.Hidden
import GrammarService.Proofs.Parser.Sight
import GrammarService.Proofs.Parser.Hidden
import GrammarService.Proofs.Network.References
import GrammarService.Proofs.Network.Reproduction
import GrammarService.Proofs.RecognizerData.RoundTrip
import GrammarService.Proofs.Parser.Lookups
import GrammarService.Proofs.IntervalSet.Canonical
import GrammarService.Proofs.Dialogue.Histories
import GrammarService.Proofs.Request.Courses
import GrammarService.Proofs.Request.Replies
import GrammarService.Proofs.Request.Resolution
import GrammarService.Proofs.Request.Order
import GrammarService.Proofs.Request.Names
import GrammarService.Proofs.Storage.Sessions
import GrammarService.Proofs.Execution.Results
import GrammarService.Proofs.Steps
import GrammarService.Proofs.Storage.Folders
import GrammarService.Proofs.Artifact.Loading
import GrammarService.Proofs.Artifact.Leases
import GrammarService.Proofs.Service.Settling
import GrammarService.Proofs.Service.Standing
import GrammarService.Proofs.Service.Isolation
import GrammarService.Proofs.Prediction.Precedences
import GrammarService.Proofs.Prediction.Conditions
import GrammarService.Proofs.Prediction.Suppression
import GrammarService.Proofs.Prediction.Shortcut
import GrammarService.Proofs.Prediction.Faithful
import GrammarService.Proofs.Prediction.Denotations
import GrammarService.Proofs.Network.Symbols
import GrammarService.Proofs.Parser.Expected
import GrammarService.Proofs.Network.Delimiting
import GrammarService.Proofs.Prediction.SettledConditions
import GrammarService.Proofs.Prediction.Guards
import GrammarService.Proofs.Prediction.Insertions
import GrammarService.Proofs.IntervalSet.Bounded
import GrammarService.Proofs.Token.Buffering
import GrammarService.Proofs.Lexer.Enclosing
import GrammarService.Proofs.Prediction.Ambiguity
import GrammarService.Proofs.Request.Headers
import GrammarService.Proofs.Parser.Rendering
import GrammarService.Proofs.Prediction.Terminating
