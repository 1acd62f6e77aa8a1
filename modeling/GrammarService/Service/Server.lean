import GrammarService.Http.Router
import GrammarService.Service.Site
import GrammarService.Settings.Server

namespace GrammarService

/-!
# The server

The server answers `POST /parse`: the body is a request, and the answer is its response as JSON with
the status that fits it.
-/

namespace Site

/-- The longest body that is read, in bytes. -/
def maxBodyBytes : Nat :=
  2097152

/-- The answer to a message whose body is a request. -/
def answer
    (site : Site)
    (message : Http.Request)
    (state : State) :
    Http.Response × State :=
  if maxBodyBytes < message.body.size then
    (.ofText 413 "Failed to buffer the request body: length limit exceeded", state)
  else
    let ((status, response), state) := site.respond state (Request.ofBody message.body)
    (⟨status, [("content-type", "application/json")], response.toJson.render⟩, state)

/-- The route that requests are sent to. -/
def parseRoute (site : Site) : Http.Route State where
  path := "/parse"
  method := "POST"
  handle := site.answer

end Site

/-- Why a server cannot listen at an address. -/
inductive ListenError
  | notPermitted
  | notAvailable
  deriving Repr, DecidableEq

namespace ListenError

/-- The error in words. -/
def message : ListenError → String
  | .notPermitted => "Permission denied (os error 13)"
  | .notAvailable => "Cannot assign requested address (os error 99)"

/-- The error with the address it is about. -/
def toChain
    (address : SocketAddress)
    (error : ListenError) :
    ErrorChain :=
  (ErrorChain.ofMessage error.message).withContext
    s!"Failed to bind API listener to {address.render}."

end ListenError

namespace SocketAddress

/-- The least port that can be used without a permission. -/
def firstFreePort : Nat :=
  1024

/-- Whether an internet address is one of any machine itself. -/
def isOwn : InternetAddress → Bool
  | .version4 bytes => bytes = [0, 0, 0, 0] || bytes.head? = some 127
  | .version6 groups _ => groups.dropLast = List.replicate 7 0 && (groups.getLast?.any (· ≤ 1))

/-- Whether a machine can listen at an address that it has no permission for. -/
def checkListening (address : SocketAddress) : Except ListenError Unit :=
  if 0 < address.port && address.port < firstFreePort then
    .error .notPermitted
  else if isOwn address.address then
    .ok ()
  else
    .error .notAvailable

end SocketAddress

end GrammarService
