namespace GrammarService.Http

/-!
# HTTP messages

Requests and responses as the service sees them. Names of headers are in lower case.
-/

/-- A request. -/
structure Request where
  method : String
  /-- The path and what may follow it behind a question mark. -/
  target : String
  headers : List (String × String)
  body : ByteArray
  deriving Inhabited

namespace Request

/-- The path alone. -/
def path (request : Request) : String :=
  String.ofList (request.target.toList.takeWhile fun character =>
    character ≠ '?' && character ≠ '#')

end Request

/-- A response. -/
structure Response where
  status : Nat
  headers : List (String × String)
  body : String
  deriving Repr, DecidableEq, Inhabited

namespace Response

/-- A response without a body. -/
def ofStatus (status : Nat) : Response where
  status := status
  headers := []
  body := ""

/-- A response with a plain text. -/
def ofText
    (status : Nat)
    (text : String) :
    Response where
  status := status
  headers := [("content-type", "text/plain; charset=utf-8")]
  body := text

/-- Set headers, in place of those with the same names. -/
def withHeaders
    (response : Response)
    (headers : List (String × String)) :
    Response :=
  { response with
    headers := response.headers.filter (fun (name, _) => (headers.lookup name).isNone) ++ headers }

end Response

/-- Whether a text can be the value of a header. -/
def isHeaderValue (text : String) : Bool :=
  text.toList.all fun character =>
    (0x20 ≤ character.toNat && character ≠ '\x7f') || character = '\t'

end GrammarService.Http
