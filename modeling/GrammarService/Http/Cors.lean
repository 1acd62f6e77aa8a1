import GrammarService.Http.Message

namespace GrammarService.Http

/-!
# Sharing with other origins

Pages of other origins can be allowed to use the service: all of them, or those that are listed.
Any request with the method `OPTIONS` is taken for the question whether they are, and is answered
here.
-/

/-- What pages of other origins are allowed. -/
structure SharingPolicy where
  /-- The origins that are allowed; all of them if none is listed. -/
  origins : List String
  methods : String
  headers : String
  deriving Repr, DecidableEq, Inhabited

namespace SharingPolicy

/-- The origin that is allowed to use the answer to a request. -/
def allowedOrigin?
    (policy : SharingPolicy)
    (request : Request) :
    Option String :=
  if policy.origins.isEmpty then
    some "*"
  else
    (request.headers.lookup "origin").filter policy.origins.contains

/-- The headers that every answer to a request has. -/
def headersFor
    (policy : SharingPolicy)
    (request : Request) :
    List (String × String) :=
  ("vary", "origin, access-control-request-method, access-control-request-headers") ::
    ((policy.allowedOrigin? request).map fun origin =>
      ("access-control-allow-origin", origin)).toList

/-- The answer to the question what is allowed. -/
def answer
    (policy : SharingPolicy)
    (request : Request) :
    Response :=
  (Response.ofStatus 200).withHeaders (policy.headersFor request ++
    [("access-control-allow-methods", policy.methods),
      ("access-control-allow-headers", policy.headers)])

/-- Answer a request, or have it answered and add what is allowed. -/
def apply
    (policy : SharingPolicy)
    (request : Request)
    (handle : Request → σ → Response × σ)
    (state : σ) :
    Response × σ :=
  if request.method = "OPTIONS" then
    (policy.answer request, state)
  else
    let (response, state) := handle request state
    (response.withHeaders (policy.headersFor request), state)

end SharingPolicy

end GrammarService.Http
