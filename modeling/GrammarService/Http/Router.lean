import GrammarService.Http.Cors

namespace GrammarService.Http

/-!
# Routing

A router hands a request to the route with its path. A route serves one method, and one that serves
`GET` serves `HEAD` too; other methods are told which ones are served.
-/

/-- What serves a path. -/
structure Route (σ : Type) where
  path : String
  method : String
  handle : Request → σ → Response × σ

namespace Route

/-- Whether the route serves a method. -/
def serves
    (route : Route σ)
    (method : String) :
    Bool :=
  method = route.method || (method = "HEAD" && route.method = "GET")

/-- The methods that the route serves. -/
def allowed (route : Route σ) : String :=
  if route.method = "GET" then "GET,HEAD" else route.method

/-- Tell the length of a response, and leave out its body if only the headers were asked for. -/
def finish
    (method : String)
    (response : Response) :
    Response :=
  let complete := response.withHeaders [("content-length", toString response.body.utf8ByteSize)]
  if method = "HEAD" then { complete with body := "" } else complete

/-- Answer a request for the path of the route. -/
def respond
    (route : Route σ)
    (policy : SharingPolicy)
    (request : Request)
    (state : σ) :
    Response × σ :=
  if route.serves request.method then
    let (response, state) := policy.apply request route.handle state
    (finish request.method response, state)
  else
    let refuse := fun _ state => (Response.ofStatus 405, state)
    let (response, state) := policy.apply request refuse state
    (finish request.method (response.withHeaders [("allow", route.allowed)]), state)

end Route

/-- Answer a request by the route with its path. -/
def respond
    (routes : List (Route σ))
    (policy : SharingPolicy)
    (request : Request)
    (state : σ) :
    Response × σ :=
  match routes.find? fun route => route.path = request.path with
  | some route => route.respond policy request state
  | none => policy.apply request (fun _ state => (Response.ofStatus 404, state)) state

end GrammarService.Http
