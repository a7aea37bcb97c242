import GoraddServe.BufferedOutput

/-!
# Responses by panic

The `Send` functions and `Redirect` end a handler by a panic with an `Error`, and
`WithErrorHandler` turns it into a response.
-/
namespace GoraddServe.ErrorHandler
open GoMaps Panics ResponseWriters BufferedOutput

variable {ε : Type}

/-- What the code calls of Go's library, and the choices that Go leaves open. -/
structure Runtime where
  /-- the order in which a range visits the keys of a map -/
  range : GoMap String String → List String
  /-- `%q` -/
  quote : String → String
  /-- `fmt.Errorf` of a format without arguments -/
  errorf : String → String
  /-- `json.Marshal` of a map of strings, which does not fail -/
  marshal : GoMap String String → String
  /-- `MakeLocalPath`, which panics with a text or returns a path -/
  makeLocalPath : String → Except String String

namespace Error

def setResponseHeader (e : Error) (key value : String) : Error :=
  match e.Headers with
  | none => { e with Headers := some ((∅ : GoMap String String).set key value) }
  | some headers => { e with Headers := some (headers.set key value) }

/-- `e.SetAuthenticateError(authScheme, values)` works on a copy of `e`: what it does to the
map in `Headers` is seen by the caller, and a new map is not. -/
def setAuthenticateError (rt : Runtime) (e : Error) (authScheme : String)
    (values : GoMap String String) : Error :=
  let items := (rt.range values).map fun k => k ++ "=" ++ rt.quote ((values.get k).getD "")
  match e.Headers with
  | none => e
  | some _ => setResponseHeader e "WWW-Authenticate" (" ".intercalate (authScheme :: items))

end Error

def sendErrorCode (errCode : Int) : PanicValue := .httpError { ErrCode := errCode }

def sendErrorMessage (message : String) (errCode : Int) : PanicValue :=
  .httpError { ErrCode := errCode, Message := message }

def redirect (rt : Runtime) (location : String) (errCode : Int) : PanicValue :=
  match rt.makeLocalPath location with
  | .error text => .text text
  | .ok path => .httpError (Error.setResponseHeader { ErrCode := errCode } "Location" path)

def sendUnauthorized : PanicValue := .httpError { ErrCode := 401 }

def sendUnauthorizedMessage (message : String) : PanicValue :=
  .httpError { ErrCode := 401, Message := message }

def sendForbidden : PanicValue := .httpError { ErrCode := 403 }

def sendForbiddenMessage (m : String) : PanicValue := .httpError { ErrCode := 403, Message := m }

def sendMethodNotAllowed (allowedMethods : List String) : PanicValue :=
  .httpError (Error.setResponseHeader { ErrCode := 405 } "Allow" (",".intercalate allowedMethods))

def sendNotFound : PanicValue := .httpError { ErrCode := 404 }

def sendNotFoundMessage (message : String) : PanicValue :=
  .httpError { ErrCode := 404, Message := message }

def sendBadRequest : PanicValue := .httpError { ErrCode := 400 }

def sendBadRequestMessage (message : String) : PanicValue :=
  .httpError { ErrCode := 400, Message := message }

def sendJsonAuthenticateError (rt : Runtime) (errCode : Int) (authScheme : String)
    (values : GoMap String String) : PanicValue :=
  let e := Error.setAuthenticateError rt { ErrCode := errCode } authScheme values
  let e := { e with Message := rt.marshal values }
  .httpError (Error.setResponseHeader e "Content-Type" "application/json")

/-- The panics of `Redirect` and the `Send` functions. -/
inductive Sends (rt : Runtime) : PanicValue → Prop where
  | errorCode (errCode : Int) : Sends rt (sendErrorCode errCode)
  | errorMessage (message : String) (errCode : Int) : Sends rt (sendErrorMessage message errCode)
  | redirect (location : String) (errCode : Int) : Sends rt (redirect rt location errCode)
  | unauthorized : Sends rt sendUnauthorized
  | unauthorizedMessage (message : String) : Sends rt (sendUnauthorizedMessage message)
  | forbidden : Sends rt sendForbidden
  | forbiddenMessage (m : String) : Sends rt (sendForbiddenMessage m)
  | methodNotAllowed (allowedMethods : List String) : Sends rt (sendMethodNotAllowed allowedMethods)
  | notFound : Sends rt sendNotFound
  | notFoundMessage (message : String) : Sends rt (sendNotFoundMessage message)
  | badRequest : Sends rt sendBadRequest
  | badRequestMessage (message : String) : Sends rt (sendBadRequestMessage message)
  | jsonAuthenticateError (errCode : Int) (authScheme : String) (values : GoMap String String) :
      Sends rt (sendJsonAuthenticateError rt errCode authScheme values)

/-- `s.Error()` -/
def ServerError.text (e : ServerError) : String :=
  e.Err ++ "\n" ++ match e.Request with
    | none => ""
    | some (uri, form) => e.Mode ++ "  " ++ uri ++ " " ++ form ++ "\n"

/-- The answer to a panic that is not a response. The stack trace in the log is left out. -/
def respondServerError (w : Writer) (r : Request) (newResponse err : String) : HandlerM ε Unit := do
  w.writeHeader 500
  let buf ← resetOutputBuffer r
  logError "Error in handler stack" [.attr "partial_output" (.bytes buf), .attr "error" (.text err)]
  let _ ← w.write (bytes newResponse)

/-- The deferred function of `WithErrorHandler`. -/
def respond (rt : Runtime) (w : Writer) (r : Request) : PanicValue → HandlerM ε Unit
  | .httpError v => do
    let headers := v.Headers.getD ∅
    for k in rt.range headers do
      match headers.get k with
      | some v2 => w.setHeader k v2
      | none => pure ()
    w.writeHeader v.ErrCode
    if v.Message ≠ "" then
      let _ ← w.write (bytes v.Message)
  | .code v => w.writeHeader v
  | .serverError v => respondServerError w r v.Output (ServerError.text v)
  -- `v.Output` of a nil pointer
  | .nilServerError => throw nilDereference
  | .error err => respondServerError w r "" err
  | .text v => respondServerError w r "" (rt.errorf v)
  | .other v => respondServerError w r "" v

def withErrorHandler (rt : Runtime) (h : Handler ε) : Handler ε := fun w req =>
  tryCatch (h w req) (respond rt w req)

end GoraddServe.ErrorHandler
