import GoraddServe.GoMaps
import GoraddServe.Panics

/-!
# Requests and response writers

Handlers work on an exchange: the response writer of net/http, the buffered writers that
have been put in front of it, and whatever else the handlers share. A writer is the
one of the server or a buffered one around another writer, and all of them give out the
header map of the server's.
-/
namespace GoraddServe.ResponseWriters
open GoMaps Panics

abbrev Bytes := List UInt8

/-- `[]byte(s)` -/
def bytes (s : String) : Bytes := s.toUTF8.data.toList

theorem bytes_eq_nil {s : String} : bytes s = [] ↔ s = "" := by
  rw [bytes, Array.toList_eq_nil_iff, ← String.toByteArray_eq_empty_iff, ByteArray.ext_iff]
  rfl

/-- `http.Header`, with its keys in canonical form. -/
abbrev Header := GoMap String (List String)

def isTokenChar (c : Char) : Bool := c.isAlphanum || "!#$%&'*+-.^_`|~".toList.contains c

/-- The first letter and each one after a hyphen in upper case, the others in lower case. -/
def capitalize : Bool → List Char → List Char
  | _, [] => []
  | upper, c :: rest => (if upper then c.toUpper else c.toLower) :: capitalize (c == '-') rest

/-- `http.CanonicalHeaderKey` -/
def canonicalHeaderKey (key : String) : String :=
  if key.toList.all isTokenChar then String.ofList (capitalize true key.toList) else key

/-- `header.Set(key, value)` -/
def setHeader (header : Header) (key value : String) : Header :=
  header.set (canonicalHeaderKey key) [value]

theorem get_setHeader {header : Header} {key key' value : String}
    (h : key' = canonicalHeaderKey key) : (setHeader header key value).get key' = some [value] :=
  (GoMap.get_set ..).trans (if_pos h)

theorem get_setHeader_of_ne {header : Header} {key key' value : String}
    (h : key' ≠ canonicalHeaderKey key) : (setHeader header key value).get key' = header.get key' :=
  (GoMap.get_set ..).trans (if_neg h)

/-- `http.Error` of this package; `Headers` may be a nil map. -/
structure Error where
  Message : String := ""
  Headers : Option (GoMap String String) := none
  ErrCode : Int

/-- `Request` is its URI and its form as printed, if there is one. -/
structure ServerError where
  Err : String
  Mode : String
  Request : Option (String × String)
  Output : String

/-- What `recover` may return, by the cases of `WithErrorHandler`. -/
inductive PanicValue where
  | httpError (e : Error)
  | code (code : Int)
  | serverError (e : ServerError)
  /-- a nil `*ServerError` -/
  | nilServerError
  /-- any other `error`, with its text -/
  | error (text : String)
  | text (s : String)
  /-- anything else, as `%v` prints it -/
  | other (printed : String)

/-- What is logged: a value, an attribute, or a list of such. -/
inductive LogValue where
  | bytes (b : Bytes)
  | text (s : String)
  | header (h : Header)
  | attr (key : String) (value : LogValue)
  | list (args : List LogValue)

/-- A record has one group of attributes, that of the module. -/
structure LogRecord where
  msg : String
  group : String
  attrs : List (String × LogValue)

/-- A call of a method of an `http.ResponseWriter`. -/
inductive WriterCall where
  | writeHeader (code : Int)
  | write (b : Bytes)
  deriving DecidableEq

/-- The `ResponseWriter` of net/http, with a record of the calls of its methods. -/
structure ServerWriter where
  header : Header
  /-- the status and the header that have been sent -/
  sent : Option (Int × Header)
  /-- what the `Content-Length` that has been sent leaves for the body, if there is one -/
  room : Option Int
  body : Bytes
  calls : List WriterCall

structure BufferedResponseWriter where
  buf : Bytes
  code : Int
  disabled : Bool
  len : ℕ

/-- `writer` numbers the buffered writers in the order in which they are made; `logger` is nil
or holds what has been logged. -/
structure Exchange (ε : Type) where
  server : ServerWriter
  writer : ℕ → BufferedResponseWriter
  writers : ℕ
  logger : Option (List LogRecord)
  env : ε

/-- An `http.ResponseWriter`. -/
inductive Writer where
  | server
  | buffered (inner : Writer) (p : ℕ)

/-- The cookies of a request and the values its context holds. -/
structure Request where
  cookie : String → Option String
  bufferedOutput : Option ℕ
  session : Option ℕ

abbrev HandlerM (ε α : Type) := GoM PanicValue (Exchange ε) α

abbrev Handler (ε : Type) := Writer → Request → HandlerM ε Unit

variable {ε : Type}

namespace Exchange

def setWriter (x : Exchange ε) (p : ℕ) (bw : BufferedResponseWriter) : Exchange ε :=
  { x with writer := Function.update x.writer p bw }

def record (x : Exchange ε) (call : WriterCall) : Exchange ε :=
  { x with server.calls := x.server.calls ++ [call] }

@[simp] theorem setWriter_self (x : Exchange ε) (p : ℕ) (bw : BufferedResponseWriter) :
    (x.setWriter p bw).writer p = bw := Function.update_self ..

theorem setWriter_of_ne (x : Exchange ε) {p q : ℕ} (bw : BufferedResponseWriter) (h : q ≠ p) :
    (x.setWriter p bw).writer q = x.writer q := Function.update_of_ne h ..

end Exchange

/-- A nil `logger` is dereferenced. -/
def nilDereference : PanicValue :=
  .error "runtime error: invalid memory address or nil pointer dereference"

/-- `slog.Group` makes attributes of its arguments: a text is the key of what follows it, and
what is neither a text nor an attribute has no key. -/
def argsToAttrs : List LogValue → List (String × LogValue)
  | [] => []
  | .attr key value :: args => (key, value) :: argsToAttrs args
  | .text key :: value :: args => (key, value) :: argsToAttrs args
  | arg :: args => ("!BADKEY", arg) :: argsToAttrs args

def logModule : String := "http"

/-- What the functions of package log record, which give `args` to `slog.Group` as one argument. -/
def logRecord (group msg : String) (args : List LogValue) : LogRecord :=
  ⟨msg, group, argsToAttrs [.list args]⟩

/-- `log.Error(ctx, logModule, msg, args...)` -/
def logError (msg : String) (args : List LogValue) : HandlerM ε Unit := do
  match (← get).logger with
  | none => throw nilDereference
  | some records =>
    modify fun x => { x with logger := some (records ++ [logRecord logModule msg args]) }

def Header.valid (header : Header) : Bool :=
  header.all fun key values =>
    (key :: values).all fun s => s.toList.all fun c => decide (c.toNat < 128)

/-- `w.Header().Set(key, value)` -/
def Writer.setHeader (_ : Writer) (key value : String) : HandlerM ε Unit :=
  modify fun x => { x with server.header := ResponseWriters.setHeader x.server.header key value }

def parseDigits (digits : List Char) : Option ℕ :=
  if digits ≠ [] ∧ digits.all Char.isDigit then some (Nat.ofDigitChars 10 digits 0) else none

/-- `strconv.ParseInt(s, 10, 64)`, unless there is an error. -/
def parseInt (s : String) : Option Int :=
  match s.toList with
  | '-' :: digits => ((parseDigits digits).map fun n : ℕ => -(n : Int)).filter (-2 ^ 63 ≤ ·)
  | '+' :: digits => ((parseDigits digits).map Int.ofNat).filter (· < 2 ^ 63)
  | digits => ((parseDigits digits).map Int.ofNat).filter (· < 2 ^ 63)

/-- The length of the body that a header declares; one that is not valid counts for nothing. -/
def contentLength (header : Header) : Option Int :=
  match header.get "Content-Length" with
  | some (cl :: _) => (parseInt cl).filter (0 ≤ ·)
  | _ => none

/-- The status of a response that has a body. -/
def bodyAllowed (code : Int) : Bool := !(decide (code < 200) || code == 204 || code == 304)

/-- The status is sent, unless one has been sent before. -/
def sendStatus (code : Int) : HandlerM ε Unit := do
  if (← get).server.sent.isSome then return
  if code < 100 ∨ 999 < code then throw (.text s!"invalid WriteHeader code {code}")
  -- an informational response goes before the one that is still to come
  if code < 200 ∧ code ≠ 101 then return
  modify fun x => { x with
    server.sent := some (code, x.server.header)
    server.room := contentLength x.server.header }

def Writer.writeHeader : Writer → Int → HandlerM ε Unit
  | .server, code => do
    modify fun x => x.record (.writeHeader code)
    sendStatus code
  | .buffered inner p, code => do
    let bw := (← get).writer p
    if bw.disabled then
      inner.writeHeader code
    else
      modify fun x => x.setWriter p { bw with code }

/-- `w.Write(b)` returns the length of what was written and the text of an error. -/
def Writer.write : Writer → Bytes → HandlerM ε (ℕ × Option String)
  | .server, b => do
    modify fun x => x.record (.write b)
    sendStatus 200
    let server := (← get).server
    if b = [] then return (0, none)
    if server.sent.any fun sent => !bodyAllowed sent.1 then
      return (0, some "http: request method or response status code does not allow body")
    let room := server.room.map (· - (b.length : Int))
    modify fun x => { x with server.room := room }
    if room.any (· < 0) then
      return (0, some "http: wrote more than the declared Content-Length")
    modify fun x => { x with server.body := x.server.body ++ b }
    return (b.length, none)
  | .buffered inner p, b => do
    let bw := (← get).writer p
    if bw.disabled then
      let (l, err) ← inner.write b
      modify fun x => x.setWriter p { x.writer p with len := (x.writer p).len + l }
      return (l, err)
    else
      modify fun x => x.setWriter p { bw with buf := bw.buf ++ b, len := bw.len + b.length }
      return (b.length, none)

/-- `io.WriteString(w, s)` -/
def Writer.writeString : Writer → String → HandlerM ε (ℕ × Option String)
  | .server, s => (Writer.server).write (bytes s)
  | .buffered inner p, s => do
    let bw := (← get).writer p
    if bw.disabled then
      let (l, err) ← inner.writeString s
      modify fun x => x.setWriter p { x.writer p with len := (x.writer p).len + l }
      return (l, err)
    else
      let b := bytes s
      modify fun x => x.setWriter p { bw with buf := bw.buf ++ b, len := bw.len + b.length }
      return (b.length, none)

theorem writeString_eq (w : Writer) (s : String) :
    (w.writeString s : HandlerM ε (ℕ × Option String)) = w.write (bytes s) := by
  induction w with
  | server => rfl
  | buffered inner p ih => rw [Writer.writeString, Writer.write, ih]

section Server

variable {x : Exchange ε} {code : Int} {b : Bytes}

theorem outcome_sendStatus : outcome (sendStatus code) x =
    if x.server.sent.isSome then (.ok ⟨⟩, x)
    else if code < 100 ∨ 999 < code then
      (.error (.text s!"invalid WriteHeader code {code}"), x)
    else if code < 200 ∧ code ≠ 101 then (.ok ⟨⟩, x)
    else (.ok ⟨⟩, { x with
      server.sent := some (code, x.server.header)
      server.room := contentLength x.server.header }) := by
  rw [sendStatus, outcome_bind_ok outcome_get]
  by_cases hsent : x.server.sent.isSome = true
  · rw [if_pos hsent, if_pos hsent]
    rfl
  rw [if_neg hsent, if_neg hsent]
  dsimp only
  by_cases hinvalid : code < 100 ∨ 999 < code
  · rw [if_pos hinvalid, if_pos hinvalid]
    rfl
  rw [if_neg hinvalid, if_neg hinvalid]
  by_cases hearly : code < 200 ∧ code ≠ 101
  · rw [if_pos hearly, if_pos hearly]
    rfl
  · rw [if_neg hearly, if_neg hearly]
    rfl

/-- The status and the header of the response, once something is written to it. -/
def status (x : Exchange ε) : Int × Header := x.server.sent.getD (200, x.server.header)

/-- What its `Content-Length` leaves for the body by then. -/
def room (x : Exchange ε) : Option Int :=
  if x.server.sent.isSome then x.server.room else contentLength x.server.header

/-- A response with this status and as much room takes the bytes. -/
def takes (code : Int) (room : Option Int) (b : Bytes) : Bool :=
  bodyAllowed code && room.all ((b.length : Int) ≤ ·)

/-- The bytes that are added to the body by a write. -/
def taken (code : Int) (room : Option Int) (b : Bytes) : Bytes :=
  if takes code room b then b else []

@[simp] theorem taken_nil {code : Int} {room : Option Int} : taken code room [] = [] := ite_self _

theorem taken_eq_self {code : Int} {room : Option Int} :
    taken code room b = b ↔ b = [] ∨ takes code room b = true := by
  rw [taken]
  split
  · next h => exact iff_of_true rfl (.inr h)
  · next h => rw [or_iff_left h, eq_comm]

def Fits (room : Option Int) (b : Bytes) : Prop := ∀ n ∈ room, (b.length : Int) ≤ n

theorem takes_iff {code : Int} {room : Option Int} :
    takes code room b = true ↔ bodyAllowed code = true ∧ Fits room b := by
  rw [takes, Bool.and_eq_true, Fits]
  cases room with
  | none => simp
  | some n => simp

def refusal (code : Int) : String :=
  if bodyAllowed code then "http: wrote more than the declared Content-Length"
  else "http: request method or response status code does not allow body"

def writeResult (x : Exchange ε) (b : Bytes) : ℕ × Option String :=
  if b = [] ∨ takes (status x).1 (room x) b = true then (b.length, none)
  else (0, some (refusal (status x).1))

theorem length_writeResult :
    (writeResult x b).1 = (taken (status x).1 (room x) b).length := by
  rw [writeResult]
  split
  · next htaken => rw [taken_eq_self.mpr htaken]
  · next hrefused => rw [taken, if_neg (not_or.mp hrefused).2, List.length_nil]

def afterWrite (x : Exchange ε) (b : Bytes) : Exchange ε :=
  { x.record (.write b) with
    server.sent := some (status x)
    server.room := if bodyAllowed (status x).1 then (room x).map (· - (b.length : Int)) else room x
    server.body := x.server.body ++ taken (status x).1 (room x) b }

theorem outcome_sendStatus_write : outcome (sendStatus 200) (x.record (.write b)) =
    (.ok ⟨⟩, { x.record (.write b) with
      server.sent := some (status x), server.room := room x }) := by
  rw [outcome_sendStatus]
  cases hsent : x.server.sent with
  | none => simp [Exchange.record, status, room, hsent]
  | some sent => simp [Exchange.record, status, room, hsent]

theorem outcome_server_write :
    outcome (Writer.server.write b) x = (.ok (writeResult x b), afterWrite x b) := by
  rw [Writer.write, outcome_bind_ok (outcome_modify _), outcome_bind_ok outcome_sendStatus_write,
    outcome_bind_ok outcome_get, afterWrite]
  dsimp only
  by_cases hb : b = []
  · subst hb
    rw [if_pos rfl, writeResult, if_pos (.inl rfl), taken_nil, List.append_nil]
    cases hroom : room x <;> simp <;> rfl
  have hresult : writeResult x b = if takes (status x).1 (room x) b = true then (b.length, none)
      else (0, some (refusal (status x).1)) := by
    simp [writeResult, hb]
  rw [if_neg hb, hresult]
  by_cases hallowed : bodyAllowed (status x).1 = true
  · rw [if_neg (by simp [hallowed]), outcome_bind_ok (outcome_modify _), if_pos hallowed]
    have hlarge : ((room x).map (· - (b.length : Int))).any (· < 0) = true ↔
        ¬takes (status x).1 (room x) b = true := by
      cases room x with
      | none => simp [takes, hallowed]
      | some n =>
        simp only [takes, hallowed, Bool.true_and, Option.map_some, Option.any_some,
          Option.all_some, decide_eq_true_eq]
        omega
    by_cases htakes : takes (status x).1 (room x) b = true
    · rw [if_neg (fun h => hlarge.mp h htakes), taken, if_pos htakes, if_pos htakes]
      rfl
    · rw [if_pos (hlarge.mpr htakes), taken, if_neg htakes, if_neg htakes, refusal, if_pos hallowed,
        List.append_nil]
      rfl
  · have htakes : ¬takes (status x).1 (room x) b = true := by simp [takes, hallowed]
    rw [if_pos (by simp [hallowed]), if_neg hallowed, taken, if_neg htakes, if_neg htakes, refusal,
      if_neg hallowed, List.append_nil]
    rfl

theorem outcome_server_writeHeader : outcome (Writer.server.writeHeader code) x =
    outcome (sendStatus code) (x.record (.writeHeader code)) :=
  outcome_bind_ok (outcome_modify _)

theorem outcome_logError (msg : String) (args : List LogValue) :
    outcome (logError msg args) x = x.logger.elim (.error nilDereference, x)
      fun records =>
        (.ok ⟨⟩, { x with logger := some (records ++ [logRecord logModule msg args]) }) := by
  rw [logError, outcome_bind_ok outcome_get]
  cases x.logger with
  | none => rfl
  | some records => rfl

theorem outcome_logError_ok (hlogger : x.logger.isSome = true) (msg : String)
    (args : List LogValue) :
    ∃ y, outcome (logError msg args) x = (.ok ⟨⟩, y) ∧ y.server = x.server := by
  obtain ⟨records, hrecords⟩ := Option.isSome_iff_exists.mp hlogger
  rw [outcome_logError, hrecords]
  exact ⟨_, rfl, rfl⟩

end Server

section Frame

variable {τ : Type} {view : Exchange ε → τ} {P : PanicValue → Prop} {code : Int}

theorem keeps_sendStatus
    (hserver : ∀ x sent room body calls,
      view { x with server := ⟨x.server.header, sent, room, body, calls⟩ } = view x)
    (hcode : (100 ≤ code ∧ code ≤ 999) ∨ ∀ text, P (.text text)) :
    Keeps view P (sendStatus code) := by
  refine keeps_bind keeps_get fun x => ?_
  split
  · exact keeps_pure
  dsimp only
  split
  · next hinvalid =>
    rcases hcode with hcode | hP
    · omega
    · exact keeps_throw_bind (hP _)
  split
  · exact keeps_pure
  · exact keeps_modify fun x => hserver x _ _ _ _

theorem keeps_writeHeader
    (hserver : ∀ x sent room body calls,
      view { x with server := ⟨x.server.header, sent, room, body, calls⟩ } = view x)
    (hwriter : ∀ x p, view (x.setWriter p { x.writer p with code }) = view x)
    (hcode : (100 ≤ code ∧ code ≤ 999) ∨ ∀ text, P (.text text)) (w : Writer) :
    Keeps view P (w.writeHeader code) := by
  induction w with
  | server =>
    rw [Writer.writeHeader]
    exact keeps_bind (keeps_modify fun x => hserver x _ _ _ _) fun _ =>
      keeps_sendStatus hserver hcode
  | buffered inner p ih =>
    intro x
    rw [Writer.writeHeader, outcome_bind_ok outcome_get]
    dsimp only
    split
    · exact ih x
    · exact ⟨hwriter x p, fun q hq => by cases hq⟩

theorem keeps_write
    (hserver : ∀ x sent room body calls,
      view { x with server := ⟨x.server.header, sent, room, body, calls⟩ } = view x)
    (hwriter : ∀ x p buf len, view (x.setWriter p { x.writer p with buf, len }) = view x)
    (w : Writer) (b : Bytes) : Keeps view P (w.write b) := by
  induction w with
  | server =>
    intro x
    rw [outcome_server_write]
    exact ⟨hserver x _ _ _ _, fun q hq => by cases hq⟩
  | buffered inner p ih =>
    intro x
    rw [Writer.write, outcome_bind_ok outcome_get]
    dsimp only
    split
    · refine keeps_bind ih (fun result => ?_) x
      exact keeps_bind (keeps_modify fun x => hwriter x p _ _) fun _ => keeps_pure
    · exact ⟨hwriter x p _ _, fun q hq => by cases hq⟩

end Frame

end GoraddServe.ResponseWriters
