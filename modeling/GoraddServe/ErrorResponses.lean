import GoraddServe.BufferedCalls
import GoraddServe.SessionRedirect

/-!
# The responses to panics

For every panic there is a status and a list of writes that `WithErrorHandler` gives to the
writer of the server. The deferred function panics itself when net/http refuses the status, when
there is no logger for an error that has to be logged, and for a nil `*ServerError`. With
`WithBufferedOutput` inside, the writer has got nothing from before the panic.
-/
namespace GoraddServe.ErrorResponses
open GoMaps Panics ResponseWriters BufferedOutput BufferedCalls ErrorHandler
open SessionRedirect (plainRuntime thenPanic)

variable {ε : Type}

/-- net/http takes the code for the status of a response. -/
def Final (code : Int) : Prop := code = 101 ∨ 200 ≤ code ∧ code ≤ 999

def errorStatus : PanicValue → Int
  | .httpError e => e.ErrCode
  | .code v => v
  | _ => 500

def errorWrites : PanicValue → List Bytes
  | .httpError e => if e.Message ≠ "" then [bytes e.Message] else []
  | .code _ => []
  | .serverError e => [bytes e.Output]
  | _ => [bytes ""]

/-- One turn of the loop of the error handler. -/
def overrideKey (headers : GoMap String String) (header : Header) (k : String) : Header :=
  match headers.get k with
  | some v => setHeader header k v
  | none => header

def override (rt : Runtime) (e : Error) (header : Header) : Header :=
  (rt.range (e.Headers.getD ∅)).foldl (overrideKey (e.Headers.getD ∅)) header

def answerHeader (rt : Runtime) (p : PanicValue) (header : Header) : Header :=
  match p with
  | .httpError e => override rt e header
  | _ => header

/-- The status of a response to which a code is given. -/
def statusFor (x : Exchange ε) (code : Int) : Int := x.server.sent.elim code Prod.fst

/-- What the `Content-Length` leaves for the body of a response that gets a header now. -/
def roomFor (x : Exchange ε) (header : Header) : Option Int :=
  if x.server.sent.isSome then x.server.room else contentLength header

/-- From `x` on the server's writer has got a status. -/
structure Given (x : Exchange ε) (header : Header) (code : Int) (y : Exchange ε) : Prop where
  calls : y.server.calls = x.server.calls ++ [.writeHeader code]
  sent : y.server.sent = some (x.server.sent.getD (code, header))
  room : y.server.room = roomFor x header
  body : y.server.body = x.server.body

/-- From `x` on the server's writer has got a status and then a write, or none. -/
structure Got (x : Exchange ε) (header : Header) (code : Int) (writes : List Bytes)
    (y : Exchange ε) : Prop where
  calls : y.server.calls = x.server.calls ++ .writeHeader code :: writes.map .write
  sent : y.server.sent = some (x.server.sent.getD (code, header))
  body : y.server.body =
    x.server.body ++ taken (statusFor x code) (roomFor x header) writes.flatten

section Server

variable {x y z : Exchange ε} {header : Header} {code : Int} {writes : List Bytes} {b : Bytes}

theorem Given.of_server (h : Given x header code y) (hserver : z.server = y.server) :
    Given x header code z :=
  ⟨hserver ▸ h.calls, hserver ▸ h.sent, hserver ▸ h.room, hserver ▸ h.body⟩

theorem Given.got (h : Given x header code y) : Got x header code [] y :=
  ⟨h.calls, h.sent, by rw [h.body, List.flatten_nil, taken_nil, List.append_nil]⟩

/-! The four things that may happen to a status. -/

theorem writeHeader_sent (hsent : x.server.sent.isSome = true) :
    outcome (Writer.server.writeHeader code) x = (.ok ⟨⟩, x.record (.writeHeader code)) := by
  rw [outcome_server_writeHeader, outcome_sendStatus]
  exact if_pos hsent

theorem writeHeader_refused (hsent : ¬x.server.sent.isSome = true)
    (hcode : code < 100 ∨ 999 < code) : outcome (Writer.server.writeHeader code) x =
      (.error (.text s!"invalid WriteHeader code {code}"), x.record (.writeHeader code)) := by
  rw [outcome_server_writeHeader, outcome_sendStatus]
  exact (if_neg hsent).trans (if_pos hcode)

theorem writeHeader_early (hsent : ¬x.server.sent.isSome = true)
    (hcode : 100 ≤ code ∧ code < 200 ∧ code ≠ 101) :
    outcome (Writer.server.writeHeader code) x = (.ok ⟨⟩, x.record (.writeHeader code)) := by
  rw [outcome_server_writeHeader, outcome_sendStatus]
  exact (if_neg hsent).trans ((if_neg (by omega)).trans (if_pos hcode.2))

theorem writeHeader_final (hsent : ¬x.server.sent.isSome = true) (hcode : Final code) :
    outcome (Writer.server.writeHeader code) x = (.ok ⟨⟩,
      { x.record (.writeHeader code) with
        server.sent := some (code, x.server.header)
        server.room := contentLength x.server.header }) := by
  unfold Final at hcode
  rw [outcome_server_writeHeader, outcome_sendStatus]
  exact (if_neg hsent).trans ((if_neg (by omega)).trans (if_neg (by omega)))

theorem given_writeHeader (hcode : x.server.sent.isSome = true ∨ Final code) :
    ∃ y, outcome (Writer.server.writeHeader code) x = (.ok ⟨⟩, y) ∧
      Given x x.server.header code y ∧ y.logger = x.logger := by
  by_cases hsent : x.server.sent.isSome = true
  · refine ⟨_, writeHeader_sent hsent, ⟨rfl, ?_, (if_pos hsent).symm, rfl⟩, rfl⟩
    obtain ⟨sent, hsent⟩ := Option.isSome_iff_exists.mp hsent
    rw [Exchange.record, hsent]
    rfl
  · refine ⟨_, writeHeader_final hsent (hcode.resolve_left hsent),
      ⟨rfl, ?_, (if_neg hsent).symm, rfl⟩, rfl⟩
    rw [Option.not_isSome_iff_eq_none.mp hsent]
    rfl

theorem Given.write (h : Given x header code y) (b : Bytes) :
    ∃ result z, outcome (Writer.server.write b) y = (.ok result, z) ∧
      Got x header code [b] z := by
  have hstatus : status y = x.server.sent.getD (code, header) := by
    rw [status, h.sent, Option.getD_some]
  have hcode : (status y).1 = statusFor x code := by
    rw [hstatus, statusFor]
    cases x.server.sent <;> rfl
  have hroom : ResponseWriters.room y = roomFor x header := by
    rw [ResponseWriters.room, h.sent, ← h.room]
    rfl
  obtain ⟨result, z, hwrite, hcalls, hsent, hbody, -⟩ := server_write y b
  refine ⟨result, z, hwrite, ?_, hsent.trans (congrArg some hstatus), ?_⟩
  · rw [hcalls, h.calls, List.append_assoc]
    rfl
  · rw [hbody, h.body, hcode, hroom, List.flatten_singleton]

end Server

section Respond

variable {rt : Runtime} {r : Request} {x y z : Exchange ε} {e : Error} {p : PanicValue}
  {newResponse err : String}

/-- The status and the message of an `http.Error`. -/
def sendError (e : Error) : HandlerM ε Unit := do
  Writer.server.writeHeader e.ErrCode
  if e.Message ≠ "" then
    let _ ← Writer.server.write (bytes e.Message)

theorem outcome_forIn_override {headers : GoMap String String}
    {f : String → PUnit → HandlerM ε (ForInStep PUnit)}
    (hf : ∀ k b (y : Exchange ε), outcome (f k b) y = (.ok (.yield ⟨⟩),
      { y with server.header := overrideKey headers y.server.header k }))
    (m : HandlerM ε Unit) (l : List String) :
    outcome (forIn l PUnit.unit f >>= fun _ => m) z =
      outcome m { z with server.header := l.foldl (overrideKey headers) z.server.header } := by
  induction l generalizing z with
  | nil => rfl
  | cons k l ih =>
    rw [List.forIn_cons, bind_assoc, outcome_bind_ok (hf k ⟨⟩ z)]
    exact ih

theorem respond_override (rt : Runtime) (r : Request) (z : Exchange ε) (e : Error) :
    outcome (respond rt .server r (.httpError e)) z =
      outcome (sendError e) { z with server.header := override rt e z.server.header } := by
  refine outcome_forIn_override (fun k b y => ?_) (sendError e) _
  rw [overrideKey]
  cases hk : (e.Headers.getD ∅).get k with
  | none => rfl
  | some v => rfl

theorem final_500 : Final 500 := .inr ⟨by decide, by decide⟩

theorem respondServerError_nilLogger (hlogger : z.logger = none) :
    ∃ y, outcome (respondServerError .server r newResponse err) z = (.error nilDereference, y) := by
  obtain ⟨y, hheader, -, hy⟩ := given_writeHeader (x := z) (.inr final_500)
  obtain ⟨buf, u, hreset, -, hu⟩ := outcome_resetOutputBuffer (r := r) (x := y)
  rw [respondServerError, outcome_bind_ok hheader, outcome_bind_ok hreset, outcome_bind,
    outcome_logError, hu, hy, hlogger]
  exact ⟨_, rfl⟩

theorem got_respondServerError (hlogger : z.logger.isSome = true) :
    ∃ y, outcome (respondServerError .server r newResponse err) z = (.ok ⟨⟩, y) ∧
      Got z z.server.header 500 [bytes newResponse] y := by
  obtain ⟨t, hheader, hgiven, ht⟩ := given_writeHeader (x := z) (.inr final_500)
  obtain ⟨buf, u, hreset, hserver, hu⟩ := outcome_resetOutputBuffer (r := r) (x := t)
  obtain ⟨v, hlog, hserver'⟩ := outcome_logError_ok (x := u) (by rw [hu, ht, hlogger])
    "Error in handler stack" [.attr "partial_output" (.bytes buf), .attr "error" (.text err)]
  obtain ⟨result, y, hwrite, hy⟩ := ((hgiven.of_server hserver).of_server hserver').write
    (bytes newResponse)
  refine ⟨y, ?_, hy⟩
  rw [respondServerError, outcome_bind_ok hheader, outcome_bind_ok hreset, outcome_bind_ok hlog,
    outcome_bind_ok hwrite]
  rfl

theorem got_sendError (hcode : z.server.sent.isSome = true ∨ Final e.ErrCode) :
    ∃ y, outcome (sendError e) z = (.ok ⟨⟩, y) ∧
      Got z z.server.header e.ErrCode (errorWrites (.httpError e)) y := by
  obtain ⟨t, hheader, hgiven, -⟩ := given_writeHeader hcode
  rw [sendError, outcome_bind_ok hheader, errorWrites]
  by_cases hmessage : e.Message ≠ ""
  · obtain ⟨result, y, hwrite, hy⟩ := hgiven.write (bytes e.Message)
    rw [if_pos hmessage, if_pos hmessage, outcome_bind_ok hwrite]
    exact ⟨y, rfl, hy⟩
  · rw [if_neg hmessage, if_neg hmessage]
    exact ⟨t, rfl, hgiven.got⟩

/-- The deferred function goes through: the status is one of a response or comes too late, and
what is to be logged has a logger. -/
def Answering (z : Exchange ε) : PanicValue → Prop
  | .httpError e => z.server.sent.isSome = true ∨ Final e.ErrCode
  | .code v => z.server.sent.isSome = true ∨ Final v
  | .nilServerError => False
  | _ => z.logger.isSome = true

theorem got_respond (rt : Runtime) (r : Request) (hp : Answering z p) :
    ∃ y, outcome (respond rt .server r p) z = (.ok ⟨⟩, y) ∧
      Got z (answerHeader rt p z.server.header) (errorStatus p) (errorWrites p) y := by
  cases p with
  | httpError e =>
    obtain ⟨y, hsend, hy⟩ := got_sendError
      (z := { z with server.header := override rt e z.server.header }) hp
    exact ⟨y, (respond_override rt r z e).trans hsend, hy.calls, hy.sent, hy.body⟩
  | code v =>
    obtain ⟨y, hheader, hy, -⟩ := given_writeHeader hp
    exact ⟨y, hheader, hy.got⟩
  | nilServerError => exact hp.elim
  | serverError | error | text | other => exact got_respondServerError hp

end Respond

/-- The error handler has returned. A status has been sent, once, and the output that a
`*ServerError` brings with it has been added to the body. -/
structure Answered (z : Exchange ε) (p : PanicValue)
    (result : Except PanicValue Unit × Exchange ε) : Prop where
  returns : result.1 = .ok ⟨⟩
  status : result.2.server.sent.isSome = true
  once : ∀ sent, z.server.sent = some sent → result.2.server.sent = some sent
  output : ∀ e, p = .serverError e → result.2.server.body = z.server.body ++ bytes e.Output

/-- An informational status is followed by the 200 of a write, if there is one, and an output is
lost when the status has no body or the `Content-Length` is too short. -/
def Answerable (z : Exchange ε) : PanicValue → Prop
  | .httpError e => Answering z (.httpError e) ∨
      100 ≤ e.ErrCode ∧ e.ErrCode < 200 ∧ e.Message ≠ ""
  | .serverError e => z.logger.isSome = true ∧
      (e.Output = "" ∨
        takes (statusFor z 500) (roomFor z z.server.header) (bytes e.Output) = true)
  | p => Answering z p

section Escapes

variable {rt : Runtime} {h : Handler ε} {r : Request} {x y z : Exchange ε} {e : Error}
  {p : PanicValue} {newResponse err : String}

theorem not_answered {q : PanicValue} : ¬Answered z p (.error q, y) := fun h => nomatch h.returns

theorem Got.answered {header : Header} {code : Int} {writes : List Bytes}
    (hy : Got z header code writes y)
    (hp : ∀ e, p = .serverError e → y.server.body = z.server.body ++ bytes e.Output) :
    Answered z p (.ok ⟨⟩, y) := by
  refine ⟨rfl, Option.isSome_of_eq_some hy.sent, fun sent hz => ?_, hp⟩
  rw [hy.sent, hz]
  rfl

theorem answered_sendError_iff (hp : ∀ e, p ≠ .serverError e) :
    Answered z p (outcome (sendError e) z) ↔ Answering z (.httpError e) ∨
      100 ≤ e.ErrCode ∧ e.ErrCode < 200 ∧ e.Message ≠ "" := by
  by_cases hanswering : Answering z (.httpError e)
  · obtain ⟨y, hsend, hy⟩ := got_sendError hanswering
    rw [hsend]
    exact iff_of_true (hy.answered fun e he => absurd he (hp e)) (.inl hanswering)
  obtain ⟨hsent, hfinal⟩ := not_or.mp hanswering
  have hnone := Option.not_isSome_iff_eq_none.mp hsent
  rw [or_iff_right hanswering, sendError]
  by_cases hearly : 100 ≤ e.ErrCode ∧ e.ErrCode < 200
  · have hcode : e.ErrCode ≠ 101 := fun h => hfinal (.inl h)
    rw [outcome_bind_ok (writeHeader_early hsent ⟨hearly.1, hearly.2, hcode⟩)]
    by_cases hmessage : e.Message ≠ ""
    · -- the write sends the status 200
      obtain ⟨result, y, hwrite, -, hy, -⟩ :=
        server_write (z.record (.writeHeader e.ErrCode)) (bytes e.Message)
      rw [if_pos hmessage, outcome_bind_ok hwrite]
      refine iff_of_true ⟨rfl, Option.isSome_of_eq_some hy, fun sent hz => ?_, fun e he => ?_⟩
        ⟨hearly.1, hearly.2, hmessage⟩
      · cases hnone.symm.trans hz
      · exact absurd he (hp e)
    · rw [if_neg hmessage]
      refine iff_of_false (fun h => hsent h.status) fun h => hmessage h.2.2
  · have hcode : e.ErrCode < 100 ∨ 999 < e.ErrCode := by
      unfold Final at hfinal
      omega
    rw [outcome_bind, writeHeader_refused hsent hcode]
    exact iff_of_false not_answered fun h => hearly ⟨h.1, h.2.1⟩

theorem respond_code {v : Int} : outcome (respond rt .server r (.code v)) z =
    outcome (sendError { ErrCode := v }) z := by
  rw [respond, sendError, if_neg (by simp), bind_pure_unit]

theorem answered_respondServerError_iff :
    Answered z p (outcome (respondServerError .server r newResponse err) z) ↔
      z.logger.isSome = true ∧ ∀ e, p = .serverError e →
        taken (statusFor z 500) (roomFor z z.server.header) (bytes newResponse) =
          bytes e.Output := by
  by_cases hlogger : z.logger.isSome = true
  · obtain ⟨y, hrespond, hy⟩ := got_respondServerError hlogger
    have hbody := hy.body
    rw [List.flatten_singleton] at hbody
    rw [hrespond, and_iff_right hlogger]
    refine ⟨fun h e he => ?_, fun h => hy.answered fun e he => hbody.trans (h e he ▸ rfl)⟩
    exact List.append_cancel_left (hbody.symm.trans (h.output e he))
  · obtain ⟨y, hrespond⟩ := respondServerError_nilLogger (Option.not_isSome_iff_eq_none.mp hlogger)
    rw [hrespond]
    exact iff_of_false not_answered fun h => hlogger h.1

/-- A panic is answered under these conditions and no others. -/
theorem no_panic_escapes_iff (hpanics : outcome (h .server r) x = (.error p, z)) :
    Answered z p (outcome (withErrorHandler rt h .server r) x) ↔ Answerable z p := by
  rw [withErrorHandler, outcome_tryCatch_error hpanics]
  cases p with
  | httpError e =>
    rw [respond_override]
    have hheader : ∀ result, Answered z (.httpError e) result ↔
        Answered { z with server.header := override rt e z.server.header } (.httpError e) result :=
      fun _ =>
      ⟨fun h => ⟨h.returns, h.status, h.once, h.output⟩,
        fun h => ⟨h.returns, h.status, h.once, h.output⟩⟩
    exact (hheader _).trans (answered_sendError_iff (by simp))
  | code v =>
    rw [respond_code, answered_sendError_iff (by simp)]
    simp [Answerable, Answering]
  | serverError e =>
    rw [respond, answered_respondServerError_iff, Answerable, ← bytes_eq_nil, ← taken_eq_self]
    refine and_congr_right fun _ => ⟨fun h => h e rfl, fun h e' he => ?_⟩
    cases he
    exact h
  | nilServerError => exact iff_of_false not_answered id
  | error | text | other =>
    rw [respond, answered_respondServerError_iff]
    simp [Answerable, Answering]

end Escapes

/-- A page that is not there, before the logger is set. -/
theorem no_panic_escapes_iff_notFound :
    Answered { freshExchange with logger := none } (sendNotFoundMessage "gone")
      (outcome (withErrorHandler plainRuntime (fun _ _ => throw (sendNotFoundMessage "gone"))
        .server plainRequest) { freshExchange with logger := none }) :=
  (no_panic_escapes_iff rfl).mpr (.inl (.inr (.inr ⟨by decide, by decide⟩)))

/-- A panic with a text, before the logger is set: the panic that leaves the error handler is
another one. -/
theorem text_escapes : ¬Answered { freshExchange with logger := none } (.text "test")
    (outcome (withErrorHandler plainRuntime (fun _ _ => throw (.text "test")) .server plainRequest)
      { freshExchange with logger := none }) := by
  have hescapes : (outcome (withErrorHandler plainRuntime (fun _ _ => throw (.text "test"))
      .server plainRequest) { freshExchange with logger := none }).1 = .error nilDereference := by
    rfl
  intro h
  cases hescapes.symm.trans h.returns

def errorBody : PanicValue → Bytes
  | .httpError e => bytes e.Message
  | .serverError e => bytes e.Output
  | _ => []

theorem flatten_errorWrites (p : PanicValue) : (errorWrites p).flatten = errorBody p := by
  have hempty : bytes "" = [] := bytes_eq_nil.mpr rfl
  cases p with
  | httpError e =>
    rw [errorWrites, errorBody]
    split
    · exact List.flatten_singleton
    · next hmessage => rw [not_not.mp hmessage, hempty, List.flatten_nil]
  | code v => rfl
  | serverError e => exact List.flatten_singleton
  | _ => exact List.flatten_singleton.trans hempty

/-- After a panic behind buffered output the writer of the server has got one status and the
answer to the panic, and nothing from before. -/
theorem error_response (rt : Runtime) {h : Handler ε} {r : Request} {x z : Exchange ε}
    {p : PanicValue} {cs : List Call}
    (hpanics : outcome (h (innerWriter .server x) (innerRequest r x)) (Exchange.buffer x) =
      (.error p, z))
    (hmakes : Makes (innerWriter .server x) (innerRequest r x) (Exchange.buffer x) cs z)
    (hcs : .disable ∉ cs) (hlogger : z.logger.isSome = true)
    (hcode : 200 ≤ errorStatus p ∧ errorStatus p ≤ 999) (hp : p ≠ .nilServerError) :
    ∃ (y : Exchange ε) (writes : List Bytes),
      outcome (withErrorHandler rt (withBufferedOutput h) .server r) x = (.ok ⟨⟩, y) ∧
      y.server.calls = x.server.calls ++ .writeHeader (errorStatus p) :: writes.map .write ∧
      writes.flatten = errorBody p ∧
      (x.server.sent = none →
        y.server.sent = some (errorStatus p, answerHeader rt p z.server.header) ∧
        y.server.body = x.server.body ++ taken (errorStatus p)
          (contentLength (answerHeader rt p z.server.header)) (errorBody p)) := by
  have houter := (buffering_of_makes rfl hmakes hcs).outer
  have hanswering : Answering z p := by
    cases p with
    | httpError | code => exact .inr (.inr hcode)
    | nilServerError => exact absurd rfl hp
    | serverError | error | text | other => exact hlogger
  obtain ⟨y, hrespond, hy⟩ := got_respond rt r hanswering
  refine ⟨y, errorWrites p, ?_, houter.calls ▸ hy.calls, flatten_errorWrites p, fun hnone => ?_⟩
  · rw [withErrorHandler, outcome_tryCatch_error (withBufferedOutput_error hpanics), hrespond]
  have hz : z.server.sent = none := houter.sent.trans hnone
  refine ⟨by rw [hy.sent, hz]; rfl, ?_⟩
  rw [hy.body, houter.body, statusFor, roomFor, hz, flatten_errorWrites]
  rfl

def halfPage : List Call := [.write [60], .writeHeader 201]

/-- After half a page it turns out that the user is not authenticated. -/
theorem error_response_unauthorized :
    (outcome (withErrorHandler plainRuntime (withBufferedOutput
      (thenPanic (making halfPage) (sendUnauthorizedMessage "no"))) .server plainRequest)
        freshExchange).2.server.body = bytes "no" := by
  have hreturns : outcome (making halfPage (innerWriter .server freshExchange)
      (innerRequest plainRequest freshExchange)) (Exchange.buffer freshExchange) =
        (.ok ⟨⟩, (outcome (making halfPage (innerWriter .server freshExchange)
          (innerRequest plainRequest freshExchange)) (Exchange.buffer freshExchange)).2) :=
    Prod.ext (by rfl) rfl
  obtain ⟨y, writes, hy, -, -, hsent⟩ := error_response plainRuntime
    (h := thenPanic (making halfPage) (sendUnauthorizedMessage "no"))
    (outcome_bind_ok hreturns) (makes_making hreturns) (by decide) (by rfl) (by decide)
    (by simp [sendUnauthorizedMessage])
  rw [hy]
  exact (hsent rfl).2.trans (by rfl)

end GoraddServe.ErrorResponses
