import GoraddServe.ErrorResponses
import GoraddServe.GoFormats

/-!
# The report of a panic

`WithErrorHandler` logs the output that a handler has left behind and the error. They get into the
record as one list without a key. The output is looked up in the context of the handler's own
request, where `WithBufferedOutput` further in has put nothing, and a text that was panicked with
is taken for a format.
-/
namespace GoraddServe.ErrorReports
open Panics ResponseWriters BufferedOutput BufferedCalls ErrorHandler
open SessionRedirect (plainRuntime thenPanic)

variable {ε : Type}

/-- What is given to `log.Error`. -/
def reportArgs (partialOutput : Bytes) (err : String) : List LogValue :=
  [.attr "partial_output" (.bytes partialOutput), .attr "error" (.text err)]

def report (partialOutput : Bytes) (err : String) : LogRecord :=
  logRecord logModule "Error in handler stack" (reportArgs partialOutput err)

/-- The attributes of a record are the output and the error with its text. -/
def Faithful (b : Bytes) (text : String) (record : LogRecord) : Prop :=
  ("partial_output", .bytes b) ∈ record.attrs ∧ ("error", .text text) ∈ record.attrs

def errorText : PanicValue → Option String
  | .serverError e => some (ServerError.text e)
  | .error text => some text
  | .text s => some s
  | _ => none

def outputOf (r : Request) (x : Exchange ε) : Bytes :=
  match r.bufferedOutput with
  | none => []
  | some p => (x.writer p).buf

theorem attrs_report (b : Bytes) (err : String) :
    (report b err).attrs = [("!BADKEY", .list (reportArgs b err))] := rfl

theorem report_inj {b b' : Bytes} {err err' : String} :
    report b err = report b' err' ↔ b = b' ∧ err = err' := by
  simp [report, logRecord, argsToAttrs, reportArgs]

theorem not_faithful_report {b b' : Bytes} {err text : String} :
    ¬Faithful b' text (report b err) := by
  rw [Faithful, attrs_report]
  simp

section Respond

variable {rt : Runtime} {w : Writer} {r : Request} {x y z : Exchange ε} {p : PanicValue}
  {text err : String} {records : List LogRecord}

def reportView (x : Exchange ε) : Option (List LogRecord) × (ℕ → Bytes) :=
  (x.logger, fun p => (x.writer p).buf)

theorem reportView_setWriter {q : ℕ} {bw : BufferedResponseWriter}
    (hbuf : bw.buf = (x.writer q).buf) : reportView (x.setWriter q bw) = reportView x := by
  refine Prod.ext rfl (funext fun p => ?_)
  by_cases hp : p = q
  · subst hp
    exact (congrArg BufferedResponseWriter.buf (x.setWriter_self p bw)).trans hbuf
  · exact congrArg BufferedResponseWriter.buf (x.setWriter_of_ne bw hp)

theorem outputOf_congr (h : reportView y = reportView x) : outputOf r y = outputOf r x := by
  unfold outputOf
  split
  · rfl
  · next p hp => exact congrFun (Prod.mk.inj h).2 p

theorem resetOutputBuffer_returns (r : Request) (x : Exchange ε) :
    ∃ y, outcome (resetOutputBuffer r) x = (.ok (outputOf r x), y) ∧ y.logger = x.logger := by
  rw [resetOutputBuffer, outputOf]
  cases r.bufferedOutput with
  | none => exact ⟨x, rfl, rfl⟩
  | some p => exact ⟨_, rfl, rfl⟩

/-- The report has what the buffer of this request holds, the status being no output. -/
theorem logger_respondServerError (hlogger : z.logger = some records) (newResponse : String) :
    (outcome (respondServerError w r newResponse err) z).2.logger =
      some (records ++ [report (outputOf r z) err]) := by
  have hstatus : Keeps reportView (fun _ => False) (w.writeHeader 500 : HandlerM ε Unit) :=
    keeps_writeHeader (fun _ _ _ _ _ => rfl) (fun _ _ => reportView_setWriter rfl)
      (.inl (by decide)) w
  obtain ⟨_, t, hheader, ht⟩ := hstatus.ok z
  obtain ⟨u, hreset, hu⟩ := resetOutputBuffer_returns r t
  have hrecords : u.logger = some records := (hu.trans (Prod.mk.inj ht).1).trans hlogger
  have hlog : outcome (logError "Error in handler stack" (reportArgs (outputOf r t) err)) u =
        (.ok ⟨⟩, { u with logger := some (records ++ [report (outputOf r t) err]) }) := by
    rw [outcome_logError, hrecords]
    rfl
  rw [reportArgs] at hlog
  rw [respondServerError, outcome_bind_ok hheader, outcome_bind_ok hreset, outcome_bind_ok hlog,
    outputOf_congr ht]
  have hwrite : Keeps Exchange.logger (fun _ => True)
      (w.write (bytes newResponse) >>= fun _ => pure () : HandlerM ε Unit) :=
    keeps_bind (keeps_write (fun _ _ _ _ _ => rfl) (fun _ _ _ _ => rfl) w _) fun _ => keeps_pure
  exact (hwrite _).1

theorem respond_reports (rt : Runtime) (w : Writer) (r : Request) (hp : errorText p = some text) :
    ∃ newResponse err, respond (ε := ε) rt w r p = respondServerError w r newResponse err := by
  cases p with
  | serverError | error | text => exact ⟨_, _, rfl⟩
  | httpError | code | nilServerError | other => cases hp

theorem respond_errorText (herrorf : rt.errorf = GoFormats.errorf) (hp : errorText p = some text) :
    ∃ newResponse err, respond (ε := ε) rt w r p = respondServerError w r newResponse err ∧
      (err = text ↔ ∀ s, p = .text s → '%' ∉ s.toList) := by
  cases p with
  | serverError e =>
    cases hp
    exact ⟨_, _, rfl, iff_of_true rfl fun s h => nomatch h⟩
  | error err =>
    cases hp
    exact ⟨_, _, rfl, iff_of_true rfl fun s h => nomatch h⟩
  | text s =>
    obtain rfl : s = text := Option.some.inj hp
    refine ⟨_, _, rfl, ?_⟩
    rw [herrorf, GoFormats.errorf_eq_self]
    exact ⟨fun h s' hs => PanicValue.text.inj hs ▸ h, fun h => h s rfl⟩
  | httpError | code | nilServerError | other => cases hp

end Respond

section Report

variable {rt : Runtime} {h : Handler ε} {w : Writer} {r : Request} {x z : Exchange ε}
  {p : PanicValue} {text : String} {records : List LogRecord}

theorem logger_withErrorHandler (w : Writer) (r : Request) (rt : Runtime)
    (hpanics : outcome (h (innerWriter w x) (innerRequest r x)) (Exchange.buffer x) = (.error p, z))
    (hlogger : z.logger = some records) {newResponse err : String}
    (hrespond : respond (ε := ε) rt w r p = respondServerError w r newResponse err) :
    (outcome (withErrorHandler rt (withBufferedOutput h) w r) x).2.logger =
      some (records ++ [report (outputOf r z) err]) := by
  rw [withErrorHandler, outcome_tryCatch_error (withBufferedOutput_error hpanics), hrespond,
    logger_respondServerError hlogger]

theorem listed_report_iff (herrorf : rt.errorf = GoFormats.errorf)
    (hpanics : outcome (h (innerWriter w x) (innerRequest r x)) (Exchange.buffer x) = (.error p, z))
    (hlogger : z.logger = some records) (hp : errorText p = some text) :
    (∀ cs, .disable ∉ cs →
      Makes (innerWriter w x) (innerRequest r x) (Exchange.buffer x) cs z →
        (z.writer x.writers).buf = pending cs) ∧
      ((outcome (withErrorHandler rt (withBufferedOutput h) w r) x).2.logger =
          some (records ++ [report (z.writer x.writers).buf text]) ↔
        (z.writer x.writers).buf = outputOf r z ∧ ∀ s, p = .text s → '%' ∉ s.toList) := by
  refine ⟨fun cs hcs hmakes => (buffering_of_makes rfl hmakes hcs).buf, ?_⟩
  obtain ⟨newResponse, err, hrespond, herr⟩ := respond_errorText (w := w) (r := r) herrorf hp
  rw [logger_withErrorHandler w r rt hpanics hlogger hrespond, Option.some.injEq,
    List.append_cancel_left_eq, List.singleton_inj, report_inj, ← herr]
  exact and_congr eq_comm Iff.rfl

/-- No record has the output and the error, whatever the handler has written and panicked with. -/
theorem never_faithful
    (hpanics : outcome (h (innerWriter w x) (innerRequest r x)) (Exchange.buffer x) = (.error p, z))
    (hlogger : z.logger = some records) (hp : errorText p = some text) :
    ∃ record, (outcome (withErrorHandler rt (withBufferedOutput h) w r) x).2.logger =
        some (records ++ [record]) ∧ ∀ b, ¬Faithful b text record := by
  obtain ⟨newResponse, err, hrespond⟩ := respond_reports rt w r hp
  exact ⟨_, logger_withErrorHandler w r rt hpanics hlogger hrespond, fun _ => not_faithful_report⟩

end Report

def formattingRuntime : Runtime := { plainRuntime with errorf := GoFormats.errorf }

/-- Something is written, and then there is a panic. -/
def pageThen (b : Bytes) (p : PanicValue) : Handler Unit := thenPanic (making [.write b]) p

theorem pageThen_panics (b : Bytes) (p : PanicValue) : ∃ z,
    outcome (pageThen b p (innerWriter .server freshExchange)
      (innerRequest plainRequest freshExchange)) (Exchange.buffer freshExchange) = (.error p, z) ∧
      z.logger = some [] ∧ (z.writer freshExchange.writers).buf = b := ⟨_, rfl, rfl, rfl⟩

theorem never_faithful_gone : ∃ record,
    (outcome (withErrorHandler formattingRuntime (withBufferedOutput
      (pageThen [60, 112, 62] (.text "gone"))) .server plainRequest) freshExchange).2.logger =
        some [record] ∧ ∀ b, ¬Faithful b "gone" record := by
  obtain ⟨z, hpanics, hlogger, -⟩ := pageThen_panics [60, 112, 62] (.text "gone")
  exact never_faithful hpanics hlogger rfl

/-- A page with a percent sign in its error: also the list has neither the output nor the text. -/
theorem page_lost : ∃ z record,
    outcome (pageThen [60, 112, 62] (.text "100%") (innerWriter .server freshExchange)
      (innerRequest plainRequest freshExchange)) (Exchange.buffer freshExchange) =
        (.error (.text "100%"), z) ∧
    (z.writer freshExchange.writers).buf = [60, 112, 62] ∧
    (outcome (withErrorHandler formattingRuntime
        (withBufferedOutput (pageThen [60, 112, 62] (.text "100%"))) .server plainRequest)
          freshExchange).2.logger = some [record] ∧
    ¬Faithful [60, 112, 62] "100%" record ∧
    (∀ err, record ≠ report [60, 112, 62] err) ∧ ∀ b, record ≠ report b "100%" := by
  obtain ⟨z, hpanics, hlogger, hbuf⟩ := pageThen_panics [60, 112, 62] (.text "100%")
  refine ⟨z, report [] (GoFormats.errorf "100%"), hpanics, hbuf,
    logger_withErrorHandler _ _ _ hpanics hlogger rfl, not_faithful_report, fun err h => ?_,
    fun b h => ?_⟩
  · exact absurd (report_inj.mp h).1 (by decide)
  · have hformat := GoFormats.errorf_eq_self.mp (report_inj.mp h).2
    exact absurd hformat (by decide)

end GoraddServe.ErrorReports
