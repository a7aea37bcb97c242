import GoraddServe.ErrorResponses

/-!
# The headers of abandoned output

A buffered writer keeps the bytes and the status for itself, and gives out the header map of
the writer it wraps. After a panic with an `http.Error` the bytes and the status are gone, and
what the handler has made of the headers is sent with the answer, except for the keys that the
error sets itself.
-/
namespace GoraddServe.AbandonedHeaders
open GoMaps Panics ResponseWriters BufferedOutput BufferedCalls ErrorHandler ErrorResponses
open SessionRedirect (plainRuntime thenPanic)

variable {ε : Type}

/-- The error has a value for the header `key`. -/
def SetBy (e : Error) (key : String) : Prop :=
  ∃ k, (e.Headers.getD ∅).has k = true ∧ canonicalHeaderKey k = key

section Override

variable {rt : Runtime} {e : Error} {headers : GoMap String String} {header header' : Header}
  {k key : String} {l : List String}

theorem get_overrideKey : (overrideKey headers header k).get key =
    if headers.has k = true ∧ canonicalHeaderKey k = key then
      (headers.get k).map fun v => [v] else header.get key := by
  rw [overrideKey, GoMap.has]
  cases headers.get k with
  | none => simp
  | some v => simp [setHeader, GoMap.get_set, eq_comm]

theorem get_foldl_of_notMem
    (hkey : ∀ k ∈ l, ¬(headers.has k = true ∧ canonicalHeaderKey k = key)) :
    (l.foldl (overrideKey headers) header).get key = header.get key := by
  induction l generalizing header with
  | nil => rfl
  | cons k l ih =>
    rw [List.foldl_cons, ih fun k hk => hkey k (List.mem_cons_of_mem _ hk), get_overrideKey,
      if_neg (hkey k List.mem_cons_self)]

/-- A key that the loop sets has values that do not depend on those it had before. -/
theorem get_foldl_of_mem (hk : k ∈ l) (hset : headers.has k = true ∧ canonicalHeaderKey k = key) :
    (l.foldl (overrideKey headers) header).get key =
      (l.foldl (overrideKey headers) header').get key := by
  induction l generalizing k header header' with
  | nil => cases hk
  | cons k' l ih =>
    rw [List.foldl_cons, List.foldl_cons]
    by_cases hl : ∃ k ∈ l, headers.has k = true ∧ canonicalHeaderKey k = key
    · -- the last turn that sets the key is still to come
      obtain ⟨k'', hk, hset⟩ := hl
      exact ih hk hset
    · have hrest : ∀ k ∈ l, ¬(headers.has k = true ∧ canonicalHeaderKey k = key) :=
        fun k hk hset => hl ⟨k, hk, hset⟩
      obtain rfl : k = k' := (List.mem_cons.mp hk).resolve_right fun hk => hrest k hk hset
      rw [get_foldl_of_notMem hrest, get_foldl_of_notMem hrest, get_overrideKey, get_overrideKey,
        if_pos hset, if_pos hset]

/-- Two header maps are the same after the override when they differ only in keys that the error
sets. -/
theorem override_eq_iff
    (hrange : Enumerates (rt.range (e.Headers.getD ∅)) (e.Headers.getD ∅).keys) :
    override rt e header = override rt e header' ↔
      ∀ key, ¬SetBy e key → header.get key = header'.get key := by
  have hmem : ∀ k, k ∈ rt.range (e.Headers.getD ∅) ↔ (e.Headers.getD ∅).has k = true := by
    intro k
    rw [hrange.mem_iff, Finmap.mem_keys, ← Finmap.lookup_isSome]
    rfl
  have hkept : ∀ key, ¬SetBy e key → ∀ header : Header,
      (override rt e header).get key = header.get key := fun key hkey header =>
    get_foldl_of_notMem fun k _ hset => hkey ⟨k, hset⟩
  constructor
  · intro h key hkey
    rw [← hkept key hkey header, ← hkept key hkey header', h]
  · intro h
    refine GoMap.ext_get fun key => ?_
    by_cases hkey : SetBy e key
    · obtain ⟨k, hset⟩ := hkey
      exact get_foldl_of_mem ((hmem k).mpr hset.1) hset
    · rw [hkept key hkey, hkept key hkey, h key hkey]

end Override

section Respond

variable {rt : Runtime} {r : Request} {x z : Exchange ε} {e : Error} {header : Header}

def SendsHeader (header : Header) (result : Except PanicValue Unit × Exchange ε) : Prop :=
  result.1 = .ok ⟨⟩ ∧ (status result.2).2 = header

theorem sendsHeader_write {b : Bytes} {m : HandlerM ε Unit}
    (hm : m = pure ⟨⟩ ∨ m = (do let _ ← Writer.server.write b)) :
    SendsHeader header (outcome m z) ↔ (status z).2 = header := by
  rcases hm with rfl | rfl
  · exact and_iff_right rfl
  · obtain ⟨result, t, hwrite, -, hsent, -⟩ := server_write z b
    have hstatus : status t = status z := by rw [status, hsent, Option.getD_some]
    rw [outcome_bind_ok hwrite, ← hstatus]
    exact and_iff_right rfl

/-- What a code has to be for the answer to be sent. -/
theorem sendsHeader_sendError_iff : SendsHeader header (outcome (sendError e) z) ↔
    (z.server.sent = none → 100 ≤ e.ErrCode ∧ e.ErrCode ≤ 999) ∧ (status z).2 = header := by
  have hmessage : ∀ y : Exchange ε, SendsHeader header (outcome (if e.Message ≠ "" then do
      let _ ← Writer.server.write (bytes e.Message) else pure ⟨⟩) y) ↔ (status y).2 = header := by
    intro y
    refine sendsHeader_write (b := bytes e.Message) ?_
    split
    · exact .inr rfl
    · exact .inl rfl
  rw [sendError]
  by_cases hsent : z.server.sent.isSome = true
  · have hsome : z.server.sent ≠ none := fun h => by simp [h] at hsent
    rw [outcome_bind_ok (writeHeader_sent hsent), and_iff_right fun h => absurd h hsome]
    exact hmessage _
  have hnone := Option.not_isSome_iff_eq_none.mp hsent
  by_cases hcode : e.ErrCode < 100 ∨ 999 < e.ErrCode
  · rw [outcome_bind_error (writeHeader_refused hsent hcode)]
    refine iff_of_false (fun h => by cases h.1) fun h => ?_
    have := h.1 hnone
    omega
  rw [and_iff_right fun _ => show 100 ≤ e.ErrCode ∧ e.ErrCode ≤ 999 by omega]
  by_cases hfinal : Final e.ErrCode
  · rw [outcome_bind_ok (writeHeader_final hsent hfinal)]
    refine (hmessage _).trans ?_
    rw [status, status, hnone]
    rfl
  · have hearly : 100 ≤ e.ErrCode ∧ e.ErrCode < 200 ∧ e.ErrCode ≠ 101 := by
      unfold Final at hfinal
      omega
    rw [outcome_bind_ok (writeHeader_early hsent hearly)]
    exact hmessage _

end Respond

/-- The handler has left the headers as they were, up to those that the error sets, and net/http
takes the code of the error. A handler that has had its own response sent has sent these
headers. -/
def LeavesHeaders (rt : Runtime) (e : Error) (x z : Exchange ε) : Prop :=
  match z.server.sent with
  | none => (100 ≤ e.ErrCode ∧ e.ErrCode ≤ 999) ∧
      ∀ key, ¬SetBy e key → z.server.header.get key = x.server.header.get key
  | some (_, header) => header = override rt e x.server.header

/-- The header map that goes out is the one from before the handler, overridden by the error,
under this condition and no other. -/
theorem headers_restored_iff {rt : Runtime} {h : Handler ε} {r : Request} {x z : Exchange ε}
    {e : Error} (hrange : Enumerates (rt.range (e.Headers.getD ∅)) (e.Headers.getD ∅).keys)
    (hpanics : outcome (h (innerWriter .server x) (innerRequest r x)) (Exchange.buffer x) =
      (.error (.httpError e), z)) :
    SendsHeader (override rt e x.server.header)
        (outcome (withErrorHandler rt (withBufferedOutput h) .server r) x) ↔
      LeavesHeaders rt e x z := by
  rw [withErrorHandler, outcome_tryCatch_error (withBufferedOutput_error hpanics),
    respond_override, sendsHeader_sendError_iff, LeavesHeaders, status]
  cases hsent : z.server.sent with
  | none =>
    refine and_congr (forall_prop_of_true rfl) ?_
    exact override_eq_iff hrange
  | some sent => simp

def styleSheet : Handler Unit := fun w _ => w.setHeader "Content-Type" "text/css"

/-- A style sheet that is not there, whose panic names its own type. -/
def plainError : Error :=
  { Message := "gone", ErrCode := 404,
    Headers := some ((∅ : GoMap String String).set "Content-Type" "text/plain") }

theorem headers_restored_iff_styleSheet :
    SendsHeader (override plainRuntime plainError freshExchange.server.header)
      (outcome (withErrorHandler plainRuntime
        (withBufferedOutput (thenPanic styleSheet (.httpError plainError))) .server plainRequest)
        freshExchange) := by
  refine (headers_restored_iff (by decide) rfl).mpr ?_
  refine show _ ∧ _ from ⟨by decide, fun key hkey => ?_⟩
  have hne : key ≠ "Content-Type" := fun h => hkey ⟨"Content-Type", by decide, by rw [h]; decide⟩
  exact get_setHeader_of_ne fun h => hne (h.trans (by decide))

/-- The page that says the style sheet is not there is sent as a style sheet. -/
theorem styleSheet_header_sent :
    ¬SendsHeader (override plainRuntime { ErrCode := 404, Message := "gone" }
        freshExchange.server.header)
      (outcome (withErrorHandler plainRuntime (withBufferedOutput
        (thenPanic styleSheet (sendNotFoundMessage "gone"))) .server plainRequest)
        freshExchange) := by
  rintro ⟨-, hheader⟩
  have htype := congrArg (GoMap.get · "Content-Type") hheader
  revert htype
  decide

end GoraddServe.AbandonedHeaders
