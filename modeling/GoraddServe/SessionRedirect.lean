import GoraddServe.ErrorHandler
import GoraddServe.SessionPersistence

/-!
# A handler that ends in a response by panic

`Redirect` and the `Send` functions unwind the stack through `Use`, so what `Use` does after the
handler is not done. The session of such a request is not stored, whatever the handler has
made of it.
-/
namespace GoraddServe.SessionRedirect
open GoMaps Panics ResponseWriters BufferedOutput ErrorHandler SessionData SessionManager
open MemoryStore SessionPersistence

variable {ε World Ctx Expiry : Type} {rt : Runtime} {p : PanicValue}

/-- What the handlers share, and the cookies of the response. -/
def sessionView (x : Exchange ε) : ε × Option (List String) :=
  (x.env, x.server.header.get "Set-Cookie")

def SetsNoCookie : PanicValue → Prop
  | .httpError e => ∀ k v, (e.Headers.getD ∅).get k = some v → canonicalHeaderKey k ≠ "Set-Cookie"
  | _ => True

theorem keeps_logError (msg : String) (args : List LogValue) :
    Keeps (sessionView (ε := ε)) SetsNoCookie (logError msg args) := by
  refine keeps_bind keeps_get fun x => ?_
  split
  · exact keeps_throw trivial
  · exact keeps_modify fun _ => rfl

theorem keeps_writeHeader (w : Writer) (code : Int) :
    Keeps (sessionView (ε := ε)) SetsNoCookie (w.writeHeader code) :=
  ResponseWriters.keeps_writeHeader (fun _ _ _ _ _ => rfl) (fun _ _ => rfl)
    (.inr fun _ => trivial) w

theorem keeps_write (w : Writer) (b : Bytes) :
    Keeps (sessionView (ε := ε)) SetsNoCookie (w.write b) :=
  ResponseWriters.keeps_write (fun _ _ _ _ _ => rfl) (fun _ _ _ _ => rfl) w b

theorem keeps_setHeader (w : Writer) {key : String} (value : String)
    (hkey : canonicalHeaderKey key ≠ "Set-Cookie") :
    Keeps (sessionView (ε := ε)) SetsNoCookie (w.setHeader key value) := by
  refine keeps_modify fun x => ?_
  rw [sessionView, sessionView, get_setHeader_of_ne (Ne.symm hkey)]

theorem keeps_resetOutputBuffer (r : Request) :
    Keeps (sessionView (ε := ε)) SetsNoCookie (resetOutputBuffer r) := by
  unfold resetOutputBuffer
  split
  · exact keeps_pure
  · exact keeps_bind keeps_get fun _ => keeps_bind (keeps_modify fun _ => rfl) fun _ => keeps_pure

theorem keeps_respondServerError (w : Writer) (r : Request) (newResponse err : String) :
    Keeps (sessionView (ε := ε)) SetsNoCookie (respondServerError w r newResponse err) := by
  refine keeps_bind (keeps_writeHeader w 500) fun _ => ?_
  refine keeps_bind (keeps_resetOutputBuffer r) fun _ => ?_
  refine keeps_bind (keeps_logError _ _) fun _ => ?_
  exact keeps_bind (keeps_write w _) fun _ => keeps_pure

theorem keeps_respond (w : Writer) (r : Request) (hp : SetsNoCookie p) :
    Keeps (sessionView (ε := ε)) SetsNoCookie (respond rt w r p) := by
  cases p with
  | httpError e =>
    rw [respond]
    refine keeps_bind (keeps_forIn _ (fun k _ _ => ?_) _) fun _ => ?_
    · split
      · rename_i value hvalue
        exact keeps_bind (keeps_setHeader w value (hp k value hvalue)) fun _ => keeps_pure
      · exact keeps_pure
    refine keeps_bind (keeps_writeHeader w e.ErrCode) fun _ => ?_
    split
    · exact keeps_bind (keeps_write w _) fun _ => keeps_pure
    · exact keeps_pure
  | code code => exact keeps_writeHeader w code
  | serverError e => exact keeps_respondServerError w r _ _
  | nilServerError => exact keeps_throw trivial
  | error err => exact keeps_respondServerError w r _ _
  | text s => exact keeps_respondServerError w r _ _
  | other s => exact keeps_respondServerError w r _ _

theorem keeps_writeBuffer (w : Writer) (buf : Bytes) :
    Keeps (sessionView (ε := ε)) SetsNoCookie (writeBuffer w buf) := by
  refine keeps_bind (keeps_write w buf) fun result => ?_
  obtain ⟨l, e⟩ := result
  cases e with
  | none => exact keeps_pure
  | some e => exact keeps_logError _ _

theorem keeps_sendBuffered (w : Writer) (q : ℕ) :
    Keeps (sessionView (ε := ε)) SetsNoCookie (sendBuffered w q) := by
  refine keeps_bind keeps_get fun x => ?_
  dsimp only
  split
  · exact keeps_bind (keeps_writeHeader w _) fun _ => keeps_writeBuffer w _
  refine keeps_bind keeps_get fun y => ?_
  split
  · refine keeps_bind (keeps_writeHeader w 500) fun _ => ?_
    refine keeps_bind keeps_get fun z => ?_
    exact keeps_bind (keeps_logError _ _) fun _ => keeps_writeBuffer w _
  · exact keeps_writeBuffer w _

theorem setsNoCookie_httpError {e : Error} {key value : String}
    (hheaders : e.Headers = none) (hkey : canonicalHeaderKey key ≠ "Set-Cookie") :
    SetsNoCookie (.httpError (Error.setResponseHeader e key value)) := by
  intro k v hk
  simp only [Error.setResponseHeader, hheaders, Option.getD_some, GoMap.get_set,
    GoMap.get_empty] at hk
  split at hk
  · rename_i heq
    rwa [heq]
  · cases hk

theorem sends_setsNoCookie (h : Sends rt p) : SetsNoCookie p := by
  cases h with
  | redirect location errCode =>
    rw [redirect]
    split
    · trivial
    · exact setsNoCookie_httpError rfl (by decide)
  | methodNotAllowed allowedMethods => exact setsNoCookie_httpError rfl (by decide)
  | jsonAuthenticateError errCode authScheme values =>
    exact setsNoCookie_httpError rfl (by decide)
  | _ => exact fun k v hk => by simp at hk

variable {mgr : ScsSessionManager World Ctx Expiry}
  {held : World → String → Option SessionMap} {token : Ctx → Option String}
  {Issued : World → String → Prop} {w : Writer} {r : Request}
  {x z : Exchange (SessionEnv World Ctx)} {sess : Session Ctx}

def chain (rt : Runtime) (mgr : ScsSessionManager World Ctx Expiry)
    (h : Handler (SessionEnv World Ctx)) : Handler (SessionEnv World Ctx) :=
  withErrorHandler rt (withBufferedOutput (use mgr h))

def thenPanic (h : Handler ε) (p : PanicValue) : Handler ε := fun w r => do
  h w r
  throw p

/-- The exchange when the handler is called, with its session and a buffered writer. -/
def entered (x : Exchange (SessionEnv World Ctx)) (sess : Session Ctx) :
    Exchange (SessionEnv World Ctx) := Exchange.open (Exchange.buffer x) sess

def handled (h : Handler (SessionEnv World Ctx)) (w : Writer) (r : Request)
    (x : Exchange (SessionEnv World Ctx)) (sess : Session Ctx) :
    Except PanicValue Unit × Exchange (SessionEnv World Ctx) :=
  outcome (h (.buffered w x.writers)
    { r with bufferedOutput := some x.writers, session := some x.env.sessions }) (entered x sess)

/-- The store is the same, and so are the cookies of the response. -/
def SameSession (held : World → String → Option SessionMap)
    (x y : Exchange (SessionEnv World Ctx)) : Prop :=
  (∀ t, held x.env.world t = held y.env.world t) ∧
    x.server.header.get "Set-Cookie" = y.server.header.get "Set-Cookie"

section Chain

variable (rt) (h : Handler (SessionEnv World Ctx)) (w : Writer) (r : Request)
  (hopen : openSession mgr x.env.world ((r.cookie mgr.cookieName).getD "") = .ok sess)
include hopen

theorem buffered_use_spec : outcome (withBufferedOutput (use mgr h) w r) x =
    match handled h w r x sess with
    | (.ok _, z) => outcome (closeUse mgr x.env.sessions >>= fun _ => sendBuffered w x.writers) z
    | (.error p, z) => (.error p, z) := by
  have huse : ∀ v, outcome (use mgr h v { r with bufferedOutput := some x.writers })
      (Exchange.buffer x) = outcome (h v { r with
        bufferedOutput := some x.writers, session := some x.env.sessions } >>= fun _ =>
          closeUse mgr x.env.sessions) (entered x sess) := by
    intro v
    have hopen' : openSession mgr (Exchange.buffer x).env.world
        ((r.cookie mgr.cookieName).getD "") = .ok sess := hopen
    simp only [use, outcome_bind, outcome_get, hopen', outcome_modify]
    rfl
  simp only [withBufferedOutput, outcome_bind, outcome_get, outcome_modify, huse]
  rw [handled]
  generalize outcome (h (.buffered w x.writers) _) (entered x sess) = ended
  obtain ⟨result, z⟩ := ended
  cases result with
  | ok a => rfl
  | error p => rfl

theorem chain_panics (hp : SetsNoCookie p) (hbody : handled h w r x sess = (.error p, z)) :
    sessionView (outcome (chain rt mgr h w r) x).2 = sessionView z := by
  have huse := buffered_use_spec h w r hopen
  rw [hbody] at huse
  rw [chain, withErrorHandler, outcome_tryCatch_error huse]
  exact (keeps_respond w r hp z).1

theorem chain_returns (law : Lawful mgr held token Issued)
    (hbody : handled h w r x sess = (.ok ⟨⟩, z)) :
    ∃ c, Closed mgr held token Issued (Exchange.closing z x.env.sessions) c ∧
      sessionView (outcome (chain rt mgr h w r) x).2 =
        sessionView (Exchange.close z x.env.sessions c) := by
  obtain ⟨c, -, hclosed, hclose⟩ := closeUse_spec law z x.env.sessions
  refine ⟨c, hclosed, ?_⟩
  have huse := buffered_use_spec h w r hopen
  rw [hbody] at huse
  have hchain : outcome (chain rt mgr h w r) x =
      outcome (tryCatch (sendBuffered w x.writers) (respond rt w r))
        (Exchange.close z x.env.sessions c) := by
    rw [chain, withErrorHandler, outcome_tryCatch, outcome_tryCatch, huse]
    simp only [outcome_bind_ok hclose]
  rw [hchain]
  exact (keeps_tryCatch (keeps_sendBuffered w x.writers) (fun p hp => keeps_respond w r hp) _).1

end Chain

/-- A redirect or a `Send` function at the end of a handler makes no difference for the session if
and only if nothing is left in it to store, and no token of a stored session is to be retired. -/
theorem survives_iff (law : Lawful mgr held token Issued) (hp : Sends rt p)
    (hopen : openSession mgr x.env.world ((r.cookie mgr.cookieName).getD "") = .ok sess)
    {h : Handler (SessionEnv World Ctx)} (hbody : handled h w r x sess = (.ok ⟨⟩, z)) :
    SameSession held (outcome (chain rt mgr (thenPanic h p) w r) x).2
        (outcome (chain rt mgr h w r) x).2 ↔
      leftover (Exchange.closing z x.env.sessions) = ∅ ∧
        (Flagged (Exchange.closing z x.env.sessions) → ∀ t,
          token (z.env.session x.env.sessions).ctx = some t → held z.env.world t = none) := by
  have hthen : handled (thenPanic h p) w r x sess = (.error p, z) :=
    (outcome_bind_ok (f := fun _ => throw p) hbody)
  have hpanics := chain_panics rt _ w r hopen (sends_setsNoCookie hp) hthen
  obtain ⟨c, hclosed, hreturns⟩ := chain_returns rt h w r hopen law hbody
  obtain ⟨henv, hcookie⟩ := Prod.mk.inj hpanics
  obtain ⟨henv', hcookie'⟩ := Prod.mk.inj hreturns
  have hsame := hclosed.unseen_iff law
  rw [SameSession, henv, hcookie, henv', hcookie']
  rw [forall_congr' fun t => eq_comm, eq_comm]
  exact hsame

/-- The choices of a run in which the only headers of errors are those of the `Send` functions. -/
def plainRuntime : Runtime where
  range headers := ["Location", "Allow", "Content-Type"].filter fun k => headers.has k
  quote s := "\"" ++ s ++ "\""
  errorf := id
  marshal _ := "null"
  makeLocalPath := .ok

/-- A handler empties the session and redirects. -/
theorem survives_iff_emptied :
    SameSession (fun store t => store.entries.get t)
      (outcome (chain plainRuntime memoryManager (thenPanic (performing [.remove "user"])
        (redirect plainRuntime "/login" 303)) .server tokRequest) storedExchange).2
      (outcome (chain plainRuntime memoryManager (performing [.remove "user"]) .server tokRequest)
        storedExchange).2 :=
  (survives_iff lawful_memoryManager (.redirect "/login" 303) rfl rfl).mpr
    ⟨by decide, fun h => absurd h (by decide)⟩

/-- A handler sets a key and redirects: the next request finds the session without it. -/
theorem redirect_forgets :
    ¬SameSession (fun store t => store.entries.get t)
      (outcome (chain plainRuntime memoryManager (thenPanic (performing [.setInt "n" 1])
        (redirect plainRuntime "/home" 303)) .server tokRequest) storedExchange).2
      (outcome (chain plainRuntime memoryManager (performing [.setInt "n" 1]) .server tokRequest)
        storedExchange).2 := by
  rintro ⟨hheld, -⟩
  have htok := hheld "tok"
  revert htok
  decide

end GoraddServe.SessionRedirect
