import GoraddServe.ErrorResponses
import GoraddServe.LabelledRuns
import GoraddServe.Muxers
import GoraddServe.ResponseInvariants
import GoraddServe.SessionRedirect

/-!
# The handler of the server

`MakeHandler` puts the middleware in front of the muxers: from the outside inwards the HSTS
header, the error handler, the header validator, the static handlers, the buffer, the session and
the app handlers. A server answers request after request, and what one request leaves to the next
are the sessions.
-/
namespace GoraddServe.ServerHandlers
open GoMaps GoPaths Panics LabelledRuns ResponseWriters BufferedOutput ErrorHandler SessionData
  SessionManager SessionRedirect ServeMuxes ResponseInvariants
open Muxers (Registry withMuxer_serves withMuxer_next)

/-- A request: its header, what the muxers see of it, and its cookies and context. -/
structure HttpRequest where
  header : Header
  route : ServeMuxes.Request
  request : ResponseWriters.Request

abbrev HttpHandler (ε : Type) := Writer → HttpRequest → HandlerM ε Unit

/-- A middleware that sees only the cookies and the context. -/
def lift {ε : Type} (middleware : Handler ε → Handler ε) (next : HttpHandler ε) : HttpHandler ε :=
  fun w r => middleware (fun w request => next w { r with request }) w r.request

structure ServerBase (World Ctx Expiry : Type) where
  HstsMaxAge : Int
  HstsIncludeSubdomains : Bool
  HstsPreload : Bool
  SessionHandler : ScsSessionManager World Ctx Expiry

/-- A server with the muxers; `redirect` is `http.RedirectHandler` for a path and a query. -/
structure Server (World Ctx Expiry : Type) extends ServerBase World Ctx Expiry where
  rt : Runtime
  reg : Registry (HttpHandler (SessionEnv World Ctx))
  redirect : Path → Path → HttpHandler (SessionEnv World Ctx)

variable {ε World Ctx Expiry : Type}

def ServerBase.init (a : ServerBase World Ctx Expiry) : ServerBase World Ctx Expiry :=
  { a with HstsMaxAge := 86400, HstsIncludeSubdomains := true, HstsPreload := false }

/-- The key of the HSTS header. -/
abbrev hstsKey : String := "Strict-Transport-Security"

def hstsValue (maxAge : Int) (includeSubDomains preload : Bool) : String :=
  let includeSubDomains := if preload then true else includeSubDomains
  let out := s!"max-age={maxAge}"
  let out := if includeSubDomains then out ++ "; includeSubDomains" else out
  if preload then out ++ "; preload" else out

def writeHstsHeader (w : Writer) (maxAge : Int) (includeSubDomains preload : Bool) :
    HandlerM ε Unit :=
  w.setHeader hstsKey (hstsValue maxAge includeSubDomains preload)

def withHeaderValidator (next : HttpHandler ε) : HttpHandler ε := fun w r =>
  if !Header.valid r.header then w.writeHeader 400 else next w r

/-- The handler that a muxer returns; behind `WithMuxer` the last two are not called. -/
def callee (redirect : Path → Path → HttpHandler ε) : Callee (HttpHandler ε) → HttpHandler ε
  | .handler h => h
  | .redirect path rawQuery => redirect path rawQuery
  | .unmatched => fun w _ => StaticFiles.notFound w
  | .badRequest => fun w _ => do
    w.setHeader "Connection" "close"
    w.writeHeader 400

def withMuxer (redirect : Path → Path → HttpHandler ε) (mux : ServeMux (HttpHandler ε))
    (next : HttpHandler ε) : HttpHandler ε := fun w r =>
  let (h, route) := Muxers.withMuxer mux next r.route
  callee redirect h w { r with route }

namespace Server

variable (srv : Server World Ctx Expiry)

def withHsts (next : HttpHandler (SessionEnv World Ctx)) :
    HttpHandler (SessionEnv World Ctx) := fun w r => do
  if 0 ≤ srv.HstsMaxAge then
    writeHstsHeader w srv.HstsMaxAge srv.HstsIncludeSubdomains srv.HstsPreload
  next w r

def withSession (next : HttpHandler (SessionEnv World Ctx)) : HttpHandler (SessionEnv World Ctx) :=
  lift (use srv.SessionHandler) next

def withAppMuxer (next : HttpHandler (SessionEnv World Ctx)) :
    HttpHandler (SessionEnv World Ctx) := withMuxer srv.redirect srv.reg.appMuxer next

def withPatternMuxer (next : HttpHandler (SessionEnv World Ctx)) :
    HttpHandler (SessionEnv World Ctx) := withMuxer srv.redirect srv.reg.patternMuxer next

def makeHandler : HttpHandler (SessionEnv World Ctx) :=
  let h : HttpHandler (SessionEnv World Ctx) := fun w _ => StaticFiles.notFound w
  let h := srv.withAppMuxer h
  let h := srv.withSession h
  let h := lift withBufferedOutput h
  let h := srv.withPatternMuxer h
  let h := withHeaderValidator h
  let h := lift (withErrorHandler srv.rt) h
  srv.withHsts h

end Server

/-- A request comes in at some exchange. -/
structure Arrival (World Ctx : Type) where
  exchange : Exchange (SessionEnv World Ctx)
  request : HttpRequest

/-- The exchange has a new writer of the server, and finds what the last request has left. -/
def arrive (world : World) (a : Arrival World Ctx) : Exchange (SessionEnv World Ctx) :=
  { a.exchange with server := ⟨∅, none, none, [], []⟩, env.world := world }

/-- The handler of the server returns, or it panics and net/http aborts the response. -/
def answered (srv : Server World Ctx Expiry) (world : World) (a : Arrival World Ctx) :
    Except PanicValue Unit × Exchange (SessionEnv World Ctx) :=
  outcome (srv.makeHandler .server a.request) (arrive world a)

def serve (srv : Server World Ctx Expiry) (world : World) (a : Arrival World Ctx) :
    Exchange (SessionEnv World Ctx) := (answered srv world a).2

def step (srv : Server World Ctx Expiry) (world : World) (a : Arrival World Ctx) : Option World :=
  some (serve srv world a).env.world

/-- The handler keeps the invariant, and a panic of it sets only headers that `ok` allows. -/
def Leaves (ok : String → Prop) (I : Exchange ε → Prop) (h : HttpHandler ε) : Prop :=
  ∀ w r, Maintains I (SetsOnly ok) (h w r)

/-- So does every handler that is registered. -/
structure Upholds (srv : Server World Ctx Expiry) (ok : String → Prop)
    (I : Exchange (SessionEnv World Ctx) → Prop) : Prop where
  static : ∀ e ∈ srv.reg.patternMuxer.patterns, Leaves ok I e.2
  app : ∀ e ∈ srv.reg.appMuxer.patterns, Leaves ok I e.2
  redirect : ∀ path rawQuery, Leaves ok I (srv.redirect path rawQuery)

/-- The headers of an answer of net/http are allowed. -/
def Standard (ok : String → Prop) : Prop :=
  ∀ key ∈ ["Connection", "Content-Length", "Content-Type", "X-Content-Type-Options"], ok key

section Found

variable {H : Type} {mux : ServeMux H} {r : ServeMuxes.Request} {h : H}

theorem foundAt_handler {n : Option (Leaf H × List Path)}
    (hn : (ServeMux.foundAt n).handler = .handler h) : ∃ p values, n = some ((p, h), values) := by
  rcases n with _ | ⟨⟨p, h'⟩, values⟩
  · cases hn
  · cases hn
    exact ⟨p, values, rfl⟩

theorem registered_of_handler (hfound : (mux.handler r).1 = .handler h) :
    ∃ p, (p, h) ∈ mux.patterns := by
  have hfind : ∀ {n host method path}, mux.find host method path = n →
      (ServeMux.foundAt n).handler = .handler h → ∃ p, (p, h) ∈ mux.patterns := by
    intro n host method path hn hh
    obtain ⟨p, values, rfl⟩ := foundAt_handler hh
    exact ⟨p, (ServeMux.find_sound hn).1⟩
  change (mux.findHandler r).handler = .handler h at hfound
  rw [ServeMux.findHandler] at hfound
  split at hfound
  · split at hfound
    · cases hfound
    · exact hfind rfl hfound
  · dsimp only at hfound
    split at hfound
    · cases hfound
    · rename_i n hmatch
      split at hfound
      · cases hfound
      · rw [ServeMux.matchOrRedirect] at hmatch
        split at hmatch
        · cases hmatch
        · exact hfind (Prod.mk.inj hmatch).1 hfound

end Found

section Leaves

variable {ok : String → Prop}

theorem leaves_notFound {I : Exchange ε → Prop} (hI : Lasting ok I) (hok : Standard ok) :
    Leaves ok I fun w _ => StaticFiles.notFound w := by
  intro w r
  exact maintains_notFound hI w (hok _ (by decide)) (hok _ (by decide)) (hok _ (by decide))

theorem leaves_callee {I : Exchange ε → Prop} (hI : Lasting ok I) (hok : Standard ok)
    {redirect : Path → Path → HttpHandler ε} (hredirect : ∀ p q, Leaves ok I (redirect p q))
    {c : Callee (HttpHandler ε)} (hc : ∀ h, c = .handler h → Leaves ok I h) :
    Leaves ok I (callee redirect c) := by
  intro w r
  cases c with
  | handler h => exact hc h rfl w r
  | redirect path rawQuery => exact hredirect path rawQuery w r
  | unmatched => exact leaves_notFound hI hok w r
  | badRequest =>
    have hkey : ok (canonicalHeaderKey "Connection") := hok _ (by decide)
    exact maintains_bind (maintains_setHeader hI w _ hkey) fun _ => maintains_writeHeader hI w 400

theorem leaves_withMuxer {I : Exchange ε → Prop} (hI : Lasting ok I) (hok : Standard ok)
    {redirect : Path → Path → HttpHandler ε} (hredirect : ∀ p q, Leaves ok I (redirect p q))
    {mux : ServeMux (HttpHandler ε)} (hmux : ∀ e ∈ mux.patterns, Leaves ok I e.2)
    {next : HttpHandler ε} (hnext : Leaves ok I next) :
    Leaves ok I (withMuxer redirect mux next) := by
  intro w r
  unfold withMuxer
  by_cases hserves : mux.Serves r.route
  · rw [withMuxer_serves hserves]
    refine leaves_callee hI hok hredirect (fun h hh => ?_) w _
    obtain ⟨p, hp⟩ := registered_of_handler hh
    exact hmux _ hp
  · rw [withMuxer_next hserves]
    exact hnext w _

variable {srv : Server World Ctx Expiry} {I : Exchange (SessionEnv World Ctx) → Prop}

def Server.appHandler (srv : Server World Ctx Expiry) (r : HttpRequest) :
    Handler (SessionEnv World Ctx) := fun w request =>
  srv.withAppMuxer (fun w _ => StaticFiles.notFound w) w { r with request }

theorem Upholds.appHandler (h : Upholds srv ok I) (hI : Lasting ok I) (hok : Standard ok)
    (r : HttpRequest) (w : Writer) (request : ResponseWriters.Request) :
    Maintains I (SetsOnly ok) (srv.appHandler r w request) :=
  leaves_withMuxer hI hok h.redirect h.app (leaves_notFound hI hok) w _

/-- Closing a session changes no header other than those of its cookie. -/
theorem maintains_closeSession {mgr : ScsSessionManager World Ctx Expiry} (header : Header)
    (hcookie : ∀ header t expiry key, ¬ok key →
      (mgr.writeSessionCookie header t expiry).get key = header.get key) :
    Maintains (fun c => ∀ key, ¬ok key → c.header.get key = header.get key) (SetsOnly ok)
      (closeSession mgr) := by
  have hrenew : Maintains (fun c => ∀ key, ¬ok key → c.header.get key = header.get key)
      (SetsOnly ok) (renewSession mgr) := by
    refine maintains_bind (maintains_modify fun _ => id) fun _ => ?_
    refine maintains_get_bind fun c _ => ?_
    split
    · exact maintains_modify fun _ => id
    · exact maintains_bind (maintains_modify fun _ => id) fun _ => maintains_throw trivial
  have hstore : Maintains (fun c => ∀ key, ¬ok key → c.header.get key = header.get key)
      (SetsOnly ok) (storeSession mgr) := by
    refine maintains_get_bind fun c _ => ?_
    split
    · refine maintains_bind (maintains_modify fun _ => id) fun _ => ?_
      refine maintains_get_bind fun c' _ => ?_
      split
      · refine maintains_modify fun d hd key hkey => ?_
        exact (hcookie _ _ _ key hkey).trans (hd key hkey)
      · exact maintains_bind (maintains_modify fun _ => id) fun _ => maintains_throw trivial
    · refine maintains_get_bind fun c' _ => ?_
      split
      · exact maintains_modify fun _ => id
      · exact maintains_throw trivial
  refine maintains_get_bind fun c _ => ?_
  split
  · exact maintains_bind hrenew fun _ => hstore
  · exact hstore

theorem maintains_closeUse (hI : Lasting ok I) (henv : ∀ x env, I x → I { x with env })
    {mgr : ScsSessionManager World Ctx Expiry} (hcookie : ∀ header t expiry key, ¬ok key →
      (mgr.writeSessionCookie header t expiry).get key = header.get key) (q : ℕ) :
    Maintains I (SetsOnly ok) (closeUse mgr q) := by
  intro x hx
  have hclose := maintains_closeSession x.server.header hcookie (Exchange.closing x q)
    fun _ _ => rfl
  rw [closeUse, outcome_bind_ok outcome_get]
  revert hclose
  obtain ⟨result, c⟩ := outcome (closeSession mgr) (Exchange.closing x q)
  rintro ⟨hheader, hpanic⟩
  dsimp only
  rw [outcome_bind_ok (outcome_modify _)]
  have hclosed : I (Exchange.close x q c) :=
    henv { x with server.header := c.header } _ (hI.header x c.header hheader hx)
  cases result with
  | ok _ => exact ⟨hclosed, fun p hp => by cases hp⟩
  | error p => exact ⟨hclosed, fun p' hp' => by cases hp'; exact hpanic p rfl⟩

theorem maintains_use (hI : Lasting ok I) (henv : ∀ x env, I x → I { x with env })
    {mgr : ScsSessionManager World Ctx Expiry} (hcookie : ∀ header t expiry key, ¬ok key →
      (mgr.writeSessionCookie header t expiry).get key = header.get key)
    {next : Handler (SessionEnv World Ctx)} (hnext : ∀ w r, Maintains I (SetsOnly ok) (next w r))
    (w : Writer) (r : ResponseWriters.Request) :
    Maintains I (SetsOnly ok) (use mgr next w r) := by
  refine maintains_get_bind fun x _ => ?_
  cases hopen : openSession mgr x.env.world ((r.cookie mgr.cookieName).getD "") with
  | error p =>
    refine maintains_throw ?_
    unfold openSession at hopen
    split at hopen
    · cases hopen
      trivial
    · split at hopen <;> cases hopen
  | ok sess =>
    refine maintains_bind (maintains_modify fun y hy => henv y _ hy) fun _ => ?_
    exact maintains_bind (hnext _ _) fun _ => maintains_closeUse hI henv hcookie _

end Leaves

def Server.buffered (srv : Server World Ctx Expiry) : HttpHandler (SessionEnv World Ctx) :=
  lift withBufferedOutput (srv.withSession (srv.withAppMuxer fun w _ => StaticFiles.notFound w))

/-- What stands behind the error handler, for a request. -/
def Server.validated (srv : Server World Ctx Expiry) (r : HttpRequest) :
    Handler (SessionEnv World Ctx) := fun w request =>
  withHeaderValidator (srv.withPatternMuxer srv.buffered) w { r with request }

/-- What the header of a response holds under the key, now and when it was sent. -/
def Carries (key : String) (v : Option (List String)) (x : Exchange ε) : Prop :=
  x.server.header.get key = v ∧
    ∀ code header, x.server.sent = some (code, header) → header.get key = v

theorem lasting_carries (key : String) (v : Option (List String)) :
    Lasting (· ≠ key) (Carries key v : Exchange ε → Prop) where
  sends x code hx := by
    refine ⟨hx.1, fun code' header' hsent => ?_⟩
    cases hsent
    exact hx.1
  server _ _ _ _ hx := hx
  writers _ _ _ hx := hx
  logs _ _ hx := hx
  header x header hheader hx := ⟨(hheader key fun h => h rfl).trans hx.1, hx.2⟩

/-- The values of the HSTS header of a response. -/
def ServerBase.hstsHeader (a : ServerBase World Ctx Expiry) : Option (List String) :=
  if 0 ≤ a.HstsMaxAge then
    some [hstsValue a.HstsMaxAge a.HstsIncludeSubdomains a.HstsPreload]
  else none

/-- The exchange when `WithHsts` calls the next handler. -/
def Server.secured (srv : Server World Ctx Expiry) (x : Exchange (SessionEnv World Ctx)) :
    Exchange (SessionEnv World Ctx) :=
  if 0 ≤ srv.HstsMaxAge then
    { x with
      server.header := setHeader x.server.header hstsKey
        (hstsValue srv.HstsMaxAge srv.HstsIncludeSubdomains srv.HstsPreload) }
  else x

section Results

variable {srv : Server World Ctx Expiry}

theorem outcome_withHsts {next : HttpHandler (SessionEnv World Ctx)} {w : Writer} {r : HttpRequest}
    {x : Exchange (SessionEnv World Ctx)} :
    outcome (srv.withHsts next w r) x = outcome (next w r) (srv.secured x) := by
  unfold Server.withHsts Server.secured
  by_cases hage : 0 ≤ srv.HstsMaxAge
  · rw [if_pos hage, if_pos hage]
    rfl
  · rw [if_neg hage, if_neg hage]

theorem answered_eq (srv : Server World Ctx Expiry) (world : World) (a : Arrival World Ctx) :
    answered srv world a = outcome (withErrorHandler srv.rt (srv.validated a.request) .server
      a.request.request) (srv.secured (arrive world a)) := by
  rw [answered, Server.makeHandler, outcome_withHsts]
  rfl

theorem serve_eq (srv : Server World Ctx Expiry) (world : World) (a : Arrival World Ctx) :
    serve srv world a = (outcome (withErrorHandler srv.rt (srv.validated a.request) .server
      a.request.request) (srv.secured (arrive world a))).2 := by rw [serve, answered_eq]

theorem carries_secured (world : World) (a : Arrival World Ctx) :
    Carries hstsKey srv.hstsHeader (srv.secured (arrive world a)) := by
  have hkey : canonicalHeaderKey hstsKey = hstsKey := by decide
  unfold Server.secured ServerBase.hstsHeader
  split
  · exact ⟨get_setHeader hkey.symm, fun code header hsent => by cases hsent⟩
  · exact ⟨GoMap.get_empty _, fun code header hsent => by cases hsent⟩

theorem Upholds.validated {ok : String → Prop} {I : Exchange (SessionEnv World Ctx) → Prop}
    (h : Upholds srv ok I) (hI : Lasting ok I) (hok : Standard ok)
    (henv : ∀ x env, I x → I { x with env }) (hcookie : ∀ header t expiry key, ¬ok key →
      (srv.SessionHandler.writeSessionCookie header t expiry).get key = header.get key)
    (r : HttpRequest) (w : Writer) (request : ResponseWriters.Request) :
    Maintains I (SetsOnly ok) (srv.validated r w request) := by
  have hbuffered : Leaves ok I srv.buffered := fun w r =>
    maintains_withBufferedOutput hI w r.request
      (maintains_use hI henv hcookie (h.appHandler hI hok r))
  unfold Server.validated withHeaderValidator
  split
  · exact maintains_writeHeader hI w 400
  · exact leaves_withMuxer hI hok h.redirect h.static hbuffered w _

/-- Whatever becomes of a request, the response that is sent has the HSTS header of the server, as
long as no handler behind the muxers changes it. -/
theorem hsts_sent (hupholds : Upholds srv (· ≠ hstsKey) (Carries hstsKey srv.hstsHeader))
    (hcookie : ∀ header t expiry,
      (srv.SessionHandler.writeSessionCookie header t expiry).get hstsKey = header.get hstsKey)
    (world : World) (a : Arrival World Ctx) {code : Int} {header : Header}
    (hsent : (serve srv world a).server.sent = some (code, header)) :
    header.get hstsKey = srv.hstsHeader := by
  have hI := lasting_carries (ε := SessionEnv World Ctx) hstsKey srv.hstsHeader
  have hok : Standard (· ≠ hstsKey) := by
    unfold Standard
    decide
  have hvalidated := hupholds.validated hI hok (fun x env hx => hx)
    (fun header t expiry key hkey => not_not.mp hkey ▸ hcookie header t expiry) a.request
  have hcarries := maintains_withErrorHandler hI srv.rt .server a.request.request
    (hvalidated .server a.request.request) _ (carries_secured world a)
  rw [serve_eq] at hsent
  exact hcarries.1.2 code header hsent

/-- How the app handler of a request ends, with this session. -/
def called (srv : Server World Ctx Expiry) (world : World) (a : Arrival World Ctx)
    (sess : Session Ctx) : Except PanicValue Unit × Exchange (SessionEnv World Ctx) :=
  handled (srv.appHandler a.request) .server a.request.request (srv.secured (arrive world a)) sess

def arrivingSession (srv : Server World Ctx Expiry) (world : World) (a : Arrival World Ctx) :
    Except PanicValue (Session Ctx) :=
  openSession srv.SessionHandler world
    ((a.request.request.cookie srv.SessionHandler.cookieName).getD "")

/-- The request has a valid header, no static handler takes it, and its app handler returns. -/
def stores (srv : Server World Ctx Expiry) (world : World) (a : Arrival World Ctx) : Bool :=
  Header.valid a.request.header &&
    decide ((srv.reg.patternMuxer.handler a.request.route).2 = []) &&
      match arrivingSession srv world a with
      | .ok sess => (called srv world a sess).1.isOk
      | .error _ => false

theorem lasting_world (world : World) : Lasting (fun _ => True)
    fun x : Exchange (SessionEnv World Ctx) => x.env.world = world :=
  ⟨fun _ _ => id, fun _ _ _ _ => id, fun _ _ _ => id, fun _ _ => id, fun _ _ _ => id⟩

theorem setsOnly_true (p : PanicValue) : SetsOnly (fun _ => True) p := by
  cases p <;> simp [SetsOnly]

theorem secured_world (x : Exchange (SessionEnv World Ctx)) :
    (srv.secured x).env = x.env := by
  unfold Server.secured
  split <;> rfl

theorem answered_app {world : World} {a : Arrival World Ctx}
    (hvalid : Header.valid a.request.header = true)
    (hstatic : ¬srv.reg.patternMuxer.Serves a.request.route) :
    answered srv world a = outcome (chain srv.rt srv.SessionHandler (srv.appHandler a.request)
      .server a.request.request) (srv.secured (arrive world a)) := by
  have hbuffered : srv.validated a.request =
      withBufferedOutput (use srv.SessionHandler (srv.appHandler a.request)) := by
    funext w request
    unfold Server.validated withHeaderValidator Server.withPatternMuxer withMuxer
    rw [if_neg (by simp [hvalid]), withMuxer_next hstatic]
    rfl
  rw [answered_eq, hbuffered]
  rfl

section Unstored

variable (hupholds : ∀ world, Upholds srv (fun _ => True) fun x => x.env.world = world)
include hupholds

theorem called_world (world : World) (a : Arrival World Ctx) (sess : Session Ctx) :
    (called srv world a sess).2.env.world = world := by
  refine ((hupholds world).appHandler (lasting_world world) (fun _ _ => trivial) a.request _ _
    (entered (srv.secured (arrive world a)) sess) ?_).1
  change (srv.secured (arrive world a)).env.world = world
  rw [secured_world]
  rfl

/-- When there is no session, or the app handler does not return, nothing is stored. -/
theorem app_panics (world : World) (a : Arrival World Ctx)
    (hcalled : ∀ sess, arrivingSession srv world a = .ok sess →
      (called srv world a sess).1.isOk = false) : ∃ p z,
      outcome (withBufferedOutput (use srv.SessionHandler (srv.appHandler a.request)) .server
        a.request.request) (srv.secured (arrive world a)) = (.error p, z) ∧
          z.env.world = world := by
  have hworld : (srv.secured (arrive world a)).env.world = world := by
    rw [secured_world]
    rfl
  cases hopen : arrivingSession srv world a with
  | error p =>
    refine ⟨p, Exchange.buffer (srv.secured (arrive world a)), ?_, hworld⟩
    have hopen' : openSession srv.SessionHandler
        (Exchange.buffer (srv.secured (arrive world a))).env.world
          ((a.request.request.cookie srv.SessionHandler.cookieName).getD "") = .error p := by
      rw [show (Exchange.buffer (srv.secured (arrive world a))).env.world = world from hworld]
      exact hopen
    simp only [withBufferedOutput, use, outcome_bind, outcome_get, outcome_modify, hopen']
    rfl
  | ok sess =>
    have hopen' : openSession srv.SessionHandler (srv.secured (arrive world a)).env.world
        ((a.request.request.cookie srv.SessionHandler.cookieName).getD "") = .ok sess := by
      rw [hworld]
      exact hopen
    have huse := buffered_use_spec (srv.appHandler a.request) .server a.request.request hopen'
    have hpanics := hcalled sess hopen
    have hz := called_world hupholds world a sess
    rw [← called] at huse
    revert huse hpanics hz
    obtain ⟨result, z⟩ := called srv world a sess
    intro huse hpanics hz
    cases result with
    | ok _ => cases hpanics
    | error p => exact ⟨p, z, huse, hz⟩

/-- A request whose app handler does not return leaves the sessions alone, and so does one that
does not get to an app handler. -/
theorem serve_world {world : World} {a : Arrival World Ctx} (h : stores srv world a = false) :
    (serve srv world a).env.world = world := by
  have hI : Lasting (fun _ => True) fun x : Exchange (SessionEnv World Ctx) =>
      x.env.world = world := lasting_world world
  have hworld : (srv.secured (arrive world a)).env.world = world := by
    rw [secured_world]
    rfl
  by_cases hvalid : Header.valid a.request.header = true
  · by_cases hserves : srv.reg.patternMuxer.Serves a.request.route
    · have hstatic : Maintains (fun x => x.env.world = world) (SetsOnly fun _ => True)
          (srv.validated a.request .server a.request.request) := by
        unfold Server.validated withHeaderValidator Server.withPatternMuxer withMuxer
        rw [if_neg (by simp [hvalid]), withMuxer_serves hserves]
        refine leaves_callee hI (fun _ _ => trivial) (hupholds world).redirect (fun h hh => ?_)
          .server _
        obtain ⟨p, hp⟩ := registered_of_handler hh
        exact (hupholds world).static _ hp
      rw [serve_eq]
      exact (maintains_withErrorHandler hI srv.rt .server _ hstatic _ hworld).1
    · have hpattern : (srv.reg.patternMuxer.handler a.request.route).2 = [] :=
        not_not.mp fun hne => hserves (ServeMux.patStr_ne.mp hne)
      obtain ⟨p, z, hpanics, hz⟩ := app_panics hupholds world a
        fun sess hsess => by simpa [stores, hvalid, hpattern, hsess] using h
      rw [serve, answered_app hvalid hserves, chain, withErrorHandler,
        outcome_tryCatch_error hpanics]
      exact (maintains_respond hI srv.rt .server _ (setsOnly_true p) z hz).1
  · have hrefused : Maintains (fun x => x.env.world = world) (SetsOnly fun _ => True)
        (srv.validated a.request .server a.request.request) := by
      unfold Server.validated withHeaderValidator
      rw [if_pos (by simp [hvalid])]
      exact maintains_writeHeader hI .server 400
    rw [serve_eq]
    exact (maintains_withErrorHandler hI srv.rt .server _ hrefused _ hworld).1

end Unstored

section Stored

variable {held : World → String → Option SessionMap} {token : Ctx → Option String}
  {Issued : World → String → Prop} {world : World} {a : Arrival World Ctx}
  {sess : Session Ctx} {z : Exchange (SessionEnv World Ctx)}

/-- The session of a request when its app handler has returned. -/
abbrev closing (a : Arrival World Ctx) (z : Exchange (SessionEnv World Ctx)) : Closing World Ctx :=
  Exchange.closing z a.exchange.env.sessions

theorem stores_cases (h : stores srv world a = true) :
    Header.valid a.request.header = true ∧ ¬srv.reg.patternMuxer.Serves a.request.route ∧
      ∃ sess z, arrivingSession srv world a = .ok sess ∧
        called srv world a sess = (.ok ⟨⟩, z) := by
  simp only [stores, Bool.and_eq_true, decide_eq_true_eq] at h
  obtain ⟨⟨hvalid, hpattern⟩, hsess⟩ := h
  refine ⟨hvalid, fun hserves => ServeMux.patStr_ne.mpr hserves hpattern, ?_⟩
  cases hopen : arrivingSession srv world a with
  | error p => simp [hopen] at hsess
  | ok sess =>
    rw [hopen] at hsess
    dsimp only at hsess
    refine ⟨sess, (called srv world a sess).2, rfl, ?_⟩
    revert hsess
    obtain ⟨result, z⟩ := called srv world a sess
    cases result with
    | ok _ => exact fun _ => rfl
    | error p => exact fun hsess => absurd hsess Bool.false_ne_true

/-- What is left of the session is stored, and then the buffer is sent. -/
theorem serve_stores (law : Lawful srv.SessionHandler held token Issued)
    (hvalid : Header.valid a.request.header = true)
    (hstatic : ¬srv.reg.patternMuxer.Serves a.request.route)
    (hopen : arrivingSession srv world a = .ok sess)
    (hcalled : called srv world a sess = (.ok ⟨⟩, z)) :
    ∃ c, Closed srv.SessionHandler held token Issued (closing a z) c ∧
      answered srv world a = outcome (tryCatch (sendBuffered .server a.exchange.writers)
        (respond srv.rt .server a.request.request))
          (Exchange.close z a.exchange.env.sessions c) := by
  obtain ⟨c, -, hclosed, hclose⟩ := closeUse_spec law z a.exchange.env.sessions
  refine ⟨c, hclosed, ?_⟩
  have hsecured : (srv.secured (arrive world a)).writers = a.exchange.writers ∧
      (srv.secured (arrive world a)).env = (arrive world a).env := by
    unfold Server.secured
    split <;> exact ⟨rfl, rfl⟩
  have hopen' : openSession srv.SessionHandler (srv.secured (arrive world a)).env.world
      ((a.request.request.cookie srv.SessionHandler.cookieName).getD "") = .ok sess := by
    rw [hsecured.2]
    exact hopen
  have huse := buffered_use_spec (srv.appHandler a.request) .server a.request.request hopen'
  rw [← called, hcalled, hsecured.1, hsecured.2] at huse
  dsimp only at huse
  rw [answered_app hvalid hstatic, chain, withErrorHandler, outcome_tryCatch, outcome_tryCatch,
    huse]
  have hsessions : (arrive world a).env.sessions = a.exchange.env.sessions := rfl
  rw [hsessions, outcome_bind_ok hclose]

theorem world_of_close (rt : Runtime) (r : ResponseWriters.Request) (p : ℕ)
    (y : Exchange (SessionEnv World Ctx)) :
    (outcome (tryCatch (sendBuffered .server p) (respond rt .server r)) y).2.env.world =
      y.env.world := by
  have hI : Lasting (fun _ => True) fun x : Exchange (SessionEnv World Ctx) =>
      x.env.world = y.env.world := lasting_world y.env.world
  exact (maintains_tryCatch (maintains_sendBuffered hI .server p)
    (fun p hp => maintains_respond hI rt .server r hp) y rfl).1

/-- Answering requests changes the sessions as if the server had only got those that have a valid
header, are taken by no static handler and have an app handler that returns, each with the session
that was stored for it; and of each of these the session is closed as its handler has left it. -/
theorem sessions_of_run (law : Lawful srv.SessionHandler held token Issued)
    (hupholds : ∀ world, Upholds srv (fun _ => True) fun x => x.env.world = world)
    {hist : List (World × Arrival World Ctx)} {world' : World}
    (run : Run (step srv) world hist world') :
    Run (step srv) world (hist.filter fun e => stores srv e.1 e.2) world' ∧
      ∀ e ∈ hist.filter (fun e => stores srv e.1 e.2), ∃ sess z c,
        arrivingSession srv e.1 e.2 = .ok sess ∧ called srv e.1 e.2 sess = (.ok ⟨⟩, z) ∧
          z.env.world = e.1 ∧
            Closed srv.SessionHandler held token Issued (closing e.2 z) c ∧
              step srv e.1 e.2 = some c.world := by
  have hfilter := run.filter (C := fun world a => stores srv world a = true)
    fun world a world' htaken hstores => by
      have hworld := serve_world hupholds (Bool.not_eq_true _ ▸ hstores)
      cases htaken
      exact hworld
  refine ⟨by simpa using hfilter, fun e he => ?_⟩
  obtain ⟨hvalid, hstatic, sess, z, hopen, hcalled⟩ := stores_cases (List.mem_filter.mp he).2
  obtain ⟨c, hclosed, hserve⟩ := serve_stores law hvalid hstatic hopen hcalled
  have hworld := called_world hupholds e.1 e.2 sess
  rw [hcalled] at hworld
  refine ⟨sess, z, c, hopen, hcalled, hworld, hclosed, ?_⟩
  rw [step, serve, hserve, world_of_close]
  rfl

theorem lasting_sent : Lasting (fun _ => True) fun x : Exchange ε => x.server.sent.isSome = true :=
  ⟨fun _ _ _ => rfl, fun _ _ _ _ => id, fun _ _ _ => id, fun _ _ => id, fun _ _ _ => id⟩

/-- A computation that ends with something that is written has sent the status. -/
theorem sent_writeBuffer {x y : Exchange ε} {buf : Bytes}
    (h : outcome (writeBuffer .server buf) x = (.ok ⟨⟩, y)) : y.server.sent.isSome = true := by
  obtain ⟨⟨l, e⟩, u, hwrite, hrest⟩ := outcome_bind_eq_ok.mp h
  have hu : u.server.sent.isSome = true := by
    rw [outcome_server_write] at hwrite
    exact (congrArg (fun x : Exchange ε => x.server.sent.isSome) (Prod.mk.inj hwrite).2).symm
  cases e with
  | none =>
    cases hrest
    exact hu
  | some e =>
    have hlog := maintains_logError lasting_sent "Buffered write error" [.attr "error" (.text e)]
      u hu
    rw [show outcome (logError "Buffered write error" [.attr "error" (.text e)]) u =
      (.ok ⟨⟩, y) from hrest] at hlog
    exact hlog.1

theorem sent_sendBuffered {x y : Exchange ε} {p : ℕ}
    (h : outcome (sendBuffered .server p) x = (.ok ⟨⟩, y)) : y.server.sent.isSome = true := by
  rw [sendBuffered, outcome_bind_ok outcome_get] at h
  dsimp only at h
  split at h
  · obtain ⟨_, u, -, h⟩ := outcome_bind_eq_ok.mp h
    exact sent_writeBuffer h
  rw [outcome_bind_ok outcome_get] at h
  split at h
  · obtain ⟨_, u, -, h⟩ := outcome_bind_eq_ok.mp h
    rw [outcome_bind_ok outcome_get] at h
    obtain ⟨_, v, -, h⟩ := outcome_bind_eq_ok.mp h
    exact sent_writeBuffer h
  · exact sent_writeBuffer h

theorem sent_respondServerError (r : ResponseWriters.Request) (newResponse err : String)
    (x : Exchange ε) :
    (outcome (respondServerError .server r newResponse err) x).2.server.sent.isSome = true := by
  have hI : Lasting (fun _ => True) fun x : Exchange ε => x.server.sent.isSome = true :=
    lasting_sent
  have hcode : x.server.sent.isSome = true ∨ ErrorResponses.Final 500 :=
    .inr ErrorResponses.final_500
  obtain ⟨y, hwrite, hgiven, -⟩ := ErrorResponses.given_writeHeader hcode
  rw [respondServerError, outcome_bind_ok hwrite]
  refine (maintains_bind (maintains_resetOutputBuffer (P := SetsOnly fun _ => True) hI r)
    (fun _ => maintains_bind (maintains_logError hI _ _) fun _ =>
      maintains_bind (maintains_write hI .server _) fun _ => maintains_pure) y ?_).1
  exact Option.isSome_of_eq_some hgiven.sent

/-- The panic of a status that is not valid, or of a log that is not there. -/
def Internal (p : PanicValue) : Prop := ∃ s, p = .text s ∨ p = .error s

def logging (x : Exchange ε) : Bool := x.logger.isSome

theorem sendBuffered_panics (w : Writer) (q : ℕ) :
    Keeps (logging (ε := ε)) Internal (sendBuffered w q) := by
  have hheader : ∀ code, Keeps (logging (ε := ε)) Internal (w.writeHeader code) :=
    fun code => keeps_writeHeader (fun _ _ _ _ _ => rfl) (fun _ _ => rfl)
      (.inr fun s => ⟨s, .inl rfl⟩) w
  have hlog : ∀ msg args, Keeps (logging (ε := ε)) Internal (logError msg args) := by
    intro msg args x
    rw [outcome_logError]
    cases hlogger : x.logger with
    | none => exact ⟨rfl, fun p hp => by cases hp; exact ⟨_, .inr rfl⟩⟩
    | some records => exact ⟨by rw [logging, logging, hlogger]; rfl, fun p hp => by cases hp⟩
  have hbuffer : ∀ buf, Keeps (logging (ε := ε)) Internal (writeBuffer w buf) := by
    intro buf
    refine keeps_bind (keeps_write (fun _ _ _ _ _ => rfl) (fun _ _ _ _ => rfl) w buf)
      fun result => ?_
    obtain ⟨l, e⟩ := result
    cases e with
    | none => exact keeps_pure
    | some e => exact hlog _ _
  refine keeps_bind keeps_get fun x => ?_
  dsimp only
  split
  · exact keeps_bind (hheader _) fun _ => hbuffer _
  refine keeps_bind keeps_get fun y => ?_
  split
  · refine keeps_bind (hheader 500) fun _ => keeps_bind keeps_get fun z => ?_
    exact keeps_bind (hlog _ _) fun _ => hbuffer _
  · exact hbuffer _

theorem sent_close (rt : Runtime) (r : ResponseWriters.Request) (p : ℕ) (x : Exchange ε) :
    (outcome (tryCatch (sendBuffered .server p) (respond rt .server r)) x).2.server.sent.isSome =
      true := by
  have hpanics := (sendBuffered_panics .server p x).2
  have hsent := fun y => sent_sendBuffered (x := x) (y := y) (p := p)
  rw [outcome_tryCatch]
  revert hpanics hsent
  obtain ⟨result, y⟩ := outcome (sendBuffered .server p) x
  intro hpanics hsent
  cases result with
  | ok _ => exact hsent y rfl
  | error q =>
    obtain ⟨s, rfl | rfl⟩ := hpanics q rfl
    · exact sent_respondServerError r _ _ y
    · exact sent_respondServerError r _ _ y

theorem close_returns (rt : Runtime) (r : ResponseWriters.Request) (p : ℕ) {x : Exchange ε}
    (hlogger : x.logger.isSome = true) :
    (outcome (tryCatch (sendBuffered .server p) (respond rt .server r)) x).1 = .ok ⟨⟩ := by
  have hclosing := sendBuffered_panics .server p x
  rw [outcome_tryCatch]
  revert hclosing
  obtain ⟨result, y⟩ := outcome (sendBuffered .server p) x
  rintro ⟨hlogging, hpanics⟩
  cases result with
  | ok _ => rfl
  | error q =>
    have hresponds : ∀ newResponse err,
        (outcome (respondServerError .server r newResponse err) y).1 = .ok ⟨⟩ := by
      intro newResponse err
      obtain ⟨u, hu, -⟩ :=
        @ErrorResponses.got_respondServerError ε r y newResponse err (hlogging.trans hlogger)
      rw [hu]
    obtain ⟨s, rfl | rfl⟩ := hpanics q rfl
    · exact hresponds _ _
    · exact hresponds _ _

/-- When an app handler has sent nothing itself and there is something to store, and errors are
logged, the handler of the server returns, and the response has the cookie with the token under
which it is stored: for every status that the handler has set, a valid one or not, and every
header. -/
theorem cookie_sent (law : Lawful srv.SessionHandler held token Issued)
    (hstores : stores srv world a = true) (hopen : arrivingSession srv world a = .ok sess)
    (hcalled : called srv world a sess = (.ok ⟨⟩, z)) (hunsent : z.server.sent = none)
    (hlogger : z.logger.isSome = true) (hleft : leftover (closing a z) ≠ ∅) :
    (answered srv world a).1 = .ok ⟨⟩ ∧ ∃ t expiry code header,
      (serve srv world a).server.sent = some (code, header) ∧
        header.get "Set-Cookie" =
          (srv.SessionHandler.writeSessionCookie z.server.header t expiry).get "Set-Cookie" ∧
            held (serve srv world a).env.world t = some (leftover (closing a z)) := by
  obtain ⟨hvalid, hstatic, -⟩ := stores_cases hstores
  obtain ⟨c, hclosed, hserve⟩ := serve_stores law hvalid hstatic hopen hcalled
  obtain ⟨t, expiry, -, hheld, hheader⟩ := hclosed.committed hleft
  have hsent := sent_close srv.rt a.request.request a.exchange.writers
    (Exchange.close z a.exchange.env.sessions c)
  have hworld := world_of_close srv.rt a.request.request a.exchange.writers
    (Exchange.close z a.exchange.env.sessions c)
  have hI : Lasting (· ≠ "Set-Cookie")
      (Carries "Set-Cookie" (c.header.get "Set-Cookie") : Exchange (SessionEnv World Ctx) → Prop) :=
    lasting_carries _ _
  have hstart : Carries "Set-Cookie" (c.header.get "Set-Cookie")
      (Exchange.close z a.exchange.env.sessions c) :=
    ⟨rfl, fun code header h => by cases hunsent.symm.trans h⟩
  have hcarries := (maintains_tryCatch (maintains_sendBuffered hI .server a.exchange.writers)
    (fun p hp => maintains_respond hI srv.rt .server a.request.request hp) _ hstart).1
  have hreturns := close_returns srv.rt a.request.request a.exchange.writers
    (x := Exchange.close z a.exchange.env.sessions c) hlogger
  rw [← hserve] at hsent hworld hcarries hreturns
  obtain ⟨⟨code, header⟩, hsent⟩ := Option.isSome_iff_exists.mp hsent
  refine ⟨hreturns, t, expiry, code, header, hsent, ?_, ?_⟩
  · rw [hcarries.2 code header hsent, hheader]
    rfl
  · rw [serve, hworld]
    exact (hheld t).trans (if_pos rfl)

end Stored

end Results

/-- A handler that sets a key of its session, sets a status and writes. -/
def counting (code : Int) : HttpHandler (SessionEnv World Ctx) := fun w r => do
  perform (.setInt "n" 1) r.request
  w.writeHeader code
  let _ ← w.write (bytes "1")

/-- A handler that sets a key of its session and panics. -/
def failing : HttpHandler (SessionEnv World Ctx) := fun _ r => do
  perform (.setInt "n" 1) r.request
  throw (.text "no")

/-- A server with a static handler and three app handlers, one of which sets a status that is not
valid. -/
def countingServer : Server MemoryStore.Store MemoryStore.Context Unit where
  toServerBase := ServerBase.init ⟨0, false, false, MemoryStore.memoryManager⟩
  rt := plainRuntime
  reg :=
    { patternMuxer := ⟨[(⟨text "/static", [], [], [⟨text "static", false, false⟩]⟩,
        fun w _ => StaticFiles.notFound w)], by decide⟩
      appMuxer := ⟨[(⟨text "/count", [], [], [⟨text "count", false, false⟩]⟩, counting 0),
        (⟨text "/invalid", [], [], [⟨text "invalid", false, false⟩]⟩, counting 1000),
        (⟨text "/fail", [], [], [⟨text "fail", false, false⟩]⟩, failing)], by decide⟩ }
  redirect _ _ := fun w _ => w.writeHeader 301

theorem countingServer_upholds {ok : String → Prop}
    {I : Exchange (SessionEnv MemoryStore.Store MemoryStore.Context) → Prop} (hI : Lasting ok I)
    (hok : Standard ok) (hsession : ∀ x session, I x → I { x with env.session := session }) :
    Upholds countingServer ok I := by
  have hperform : ∀ op r, Maintains I (SetsOnly ok) (perform op r) := by
    intro op r
    unfold perform
    split
    · exact maintains_throw trivial
    · exact maintains_modify fun x hx => hsession x _ hx
  have hcounting : ∀ code, Leaves ok I (counting code) := fun code w r =>
    maintains_bind (hperform _ _) fun _ => maintains_bind (maintains_writeHeader hI w code)
      fun _ => maintains_bind (maintains_write hI w _) fun _ => maintains_pure
  have hfailing : Leaves ok I failing := fun w r =>
    maintains_bind (hperform _ _) fun _ => maintains_throw trivial
  refine ⟨fun e he => ?_, fun e he => ?_, fun _ _ w _ => maintains_writeHeader hI w 301⟩
  · obtain rfl := List.mem_singleton.mp he
    exact leaves_notFound hI hok
  · simp only [countingServer, List.mem_cons, List.not_mem_nil, or_false] at he
    obtain rfl | rfl | rfl := he
    · exact hcounting 0
    · exact hcounting 1000
    · exact hfailing

/-- A request for a path, with the session `tok`, when there is a log. -/
def arrivalAt (path : String) : Arrival MemoryStore.Store MemoryStore.Context :=
  ⟨{ SessionPersistence.storedExchange with logger := some [] }, ∅, Muxers.getPath path,
    SessionPersistence.tokRequest⟩

/-- The store with the session `tok`. -/
abbrev tokStore : MemoryStore.Store := SessionPersistence.storedExchange.env.world

theorem hsts_sent_fail :
    (answered countingServer tokStore (arrivalAt "/fail")).1 = .ok ⟨⟩ ∧ ∃ header,
      (serve countingServer tokStore (arrivalAt "/fail")).server.sent = some (500, header) ∧
        header.get hstsKey = some ["max-age=86400; includeSubDomains"] := by
  have hcode : (serve countingServer tokStore (arrivalAt "/fail")).server.sent.map Prod.fst =
    some 500 := by decide
  obtain ⟨⟨code, header⟩, hsent, rfl⟩ := Option.map_eq_some_iff.mp hcode
  have hupholds := countingServer_upholds (lasting_carries hstsKey countingServer.hstsHeader)
    (by unfold Standard; decide) fun _ _ hx => hx
  have hcookie : ∀ (header : Header) t expiry,
      (countingServer.SessionHandler.writeSessionCookie header t expiry).get hstsKey =
        header.get hstsKey := by
    intro header t expiry
    exact (GoMap.get_set ..).trans (if_neg (by decide))
  exact ⟨by rfl, header, hsent, (hsts_sent hupholds hcookie tokStore _ hsent).trans (by decide)⟩

/-- One request whose handler panics, one whose handler returns, and one for the static handler. -/
def countingArrivals : List (Arrival MemoryStore.Store MemoryStore.Context) :=
  [arrivalAt "/fail", arrivalAt "/count", arrivalAt "/static"]

theorem countingArrivals_runs :
    (exec (step countingServer) tokStore countingArrivals).isSome = true := rfl

/-- What happens to `countingArrivals`. -/
abbrev countingHistory : List (MemoryStore.Store × Arrival MemoryStore.Store MemoryStore.Context) :=
  history (step countingServer) tokStore countingArrivals

theorem sessions_of_run_count :
    Run (step countingServer) tokStore
        (countingHistory.filter fun e => stores countingServer e.1 e.2)
        (final (step countingServer) tokStore countingArrivals countingArrivals_runs) ∧
      countingHistory.map (fun e => stores countingServer e.1 e.2) = [false, true, false] :=
  ⟨(sessions_of_run MemoryStore.lawful_memoryManager
    (fun world => countingServer_upholds (lasting_world world) (fun _ _ => trivial)
      fun _ _ hx => hx) (run_history (Option.some_get countingArrivals_runs).symm)).1, by decide⟩

theorem cookie_sent_invalid :
    (answered countingServer tokStore (arrivalAt "/invalid")).1 = .ok ⟨⟩ ∧ ∃ code header,
      (serve countingServer tokStore (arrivalAt "/invalid")).server.sent = some (code, header) ∧
        header.get "Set-Cookie" ≠ none := by
  have hstores : stores countingServer tokStore (arrivalAt "/invalid") = true := by decide
  obtain ⟨-, -, sess, z, hopen, hcalled⟩ := stores_cases hstores
  have hz : z = (called countingServer tokStore (arrivalAt "/invalid") sess).2 := by rw [hcalled]
  obtain rfl : sess = ⟨⟨some "tok", some SessionPersistence.userStored⟩,
      SessionPersistence.userStored⟩ := by
    cases hopen
    rfl
  obtain ⟨hreturns, t, expiry, code, header, hsent, hcookie, -⟩ := cookie_sent
    MemoryStore.lawful_memoryManager hstores hopen hcalled (by rw [hz]; rfl) (by rw [hz]; rfl)
    (by rw [hz]; decide)
  refine ⟨hreturns, code, header, hsent, ?_⟩
  rw [hcookie]
  exact fun h => by cases (GoMap.get_set ..).symm.trans h

end GoraddServe.ServerHandlers
