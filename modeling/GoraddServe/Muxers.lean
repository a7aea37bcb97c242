import GoraddServe.ServeMuxes

/-!
# Handlers behind a muxer

`WithMuxer` asks the muxer for the handler of a request and calls it itself, or the next one if
no pattern matches. The muxer fills in the pattern and the path values of a request only when it
serves it itself.
-/
namespace GoraddServe.Muxers
open GoPaths ServeMuxes
open AssetRoutes (joinProxyPath)

variable {H : Type}

/-- The handler `WithMuxer(mux, next)`: what it calls, and the request that it calls it with. -/
def withMuxer (mux : ServeMux H) (next : H) (r : Request) : Callee H × Request :=
  let (h, p) := mux.handler r
  if p = [] then (.handler next, r) else (h, r)

/-- `PatternMuxer` and `AppMuxer` -/
structure Registry (H : Type) where
  patternMuxer : ServeMux H
  appMuxer : ServeMux H

def Registry.empty : Registry H := ⟨.new, .new⟩

/-- A pattern is registered with the proxy path in front of its path, if nothing panics. -/
def register (isValidWildcardName : Path → Bool) (proxyPath : Path) (mux : ServeMux H)
    (pattern : Path) (h : H) : Option (ServeMux H) := do
  let pattern ← (joinProxyPath proxyPath pattern).toOption
  mux.handle isValidWildcardName pattern h

def registerStaticHandler (isValidWildcardName : Path → Bool) (proxyPath : Path) (reg : Registry H)
    (pattern : Path) (h : H) : Option (Registry H) :=
  (register isValidWildcardName proxyPath reg.patternMuxer pattern h).map fun mux =>
    { reg with patternMuxer := mux }

def registerAppHandler (isValidWildcardName : Path → Bool) (proxyPath : Path) (reg : Registry H)
    (pattern : Path) (h : H) : Option (Registry H) :=
  (register isValidWildcardName proxyPath reg.appMuxer pattern h).map fun mux =>
    { reg with appMuxer := mux }

def withPatternMuxer (reg : Registry H) (next : H) (r : Request) : Callee H × Request :=
  withMuxer reg.patternMuxer next r

def withAppMuxer (reg : Registry H) (next : H) (r : Request) : Callee H × Request :=
  withMuxer reg.appMuxer next r

/-- What a handler sees of two requests is the same. -/
structure SameRequest (r r' : Request) : Prop where
  method : r.method = r'.method
  url : r.url = r'.url
  host : r.host = r'.host
  requestURI : r.requestURI = r'.requestURI
  pattern : r.pattern = r'.pattern
  pathValue : ∀ name, r.pathValue name = r'.pathValue name

/-- The handler of a request that some pattern matches is called as the muxer would call it, and
other requests go on to the next handler unchanged. -/
def AsServed (mux : ServeMux H) (next : H) (r : Request) : Prop :=
  (mux.Serves r → (withMuxer mux next r).1 = (mux.serveHTTP r).1 ∧
    SameRequest (withMuxer mux next r).2 (mux.serveHTTP r).2) ∧
  (¬mux.Serves r → withMuxer mux next r = (.handler next, r))

/-- The request as the muxer would fill it in. -/
def filled (mux : ServeMux H) (r : Request) : Request :=
  { r with
    pattern := (mux.findHandler r).patStr
    pat := (mux.findHandler r).pat
    values := (mux.findHandler r).values }

section Dispatch

variable {mux : ServeMux H} {next : H} {r : Request}

theorem withMuxer_serves (h : mux.Serves r) :
    withMuxer mux next r = ((mux.findHandler r).handler, r) :=
  if_neg (ServeMux.patStr_ne.mpr h)

theorem withMuxer_next (h : ¬mux.Serves r) : withMuxer mux next r = (.handler next, r) :=
  if_pos (not_not.mp fun hne => h (ServeMux.patStr_ne.mp hne))

theorem foundAt_ne_badRequest (n : Option (Leaf H × List Path)) :
    (ServeMux.foundAt n).handler ≠ .badRequest := by
  intro h
  cases n <;> cases h

theorem findHandler_ne_badRequest : (mux.findHandler r).handler ≠ .badRequest := by
  have hredirect : ∀ path rawQuery : Path, (.redirect path rawQuery : Callee H) ≠ .badRequest := by
    intro path rawQuery h
    cases h
  rw [ServeMux.findHandler]
  split
  · split
    · exact hredirect _ _
    · exact foundAt_ne_badRequest _
  · dsimp only
    split
    · exact hredirect _ _
    · split
      · exact hredirect _ _
      · exact foundAt_ne_badRequest _

theorem serveHTTP_asterisk (h : r.requestURI = text "*") :
    mux.serveHTTP r = (.badRequest, r) := if_pos h

theorem serveHTTP_found (h : r.requestURI ≠ text "*") :
    mux.serveHTTP r = ((mux.findHandler r).handler, filled mux r) := if_neg h

/-- A request is served as by the muxer if and only if nothing matches it, or it is not the one
for an asterisk and has the pattern and the path values already that the muxer would fill in. A
request that has no pattern yet is not. -/
theorem asServed_iff (mux : ServeMux H) (next : H) (r : Request) :
    (AsServed mux next r ↔ ¬mux.Serves r ∨ r.requestURI ≠ text "*" ∧
      r.pattern = (filled mux r).pattern ∧
        ∀ name, r.pathValue name = (filled mux r).pathValue name) ∧
      (r.pattern = [] → (AsServed mux next r ↔ ¬mux.Serves r)) := by
  have hiff : AsServed mux next r ↔ ¬mux.Serves r ∨ r.requestURI ≠ text "*" ∧
      r.pattern = (filled mux r).pattern ∧
        ∀ name, r.pathValue name = (filled mux r).pathValue name := by
    by_cases hserves : mux.Serves r
    · rw [or_iff_right (not_not.mpr hserves), AsServed, withMuxer_serves hserves]
      by_cases hasterisk : r.requestURI = text "*"
      · rw [serveHTTP_asterisk hasterisk]
        exact iff_of_false (fun h => findHandler_ne_badRequest (h.1 hserves).1)
          fun h => h.1 hasterisk
      · rw [serveHTTP_found hasterisk]
        refine ⟨fun h => ?_, fun h => ⟨fun _ => ⟨rfl, ?_⟩, fun hno => absurd hserves hno⟩⟩
        · have hsame := (h.1 hserves).2
          exact ⟨hasterisk, hsame.pattern, hsame.pathValue⟩
        · exact ⟨rfl, rfl, rfl, rfl, h.2.1, h.2.2⟩
    · exact iff_of_true ⟨fun h => absurd h hserves, fun _ => withMuxer_next hserves⟩ (.inl hserves)
  refine ⟨hiff, fun hempty => hiff.trans ⟨fun h => ?_, .inl⟩⟩
  intro hserves
  obtain ⟨-, hpattern, -⟩ := h.resolve_left (not_not.mpr hserves)
  exact ServeMux.patStr_ne.mpr hserves (hpattern.symm.trans hempty)

/-- Of the path values alone, for a request that has none: they are the same if and only if what
the wildcards of the pattern match is there already under their names. -/
theorem pathValues_iff (hserves : mux.Serves r) (hasterisk : r.requestURI ≠ text "*")
    (hpat : r.pat = none) :
    (∀ name, (withMuxer mux next r).2.pathValue name = (mux.serveHTTP r).2.pathValue name) ↔
      ∀ p, (mux.findHandler r).pat = some p → ∀ name ∈ p.names,
        (filled mux r).pathValue name = some (r.otherValues name) := by
  rw [withMuxer_serves hserves, serveHTTP_found hasterisk]
  have hvalue : ∀ name, r.pathValue name = some (r.otherValues name) := fun name => by
    rw [Request.pathValue, Request.patIndex, hpat]
  constructor
  · intro h p _ name _
    rw [← h name, hvalue]
  · intro h name
    rw [hvalue, Request.pathValue, Request.patIndex]
    cases hfound : (mux.findHandler r).pat with
    | none => rw [filled, hfound]
    | some p =>
      have hname := h p hfound name
      rw [Request.pathValue, Request.patIndex] at hname
      rw [filled, hfound] at hname ⊢
      by_cases hmem : name ∈ p.names
      · exact (hname hmem).symm
      · have hindex : p.names.idxOf? name = none := List.idxOf?_eq_none_iff.mpr hmem
        simp only [hindex]

end Dispatch

def asciiName (name : Path) : Bool := name.all fun b => decide (97 ≤ b ∧ b ≤ 122)

def getPath (path : String) : Request where
  method := text "GET"
  url := ⟨[], text path, text path, []⟩
  host := text "localhost"
  requestURI := text path
  pattern := []
  pat := none
  values := []
  otherValues _ := []

-- a path outside of the proxy path, one without its slash, and one below the pattern
example : (register asciiName (text "/abc") .new (text "/test/") 1).map (fun mux =>
    ["/test", "/abc/test", "/abc/test/test3"].map fun path => (withMuxer mux 0 (getPath path)).1) =
      some [.handler 0, .redirect (text "/abc/test/") [], .handler 1] := by decide

/-- The handler for a user gets no number. -/
theorem user_lost : ∃ reg : Registry ℕ,
    registerAppHandler asciiName [] .empty (text "GET /users/\x7bid\x7d") 1 = some reg ∧
      (withAppMuxer reg 0 (getPath "/users/7")).1 = .handler 1 ∧
      (reg.appMuxer.serveHTTP (getPath "/users/7")).1 = .handler 1 ∧
      (withAppMuxer reg 0 (getPath "/users/7")).2.pathValue (text "id") = some [] ∧
      (reg.appMuxer.serveHTTP (getPath "/users/7")).2.pathValue (text "id") = some (text "7") ∧
      ¬AsServed reg.appMuxer 0 (getPath "/users/7") := by
  refine ⟨_, rfl, by decide, by decide, by decide, by decide, fun h => ?_⟩
  have hsame := (h.1 (ServeMux.patStr_ne.mp (by decide))).2.pathValue (text "id")
  exact absurd hsame (by decide)

end GoraddServe.Muxers
