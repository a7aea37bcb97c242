import GoraddServe.StaticFiles

/-!
# The five ways to serve a file

A brotli or a gzip file is sent as it is when the client accepts that, the file itself is sent as
it is, and otherwise a brotli or a gzip file is decompressed. Each way opens one name and gives
one file to `http.ServeContent`, unless a processor gets what has been opened.
-/
namespace GoraddServe.FileRoutes
open GoMaps GoPaths Panics ResponseWriters StaticFiles

variable {ε : Type}

inductive Route where
  | brotli
  | gzip
  | plain
  | unpackBrotli
  | unpackGzip
  deriving DecidableEq

def route (f : FileSystemServer) (r : FileRequest) (p : Path) : Option Route :=
  if accepts r "br" && f.pathExists (p ++ brotliSuffix) then some .brotli
  else if accepts r "gzip" && f.pathExists (p ++ gzipSuffix) then some .gzip
  else if f.pathExists p then some .plain
  else if f.pathExists (p ++ brotliSuffix) then some .unpackBrotli
  else if f.pathExists (p ++ gzipSuffix) then some .unpackGzip
  else none

namespace Route

def path (p : Path) : Route → Path
  | plain => p
  | brotli | unpackBrotli => p ++ brotliSuffix
  | gzip | unpackGzip => p ++ gzipSuffix

/-- The `Content-Encoding` that is set. -/
def coding : Route → String
  | brotli => "br"
  | gzip => "gzip"
  | _ => ""

def Direct : Route → Prop
  | unpackBrotli | unpackGzip => False
  | _ => True

instance (rt : Route) : Decidable rt.Direct := by
  cases rt <;> unfold Direct <;> infer_instance

def serve (f : FileSystemServer) (env : Env ε) (w : Writer) (r : FileRequest) (p : Path) :
    Route → ServeM ε (Option String)
  | unpackBrotli => f.serveDecompressedBrotli env w r p (p ++ brotliSuffix)
  | unpackGzip => f.serveDecompressedGzip env w r p (p ++ gzipSuffix)
  | rt => f.servePath env w r p (rt.path p) rt.coding

def finish (p : Path) : Route → Option String → ServeM ε Bool
  | plain, none => return true
  | plain, some err => throw (.error err)
  | brotli, err | unpackBrotli, err =>
    FileSystemServer.found "Error serving brotli file" (p ++ brotliSuffix) err
  | gzip, err | unpackGzip, err =>
    FileSystemServer.found "Error serving gzip file" (p ++ gzipSuffix) err

end Route

section Choice

variable {f : FileSystemServer} {r : FileRequest} {p : Path} {rt : Route}

/-- The name of the way that is chosen exists, and the client accepts its coding. -/
theorem route_eq_some (h : route f r p = some rt) : f.pathExists (rt.path p) = true ∧
    (rt.coding ≠ "" → accepts r rt.coding = true) := by
  unfold route at h
  split at h
  · next hbr =>
    cases h
    exact ⟨(Bool.and_eq_true_iff.mp hbr).2, fun _ => (Bool.and_eq_true_iff.mp hbr).1⟩
  split at h
  · next hgz =>
    cases h
    exact ⟨(Bool.and_eq_true_iff.mp hgz).2, fun _ => (Bool.and_eq_true_iff.mp hgz).1⟩
  split at h
  · next hplain =>
    cases h
    exact ⟨hplain, fun h => absurd rfl h⟩
  split at h
  · next hbr =>
    cases h
    exact ⟨hbr, fun h => absurd rfl h⟩
  split at h
  · next hgz =>
    cases h
    exact ⟨hgz, fun h => absurd rfl h⟩
  · cases h

theorem route_isSome_iff : (route f r p).isSome = true ↔ f.pathExists p = true ∨
    f.pathExists (p ++ brotliSuffix) = true ∨ f.pathExists (p ++ gzipSuffix) = true := by
  unfold route
  cases accepts r "br" <;> cases accepts r "gzip" <;> cases f.pathExists p <;>
    cases f.pathExists (p ++ brotliSuffix) <;> cases f.pathExists (p ++ gzipSuffix) <;> simp

theorem direct_of_exists (hroute : route f r p = some rt) (hexists : f.pathExists p = true) :
    rt.Direct := by
  unfold route at hroute
  rw [if_pos hexists] at hroute
  split at hroute
  · cases hroute
    trivial
  split at hroute
  · cases hroute
    trivial
  · cases hroute
    trivial

end Choice

section Spec

variable {f : FileSystemServer} {env : Env ε} {w : Writer} {r : FileRequest} {p name : Path}
  {s t : Serving ε} {file : File} {rt : Route} {err : String}

theorem serveResolved_eq : f.serveResolved env w r p =
    match route f r p with
    | none => pure false
    | some rt => rt.serve f env w r p >>= rt.finish p := by
  unfold FileSystemServer.serveResolved route
  dsimp only
  split
  · rfl
  split
  · rfl
  split
  · refine bind_congr fun err => ?_
    cases err with
    | none => rfl
    | some err => rfl
  split
  · rfl
  split
  · rfl
  · rfl

/-- In the development build the browser is told not to keep the file. -/
def cached (env : Env ε) (x : Exchange ε) : Exchange ε :=
  if env.release then x
  else { x with
    server.header := setHeader x.server.header "Cache-Control"
      "no-cache, no-store, must-revalidate, max-age=1" }

theorem get_cached {key : String} (hkey : key ≠ canonicalHeaderKey "Cache-Control")
    (x : Exchange ε) : (cached env x).server.header.get key = x.server.header.get key := by
  rw [cached]
  split
  · rfl
  · exact get_setHeader_of_ne hkey

/-- The headers that `setTypes` sets. -/
def typesHeader (env : Env ε) (name : Path) (coding : String) (header : Header) : Header :=
  let c := (env.contentTypes.get (ext name)).getD ""
  let header := if c ≠ "" then setHeader header "Content-Type" c else header
  if coding ≠ "" then setHeader header "Content-Encoding" coding else header

def typed (env : Env ε) (name : Path) (coding : String) (x : Exchange ε) : Exchange ε :=
  { x with server.header := typesHeader env name coding x.server.header }

theorem outcome_setTypes {coding : String} {x : Exchange ε} :
    outcome (FileSystemServer.setTypes env w name coding) x =
      (.ok ⟨⟩, typed env name coding x) := by
  unfold FileSystemServer.setTypes typed typesHeader
  dsimp only
  split
  · split
    · rfl
    · rfl
  · split
    · rfl
    · rfl

@[simp] theorem outcome_onExchange {α : Type} (m : HandlerM ε α) :
    outcome (onExchange m) s =
      ((outcome m s.exchange).1, { s with exchange := (outcome m s.exchange).2 }) := rfl

def opening (s : Serving ε) (path : Path) : Serving ε := { s with opened := s.opened ++ [path] }

theorem outcome_openFile {path : Path} :
    outcome (f.openFile path : ServeM ε _) s = (.ok (f.Fsys.Open path), opening s path) := rfl

/-- The state with which `http.ServeContent` is called. -/
def serving (env : Env ε) (file : File) (s : Serving ε) : Serving ε :=
  { s with exchange := cached env s.exchange, served := s.served ++ [file] }

theorem outcome_serveFile_error (h : f.modTime file = .error err) :
    outcome (f.serveFile env w r name file) s = (.ok (some err), s) := by
  rw [FileSystemServer.serveFile, h]
  rfl

theorem outcome_serveFile {time : Time} (h : f.modTime file = .ok time) :
    outcome (f.serveFile env w r name file) s =
      if file.seeker then
        outcome (do
          onExchange (env.serveContent w r name time file.reader)
          return none) (serving env file s)
      else (.error notSeeker, { s with exchange := cached env s.exchange }) := by
  rw [FileSystemServer.serveFile, h, serving, cached]
  cases env.release <;> cases file.seeker <;> rfl

theorem outcome_servePath_error {path : Path} {coding : String}
    (h : f.Fsys.Open path = .error err) :
    outcome (f.servePath env w r name path coding) s = (.ok (some err), opening s path) := by
  rw [FileSystemServer.servePath, outcome_bind_ok outcome_openFile, h]
  rfl

theorem outcome_servePath_processor {path : Path} {coding : String} {P : FileProcessorFunc ε}
    (h : f.Fsys.Open path = .ok file) (hP : env.fileProcessors.get (ext name) = some P) :
    outcome (f.servePath env w r name path coding) s = outcome (onExchange (P file.reader w r))
      { opening s path with processed := s.processed ++ [file.reader] } := by
  rw [FileSystemServer.servePath, outcome_bind_ok outcome_openFile, h]
  dsimp only
  rw [hP]
  rfl

theorem outcome_servePath {path : Path} {coding : String} (h : f.Fsys.Open path = .ok file)
    (hP : env.fileProcessors.get (ext name) = none) :
    outcome (f.servePath env w r name path coding) s = outcome (f.serveFile env w r name file)
      { opening s path with exchange := typed env name coding s.exchange } := by
  rw [FileSystemServer.servePath, outcome_bind_ok outcome_openFile, h]
  dsimp only
  rw [hP]
  dsimp only
  rw [outcome_bind, outcome_onExchange, outcome_setTypes]
  rfl

/-- The temporary file with what a compressed one decodes to. -/
def unpack (f : FileSystemServer) (env : Env ε) (decoder : Reader → Except String Reader)
    (path : Path) : Except String File :=
  match env.createTemp with
  | some err => .error err
  | none => f.Fsys.Open path >>= fun file => decoder file.reader >>= FileSystemServer.copyTemp env

/-- All that has to go well for a temporary file. -/
theorem unpack_eq_ok {decoder : Reader → Except String Reader} {path : Path} :
    unpack f env decoder path = .ok file ↔ env.createTemp = none ∧ ∃ src reader,
      f.Fsys.Open path = .ok src ∧ decoder src.reader = .ok reader ∧ reader.err = none ∧
        env.writeTemp reader.data = none ∧ file = ⟨false, env.statTemp, true, reader⟩ := by
  have hcopy : ∀ reader, FileSystemServer.copyTemp env reader = .ok file ↔ reader.err = none ∧
      env.writeTemp reader.data = none ∧ file = ⟨false, env.statTemp, true, reader⟩ := by
    intro reader
    unfold FileSystemServer.copyTemp
    cases reader.err with
    | some err => simp
    | none => cases env.writeTemp reader.data <;> simp [eq_comm]
  unfold unpack
  cases env.createTemp with
  | some err => simp
  | none =>
    cases f.Fsys.Open path with
    | error err => simp [bind, Except.bind]
    | ok src => cases hdecode : decoder src.reader <;> simp [bind, Except.bind, hdecode, hcopy]

/-- The compressed file is not opened when there is no temporary file. -/
def unpacking (env : Env ε) (s : Serving ε) (path : Path) : Serving ε :=
  if env.createTemp = none then opening s path else s

theorem outcome_serveDecompressed (decoder : Reader → Except String Reader) {path : Path} :
    outcome (f.serveDecompressed env w r decoder name path) s =
      match unpack f env decoder path with
      | .error err => (.ok (some err), unpacking env s path)
      | .ok tempFile => outcome (f.serveFile env w r name tempFile) (unpacking env s path) := by
  unfold FileSystemServer.serveDecompressed unpack unpacking
  cases htemp : env.createTemp with
  | some err => rfl
  | none =>
    dsimp only
    rw [outcome_bind_ok outcome_openFile, if_pos rfl]
    cases f.Fsys.Open path with
    | error err => rfl
    | ok file =>
      dsimp only [bind, Except.bind]
      cases decoder file.reader with
      | error err => rfl
      | ok reader =>
        dsimp only
        cases FileSystemServer.copyTemp env reader with
        | error err => rfl
        | ok tempFile => rfl

end Spec

namespace Route

def file (f : FileSystemServer) (env : Env ε) (p : Path) : Route → Except String File
  | unpackBrotli => unpack f env (fun file => .ok (env.brotli file)) (p ++ brotliSuffix)
  | unpackGzip => unpack f env env.gzip (p ++ gzipSuffix)
  | rt => f.Fsys.Open (rt.path p)

/-- The name has been opened, and the headers are set on the ways that set them. -/
def ready (env : Env ε) (p : Path) (s : Serving ε) (rt : Route) : Serving ε :=
  if rt.Direct then { opening s (rt.path p) with exchange := typed env p rt.coding s.exchange }
  else unpacking env s (rt.path p)

/-- A way opens one name, unless it needs a temporary file and there is none. -/
def names (env : Env ε) (p : Path) (rt : Route) : List Path :=
  if rt.Direct ∨ env.createTemp = none then [rt.path p] else []

/-- The name has been opened and nothing else done. -/
def failed (env : Env ε) (p : Path) (s : Serving ε) (rt : Route) : Serving ε :=
  if rt.Direct then opening s (rt.path p) else unpacking env s (rt.path p)

end Route

section Serve

variable {f : FileSystemServer} {env : Env ε} {w : Writer} {r : FileRequest} {p : Path}
  {s : Serving ε} {file : File} {rt : Route} {err : String}

theorem file_direct (hrt : rt.Direct) : rt.file f env p = f.Fsys.Open (rt.path p) := by
  cases rt with
  | unpackBrotli | unpackGzip => exact hrt.elim
  | brotli | gzip | plain => rfl

theorem outcome_serve_unpack (hrt : ¬rt.Direct) : outcome (rt.serve f env w r p) s =
    match rt.file f env p with
    | .error err => (.ok (some err), unpacking env s (rt.path p))
    | .ok file => outcome (f.serveFile env w r p file) (unpacking env s (rt.path p)) := by
  cases rt with
  | unpackBrotli => exact outcome_serveDecompressed fun file => .ok (env.brotli file)
  | unpackGzip => exact outcome_serveDecompressed env.gzip
  | brotli | gzip | plain => exact absurd trivial hrt

theorem outcome_serve_error (h : rt.file f env p = .error err) :
    outcome (rt.serve f env w r p) s = (.ok (some err), rt.failed env p s) := by
  by_cases hrt : rt.Direct
  · rw [Route.failed, if_pos hrt]
    cases rt with
    | unpackBrotli | unpackGzip => exact hrt.elim
    | brotli | gzip | plain => exact outcome_servePath_error h
  · rw [outcome_serve_unpack hrt, h, Route.failed, if_neg hrt]

theorem outcome_serve (hP : env.fileProcessors.get (ext p) = none)
    (h : rt.file f env p = .ok file) :
    outcome (rt.serve f env w r p) s = outcome (f.serveFile env w r p file) (rt.ready env p s) := by
  by_cases hrt : rt.Direct
  · rw [Route.ready, if_pos hrt]
    cases rt with
    | unpackBrotli | unpackGzip => exact hrt.elim
    | brotli | gzip | plain => exact outcome_servePath h hP
  · rw [outcome_serve_unpack hrt, h, Route.ready, if_neg hrt]

/-- The content of a file, as it is or decompressed. -/
def ContentOf (env : Env ε) (src file : File) : Prop :=
  file = src ∨ file.reader = env.brotli src.reader ∨ env.gzip src.reader = .ok file.reader

theorem exists_source (h : rt.file f env p = .ok file) : ∃ src, f.Fsys.Open (rt.path p) = .ok src ∧
    rt.names env p = [rt.path p] ∧ ContentOf env src file ∧ (src = file ∨ file.seeker = true) := by
  cases rt with
  | brotli | gzip | plain => exact ⟨file, h, if_pos (.inl trivial), .inl rfl, .inl rfl⟩
  | unpackBrotli =>
    rw [Route.file, unpack_eq_ok] at h
    obtain ⟨htemp, src, reader, hopen, hdecode, -, -, rfl⟩ := h
    cases hdecode
    exact ⟨src, hopen, if_pos (.inr htemp), .inr (.inl rfl), .inr rfl⟩
  | unpackGzip =>
    rw [Route.file, unpack_eq_ok] at h
    obtain ⟨htemp, src, reader, hopen, hdecode, -, -, rfl⟩ := h
    exact ⟨src, hopen, if_pos (.inr htemp), .inr (.inr hdecode), .inr rfl⟩

theorem outcome_serve_processor {P : FileProcessorFunc ε} (hdirect : rt.Direct)
    (h : f.Fsys.Open (rt.path p) = .ok file) (hP : env.fileProcessors.get (ext p) = some P) :
    outcome (rt.serve f env w r p) s = outcome (onExchange (P file.reader w r))
      { opening s (rt.path p) with processed := s.processed ++ [file.reader] } := by
  cases rt with
  | unpackBrotli | unpackGzip => exact hdirect.elim
  | brotli | gzip | plain => exact outcome_servePath_processor h hP

/-- The name and the file have been found, and nothing has been written. -/
structure Readied (s t : Serving ε) : Prop where
  logger : t.exchange.logger = s.exchange.logger
  sent : t.exchange.server.sent = s.exchange.server.sent
  body : t.exchange.server.body = s.exchange.server.body
  processed : t.processed = s.processed
  served : t.served = s.served

theorem readied_opening (s : Serving ε) (path : Path) : Readied s (opening s path) :=
  ⟨rfl, rfl, rfl, rfl, rfl⟩

theorem readied_unpacking (env : Env ε) (s : Serving ε) (path : Path) :
    Readied s (unpacking env s path) := by
  rw [unpacking]
  split
  · exact readied_opening s path
  · exact ⟨rfl, rfl, rfl, rfl, rfl⟩

theorem readied_failed : Readied s (rt.failed env p s) := by
  rw [Route.failed]
  split
  · exact readied_opening s _
  · exact readied_unpacking env s _

theorem readied_ready : Readied s (rt.ready env p s) := by
  rw [Route.ready]
  split
  · exact ⟨rfl, rfl, rfl, rfl, rfl⟩
  · exact readied_unpacking env s _

theorem outcome_finish_plain :
    outcome (Route.finish p .plain (some err) : ServeM ε Bool) s = (.error (.error err), s) := rfl

theorem outcome_finish_error (p : Path) (err : String) (s : Serving ε) (hrt : rt ≠ .plain) :
    ∃ record, outcome (rt.finish p (some err)) s = s.exchange.logger.elim (.error nilDereference, s)
      fun records => (.ok false,
        { s with exchange := { s.exchange with logger := some (records ++ [record]) } }) := by
  have hfound : ∀ msg path, ∃ record, outcome (FileSystemServer.found msg path (some err)) s =
      s.exchange.logger.elim (.error nilDereference, s) fun records => (.ok false,
        { s with exchange := { s.exchange with logger := some (records ++ [record]) } }) := by
    intro msg path
    refine ⟨logRecord logModule msg [.attr "error" (.text err), .attr "file" (.bytes path)], ?_⟩
    rw [FileSystemServer.found, outcome_bind, outcome_onExchange, outcome_logError]
    cases s.exchange.logger with
    | none => rfl
    | some records => rfl
  cases rt with
  | plain => exact absurd rfl hrt
  | brotli | gzip | unpackBrotli | unpackGzip => exact hfound _ _

theorem outcome_finish_none : outcome (rt.finish p none) s = (.ok true, s) := by
  cases rt <;> rfl

theorem serveStaticFile_resolved (h : f.resolve r env.strs = .ok (some p)) :
    f.serveStaticFile env w r =
      match route f r p with
      | none => pure false
      | some rt => rt.serve f env w r p >>= rt.finish p := by
  rw [FileSystemServer.serveStaticFile, h]
  exact serveResolved_eq

theorem serveStaticFile_route (hresolve : f.resolve r env.strs = .ok (some p))
    (hroute : route f r p = some rt) :
    f.serveStaticFile env w r = rt.serve f env w r p >>= rt.finish p := by
  rw [serveStaticFile_resolved hresolve, hroute]

theorem outcome_serveStaticFile_content (hresolve : f.resolve r env.strs = .ok (some p))
    (hroute : route f r p = some rt) (hP : env.fileProcessors.get (ext p) = none) {time : Time}
    (hfile : rt.file f env p = .ok file) (htime : f.modTime file = .ok time)
    (hseeker : file.seeker = true) {y : Exchange ε}
    (hcontent : outcome (env.serveContent w r p time file.reader)
      (serving env file (rt.ready env p s)).exchange = (.ok ⟨⟩, y)) :
    outcome (f.serveStaticFile env w r) s =
      (.ok true, { serving env file (rt.ready env p s) with exchange := y }) := by
  have hserve : outcome (rt.serve f env w r p) s =
      (.ok none, { serving env file (rt.ready env p s) with exchange := y }) := by
    rw [outcome_serve hP hfile, outcome_serveFile htime, if_pos hseeker, outcome_bind,
      outcome_onExchange, hcontent]
    rfl
  rw [serveStaticFile_route hresolve hroute, outcome_bind_ok hserve, outcome_finish_none]

/-- A request is a panic, or no file is found, or one of the ways is taken. -/
theorem serveStaticFile_cases (f : FileSystemServer) (env : Env ε) (w : Writer) (r : FileRequest)
    (s : Serving ε) :
    (∃ panic, f.resolve r env.strs = .error panic ∧
      outcome (f.serveStaticFile env w r) s = (.error panic, s)) ∨
    (∃ name, f.resolve r env.strs = .ok name ∧ (∀ p ∈ name, route f r p = none) ∧
      outcome (f.serveStaticFile env w r) s = (.ok false, s)) ∨
    ∃ p rt, f.resolve r env.strs = .ok (some p) ∧ route f r p = some rt := by
  cases hresolve : f.resolve r env.strs with
  | error panic =>
    refine .inl ⟨panic, rfl, ?_⟩
    rw [FileSystemServer.serveStaticFile, hresolve]
    rfl
  | ok name =>
    cases name with
    | none =>
      refine .inr (.inl ⟨none, rfl, fun p hp => ?_, ?_⟩)
      · cases hp
      · rw [FileSystemServer.serveStaticFile, hresolve]
        rfl
    | some p =>
      cases hroute : route f r p with
      | none =>
        refine .inr (.inl ⟨some p, rfl, fun q hq => ?_, ?_⟩)
        · cases hq
          exact hroute
        · rw [serveStaticFile_resolved hresolve, hroute]
          rfl
      | some rt => exact .inr (.inr ⟨p, rt, rfl, hroute⟩)

theorem requested_eq_error {strs : CacheBuster.StringTests} {panic : PanicValue} :
    f.requested r strs = .error panic ↔
      (f.UseCacheBuster = true ∧ slash ∉ r.path) ∧ panic = CacheBuster.sliceOutOfRange := by
  unfold FileSystemServer.requested
  cases f.UseCacheBuster with
  | false =>
    refine iff_of_false (fun h => ?_) fun h => by cases h.1.1
    cases h
  | true =>
    by_cases hslash : slash ∈ r.path
    · obtain ⟨q, hq⟩ : ∃ q, CacheBuster.stripCacheBusterPath strs r.path = .ok q :=
        CacheBuster.stripCacheBusterPath_ok hslash
      rw [if_pos rfl, hq]
      exact iff_of_false (fun h => by cases h) fun h => h.1.2 hslash
    · rw [if_pos rfl, CacheBuster.stripCacheBusterPath_eq_error.mpr hslash]
      refine ⟨fun h => ⟨⟨rfl, hslash⟩, ?_⟩, fun h => h.2 ▸ rfl⟩
      cases h
      rfl

theorem resolve_eq {strs : CacheBuster.StringTests} : f.resolve r strs =
    match f.requested r strs with
    | .error panic => .error panic
    | .ok p => .ok (if validPath p = true ∧ f.hidden strs p = false then some p else none) := by
  unfold FileSystemServer.resolve
  cases f.requested r strs with
  | error panic => rfl
  | ok p => cases hvalid : validPath p <;> cases hhidden : f.hidden strs p <;>
      simp [bind, Except.bind, pure, Except.pure, hvalid, hhidden]

theorem resolve_eq_error {strs : CacheBuster.StringTests} {panic : PanicValue} :
    f.resolve r strs = .error panic ↔
      (f.UseCacheBuster = true ∧ slash ∉ r.path) ∧ panic = CacheBuster.sliceOutOfRange := by
  rw [resolve_eq, ← requested_eq_error]
  cases f.requested r strs <;> simp

theorem resolve_some {strs : CacheBuster.StringTests} (h : f.resolve r strs = .ok (some p)) :
    validPath p = true ∧ ∀ b ∈ f.Hide, ¬b <:+ p := by
  rw [resolve_eq] at h
  cases hrequested : f.requested r strs with
  | error panic =>
    rw [hrequested] at h
    cases h
  | ok q =>
    rw [hrequested, Except.ok.injEq, Option.ite_none_right_eq_some, Option.some.injEq] at h
    obtain ⟨⟨hvalid, hhidden⟩, rfl⟩ := h
    refine ⟨hvalid, fun b hb hsuffix => ?_⟩
    have hany := List.any_eq_true.mpr ⟨b, hb, (strs.endsWith_iff q b).mpr hsuffix⟩
    rw [FileSystemServer.hidden, hany] at hhidden
    cases hhidden

/-- The view shows nothing of what is written, or of the files that are sent. -/
def IgnoresOutput {τ : Type} (view : Serving ε → τ) : Prop :=
  ∀ s x files, view { s with exchange := x, served := files } = view s

section Keeps

variable {τ : Type} {view : Serving ε → τ}

theorem keeps_serveFile (hview : IgnoresOutput view) (name : Path) (file : File) :
    Keeps view (fun _ => True) (f.serveFile env w r name file) := by
  refine fun s => ⟨?_, fun _ _ => trivial⟩
  cases htime : f.modTime file with
  | error err => rw [outcome_serveFile_error htime]
  | ok time =>
    rw [outcome_serveFile htime]
    split
    · have hkeeps : Keeps view (fun _ => True) (do
          onExchange (env.serveContent w r name time file.reader)
          return none : ServeM ε (Option String)) :=
        keeps_bind (fun s => ⟨hview s _ s.served, fun _ _ => trivial⟩) fun _ => keeps_pure
      exact (hkeeps _).1.trans (hview s _ _)
    · exact hview s _ s.served

theorem keeps_finish (hview : IgnoresOutput view) (err : Option String) :
    Keeps view (fun _ => True) (rt.finish p err : ServeM ε Bool) := by
  have hfound : ∀ msg path err, Keeps view (fun _ => True)
      (FileSystemServer.found msg path err : ServeM ε Bool) := by
    intro msg path err
    cases err with
    | none => exact keeps_pure
    | some err =>
      exact keeps_bind (fun s => ⟨hview s _ s.served, fun _ _ => trivial⟩) fun _ => keeps_pure
  cases rt with
  | brotli | gzip | unpackBrotli | unpackGzip => exact hfound _ _ err
  | plain =>
    cases err with
    | none => exact keeps_pure
    | some err => exact keeps_throw trivial

end Keeps

theorem ignoresOutput_opened : IgnoresOutput (Serving.opened (ε := ε)) := fun _ _ _ => rfl

theorem opened_serve :
    (outcome (rt.serve f env w r p) s).2.opened = s.opened ++ rt.names env p := by
  have hopening : ∀ path, (opening s path).opened = s.opened ++ [path] := fun _ => rfl
  rw [Route.names]
  by_cases hdirect : rt.Direct
  · rw [if_pos (.inl hdirect)]
    have hfile : rt.file f env p = f.Fsys.Open (rt.path p) := file_direct hdirect
    cases hopen : f.Fsys.Open (rt.path p) with
    | error err =>
      rw [outcome_serve_error (hfile.trans hopen), Route.failed, if_pos hdirect, hopening]
    | ok file =>
      cases hP : env.fileProcessors.get (ext p) with
      | some P =>
        rw [outcome_serve_processor hdirect hopen hP]
        rfl
      | none =>
        rw [outcome_serve hP (hfile.trans hopen), (keeps_serveFile ignoresOutput_opened p file _).1,
          Route.ready, if_pos hdirect]
        rfl
  · have hunpacking : (unpacking env s (rt.path p)).opened =
        s.opened ++ (if rt.Direct ∨ env.createTemp = none then [rt.path p] else []) := by
      rw [unpacking]
      by_cases htemp : env.createTemp = none
      · rw [if_pos htemp, if_pos (.inr htemp)]
        rfl
      · rw [if_neg htemp, if_neg (not_or.mpr ⟨hdirect, htemp⟩), List.append_nil]
    rw [outcome_serve_unpack hdirect, ← hunpacking]
    cases rt.file f env p with
    | error err => rfl
    | ok file => exact (keeps_serveFile ignoresOutput_opened p file _).1

def opens (f : FileSystemServer) (env : Env ε) (r : FileRequest) : List Path :=
  match f.resolve r env.strs with
  | .ok (some p) => ((route f r p).map (Route.names env p)).getD []
  | _ => []

theorem opened_serveStaticFile :
    (outcome (f.serveStaticFile env w r) s).2.opened = s.opened ++ opens f env r := by
  have hnone : s.opened = s.opened ++ [] := (List.append_nil _).symm
  obtain ⟨panic, hresolve, hstatic⟩ | ⟨name, hresolve, hroute, hstatic⟩ |
    ⟨p, rt, hresolve, hroute⟩ := serveStaticFile_cases f env w r s
  · rw [hstatic, opens, hresolve]
    exact hnone
  · rw [hstatic, opens, hresolve]
    cases name with
    | none => exact hnone
    | some p =>
      dsimp only
      rw [hroute p rfl]
      exact hnone
  · have hserve : (outcome (rt.serve f env w r p) s).2.opened =
      s.opened ++ rt.names env p := opened_serve
    rw [serveStaticFile_route hresolve hroute, opens, hresolve]
    dsimp only
    rw [hroute, Option.map_some, Option.getD_some, outcome_bind, ← hserve]
    obtain ⟨result, t⟩ := outcome (rt.serve f env w r p) s
    cases result with
    | ok err => exact (keeps_finish ignoresOutput_opened err t).1
    | error panic => rfl

end Serve

/-- A map of files as a file system, whose directories are not seekers. -/
def mapFS (files : List (Path × Bytes)) : FileSystem where
  Stat name := match files.lookup name with
    | some _ => .ok ⟨false, 0⟩
    | none =>
      if name == [dot] || files.any fun file => (name ++ [slash]).isPrefixOf file.1 then
        .ok ⟨true, 0⟩
      else .error "file does not exist"
  Open name := match files.lookup name with
    | some data => .ok ⟨false, .ok ⟨false, 0⟩, true, ⟨data, none⟩⟩
    | none =>
      if name == [dot] || files.any fun file => (name ++ [slash]).isPrefixOf file.1 then
        .ok ⟨true, .ok ⟨true, 0⟩, false, ⟨[], some "is a directory"⟩⟩
      else .error "file does not exist"
  ReadFile name := match files.lookup name with
    | some data => .ok data
    | none => .error "file does not exist"
  walk := ⟨[dot], true, none⟩ :: files.map fun file => ⟨file.1, false, none⟩

/-- `test` as brotli and gzip write it. -/
def testBr : Bytes := [139, 1, 128, 116, 101, 115, 116, 3]

def testGz : Bytes := [31, 139, 8, 0, 0, 0, 0, 0, 2, 255, 42, 73, 45, 46, 1, 4, 0, 0, 255, 255, 12,
  126, 127, 216, 4, 0, 0, 0]

/-- The headers of `http.ServeContent` for plain text that is asked for as a whole. -/
def textHeaders (w : Writer) (reader : Reader) : HandlerM Unit Unit := do
  if !(← get).server.header.has "Content-Type" then
    w.setHeader "Content-Type" "text/plain; charset=utf-8"
  w.setHeader "Accept-Ranges" "bytes"
  if !(← get).server.header.has "Content-Encoding" then
    w.setHeader "Content-Length" (toString reader.data.length)

def textContent (w : Writer) (reader : Reader) : HandlerM Unit Unit := do
  textHeaders w reader
  w.writeHeader 200
  let _ ← w.write reader.data

/-- The decoders as far as the tests need them. -/
def testEnv : Env Unit where
  release := true
  fileProcessors := ∅
  contentTypes := ∅
  strs :=
    { startsWith := fun s beginning => beginning.isPrefixOf s
      startsWith_iff := fun _ _ => List.isPrefixOf_iff_prefix
      endsWith := fun s ending => ending.isSuffixOf s
      endsWith_iff := fun _ _ => List.isSuffixOf_iff_suffix }
  brotli reader := if reader = ⟨testBr, none⟩ then ⟨bytes "test", none⟩
    else ⟨[], some "brotli: corrupt input"⟩
  gzip reader := if reader = ⟨testGz, none⟩ then .ok ⟨bytes "test", none⟩
    else .error "gzip: invalid header"
  createTemp := none
  writeTemp _ := none
  statTemp := .ok ⟨false, 0⟩
  serveContent w _ _ _ reader := textContent w reader

def testRequest (path : String) (codings : Option (List String)) : FileRequest :=
  ⟨⟨fun _ => none, none, none⟩, bytes path, codings⟩

def freshServing : Serving Unit :=
  ⟨⟨⟨∅, none, none, [], []⟩, fun _ => ⟨[], 0, false, 0⟩, 0, some [], ()⟩, [], [], []⟩

end GoraddServe.FileRoutes
