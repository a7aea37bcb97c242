import GoraddServe.ContentNegotiation

/-!
# File processors

A processor gets what has been opened. That is the content of the file when the file is sent as
it is, the compressed bytes when a compressed form is sent, and nothing when a compressed form is
decompressed, which passes the processors by. A processor that fails, or a file that cannot be
sent after its headers have been set, leaves behind what has been written by then when the file
counts as not found.
-/
namespace GoraddServe.FileProcessors
open GoMaps GoPaths Panics ResponseWriters StaticFiles FileRoutes FileServing ContentNegotiation

variable {ε : Type} {f : FileSystemServer} {env : Env ε} {w : Writer} {r : FileRequest} {p : Path}
  {s t : Serving ε} {rt : Route} {file : File} {P : FileProcessorFunc ε} {C : Bytes}
  {x y : Exchange ε}

/-- The processor ends with an error that goes into the log. -/
def ErrorLogged (result : Except PanicValue (Option String) × Exchange ε) : Prop :=
  ∃ err y, result = (.ok (some err), y) ∧ y.logger.isSome = true

def NothingElse (x y : Exchange ε) : Prop := { y with logger := none } = { x with logger := none }

/-- The processor has run, once, with a reader that yields the content, and nothing else has been
written. -/
def ProcessedOnce (f : FileSystemServer) (env : Env ε) (r : FileRequest) (s : Serving ε)
    (P : FileProcessorFunc ε) (C : Bytes) : Prop :=
  (outcome (f.serveHTTP env .server r) s).2.processed = s.processed ++ [⟨C, none⟩] ∧
    NothingElse (outcome (P ⟨C, none⟩ .server r) s.exchange).2
      (outcome (f.serveHTTP env .server r) s).2.exchange

/-- A name that exists can be read, and its bytes decode to the content. -/
def DecodesTo (f : FileSystemServer) (env : Env ε) (C : Bytes) (coding : Option (List String))
    (name : Path) : Prop :=
  f.pathExists name = true → ∃ file data, f.Fsys.Open name = .ok file ∧
    file.reader = ⟨data, none⟩ ∧ DecodesUnder env coding data C

/-- The forms that exist decode to one content. -/
structure Decoding (f : FileSystemServer) (env : Env ε) (p : Path) (C : Bytes) : Prop where
  plain : DecodesTo f env C none p
  brotli : DecodesTo f env C (some ["br"]) (p ++ brotliSuffix)
  gzip : DecodesTo f env C (some ["gzip"]) (p ++ gzipSuffix)

/-- The processor is called with the content: the file is sent as it is, or its compressed form
is, and that is the content itself. In the second case an error must not be logged, since a 404
comes after that. -/
def RunsOn (f : FileSystemServer) (r : FileRequest) (s : Serving ε) (p : Path)
    (P : FileProcessorFunc ε) (C : Bytes) : Route → Prop
  | .plain => True
  | .unpackBrotli | .unpackGzip => False
  | rt => (∃ file, f.Fsys.Open (rt.path p) = .ok file ∧ file.reader = ⟨C, none⟩) ∧
      ¬ErrorLogged (outcome (P ⟨C, none⟩ .server r) s.exchange)

def processing (s : Serving ε) (path : Path) (reader : Reader) (x : Exchange ε) : Serving ε :=
  { opening s path with processed := s.processed ++ [reader], exchange := x }

theorem errorLogged_some {err : String} :
    ErrorLogged (.ok (some err), y) ↔ y.logger.isSome = true := by
  refine ⟨?_, fun h => ⟨err, y, rfl, h⟩⟩
  rintro ⟨err', y', h, hlogger⟩
  cases h
  exact hlogger

theorem not_errorLogged {result : Except PanicValue (Option String)}
    (h : ∀ err, result ≠ .ok (some err)) : ¬ErrorLogged (result, y) := by
  rintro ⟨err, y', heq, -⟩
  exact h err (Prod.mk.inj heq).1

theorem notFound_else (records : Option (List LogRecord)) :
    ¬NothingElse x (outcome (notFound .server) { x with logger := records }).2 := by
  obtain ⟨_, y, hy, hgot⟩ := outcome_notFound { x with logger := records }
  rw [hy]
  intro h
  have hcalls := congrArg (fun z => z.server.calls) h
  have hmore := hgot.calls
  dsimp only at hcalls hmore
  rw [hmore] at hcalls
  simp at hcalls

theorem serveHTTP_processor (hresolve : f.resolve r env.strs = .ok (some p))
    (hroute : route f r p = some rt) (hdirect : rt.Direct)
    (hopen : f.Fsys.Open (rt.path p) = .ok file) (hP : env.fileProcessors.get (ext p) = some P) :
    (outcome (f.serveHTTP env .server r) s).2.processed = s.processed ++ [file.reader] ∧
      (NothingElse (outcome (P file.reader .server r) s.exchange).2
          (outcome (f.serveHTTP env .server r) s).2.exchange ↔
        rt = .plain ∨ ¬ErrorLogged (outcome (P file.reader .server r) s.exchange)) := by
  have hserve : outcome (rt.serve f env .server r p) s =
      ((outcome (P file.reader .server r) s.exchange).1,
        processing s (rt.path p) file.reader (outcome (P file.reader .server r) s.exchange).2) :=
    outcome_serve_processor hdirect hopen hP
  have hstatic : outcome (f.serveStaticFile env .server r) s =
      outcome (rt.serve f env .server r p >>= rt.finish p) s := by
    rw [serveStaticFile_route hresolve hroute]
  generalize outcome (P file.reader .server r) s.exchange = called at hserve ⊢
  obtain ⟨result, y⟩ := called
  have hsame : NothingElse y (processing s (rt.path p) file.reader y).exchange := rfl
  cases result with
  | error panic =>
    rw [outcome_bind_error hserve] at hstatic
    rw [serveHTTP_error hstatic]
    exact ⟨rfl, iff_of_true hsame (.inr (not_errorLogged fun err h => by cases h))⟩
  | ok err =>
    rw [outcome_bind_ok hserve] at hstatic
    cases err with
    | none =>
      rw [outcome_finish_none] at hstatic
      rw [serveHTTP_found hstatic]
      exact ⟨rfl, iff_of_true hsame (.inr (not_errorLogged fun err h => by cases h))⟩
    | some err =>
      by_cases hplain : rt = .plain
      · rw [hplain, outcome_finish_plain] at hstatic
        rw [serveHTTP_error hstatic]
        exact ⟨rfl, iff_of_true (hplain ▸ hsame) (.inl hplain)⟩
      · obtain ⟨record, hfinish⟩ := outcome_finish_error p err
          (processing s (rt.path p) file.reader y) hplain
        rw [hfinish, show (processing s (rt.path p) file.reader y).exchange = y from rfl] at hstatic
        rw [or_iff_right hplain, errorLogged_some]
        cases hlogger : y.logger with
        | none =>
          rw [hlogger] at hstatic
          rw [serveHTTP_error hstatic]
          exact ⟨rfl, iff_of_true hsame Bool.false_ne_true⟩
        | some records =>
          rw [hlogger] at hstatic
          rw [serveHTTP_notFound hstatic]
          exact ⟨rfl, iff_of_false (notFound_else (some (records ++ [record]))) fun h => h rfl⟩

theorem processed_unpack (hresolve : f.resolve r env.strs = .ok (some p))
    (hroute : route f r p = some rt) (hdirect : ¬rt.Direct) :
    (outcome (f.serveHTTP env .server r) s).2.processed = s.processed := by
  have hview : IgnoresOutput (Serving.processed (ε := ε)) := fun _ _ _ => rfl
  have hserve : (outcome (rt.serve f env .server r p) s).2.processed = s.processed := by
    rw [outcome_serve_unpack hdirect]
    cases rt.file f env p with
    | error err => exact (readied_unpacking env s _).processed
    | ok file =>
      exact ((keeps_serveFile hview p file) _).1.trans (readied_unpacking env s _).processed
  have hstatic : (outcome (f.serveStaticFile env .server r) s).2.processed = s.processed := by
    rw [serveStaticFile_route hresolve hroute, outcome_bind]
    revert hserve
    obtain ⟨result, t⟩ := outcome (rt.serve f env .server r p) s
    cases result with
    | error panic => exact id
    | ok err => exact fun hserve => (keeps_finish hview err t).1.trans hserve
  rw [FileSystemServer.serveHTTP, outcome_bind]
  revert hstatic
  obtain ⟨result, t⟩ := outcome (f.serveStaticFile env .server r) s
  cases result with
  | error panic => exact id
  | ok found => cases found <;> exact id

theorem processedOnce_route_iff (hresolve : f.resolve r env.strs = .ok (some p))
    (hP : env.fileProcessors.get (ext p) = some P) (hforms : Decoding f env p C)
    (hroute : route f r p = some rt) :
    ProcessedOnce f env r s P C ↔ RunsOn f r s p P C rt := by
  have hexists := (route_eq_some hroute).1
  have hunpack : ¬rt.Direct → ¬ProcessedOnce f env r s P C := by
    intro hdirect h
    have hprocessed := h.1
    rw [processed_unpack hresolve hroute hdirect] at hprocessed
    simp at hprocessed
  have hdirect : ∀ {file}, rt.Direct → f.Fsys.Open (rt.path p) = .ok file →
      (ProcessedOnce f env r s P C ↔ file.reader = ⟨C, none⟩ ∧
        (rt = .plain ∨ ¬ErrorLogged (outcome (P ⟨C, none⟩ .server r) s.exchange))) := by
    intro file hdirect hopen
    obtain ⟨hprocessed, helse⟩ := serveHTTP_processor (s := s) hresolve hroute hdirect hopen hP
    rw [ProcessedOnce, hprocessed, List.append_cancel_left_eq, List.singleton_inj]
    refine and_congr_right fun hreader => ?_
    rw [← hreader]
    exact helse
  have hcompressed : ∀ {file}, rt.Direct → rt ≠ .plain → f.Fsys.Open (rt.path p) = .ok file →
      (ProcessedOnce f env r s P C ↔
        (∃ file, f.Fsys.Open (rt.path p) = .ok file ∧ file.reader = ⟨C, none⟩) ∧
          ¬ErrorLogged (outcome (P ⟨C, none⟩ .server r) s.exchange)) := by
    intro file hrt hplain hopen
    rw [hdirect hrt hopen, or_iff_right hplain, hopen]
    simp
  cases rt with
  | plain =>
    obtain ⟨file, data, hopen, hreader, hdata⟩ := hforms.plain hexists
    have hC : data = C := hdata
    rw [hdirect trivial hopen, hreader, hC]
    exact iff_of_true ⟨rfl, .inl rfl⟩ trivial
  | brotli =>
    obtain ⟨file, data, hopen, -⟩ := hforms.brotli hexists
    exact hcompressed trivial (by decide) hopen
  | gzip =>
    obtain ⟨file, data, hopen, -⟩ := hforms.gzip hexists
    exact hcompressed trivial (by decide) hopen
  | unpackBrotli | unpackGzip => exact iff_of_false (hunpack id) id

/-- A processor gets the content, and nothing else is written, under this condition and no
other. -/
theorem processedOnce_iff (hresolve : f.resolve r env.strs = .ok (some p))
    (hP : env.fileProcessors.get (ext p) = some P) (hforms : Decoding f env p C)
    (hexists : f.pathExists p = true ∨ f.pathExists (p ++ brotliSuffix) = true ∨
      f.pathExists (p ++ gzipSuffix) = true) :
    ProcessedOnce f env r s P C ↔ ∃ rt, route f r p = some rt ∧ RunsOn f r s p P C rt := by
  obtain ⟨rt, hroute⟩ := Option.isSome_iff_exists.mp (route_isSome_iff (r := r).mpr hexists)
  rw [processedOnce_route_iff hresolve hP hforms hroute, hroute]
  simp

def copying : FileProcessorFunc Unit := fun reader w _ => do
  let (_, err) ← w.write reader.data
  return err

def processingEnv : Env Unit := testEnv.registerFileProcessor (bytes ".txt") copying

theorem decoding_threeForms : Decoding ⟨threeForms, false, true, []⟩ processingEnv
    (bytes "test1.txt") (bytes "test") where
  plain _ := ⟨_, bytes "test", rfl, rfl, rfl⟩
  brotli _ := ⟨_, testBr, rfl, rfl, rfl⟩
  gzip _ := ⟨_, testGz, rfl, rfl, rfl⟩

theorem processedOnce_iff_threeForms : ProcessedOnce ⟨threeForms, false, true, []⟩ processingEnv
    (testRequest "/test1.txt" none) freshServing copying (bytes "test") :=
  (processedOnce_iff rfl (GoMap.get_set ..) decoding_threeForms (.inl rfl)).mpr
    ⟨.plain, rfl, trivial⟩

/-- A client that accepts brotli makes the processor work on the compressed bytes. -/
theorem brotli_processed : ¬ProcessedOnce ⟨threeForms, false, true, []⟩ processingEnv
    (testRequest "/test1.txt" (some ["br"])) freshServing copying (bytes "test") := by
  rintro ⟨hprocessed, -⟩
  revert hprocessed
  decide

/-- Nothing has been done to the response, or to the buffers in front of it. -/
structure Intact (x y : Exchange ε) : Prop where
  server : y.server = x.server
  writer : ∀ q < x.writers, y.writer q = x.writer q

theorem Intact.refl (x : Exchange ε) : Intact x x := ⟨rfl, fun _ _ => rfl⟩

theorem intact_logger {records : Option (List LogRecord)} :
    Intact x { y with logger := records } ↔ Intact x y :=
  ⟨fun h => ⟨h.server, h.writer⟩, fun h => ⟨h.server, h.writer⟩⟩

/-- When no file is found nothing has been written. -/
def NotFoundIntact (f : FileSystemServer) (env : Env ε) (w : Writer) (r : FileRequest)
    (s : Serving ε) : Prop :=
  ∀ t, outcome (f.serveStaticFile env w r) s = (.ok false, t) → Intact s.exchange t.exchange

/-- A compressed form that is sent as it is may fail after something has been written: in its
processor, or at its `Stat`, which comes after the headers. It does not, or what has been written
changes nothing, or the error cannot be logged, which is a panic. -/
def FormIntact (f : FileSystemServer) (env : Env ε) (w : Writer) (r : FileRequest) (s : Serving ε)
    (p : Path) (rt : Route) (file : File) : Prop :=
  match env.fileProcessors.get (ext p) with
  | some P => ∀ err y, outcome (P file.reader w r) s.exchange = (.ok (some err), y) →
      y.logger.isSome = true → Intact s.exchange y
  | none => ∀ err, f.modTime file = .error err → s.exchange.logger.isSome = true →
      typesHeader env p rt.coding s.exchange.server.header = s.exchange.server.header

/-- The form that is sent as it is, if there is one, leaves the response alone when it fails. -/
def LeavesIntact (f : FileSystemServer) (env : Env ε) (w : Writer) (r : FileRequest)
    (s : Serving ε) : Prop :=
  ∀ p rt file, f.resolve r env.strs = .ok (some p) → route f r p = some rt → rt.coding ≠ "" →
    f.Fsys.Open (rt.path p) = .ok file → FormIntact f env w r s p rt file

section Intact

variable {err : String} {u : Serving ε}

/-- After an error that can be logged no file is found. -/
theorem notFoundIntact_error_iff (hresolve : f.resolve r env.strs = .ok (some p))
    (hroute : route f r p = some rt) (hplain : rt ≠ .plain)
    (hserve : outcome (rt.serve f env w r p) s = (.ok (some err), u)) :
    NotFoundIntact f env w r s ↔
      (u.exchange.logger.isSome = true → Intact s.exchange u.exchange) := by
  obtain ⟨record, hfinish⟩ := outcome_finish_error p err u hplain
  rw [NotFoundIntact, serveStaticFile_route hresolve hroute, outcome_bind_ok hserve, hfinish]
  cases hlogger : u.exchange.logger with
  | none => exact iff_of_true (fun t ht => by cases ht) fun h => by cases h
  | some records =>
    dsimp only [Option.elim_some, Option.isSome_some]
    constructor
    · exact fun h _ => intact_logger.mp (h { u with
        exchange := { u.exchange with logger := some (records ++ [record]) } } rfl)
    · rintro h t ht
      cases ht
      exact intact_logger.mpr (h rfl)

/-- After anything else a file is found, or there is a panic. -/
theorem notFoundIntact_of_ne (hresolve : f.resolve r env.strs = .ok (some p))
    (hroute : route f r p = some rt)
    (hserve : rt = .plain ∨ ∀ err, (outcome (rt.serve f env w r p) s).1 ≠ .ok (some err)) :
    NotFoundIntact f env w r s := by
  intro t ht
  rw [serveStaticFile_route hresolve hroute, outcome_bind_eq_ok] at ht
  obtain ⟨err, u, hu, hfinish⟩ := ht
  cases err with
  | none =>
    rw [outcome_finish_none] at hfinish
    cases hfinish
  | some err =>
    rcases hserve with rfl | hserve
    · rw [outcome_finish_plain] at hfinish
      cases hfinish
    · exact absurd (congrArg Prod.fst hu) (hserve err)

theorem serveFile_ne_error {name : Path} {time : Time} (htime : f.modTime file = .ok time) :
    (outcome (f.serveFile env w r name file) s).1 ≠ .ok (some err) := by
  rw [outcome_serveFile htime]
  split
  · rw [outcome_bind, outcome_onExchange]
    cases (outcome (env.serveContent w r name time file.reader) _).1 with
    | error panic => exact fun h => by cases h
    | ok done => exact fun h => by cases h
  · exact fun h => by cases h

/-- A form that is decompressed fails before anything is written. -/
theorem notFoundIntact_unpack (hresolve : f.resolve r env.strs = .ok (some p))
    (hroute : route f r p = some rt) (hdirect : ¬rt.Direct) : NotFoundIntact f env w r s := by
  have hunpacking : Intact s.exchange (unpacking env s (rt.path p)).exchange := by
    rw [unpacking]
    split
    · exact Intact.refl _
    · exact Intact.refl _
  have hplain : rt ≠ .plain := fun h => hdirect (h ▸ trivial)
  cases hfile : rt.file f env p with
  | error err =>
    have hserve : outcome (rt.serve f env w r p) s =
        (.ok (some err), unpacking env s (rt.path p)) := by
      rw [outcome_serve_unpack hdirect, hfile]
    exact (notFoundIntact_error_iff hresolve hroute hplain hserve).mpr fun _ => hunpacking
  | ok file =>
    have hserve : outcome (rt.serve f env w r p) s =
        outcome (f.serveFile env w r p file) (unpacking env s (rt.path p)) := by
      rw [outcome_serve_unpack hdirect, hfile]
    cases htime : f.modTime file with
    | error err =>
      exact (notFoundIntact_error_iff hresolve hroute hplain
        (hserve.trans (outcome_serveFile_error htime))).mpr fun _ => hunpacking
    | ok time =>
      refine notFoundIntact_of_ne hresolve hroute (.inr fun err herr => ?_)
      rw [hserve] at herr
      exact serveFile_ne_error htime herr

theorem notFoundIntact_file_iff (hresolve : f.resolve r env.strs = .ok (some p))
    (hroute : route f r p = some rt) (hdirect : rt.Direct) (hplain : rt ≠ .plain)
    (hfile : rt.file f env p = .ok file) (hopen : f.Fsys.Open (rt.path p) = .ok file) :
    NotFoundIntact f env w r s ↔ FormIntact f env w r s p rt file := by
  rw [FormIntact]
  cases hP : env.fileProcessors.get (ext p) with
  | some P =>
    dsimp only
    have hserve : outcome (rt.serve f env w r p) s = ((outcome (P file.reader w r) s.exchange).1,
        processing s (rt.path p) file.reader (outcome (P file.reader w r) s.exchange).2) :=
      outcome_serve_processor hdirect hopen hP
    generalize outcome (P file.reader w r) s.exchange = called at hserve ⊢
    obtain ⟨result, y⟩ := called
    have hother : (∀ err, result ≠ .ok (some err)) → NotFoundIntact f env w r s := fun h =>
      notFoundIntact_of_ne hresolve hroute (.inr fun err herr => by
        rw [hserve] at herr
        exact h err herr)
    cases result with
    | error panic => exact iff_of_true (hother fun err h => by cases h) fun err y h => by cases h
    | ok err =>
      cases err with
      | none => exact iff_of_true (hother fun err h => by cases h) fun err y h => by cases h
      | some err =>
        rw [notFoundIntact_error_iff hresolve hroute hplain hserve]
        refine ⟨fun h err' y' heq => ?_, fun h => h err y rfl⟩
        cases heq
        exact h
  | none =>
    dsimp only
    have hready : rt.ready env p s =
        { opening s (rt.path p) with exchange := typed env p rt.coding s.exchange } :=
      if_pos hdirect
    cases htime : f.modTime file with
    | error err =>
      rw [notFoundIntact_error_iff hresolve hroute hplain
        ((outcome_serve hP hfile).trans (outcome_serveFile_error htime)), readied_ready.logger,
        hready]
      refine ⟨fun h err' _ hlogger => congrArg ServerWriter.header (h hlogger).server,
        fun h hlogger => ⟨?_, fun _ _ => rfl⟩⟩
      dsimp only [typed]
      rw [h err rfl hlogger]
    | ok time =>
      refine iff_of_true (notFoundIntact_of_ne hresolve hroute (.inr fun err herr => ?_))
        fun err h => by cases h
      rw [outcome_serve hP hfile] at herr
      exact serveFile_ne_error htime herr

theorem notFoundIntact_form_iff (hresolve : f.resolve r env.strs = .ok (some p))
    (hroute : route f r p = some rt) : NotFoundIntact f env w r s ↔
      ∀ file, rt.coding ≠ "" → f.Fsys.Open (rt.path p) = .ok file →
        FormIntact f env w r s p rt file := by
  have hform : rt.Direct → rt ≠ .plain → (NotFoundIntact f env w r s ↔
      ∀ file, f.Fsys.Open (rt.path p) = .ok file → FormIntact f env w r s p rt file) := by
    intro hdirect hplain
    have hfile : rt.file f env p = f.Fsys.Open (rt.path p) := file_direct hdirect
    cases hopen : f.Fsys.Open (rt.path p) with
    | error err =>
      refine iff_of_true ((notFoundIntact_error_iff hresolve hroute hplain
        (outcome_serve_error (hfile.trans hopen))).mpr fun _ => ?_) fun file h => by cases h
      rw [Route.failed, if_pos hdirect]
      exact Intact.refl _
    | ok file =>
      rw [notFoundIntact_file_iff hresolve hroute hdirect hplain (hfile.trans hopen) hopen]
      simp
  cases rt with
  | plain =>
    have hintact : NotFoundIntact f env w r s := notFoundIntact_of_ne hresolve hroute (.inl rfl)
    exact iff_of_true hintact fun _ h => absurd rfl h
  | brotli | gzip =>
    refine (hform trivial (by decide)).trans ⟨fun h file _ => h file, fun h file => h file ?_⟩
    decide
  | unpackBrotli | unpackGzip =>
    exact iff_of_true (notFoundIntact_unpack hresolve hroute id) fun _ h => absurd rfl h

end Intact

/-- Whatever is done before no file is found leaves the response alone, under this condition and
no other. -/
theorem notFoundIntact_iff : NotFoundIntact f env w r s ↔ LeavesIntact f env w r s := by
  rw [LeavesIntact]
  obtain ⟨panic, hresolve, hstatic⟩ | ⟨name, hresolve, hroute, hstatic⟩ |
    ⟨p, rt, hresolve, hroute⟩ := serveStaticFile_cases f env w r s
  · refine iff_of_true (fun t ht => ?_) fun p rt file hp => ?_
    · cases hstatic.symm.trans ht
    · cases hresolve.symm.trans hp
  · refine iff_of_true (fun t ht => ?_) fun p rt file hp hrt => ?_
    · cases hstatic.symm.trans ht
      exact Intact.refl _
    · cases hresolve.symm.trans hp
      cases (hroute p rfl).symm.trans hrt
  · have hform := notFoundIntact_form_iff (w := w) (s := s) hresolve hroute
    refine hform.trans ⟨fun h q rt' file hq hrt => ?_, fun h file => h p rt file hresolve hroute⟩
    cases hresolve.symm.trans hq
    cases hroute.symm.trans hrt
    exact h file

def failing : FileProcessorFunc Unit := fun _ w _ => do
  w.setHeader "Content-Type" "text/html"
  let _ ← w.write (bytes "<p>")
  return some "unexpected end"

/-- The brotli form of a text file whose `Stat` fails. -/
def withoutStat : FileSystem :=
  { brotliOnly with
    Open := fun name => (brotliOnly.Open name).map fun file =>
      { file with stat := .error "input/output error" } }

/-- The 404 comes after half a page, or with the coding of the file. -/
theorem failing_written :
    ¬NotFoundIntact ⟨brotliOnly, false, true, []⟩
      (testEnv.registerFileProcessor (bytes ".txt") failing) .server
      (testRequest "/test1.txt" (some ["br"])) freshServing ∧
    ¬NotFoundIntact ⟨withoutStat, true, true, []⟩ testEnv .server
      (testRequest "/test1.txt" (some ["br"])) freshServing := by
  constructor
  · intro h
    have hbody : (outcome (FileSystemServer.serveStaticFile ⟨brotliOnly, false, true, []⟩
        (testEnv.registerFileProcessor (bytes ".txt") failing) .server
        (testRequest "/test1.txt" (some ["br"]))) freshServing).2.exchange.server.body ≠ [] := by
      decide
    exact hbody (congrArg ServerWriter.body (h _ (Prod.ext (by rfl) rfl)).server)
  · intro h
    have hcoding : ((outcome (FileSystemServer.serveStaticFile ⟨withoutStat, true, true, []⟩ testEnv
        .server (testRequest "/test1.txt" (some ["br"])))
        freshServing).2.exchange.server.header.get "Content-Encoding") ≠ none := by
      decide
    have hserver := (h _ (Prod.ext (by rfl) rfl)).server
    exact hcoding (congrArg (fun server => server.header.get "Content-Encoding") hserver)

end GoraddServe.FileProcessors
