import GoraddServe.FileServing

/-!
# Content negotiation

When the forms of a file that exist decode to one content, the client gets that content, under a
coding that it has listed.
-/
namespace GoraddServe.ContentNegotiation
open GoMaps GoPaths Panics ResponseWriters CacheBuster StaticFiles FileRoutes FileServing
open HeaderValues (isSpace trimSpace)

variable {ε : Type} {f : FileSystemServer} {env : Env ε} {r : FileRequest} {p : Path}
  {s t : Serving ε} {rt : Route} {file : File} {C : Bytes}

/-- The coding is an element of the lists in `Accept-Encoding`, between white space. -/
def Listed (r : FileRequest) (coding : String) : Prop :=
  ∃ values, r.acceptEncoding = some values ∧ ∃ value ∈ values,
    ∃ element ∈ value.toList.splitOn ',', ∃ left right,
      element = left ++ coding.toList ++ right ∧ left.all isSpace = true ∧ right.all isSpace = true

theorem trimSpace_eq (cs : List Char) : ∃ left right, cs = left ++ trimSpace cs ++ right ∧
    left.all isSpace = true ∧ right.all isSpace = true := by
  refine ⟨cs.takeWhile isSpace, (cs.dropWhile isSpace).rtakeWhile isSpace, ?_, List.all_takeWhile,
    List.all_eq_true.mpr fun c hc => List.mem_rtakeWhile_imp hc⟩
  rw [trimSpace, List.append_assoc, List.rdropWhile_append_rtakeWhile,
    List.takeWhile_append_dropWhile]

theorem listed_of_accepts {coding : String} (h : accepts r coding = true) : Listed r coding := by
  unfold accepts at h
  split at h
  · cases h
  · next values hvalues =>
    obtain ⟨value, hvalue, h⟩ := List.any_eq_true.mp h
    obtain ⟨element, helement, h⟩ := List.any_eq_true.mp h
    obtain ⟨left, right, htrim, hleft, hright⟩ := trimSpace_eq element
    rw [eq_of_beq h] at htrim
    exact ⟨values, hvalues, value, hvalue, element, helement, left, right, htrim, hleft, hright⟩

/-- The bytes decode to the content under a coding. -/
def DecodesUnder (env : Env ε) (coding : Option (List String)) (data C : Bytes) : Prop :=
  match coding with
  | none => data = C
  | some ["br"] => env.brotli ⟨data, none⟩ = ⟨C, none⟩
  | some ["gzip"] => env.gzip ⟨data, none⟩ = .ok ⟨C, none⟩
  | _ => False

/-- A name that exists is that of a regular file, whose bytes decode to the content. -/
def FormOf (f : FileSystemServer) (env : Env ε) (C : Bytes) (coding : Option (List String))
    (name : Path) : Prop :=
  f.pathExists name = true → ∃ file data, f.Fsys.Open name = .ok file ∧ file.isDir = false ∧
    file.seeker = true ∧ file.stat.isOk = true ∧ file.reader = ⟨data, none⟩ ∧
      DecodesUnder env coding data C

/-- The forms that exist are regular files and decode to one content. -/
structure Forms (f : FileSystemServer) (env : Env ε) (p : Path) (C : Bytes) : Prop where
  plain : FormOf f env C none p
  brotli : FormOf f env C (some ["br"]) (p ++ brotliSuffix)
  gzip : FormOf f env C (some ["gzip"]) (p ++ gzipSuffix)

/-- Temporary files can be created. -/
structure TempFiles (env : Env ε) : Prop where
  created : env.createTemp = none
  written : ∀ data, env.writeTemp data = none
  stat : env.statTemp.isOk = true

/-- `http.ServeContent` sends the whole file, unless another length has been declared for it, and
leaves the coding to the caller. -/
def SendsWhole (env : Env ε) (r : FileRequest) : Prop :=
  ∀ name time data (x : Exchange ε), x.server.sent = none →
    x.server.header.get "Content-Length" = none → ∃ header y,
      outcome (env.serveContent .server r name time ⟨data, none⟩) x = (.ok ⟨⟩, y) ∧
        y.server.sent = some (200, header) ∧
          header.get "Content-Encoding" = x.server.header.get "Content-Encoding" ∧
            y.server.body = x.server.body ++ data

/-- The header `Content-Encoding` of a way. -/
def Route.header (rt : Route) : Option (List String) :=
  if rt.coding = "" then none else some [rt.coding]

theorem exists_modTime (h : file.stat.isOk = true) : ∃ time, f.modTime file = .ok time := by
  rw [FileSystemServer.modTime]
  split
  · cases hstat : file.stat with
    | error err =>
      rw [hstat] at h
      cases h
    | ok info => exact ⟨info.modTime, rfl⟩
  · exact ⟨0, rfl⟩

/-- What is sent on any way decodes to the content. -/
theorem exists_file (hforms : Forms f env p C) (htemp : TempFiles env)
    (hroute : route f r p = some rt) : ∃ file data, rt.file f env p = .ok file ∧
      file.seeker = true ∧ file.stat.isOk = true ∧ file.reader = ⟨data, none⟩ ∧
        DecodesUnder env (Route.header rt) data C := by
  have hexists := (route_eq_some hroute).1
  cases rt with
  | brotli =>
    obtain ⟨file, data, hopen, -, h⟩ := hforms.brotli hexists
    exact ⟨file, data, hopen, h⟩
  | gzip =>
    obtain ⟨file, data, hopen, -, h⟩ := hforms.gzip hexists
    exact ⟨file, data, hopen, h⟩
  | plain =>
    obtain ⟨file, data, hopen, -, h⟩ := hforms.plain hexists
    exact ⟨file, data, hopen, h⟩
  | unpackBrotli =>
    obtain ⟨src, data, hopen, -, -, -, hreader, hdecode⟩ := hforms.brotli hexists
    have hC : env.brotli src.reader = ⟨C, none⟩ := hreader ▸ hdecode
    refine ⟨⟨false, env.statTemp, true, ⟨C, none⟩⟩, C, ?_, rfl, htemp.stat, rfl, rfl⟩
    rw [Route.file, unpack_eq_ok, ← hC]
    exact ⟨htemp.created, src, _, hopen, rfl, congrArg Reader.err hC, htemp.written _, rfl⟩
  | unpackGzip =>
    obtain ⟨src, data, hopen, -, -, -, hreader, hdecode⟩ := hforms.gzip hexists
    have hC : env.gzip src.reader = .ok ⟨C, none⟩ := hreader ▸ hdecode
    refine ⟨⟨false, env.statTemp, true, ⟨C, none⟩⟩, C, ?_, rfl, htemp.stat, rfl, rfl⟩
    rw [Route.file, unpack_eq_ok]
    exact ⟨htemp.created, src, ⟨C, none⟩, hopen, hC, rfl, htemp.written C, rfl⟩

theorem get_typesHeader (name : Path) (coding : String) (header : Header) :
    (typesHeader env name coding header).get "Content-Encoding" =
      if coding ≠ "" then some [coding] else header.get "Content-Encoding" := by
  unfold typesHeader
  dsimp only
  split
  · exact get_setHeader (by decide)
  · split
    · exact get_setHeader_of_ne (by decide)
    · rfl

theorem coding_ready (hnone : s.exchange.server.header.get "Content-Encoding" = none) :
    (serving env file (rt.ready env p s)).exchange.server.header.get "Content-Encoding" =
      Route.header rt := by
  have hready : (rt.ready env p s).exchange.server.header.get "Content-Encoding" =
      Route.header rt := by
    rw [Route.ready]
    split
    · refine (get_typesHeader p rt.coding _).trans ?_
      rw [Route.header, hnone]
      by_cases hcoding : rt.coding = "" <;> simp [hcoding]
    · next hdirect =>
      have hcoding : rt.coding = "" := by
        cases rt with
        | unpackBrotli | unpackGzip => rfl
        | brotli | gzip | plain => exact absurd trivial hdirect
      rw [Route.header, if_pos hcoding, unpacking]
      split
      · exact hnone
      · exact hnone
  exact (get_cached (by decide) _).trans hready

theorem length_ready (hnone : s.exchange.server.header.get "Content-Length" = none) :
    (serving env file (rt.ready env p s)).exchange.server.header.get "Content-Length" = none := by
  refine (get_cached (by decide) _).trans ?_
  rw [Route.ready]
  split
  · have htypes : ∀ header : Header, (typesHeader env p rt.coding header).get "Content-Length" =
        header.get "Content-Length" := by
      intro header
      unfold typesHeader
      dsimp only
      split
      · refine (get_setHeader_of_ne (by decide)).trans ?_
        split
        · exact get_setHeader_of_ne (by decide)
        · rfl
      · split
        · exact get_setHeader_of_ne (by decide)
        · rfl
    exact (htypes _).trans hnone
  · rw [unpacking]
    split
    · exact hnone
    · exact hnone

theorem sent_serving (env : Env ε) (file : File) (s : Serving ε) :
    (serving env file s).exchange.server.sent = s.exchange.server.sent ∧
      (serving env file s).exchange.server.body = s.exchange.server.body := by
  rw [serving, cached]
  split
  · exact ⟨rfl, rfl⟩
  · exact ⟨rfl, rfl⟩

/-- A response that has been sent carries the content. -/
def Transparent (env : Env ε) (r : FileRequest) (C : Bytes) (server : ServerWriter) : Prop :=
  ∃ header, server.sent = some (200, header) ∧
    DecodesUnder env (header.get "Content-Encoding") server.body C ∧
      ∀ coding, header.get "Content-Encoding" = some [coding] → Listed r coding

/-- A file is found when one of its forms exists, and the response carries its content. -/
theorem negotiation_transparent (hresolve : f.resolve r env.strs = .ok (some p))
    (hP : env.fileProcessors.get (ext p) = none) (hforms : Forms f env p C) (htemp : TempFiles env)
    (hwhole : SendsWhole env r) (hsent : s.exchange.server.sent = none)
    (hbody : s.exchange.server.body = [])
    (hcoding : s.exchange.server.header.get "Content-Encoding" = none)
    (hlength : s.exchange.server.header.get "Content-Length" = none) :
    ∃ found t, outcome (f.serveStaticFile env .server r) s = (.ok found, t) ∧
      (found = true ↔ f.pathExists p = true ∨ f.pathExists (p ++ brotliSuffix) = true ∨
        f.pathExists (p ++ gzipSuffix) = true) ∧
      (found = true → Transparent env r C t.exchange.server) := by
  rw [← route_isSome_iff (r := r)]
  cases hroute : route f r p with
  | none =>
    refine ⟨false, s, ?_, by simp, fun h => by cases h⟩
    rw [serveStaticFile_resolved hresolve, hroute]
    rfl
  | some rt =>
    obtain ⟨file, data, hfile, hseeker, hstat, hreader, hdecodes⟩ := exists_file hforms htemp hroute
    obtain ⟨time, htime⟩ := exists_modTime (f := f) hstat
    have hserving := sent_serving env file (rt.ready env p s)
    have hready : Readied s (rt.ready env p s) := readied_ready
    obtain ⟨header, y, hcontent, hsent', hkept, hbody'⟩ := hwhole p time data
      (serving env file (rt.ready env p s)).exchange (hserving.1.trans (hready.sent.trans hsent))
      (length_ready hlength)
    rw [← hreader] at hcontent
    have hheader : header.get "Content-Encoding" = Route.header rt :=
      hkept.trans (coding_ready hcoding)
    refine ⟨true, { serving env file (rt.ready env p s) with exchange := y }, ?_, by simp,
      fun _ => ⟨header, hsent', ?_, fun coding h => ?_⟩⟩
    · exact outcome_serveStaticFile_content hresolve hroute hP hfile htime hseeker hcontent
    · dsimp only
      rw [hheader, hbody', hserving.2, hready.body, hbody, List.nil_append]
      exact hdecodes
    · rw [hheader, Route.header] at h
      split at h
      · cases h
      · next hne =>
        cases h
        exact listed_of_accepts ((route_eq_some hroute).2 hne)

theorem sendsWhole_testEnv (r : FileRequest) : SendsWhole testEnv r := by
  intro name time data x hsent hlength
  obtain ⟨header, y, hy, hsent', hheader, hbody⟩ := textContent_sends ⟨data, none⟩ x hsent
  exact ⟨header, y, hy, hsent', hheader.coding, hbody hlength⟩

theorem forms_threeForms : Forms ⟨threeForms, false, true, []⟩ testEnv (bytes "test1.txt")
    (bytes "test") where
  plain _ := ⟨_, bytes "test", rfl, rfl, rfl, rfl, rfl, rfl⟩
  brotli _ := ⟨_, testBr, rfl, rfl, rfl, rfl, rfl, rfl⟩
  gzip _ := ⟨_, testGz, rfl, rfl, rfl, rfl, rfl, rfl⟩

theorem negotiation_transparent_threeForms : ∃ found t,
    outcome (FileSystemServer.serveStaticFile ⟨threeForms, false, true, []⟩ testEnv .server
      (testRequest "/test1.txt" (some ["deflate, gzip"]))) freshServing = (.ok found, t) ∧
      (found = true ↔
        FileSystemServer.pathExists ⟨threeForms, false, true, []⟩ (bytes "test1.txt") = true ∨
        FileSystemServer.pathExists ⟨threeForms, false, true, []⟩
          (bytes "test1.txt" ++ brotliSuffix) = true ∨
        FileSystemServer.pathExists ⟨threeForms, false, true, []⟩
          (bytes "test1.txt" ++ gzipSuffix) = true) ∧
      (found = true → Transparent testEnv (testRequest "/test1.txt" (some ["deflate, gzip"]))
        (bytes "test") t.exchange.server) :=
  negotiation_transparent rfl (GoMap.get_empty _) forms_threeForms ⟨rfl, fun _ => rfl, rfl⟩
    (sendsWhole_testEnv _) rfl rfl rfl rfl

/-- `http.ServeContent` keeps a type that is set, and sets the one it guesses if there is none. -/
def KeepsType (env : Env ε) (r : FileRequest) (guess : Path → Reader → String) : Prop :=
  ∀ name time reader (x : Exchange ε), x.server.sent = none → ∃ code header y,
    outcome (env.serveContent .server r name time reader) x = (.ok ⟨⟩, y) ∧
      y.server.sent = some (code, header) ∧
        header.get "Content-Type" = if x.server.header.has "Content-Type" then
          x.server.header.get "Content-Type" else some [guess name reader]

/-- A file is found and sent with this type. -/
def SentAs (f : FileSystemServer) (env : Env ε) (r : FileRequest) (s : Serving ε) (c : String) :
    Prop :=
  ∃ t code header, outcome (f.serveStaticFile env .server r) s = (.ok true, t) ∧
    t.exchange.server.sent = some (code, header) ∧ header.get "Content-Type" = some [c]

/-- There is a file for `http.ServeContent`. -/
structure Sendable (f : FileSystemServer) (env : Env ε) (p : Path) (rt : Route) (file : File) :
    Prop where
  found : rt.file f env p = .ok file
  timed : ∃ time, f.modTime file = .ok time
  seekable : file.seeker = true

/-- The type that a response has in the end, when `header` has been set before. -/
def finalType (guess : Path → Reader → String) (p : Path) (file : File) (header : Header) :
    Option (List String) :=
  if header.has "Content-Type" then header.get "Content-Type" else some [guess p file.reader]

/-- The registered type is set, or it is the one that is sent anyway. -/
def TypeApplies (s : Serving ε) (guess : Path → Reader → String) (p : Path) (c : String)
    (rt : Route) (file : File) : Prop :=
  rt.Direct ∧ c ≠ "" ∨ finalType guess p file s.exchange.server.header = some [c]

theorem finalType_congr {guess : Path → Reader → String} {header header' : Header}
    (h : header.get "Content-Type" = header'.get "Content-Type") :
    finalType guess p file header = finalType guess p file header' := by
  rw [finalType, finalType, GoMap.has, GoMap.has, h]

theorem finalType_set {guess : Path → Reader → String} {header : Header} {c : String}
    (h : header.get "Content-Type" = some [c]) : finalType guess p file header = some [c] := by
  rw [finalType, GoMap.has, h]
  rfl

/-- The type with which the file is given to `http.ServeContent`. -/
theorem type_ready {c : String} (hc : env.contentTypes.get (ext p) = some c) :
    (serving env file (rt.ready env p s)).exchange.server.header.get "Content-Type" =
      if rt.Direct ∧ c ≠ "" then some [c] else s.exchange.server.header.get "Content-Type" := by
  have htypes : ∀ (header : Header) coding, (typesHeader env p coding header).get "Content-Type" =
      if c ≠ "" then some [c] else header.get "Content-Type" := by
    intro header coding
    rw [typesHeader, hc]
    dsimp only [Option.getD_some]
    have hset : (if c ≠ "" then setHeader header "Content-Type" c else header).get "Content-Type" =
        if c ≠ "" then some [c] else header.get "Content-Type" := by
      split
      · exact get_setHeader (by decide)
      · rfl
    split
    · exact (get_setHeader_of_ne (by decide)).trans hset
    · exact hset
  refine (get_cached (by decide) _).trans ?_
  rw [Route.ready]
  by_cases hdirect : rt.Direct
  · simp only [hdirect, if_true, true_and]
    exact htypes _ _
  · simp only [hdirect, if_false, false_and]
    rw [unpacking]
    split
    · rfl
    · rfl

theorem not_found_of_error {err : String} (hroute : route f r p = some rt)
    (hresolve : f.resolve r env.strs = .ok (some p)) {u : Serving ε}
    (hserve : outcome (rt.serve f env .server r p) s = (.ok (some err), u)) :
    outcome (f.serveStaticFile env .server r) s ≠ (.ok true, t) := by
  rw [serveStaticFile_route hresolve hroute, outcome_bind_ok hserve]
  intro hfound
  by_cases hplain : rt = .plain
  · rw [hplain, outcome_finish_plain] at hfound
    cases hfound
  · obtain ⟨record, hfinish⟩ := outcome_finish_error p err u hplain
    rw [hfinish] at hfound
    cases hlogger : u.exchange.logger with
    | none =>
      rw [hlogger] at hfound
      cases hfound
    | some records =>
      rw [hlogger] at hfound
      cases hfound

/-- A file that has been found was there to be sent. -/
theorem sendable_of_found (hresolve : f.resolve r env.strs = .ok (some p))
    (hP : env.fileProcessors.get (ext p) = none)
    (hfound : outcome (f.serveStaticFile env .server r) s = (.ok true, t)) :
    ∃ rt file, route f r p = some rt ∧ Sendable f env p rt file := by
  cases hroute : route f r p with
  | none =>
    rw [serveStaticFile_resolved hresolve, hroute] at hfound
    cases hfound
  | some rt =>
    cases hfile : rt.file f env p with
    | error err =>
      exact absurd hfound (not_found_of_error hroute hresolve (outcome_serve_error hfile))
    | ok file =>
      cases htime : f.modTime file with
      | error err =>
        exact absurd hfound (not_found_of_error hroute hresolve
          ((outcome_serve hP hfile).trans (outcome_serveFile_error htime)))
      | ok time =>
        cases hseeker : file.seeker with
        | true => exact ⟨rt, file, rfl, hfile, ⟨time, htime⟩, hseeker⟩
        | false =>
          have hserve := outcome_serve (w := .server) (r := r) (s := s) hP hfile
          rw [outcome_serveFile htime, hseeker, if_neg Bool.false_ne_true] at hserve
          rw [serveStaticFile_route hresolve hroute, outcome_bind_error hserve] at hfound
          cases hfound

theorem found_of_sendable {guess : Path → Reader → String}
    (hresolve : f.resolve r env.strs = .ok (some p)) (hP : env.fileProcessors.get (ext p) = none)
    (htype : KeepsType env r guess) (hsent : s.exchange.server.sent = none)
    (hroute : route f r p = some rt) (hsend : Sendable f env p rt file) : ∃ t code header,
      outcome (f.serveStaticFile env .server r) s = (.ok true, t) ∧
        t.exchange.server.sent = some (code, header) ∧ header.get "Content-Type" =
          finalType guess p file (serving env file (rt.ready env p s)).exchange.server.header := by
  obtain ⟨time, htime⟩ := hsend.timed
  have hserving := sent_serving env file (rt.ready env p s)
  have hready : Readied s (rt.ready env p s) := readied_ready
  obtain ⟨code, header, y, hcontent, hsent', htype'⟩ := htype p time file.reader
    (serving env file (rt.ready env p s)).exchange (hserving.1.trans (hready.sent.trans hsent))
  exact ⟨{ serving env file (rt.ready env p s) with exchange := y }, code, header,
    outcome_serveStaticFile_content hresolve hroute hP hsend.found htime hsend.seekable hcontent,
    hsent', htype'⟩

/-- A file is sent with the registered type under these conditions and no others. -/
theorem sentAs_iff {c : String} {guess : Path → Reader → String}
    (hresolve : f.resolve r env.strs = .ok (some p)) (hP : env.fileProcessors.get (ext p) = none)
    (hc : env.contentTypes.get (ext p) = some c) (htype : KeepsType env r guess)
    (hsent : s.exchange.server.sent = none) :
    SentAs f env r s c ↔ ∃ rt file, route f r p = some rt ∧ Sendable f env p rt file ∧
      TypeApplies s guess p c rt file := by
  have happlies : ∀ rt file, finalType guess p file
      (serving env file (rt.ready env p s)).exchange.server.header = some [c] ↔
        TypeApplies s guess p c rt file := by
    intro rt file
    have hready : (serving env file (rt.ready env p s)).exchange.server.header.get "Content-Type" =
        if rt.Direct ∧ c ≠ "" then some [c] else s.exchange.server.header.get "Content-Type" :=
      type_ready hc
    rw [TypeApplies]
    by_cases hdirect : rt.Direct ∧ c ≠ ""
    · rw [if_pos hdirect] at hready
      exact iff_of_true (finalType_set hready) (.inl hdirect)
    · rw [if_neg hdirect] at hready
      rw [finalType_congr hready, or_iff_right hdirect]
  constructor
  · rintro ⟨t, code, header, hfound, hsent', hheader⟩
    obtain ⟨rt, file, hroute, hsend⟩ := sendable_of_found hresolve hP hfound
    obtain ⟨t', code', header', hfound', hsent'', hheader'⟩ :=
      found_of_sendable hresolve hP htype hsent hroute hsend
    cases hfound.symm.trans hfound'
    cases hsent'.symm.trans hsent''
    exact ⟨rt, file, hroute, hsend, (happlies rt file).mp (hheader'.symm.trans hheader)⟩
  · rintro ⟨rt, file, hroute, hsend, h⟩
    obtain ⟨t, code, header, hfound, hsent', hheader⟩ :=
      found_of_sendable hresolve hP htype hsent hroute hsend
    exact ⟨t, code, header, hfound, hsent', hheader.trans ((happlies rt file).mpr h)⟩

theorem keepsType_testEnv (env : Env Unit) (r : FileRequest)
    (henv : env.serveContent = testEnv.serveContent) :
    KeepsType env r fun _ _ => "text/plain; charset=utf-8" := by
  intro name time reader x hsent
  obtain ⟨header, y, hy, hsent', hheader, -⟩ := textContent_sends reader x hsent
  rw [henv]
  exact ⟨200, header, y, hy, hsent', hheader.type⟩

/-- Text files are to be served as a type of their own. -/
def typedEnv : Env Unit := testEnv.registerContentType (bytes ".txt") "text/x-notes"

theorem sentAs_iff_threeForms : SentAs ⟨threeForms, false, true, []⟩ typedEnv
    (testRequest "/test1.txt" (some ["br"])) freshServing "text/x-notes" :=
  (sentAs_iff rfl (GoMap.get_empty _) (by decide) (keepsType_testEnv typedEnv _ rfl) rfl).mpr
    ⟨.brotli, _, rfl, ⟨rfl, ⟨0, rfl⟩, rfl⟩, .inl ⟨trivial, by decide⟩⟩

/-- A text file of which only the brotli form is stored. -/
def brotliOnly : FileSystem := mapFS [(bytes "test1.txt.br", testBr)]

/-- For a client without brotli it is sent as plain text. -/
theorem brotliOnly_type : ¬SentAs ⟨brotliOnly, false, true, []⟩ typedEnv
    (testRequest "/test1.txt" none) freshServing "text/x-notes" := by
  rintro ⟨t, code, header, hfound, hsent, hheader⟩
  have hplain : ((outcome (FileSystemServer.serveStaticFile ⟨brotliOnly, false, true, []⟩ typedEnv
      .server (testRequest "/test1.txt" none)) freshServing).2.exchange.server.sent.map fun sent =>
        sent.2.get "Content-Type") = some (some ["text/plain; charset=utf-8"]) := by decide
  rw [hfound, hsent, Option.map_some, hheader] at hplain
  revert hplain
  decide

end GoraddServe.ContentNegotiation
