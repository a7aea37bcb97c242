import GoraddServe.ErrorResponses
import GoraddServe.FileRoutes

/-!
# What a request for a file comes to

A request ends with the content of one file or with a 404, as long as the path has a slash where
the checksum is looked for, no directory stands where a file is expected, and errors are logged
and do not come from a file that is sent as it is.
-/
namespace GoraddServe.FileServing
open GoMaps GoPaths Panics ResponseWriters CacheBuster StaticFiles FileRoutes
open ErrorResponses (Got given_writeHeader)

variable {ε : Type} {f : FileSystemServer} {env : Env ε} {w : Writer} {r : FileRequest} {p : Path}
  {s t : Serving ε} {rt : Route} {file : File} {err : String} {panic : PanicValue}

theorem serveHTTP_error (h : outcome (f.serveStaticFile env w r) s = (.error panic, t)) :
    outcome (f.serveHTTP env w r) s = (.error panic, t) := outcome_bind_error h

theorem serveHTTP_found (h : outcome (f.serveStaticFile env w r) s = (.ok true, t)) :
    outcome (f.serveHTTP env w r) s = (.ok ⟨⟩, t) := outcome_bind_ok h

theorem serveHTTP_notFound (h : outcome (f.serveStaticFile env w r) s = (.ok false, t)) :
    outcome (f.serveHTTP env w r) s = outcome (onExchange (notFound w)) t := outcome_bind_ok h

theorem outcome_notFound (x : Exchange ε) : ∃ header y,
    outcome (notFound .server) x = (.ok ⟨⟩, y) ∧
      Got x header 404 [bytes "404 page not found\n"] y := by
  obtain ⟨t, hheader, hgiven, -⟩ := given_writeHeader (x := { x with
    server.header := setHeader (setHeader (x.server.header.delete "Content-Length") "Content-Type"
      "text/plain; charset=utf-8") "X-Content-Type-Options" "nosniff" })
    (.inr (.inr ⟨show (200 : Int) ≤ 404 by decide, by decide⟩))
  obtain ⟨result, y, hwrite, hy⟩ := hgiven.write (bytes "404 page not found\n")
  refine ⟨_, y, ?_, hy.calls, hy.sent, hy.body⟩
  rw [notFound, outcome_bind_ok (outcome_modify _), Writer.setHeader,
    outcome_bind_ok (outcome_modify _), Writer.setHeader, outcome_bind_ok (outcome_modify _),
    outcome_bind_ok hheader, outcome_bind_ok hwrite]
  rfl

theorem notFound_sent {x : Exchange ε} (hsent : x.server.sent = none) : ∃ header y,
    outcome (notFound .server) x = (.ok ⟨⟩, y) ∧ y.server.sent = some (404, header) := by
  obtain ⟨header, y, hy, hgot⟩ := outcome_notFound x
  exact ⟨header, y, hy, hgot.sent.trans (by rw [hsent]; rfl)⟩

/-- The request has been answered by the content of a regular file, or by a 404. -/
def Answered (f : FileSystemServer) (env : Env ε) (s : Serving ε)
    (result : Except PanicValue Unit × Serving ε) : Prop :=
  result.1 = .ok ⟨⟩ ∧
    ((∃ name src file, result.2.opened = s.opened ++ [name] ∧ f.Fsys.Open name = .ok src ∧
        src.isDir = false ∧ ContentOf env src file ∧ result.2.served = s.served ++ [file]) ∨
      result.2.served = s.served ∧ ∃ header, result.2.exchange.server.sent = some (404, header))

/-- The way leads to a regular file, or to an error that is logged. -/
def RouteServes (f : FileSystemServer) (env : Env ε) (s : Serving ε) (p : Path) (rt : Route) :
    Prop :=
  match rt.file f env p >>= f.modTime with
  | .error _ => rt ≠ .plain ∧ s.exchange.logger.isSome = true
  | .ok _ => ∃ src, f.Fsys.Open (rt.path p) = .ok src ∧ src.isDir = false

/-- An error is answered by a 404 when it can be logged. -/
theorem answered_error_iff (hresolve : f.resolve r env.strs = .ok (some p))
    (hroute : route f r p = some rt)
    (hserve : outcome (rt.serve f env .server r p) s = (.ok (some err), t))
    (ht : Readied s t) (hsent : s.exchange.server.sent = none) :
    Answered f env s (outcome (f.serveHTTP env .server r) s) ↔
      rt ≠ .plain ∧ s.exchange.logger.isSome = true := by
  have hstatic : outcome (f.serveStaticFile env .server r) s =
      outcome (rt.finish p (some err)) t := by
    rw [serveStaticFile_route hresolve hroute, outcome_bind_ok hserve]
  by_cases hplain : rt = .plain
  · rw [hplain, outcome_finish_plain] at hstatic
    rw [serveHTTP_error hstatic]
    exact iff_of_false (fun h => by cases h.1) fun h => h.1 hplain
  obtain ⟨record, hfinish⟩ := outcome_finish_error p err t hplain
  rw [hfinish, ht.logger] at hstatic
  cases hlogger : s.exchange.logger with
  | none =>
    rw [hlogger] at hstatic
    rw [serveHTTP_error hstatic]
    exact iff_of_false (fun h => by cases h.1) fun h => by cases h.2
  | some records =>
    rw [hlogger] at hstatic
    obtain ⟨header, y, hnotFound, hsent'⟩ := notFound_sent
      (x := { t.exchange with logger := some (records ++ [record]) }) (ht.sent.trans hsent)
    rw [serveHTTP_notFound hstatic, outcome_onExchange]
    dsimp only
    rw [hnotFound]
    exact iff_of_true ⟨rfl, .inr ⟨ht.served, header, hsent'⟩⟩ ⟨hplain, rfl⟩

/-- Regular files are `io.ReadSeeker`s. -/
def RegularSeekers (fsys : FileSystem) : Prop :=
  ∀ name file, fsys.Open name = .ok file → file.isDir = false → file.seeker = true

/-- `http.ServeContent` returns. -/
def ContentReturns (env : Env ε) (w : Writer) (r : FileRequest) : Prop :=
  ∀ name time reader x, ∃ y, outcome (env.serveContent w r name time reader) x = (.ok ⟨⟩, y)

/-- A file is served when it is not a directory. -/
theorem answered_file_iff (hresolve : f.resolve r env.strs = .ok (some p))
    (hroute : route f r p = some rt) (hP : env.fileProcessors.get (ext p) = none) {time : Time}
    (hfile : rt.file f env p = .ok file) (htime : f.modTime file = .ok time)
    (hseek : RegularSeekers f.Fsys) (hcontent : ContentReturns env .server r) :
    Answered f env s (outcome (f.serveHTTP env .server r) s) ↔
      ∃ src, f.Fsys.Open (rt.path p) = .ok src ∧ src.isDir = false := by
  obtain ⟨src, hopen, hnames, hcontent', hsource⟩ := exists_source hfile
  have hserve := outcome_serve (w := .server) (r := r) (s := s) hP hfile
  have hopened : (outcome (f.serveStaticFile env .server r) s).2.opened =
      s.opened ++ opens f env r := opened_serveStaticFile
  rw [outcome_serveFile htime] at hserve
  cases hseeker : file.seeker with
  | false =>
    obtain ⟨t, hstatic⟩ : ∃ t, outcome (f.serveStaticFile env .server r) s =
        (.error notSeeker, t) := by
      rw [hseeker, if_neg Bool.false_ne_true] at hserve
      rw [serveStaticFile_route hresolve hroute]
      exact ⟨_, outcome_bind_error hserve⟩
    rw [serveHTTP_error hstatic]
    refine iff_of_false (fun h => by cases h.1) ?_
    rintro ⟨src', hopen', hregular⟩
    cases hopen.symm.trans hopen'
    rcases hsource with rfl | hseeker'
    · rw [hseek _ _ hopen hregular] at hseeker
      cases hseeker
    · rw [hseeker'] at hseeker
      cases hseeker
  | true =>
    obtain ⟨y, hy⟩ := hcontent p time file.reader (serving env file (rt.ready env p s)).exchange
    have hstatic : outcome (f.serveStaticFile env .server r) s =
        (.ok true, { serving env file (rt.ready env p s) with exchange := y }) :=
      outcome_serveStaticFile_content hresolve hroute hP hfile htime hseeker hy
    rw [hstatic, opens, hresolve] at hopened
    dsimp only at hopened
    rw [hroute, Option.map_some, Option.getD_some, hnames] at hopened
    have hserved : (rt.ready env p s).served ++ [file] = s.served ++ [file] := by
      rw [readied_ready.served]
    rw [serveHTTP_found hstatic]
    constructor
    · rintro ⟨-, ⟨name, src', file', hname, hsrc, hregular, -, -⟩ | ⟨hnone, -⟩⟩
      · have hpath : rt.path p = name :=
          List.singleton_injective (List.append_cancel_left (hopened.symm.trans hname))
        exact ⟨src', hpath ▸ hsrc, hregular⟩
      · exact absurd (hserved.symm.trans hnone) (by simp)
    · rintro ⟨src', hopen', hregular⟩
      cases hopen.symm.trans hopen'
      exact ⟨rfl, .inl ⟨rt.path p, src, file, hopened, hopen, hregular, hcontent', hserved⟩⟩

theorem slash_of_resolve {name : Option Path} (hresolve : f.resolve r env.strs = .ok name)
    (huse : f.UseCacheBuster = true) : slash ∈ r.path := by
  by_contra hslash
  cases hresolve.symm.trans (resolve_eq_error.mpr ⟨⟨huse, hslash⟩, rfl⟩)

/-- A request is answered by a regular file or by a 404 under these conditions and no others. -/
theorem answered_iff (hP : ∀ p, f.resolve r env.strs = .ok (some p) →
      env.fileProcessors.get (ext p) = none)
    (hseek : RegularSeekers f.Fsys) (hcontent : ContentReturns env .server r)
    (hsent : s.exchange.server.sent = none) :
    Answered f env s (outcome (f.serveHTTP env .server r) s) ↔
      (f.UseCacheBuster = true → slash ∈ r.path) ∧
        ∀ p, f.resolve r env.strs = .ok (some p) → ∀ rt, route f r p = some rt →
          RouteServes f env s p rt := by
  obtain ⟨panic, hresolve, hstatic⟩ | ⟨name, hresolve, hroute, hstatic⟩ |
    ⟨p, rt, hresolve, hroute⟩ := serveStaticFile_cases f env .server r s
  · have hslash := (resolve_eq_error.mp hresolve).1
    rw [serveHTTP_error hstatic]
    exact iff_of_false (fun h => by cases h.1) fun h => hslash.2 (h.1 hslash.1)
  · obtain ⟨header, y, hy, hsent'⟩ := notFound_sent hsent
    rw [serveHTTP_notFound hstatic, outcome_onExchange, hy]
    refine iff_of_true ⟨rfl, .inr ⟨rfl, header, hsent'⟩⟩ ⟨slash_of_resolve hresolve, ?_⟩
    intro p hp rt hrt
    cases hresolve.symm.trans hp
    cases (hroute p rfl).symm.trans hrt
  · rw [and_iff_right (slash_of_resolve hresolve)]
    simp only [hresolve, hroute, Except.ok.injEq, Option.some.injEq, forall_eq', RouteServes]
    cases hfile : rt.file f env p with
    | error err =>
      exact answered_error_iff hresolve hroute (outcome_serve_error hfile) readied_failed hsent
    | ok file =>
      dsimp only [bind, Except.bind]
      cases htime : f.modTime file with
      | error err =>
        exact answered_error_iff hresolve hroute ((outcome_serve (hP p hresolve) hfile).trans
          (outcome_serveFile_error htime)) readied_ready hsent
      | ok time =>
        exact answered_file_iff hresolve hroute (hP p hresolve) hfile htime hseek hcontent

theorem regularSeekers_mapFS (files : List (Path × Bytes)) : RegularSeekers (mapFS files) := by
  intro name file hopen hregular
  unfold mapFS at hopen
  dsimp only at hopen
  split at hopen
  · cases hopen
    rfl
  · split at hopen
    · cases hopen
      cases hregular
    · cases hopen

/-- The decimal form of a length is read back, unless it is out of range. -/
theorem parseInt_toString (n : ℕ) :
    parseInt (toString n) = (some (n : Int)).filter (· < 2 ^ 63) := by
  have hdigits : ∀ c ∈ (toString n).toList, c.isDigit = true := fun c hc =>
    Nat.isDigit_of_mem_toDigits (by decide) (by decide) (Nat.toList_repr ▸ hc)
  have hne : (toString n).toList ≠ [] := by
    intro h
    exact Nat.toDigits_ne_nil (Nat.toList_repr ▸ h)
  have hvalue : Nat.ofDigitChars 10 (toString n).toList 0 = n := by
    rw [show (toString n).toList = Nat.toDigits 10 n from Nat.toList_repr]
    exact Nat.ofDigitChars_ten_toDigits
  have hparse : parseDigits (toString n).toList = some n := by
    rw [parseDigits, if_pos ⟨hne, List.all_eq_true.mpr hdigits⟩, hvalue]
  rw [parseInt]
  generalize (toString n).toList = l at hdigits hparse
  split
  · next digits => exact absurd (hdigits '-' List.mem_cons_self) (by decide)
  · next digits => exact absurd (hdigits '+' List.mem_cons_self) (by decide)
  · rw [hparse]
    rfl

theorem fits_toString {header : Header} {b : Bytes}
    (hlength : header.get "Content-Length" = none ∨
      header.get "Content-Length" = some [toString b.length]) : Fits (contentLength header) b := by
  intro n hn
  rcases hlength with hlength | hlength
  · rw [contentLength, hlength] at hn
    cases hn
  · rw [contentLength, hlength] at hn
    dsimp only at hn
    rw [parseInt_toString, Option.mem_def, Option.filter_eq_some_iff,
      Option.filter_eq_some_iff] at hn
    obtain rfl : (b.length : Int) = n := Option.some.inj hn.1.1
    exact le_refl _

/-- The headers for a text: its length is declared, unless there is a coding. -/
structure TextHeaders (reader : Reader) (before header : Header) : Prop where
  coding : header.get "Content-Encoding" = before.get "Content-Encoding"
  type : header.get "Content-Type" = if before.has "Content-Type" then
    before.get "Content-Type" else some ["text/plain; charset=utf-8"]
  length : header.get "Content-Length" = before.get "Content-Length" ∨
    header.get "Content-Length" = some [toString reader.data.length]

theorem outcome_textHeaders (reader : Reader) (x : Exchange Unit) : ∃ header,
    outcome (textHeaders .server reader) x = (.ok ⟨⟩, { x with server.header := header }) ∧
      TextHeaders reader x.server.header header := by
  have hlength : ∀ y : Exchange Unit, ∃ header,
      outcome (do
        Writer.server.setHeader "Accept-Ranges" "bytes"
        if !(← get).server.header.has "Content-Encoding" then
          Writer.server.setHeader "Content-Length" (toString reader.data.length)) y =
        (.ok ⟨⟩, { y with server.header := header }) ∧
      header.get "Content-Encoding" = y.server.header.get "Content-Encoding" ∧
      header.get "Content-Type" = y.server.header.get "Content-Type" ∧
      (header.get "Content-Length" = y.server.header.get "Content-Length" ∨
        header.get "Content-Length" = some [toString reader.data.length]) := by
    intro y
    have hranges : ∀ key, key ≠ "Accept-Ranges" →
        (setHeader y.server.header "Accept-Ranges" "bytes").get key = y.server.header.get key :=
      fun key hkey => get_setHeader_of_ne fun h => hkey (h.trans (by decide))
    rw [Writer.setHeader, outcome_bind_ok (outcome_modify _), outcome_bind_ok outcome_get]
    split
    · refine ⟨_, rfl, ?_, ?_, .inr (get_setHeader (by decide))⟩
      · exact (get_setHeader_of_ne (by decide)).trans (hranges _ (by decide))
      · exact (get_setHeader_of_ne (by decide)).trans (hranges _ (by decide))
    · exact ⟨_, rfl, hranges _ (by decide), hranges _ (by decide), .inl (hranges _ (by decide))⟩
  rw [textHeaders, outcome_bind_ok outcome_get]
  cases htype : x.server.header.has "Content-Type" with
  | true =>
    obtain ⟨header, hheader, hcoding, htype', hlength'⟩ := hlength x
    exact ⟨header, hheader, hcoding, by rw [htype', if_pos htype], hlength'⟩
  | false =>
    obtain ⟨header, hheader, hcoding, htype', hlength'⟩ := hlength { x with
      server.header := setHeader x.server.header "Content-Type" "text/plain; charset=utf-8" }
    refine ⟨header, (outcome_bind_ok (outcome_modify _)).trans hheader, hcoding.trans ?_,
      htype'.trans ?_, hlength'.imp_left fun h => h.trans ?_⟩
    · exact get_setHeader_of_ne (by decide)
    · rw [htype]
      exact get_setHeader (by decide)
    · exact get_setHeader_of_ne (by decide)

/-- A text is sent whole when no other length has been declared. -/
theorem textContent_sends (reader : Reader) (x : Exchange Unit) (hsent : x.server.sent = none) :
    ∃ header y, outcome (textContent .server reader) x = (.ok ⟨⟩, y) ∧
      y.server.sent = some (200, header) ∧ TextHeaders reader x.server.header header ∧
      (x.server.header.get "Content-Length" = none →
        y.server.body = x.server.body ++ reader.data) := by
  obtain ⟨header, hheaders, hheader⟩ := outcome_textHeaders reader x
  have hcode : ErrorResponses.Final 200 := .inr ⟨le_refl _, by decide⟩
  obtain ⟨t, hfinal, hgiven, -⟩ :=
    given_writeHeader (x := { x with server.header := header }) (.inr hcode)
  obtain ⟨result, y, hwrite, hgot⟩ := hgiven.write reader.data
  refine ⟨header, y, ?_, hgot.sent.trans (by rw [hsent]; rfl), hheader, fun hnone => ?_⟩
  · rw [textContent, outcome_bind_ok hheaders, outcome_bind_ok hfinal, outcome_bind_ok hwrite]
    rfl
  have hroom : ErrorResponses.roomFor { x with server.header := header } header =
    contentLength header := if_neg (by simp [hsent])
  have hstatus : ErrorResponses.statusFor { x with server.header := header } 200 = 200 := by
    rw [ErrorResponses.statusFor, hsent]
    rfl
  have htakes : takes 200 (contentLength header) reader.data = true :=
    takes_iff.mpr ⟨rfl, fits_toString (hnone ▸ hheader.length)⟩
  rw [hgot.body, hroom, hstatus, List.flatten_singleton, taken, if_pos htakes]

theorem contentReturns_testEnv (r : FileRequest) : ContentReturns testEnv .server r := by
  intro name time reader x
  obtain ⟨header, hheaders, -⟩ := outcome_textHeaders reader x
  obtain ⟨t, hheader, -⟩ := given_writeHeader (x := { x with server.header := header })
    (.inr (.inr ⟨le_refl (200 : Int), by decide⟩))
  obtain ⟨result, y, hwrite, -⟩ := BufferedCalls.server_write t reader.data
  refine ⟨y, ?_⟩
  have hcontent : outcome (textContent .server reader) x = (.ok ⟨⟩, y) := by
    rw [textContent, outcome_bind_ok hheaders, outcome_bind_ok hheader, outcome_bind_ok hwrite]
    rfl
  exact hcontent

def threeForms : FileSystem :=
  mapFS [(bytes "test1.txt", bytes "test"), (bytes "test1.txt.br", testBr),
    (bytes "test1.txt.gz", testGz)]

theorem answered_iff_threeForms : Answered ⟨threeForms, false, true, []⟩ testEnv freshServing
    (outcome (FileSystemServer.serveHTTP ⟨threeForms, false, true, []⟩ testEnv .server
      (testRequest "/gr.0/test1.txt" (some ["gzip, br"]))) freshServing) := by
  refine (answered_iff (fun p _ => GoMap.get_empty (ext p)) (regularSeekers_mapFS _)
    (contentReturns_testEnv _) rfl).mpr ⟨fun _ => by decide, fun p hresolve rt hroute => ?_⟩
  cases hresolve
  cases hroute
  exact ⟨_, rfl, rfl⟩

/-- A name without a slash, which is what `http.StripPrefix` leaves of a URL without a checksum. -/
theorem slashless_panics : ¬Answered ⟨threeForms, false, true, []⟩ testEnv freshServing
    (outcome (FileSystemServer.serveHTTP ⟨threeForms, false, true, []⟩ testEnv .server
      (testRequest "test1.txt" none)) freshServing) := by
  have hpanics : (outcome (FileSystemServer.serveHTTP ⟨threeForms, false, true, []⟩ testEnv .server
      (testRequest "test1.txt" none)) freshServing).1 = .error sliceOutOfRange := by rfl
  intro h
  cases hpanics.symm.trans h.1

end GoraddServe.FileServing
