import GoraddServe.FileRoutes
import Mathlib.Data.List.MinMax

/-!
# The routes of assets

An asset directory is a file system that is registered at a pattern of the muxer, below which the
pattern is stripped again, and whose files are registered with their checksums. A request is
routed by the longest pattern that matches its path.
-/
namespace GoraddServe.AssetRoutes
open GoMaps GoPaths Panics ResponseWriters CacheBuster StaticFiles FileRoutes

variable {ε : Type}

/-- `http.Handler` -/
abbrev ServeHTTP (ε : Type) := Writer → FileRequest → ServeM ε Unit

/-- What is registered at a pattern: `http.StripPrefix(stripped, serv)`, or any other handler. -/
inductive StaticHandler (ε : Type) where
  | asset (stripped : Path) (serv : FileSystemServer)
  | other (h : ServeHTTP ε)

/-- `http.StripPrefix(stripped, h)` -/
def stripPrefix (stripped : Path) (h : ServeHTTP ε) : ServeHTTP ε := fun w r =>
  if stripped = [] then h w r
  else if stripped.isPrefixOf r.path then h w { r with path := r.path.drop stripped.length }
  else onExchange (notFound w)

def StaticHandler.serveHTTP (env : Env ε) : StaticHandler ε → ServeHTTP ε
  | asset stripped serv => stripPrefix stripped fun w r => serv.serveHTTP env w r
  | other h => h

/-- The path that `http.ServeMux` redirects to, if it is another one. -/
def cleanPath (p : Path) : Path :=
  if p = [] then [slash]
  else
    let p := if p.head? = some slash then p else slash :: p
    let np := clean p
    if p.getLast? = some slash ∧ np ≠ [slash] then np ++ [slash] else np

/-- `http.ServeMux` for patterns that are paths; `redirect` is `http.RedirectHandler`. -/
structure ServeMux (ε : Type) where
  patterns : List (Path × StaticHandler ε)
  nodup : (patterns.map Prod.fst).Nodup
  redirect : Path → Writer → FileRequest → HandlerM ε Unit

namespace ServeMux

def registered (mux : ServeMux ε) (pattern : Path) : Bool :=
  (mux.patterns.map Prod.fst).contains pattern

/-- `mux.Handle(pattern, handler)` panics for a pattern that is no path, or not new. A pattern that
is not clean matches nothing. -/
def handle (mux : ServeMux ε) (pattern : Path) (h : StaticHandler ε) :
    Except PanicValue (ServeMux ε) :=
  if slash ∉ pattern then .error (.error "http: invalid pattern")
  else if hnew : pattern ∈ mux.patterns.map Prod.fst then
    .error (.error "http: conflicting patterns")
  else .ok
    { mux with
      patterns := mux.patterns ++ [(pattern, h)]
      nodup := by
        rw [List.map_append, List.nodup_append]
        refine ⟨mux.nodup, List.nodup_singleton _, ?_⟩
        rintro a ha b hb rfl
        have hb : a = pattern := List.mem_singleton.mp hb
        exact hnew (hb ▸ ha) }

/-- A pattern that ends in a slash matches all below it. -/
def Matches (path pattern : Path) : Prop :=
  if pattern.getLast? = some slash then pattern <+: path else pattern = path

instance (path pattern : Path) : Decidable (Matches path pattern) :=
  inferInstanceAs (Decidable (if pattern.getLast? = some slash then _ else _))

def best (mux : ServeMux ε) (path : Path) : Option (Path × StaticHandler ε) :=
  (mux.patterns.filter fun e => decide (Matches path e.1)).argmax fun e => e.1.length

def handler (env : Env ε) (mux : ServeMux ε) (r : FileRequest) : ServeHTTP ε × Path :=
  let path := cleanPath r.path
  if path.getLast? ≠ some slash ∧ mux.registered path = false ∧
      mux.registered (path ++ [slash]) = true then
    (fun w r => onExchange (mux.redirect (path ++ [slash]) w r), path ++ [slash])
  else if path ≠ r.path then
    (fun w r => onExchange (mux.redirect path w r), ((mux.best path).map Prod.fst).getD [])
  else match mux.best path with
    | some e => (e.2.serveHTTP env, e.1)
    | none => (fun w _ => onExchange (notFound w), [])

/-- A pattern that takes requests for a path away from another one. -/
def Takes (pattern path q : Path) : Prop :=
  Matches path q ∧ pattern.length < q.length ∨ q = path ++ [slash]

section Choice

variable {env : Env ε} {mux : ServeMux ε} {r : FileRequest} {h : StaticHandler ε}
  {e : Path × StaticHandler ε} {path pattern q : Path}

theorem Matches.isPrefix (h : Matches path q) : q <+: path := by
  rw [Matches] at h
  split at h
  · exact h
  · exact h ▸ List.prefix_rfl

theorem matches_self (h : path.getLast? ≠ some slash) : Matches path path := by
  rw [Matches, if_neg h]

theorem best_eq_some (h : mux.best path = some e) : e ∈ mux.patterns ∧ Matches path e.1 ∧
    ∀ q ∈ mux.patterns.map Prod.fst, Matches path q → q.length ≤ e.1.length := by
  have hmem := List.mem_filter.mp (List.argmax_mem h)
  refine ⟨hmem.1, of_decide_eq_true hmem.2, fun q hq hmatch => ?_⟩
  obtain ⟨e', he', rfl⟩ := List.mem_map.mp hq
  have hfilter : e' ∈ mux.patterns.filter fun e => decide (Matches path e.1) :=
    List.mem_filter.mpr ⟨he', decide_eq_true hmatch⟩
  exact List.le_of_mem_argmax (f := fun e : Path × StaticHandler ε => e.1.length) hfilter h

theorem best_isSome (hmem : (pattern, h) ∈ mux.patterns) (hmatch : Matches path pattern) :
    ∃ e, mux.best path = some e := by
  refine Option.ne_none_iff_exists'.mp fun hnone => ?_
  have hempty := List.argmax_eq_none.mp hnone
  exact List.not_mem_nil (hempty ▸ List.mem_filter.mpr ⟨hmem, decide_eq_true hmatch⟩)

theorem best_of_longest (hmem : (pattern, h) ∈ mux.patterns) (hmatch : Matches path pattern)
    (hlongest : ∀ q ∈ mux.patterns.map Prod.fst, Matches path q → q.length ≤ pattern.length) :
    mux.best path = some (pattern, h) := by
  obtain ⟨e, he⟩ := best_isSome hmem hmatch
  obtain ⟨hemem, hematch, hebest⟩ := best_eq_some he
  have hlength : e.1.length = pattern.length := by
    apply Nat.le_antisymm
    · exact hlongest e.1 (List.mem_map_of_mem hemem) hematch
    · exact hebest pattern (List.mem_map_of_mem hmem) hmatch
  have hpattern : e.1 = pattern :=
    (List.prefix_of_prefix_length_le hematch.isPrefix hmatch.isPrefix hlength.le).eq_of_length
      hlength
  rw [he, List.inj_on_of_nodup_map mux.nodup hemem hmem hpattern]

theorem registered_iff : mux.registered path = true ↔ path ∈ mux.patterns.map Prod.fst :=
  List.contains_iff_mem

theorem handler_of_longest (hmem : (pattern, h) ∈ mux.patterns) (hclean : cleanPath r.path = r.path)
    (hmatch : Matches r.path pattern)
    (hother : ∀ q ∈ mux.patterns.map Prod.fst, ¬Takes pattern r.path q) :
    mux.handler env r = (h.serveHTTP env, pattern) := by
  have hlongest : ∀ q ∈ mux.patterns.map Prod.fst, Matches r.path q → q.length ≤ pattern.length :=
    fun q hq hq' => Nat.le_of_not_lt fun hlt => hother q hq (.inl ⟨hq', hlt⟩)
  have hslash : mux.registered (r.path ++ [slash]) ≠ true :=
    fun hreg => hother _ (registered_iff.mp hreg) (.inr rfl)
  rw [handler, hclean, best_of_longest hmem hmatch hlongest,
    if_neg fun hredirect => hslash hredirect.2.2, if_neg (not_not.mpr rfl)]

/-- A pattern that gets a request matches it, and no other takes it. -/
theorem longest_of_handler (hclean : cleanPath r.path = r.path)
    (hlast : r.path.getLast? ≠ some slash) (hpattern : (mux.handler env r).2 = pattern)
    (hne : pattern ≠ []) (hpath : pattern ≠ r.path) (hredirect : pattern ≠ r.path ++ [slash]) :
    Matches r.path pattern ∧ ∀ q ∈ mux.patterns.map Prod.fst, ¬Takes pattern r.path q := by
  rw [handler, hclean] at hpattern
  split at hpattern
  · exact absurd hpattern.symm hredirect
  next hnot =>
  rw [if_neg (not_not.mpr rfl)] at hpattern
  cases hbest : mux.best r.path with
  | none =>
    rw [hbest] at hpattern
    exact absurd hpattern.symm hne
  | some e =>
    rw [hbest] at hpattern
    obtain ⟨-, hmatch, hlongest⟩ := best_eq_some hbest
    subst hpattern
    refine ⟨hmatch, fun q hq htakes => ?_⟩
    rcases htakes with ⟨hq', hlt⟩ | rfl
    · exact absurd (hlongest q hq hq') (Nat.not_le_of_lt hlt)
    · -- the path itself is a pattern then, and it is the longest
      have hreg : r.path ∈ mux.patterns.map Prod.fst := by
        by_contra hreg
        refine hnot ⟨hlast, ?_, registered_iff.mpr hq⟩
        exact Bool.eq_false_iff.mpr fun h => hreg (registered_iff.mp h)
      have hlength := hlongest r.path hreg (matches_self hlast)
      exact hpath (hmatch.isPrefix.eq_of_length_le hlength)

end Choice

end ServeMux

def withMuxer (env : Env ε) (mux : ServeMux ε) (next : ServeHTTP ε) : ServeHTTP ε := fun w r =>
  let hp := mux.handler env r
  if hp.2 = [] then next w r else hp.1 w r

/-- `PatternMuxer` and `cacheBuster` -/
structure Registry (ε : Type) where
  PatternMuxer : ServeMux ε
  cacheBuster : Checksums

def withPatternMuxer (env : Env ε) (reg : Registry ε) (next : ServeHTTP ε) : ServeHTTP ε :=
  withMuxer env reg.PatternMuxer next

def joinProxyPath (proxyPath pattern : Path) : Except PanicValue Path :=
  if proxyPath = [] then .ok pattern
  else if slash ∈ pattern then
    .ok (pattern.takeWhile (· ≠ slash) ++ proxyPath ++ pattern.dropWhile (· ≠ slash))
  else .error sliceOutOfRange

def registerStaticHandler (proxyPath : Path) (reg : Registry ε) (pattern : Path)
    (h : StaticHandler ε) : Except PanicValue (Registry ε) := do
  let pattern ← joinProxyPath proxyPath pattern
  let mux ← reg.PatternMuxer.handle pattern h
  return { reg with PatternMuxer := mux }

/-- A key without the suffix of a compressed form. -/
def trimSuffix (s : Path) : Path :=
  if gzipSuffix.isSuffixOf s then s.take (s.length - gzipSuffix.length)
  else if brotliSuffix.isSuffixOf s then s.take (s.length - brotliSuffix.length)
  else s

/-- The function that is given to `fs.WalkDir`. -/
def registerFile (fsys : FileSystem) (pre : Path) (cacheBuster : Checksums) (d : WalkEntry) :
    Except String Checksums :=
  match d.err with
  | some err => .error err
  | none =>
    if d.isDir then .ok cacheBuster
    else do
      let data ← fsys.ReadFile d.path
      let s := trimSuffix (join [pre, d.path])
      return if cacheBuster.has s then cacheBuster else cacheBuster.set s (hash data)

def registerAssetDirectory (proxyPath : Path) (reg : Registry ε) (pre : Path) (fsys : FileSystem) :
    Except PanicValue (Registry ε) := do
  let serv : FileSystemServer := ⟨fsys, false, true, []⟩
  let pre ← joinProxyPath proxyPath pre
  let reg ← registerStaticHandler proxyPath reg pre (.asset pre serv)
  match fsys.walk.foldlM (registerFile fsys pre) reg.cacheBuster with
  | .error err => .error (.text ("failed walking the asset directory " ++
      (String.fromUTF8? ⟨pre.toArray⟩).getD "" ++ ": " ++ err))
  | .ok cacheBuster => return { reg with cacheBuster }

/-- `MakeLocalPath(p)` with the default maker. -/
def makeLocalPath (proxyPath p : Path) : Except PanicValue Path :=
  if p = [] then .error (.text ("cannot make a local path to an empty path. " ++
    "If you are trying to refer to the root, use '/'."))
  else if p.head? = some slash ∧ proxyPath ≠ [] then
    .ok (if p.getLast? = some slash then join [proxyPath, p] ++ [slash] else join [proxyPath, p])
  else .ok p

def getAssetUrl (proxyPath : Path) (cacheBuster : Checksums) (location : Path) :
    Except PanicValue Path :=
  makeLocalPath proxyPath (cacheBustedPath cacheBuster location)

section Clean

variable {D : List Path} {e p : Path}

theorem cleanPath_file (hD : ∀ d ∈ D, IsName d) (he : IsName e) :
    cleanPath (slash :: (dirs D ++ e)) = slash :: (dirs D ++ e) := by
  have hlast : (slash :: (dirs D ++ e)).getLast? ≠ some slash :=
    getLast_file (p := slash :: dirs D) he
  rw [cleanPath, if_neg (List.cons_ne_nil _ _)]
  dsimp only
  rw [if_pos List.head?_cons, if_neg fun h => hlast h.1, clean_rooted, resolve_file hD he,
    intercalate_dirs]

theorem cleanPath_dirs (hD : ∀ d ∈ D, IsName d) :
    cleanPath (slash :: dirs D) = slash :: dirs D := by
  rcases List.eq_nil_or_concat' D with rfl | ⟨D, d, rfl⟩
  · rfl
  have hd : IsName d := hD d (List.mem_append_right _ List.mem_cons_self)
  have hclean : clean (slash :: dirs (D ++ [d])) = slash :: (dirs D ++ d) := by
    rw [clean_rooted, resolve_dirs hD, intercalate_dirs]
  have hlast : (slash :: dirs (D ++ [d])).getLast? = some slash := by
    have hdirs : slash :: dirs (D ++ [d]) = (slash :: (dirs D ++ d)) ++ [slash] := by simp
    rw [hdirs, List.getLast?_concat]
  have hne : slash :: (dirs D ++ d) ≠ [slash] := by simp [hd.proper.1]
  rw [cleanPath, if_neg (List.cons_ne_nil _ _)]
  dsimp only
  rw [if_pos List.head?_cons, hclean, if_pos ⟨hlast, hne⟩]
  simp

/-- A clean path that ends in a slash is that of directories. -/
theorem eq_dirs_of_cleanPath (hclean : cleanPath p = p) (hhead : p.head? = some slash)
    (hlast : p.getLast? = some slash) : p = slash :: dirs (resolve p) := by
  obtain ⟨q, rfl⟩ := List.head?_eq_some_iff.mp hhead
  rw [cleanPath, if_neg (List.cons_ne_nil _ _)] at hclean
  dsimp only at hclean
  rw [if_pos List.head?_cons, clean_rooted] at hclean
  rw [resolve_slash]
  have hname : ∀ e ∈ resolve q, IsName e := resolve_isName
  rcases List.eq_nil_or_concat' (resolve q) with hnil | ⟨E, e, hE⟩
  · rw [hnil, if_neg fun h => h.2 rfl] at hclean
    rw [hnil, ← hclean]
    rfl
  · rw [hE] at hname hclean ⊢
    have he : IsName e := hname e (List.mem_append_right _ List.mem_cons_self)
    have hne : slash :: (dirs E ++ e) ≠ [slash] := by simp [he.proper.1]
    rw [intercalate_dirs, if_pos ⟨hlast, hne⟩] at hclean
    rw [← hclean]
    simp

theorem cleanPath_of_isPrefix (hD : ∀ d ∈ D, IsName d) (he : IsName e)
    (h : p <+: slash :: (dirs D ++ e)) (hlast : p.getLast? = some slash) : cleanPath p = p := by
  obtain ⟨q, rfl⟩ := List.getLast?_eq_some_iff.mp hlast
  cases q with
  | nil => rfl
  | cons b q =>
    rw [List.cons_append, List.cons_prefix_cons] at h
    obtain ⟨rfl, h⟩ := h
    obtain ⟨D', hD', hq⟩ := exists_dirs hD he h
    rw [List.cons_append, hq]
    exact cleanPath_dirs hD'

end Clean

section Register

variable {proxyPath pre p : Path} {fsys : FileSystem} {reg reg' : Registry ε} {mux : ServeMux ε}
  {h : StaticHandler ε} {cacheBuster cacheBuster' : Checksums} {d : WalkEntry}

theorem patterns_handle (hmux : reg.PatternMuxer.handle p h = .ok mux) :
    mux.patterns = reg.PatternMuxer.patterns ++ [(p, h)] := by
  rw [ServeMux.handle] at hmux
  split at hmux
  · cases hmux
  split at hmux
  · cases hmux
  · cases hmux
    rfl

theorem joinProxyPath_rooted (hproxy : proxyPath ≠ []) (hhead : p.head? = some slash) :
    joinProxyPath proxyPath p = .ok (proxyPath ++ p) := by
  obtain ⟨q, rfl⟩ := List.head?_eq_some_iff.mp hhead
  rw [joinProxyPath, if_neg hproxy, if_pos List.mem_cons_self]
  simp

/-- The file is read, and there is a checksum for its key. -/
theorem registerFile_ok (hreg : registerFile fsys pre cacheBuster d = .ok cacheBuster') :
    (∀ k, cacheBuster.has k = true → cacheBuster'.has k = true) ∧ (d.isDir = false →
      (∃ data, fsys.ReadFile d.path = .ok data) ∧
        cacheBuster'.has (trimSuffix (join [pre, d.path])) = true) := by
  rw [registerFile] at hreg
  cases herr : d.err with
  | some err =>
    rw [herr] at hreg
    cases hreg
  | none =>
    rw [herr] at hreg
    cases hdir : d.isDir with
    | true =>
      rw [hdir] at hreg
      cases hreg
      exact ⟨fun _ h => h, fun h => by cases h⟩
    | false =>
      cases hdata : fsys.ReadFile d.path with
      | error err =>
        rw [hdir, hdata] at hreg
        cases hreg
      | ok data =>
        rw [hdir, hdata] at hreg
        have hset : cacheBuster' =
            if cacheBuster.has (trimSuffix (join [pre, d.path])) then cacheBuster
            else cacheBuster.set (trimSuffix (join [pre, d.path])) (hash data) :=
          (Except.ok.inj hreg).symm
        rw [hset]
        split
        · next hhas => exact ⟨fun _ h => h, fun _ => ⟨⟨data, rfl⟩, hhas⟩⟩
        · refine ⟨fun k hk => ?_, fun _ => ⟨⟨data, rfl⟩, ?_⟩⟩
          · exact (GoMap.has_set _ _ _ _).mpr (.inr hk)
          · exact (GoMap.has_set _ _ _ _).mpr (.inl rfl)

/-- All files have been read, and there is a checksum for each key. -/
theorem registerFiles_ok {l : List WalkEntry}
    (hreg : l.foldlM (registerFile fsys pre) cacheBuster = .ok cacheBuster') :
    (∀ k, cacheBuster.has k = true → cacheBuster'.has k = true) ∧ ∀ d ∈ l, d.isDir = false →
      (∃ data, fsys.ReadFile d.path = .ok data) ∧
        cacheBuster'.has (trimSuffix (join [pre, d.path])) = true := by
  induction l generalizing cacheBuster with
  | nil =>
    cases hreg
    exact ⟨fun _ h => h, fun d hd => absurd hd List.not_mem_nil⟩
  | cons d l ih =>
    rw [List.foldlM_cons] at hreg
    cases hstep : registerFile fsys pre cacheBuster d with
    | error err =>
      rw [hstep] at hreg
      cases hreg
    | ok next =>
      rw [hstep] at hreg
      obtain ⟨hkeep, hfile⟩ := registerFile_ok hstep
      obtain ⟨hkeep', hfiles⟩ := ih hreg
      refine ⟨fun k hk => hkeep' k (hkeep k hk), fun d' hd' hdir => ?_⟩
      rcases List.mem_cons.mp hd' with rfl | hd'
      · exact ⟨(hfile hdir).1, hkeep' _ (hfile hdir).2⟩
      · exact hfiles d' hd' hdir

/-- The proxy path is joined to the pattern of a directory twice. -/
theorem registerAssetDirectory_ok
    (hreg : registerAssetDirectory proxyPath reg pre fsys = .ok reg') :
    ∃ stripped pattern, joinProxyPath proxyPath pre = .ok stripped ∧
      joinProxyPath proxyPath stripped = .ok pattern ∧
      reg'.PatternMuxer.patterns = reg.PatternMuxer.patterns ++
        [(pattern, .asset stripped ⟨fsys, false, true, []⟩)] ∧
      fsys.walk.foldlM (registerFile fsys stripped) reg.cacheBuster = .ok reg'.cacheBuster := by
  rw [registerAssetDirectory] at hreg
  cases hstripped : joinProxyPath proxyPath pre with
  | error panic =>
    rw [hstripped] at hreg
    cases hreg
  | ok stripped =>
  rw [hstripped] at hreg
  cases hpattern : joinProxyPath proxyPath stripped with
  | error panic =>
    simp [registerStaticHandler, hpattern, bind, Except.bind] at hreg
  | ok pattern =>
  cases hmux : reg.PatternMuxer.handle pattern (.asset stripped ⟨fsys, false, true, []⟩) with
  | error panic =>
    simp [registerStaticHandler, hpattern, hmux, bind, Except.bind] at hreg
  | ok mux =>
  cases hwalk : fsys.walk.foldlM (registerFile fsys stripped) reg.cacheBuster with
  | error err =>
    simp [registerStaticHandler, hpattern, hmux, hwalk, bind, Except.bind, pure, Except.pure]
      at hreg
  | ok cacheBuster =>
  simp only [registerStaticHandler, hpattern, hmux, hwalk, bind, Except.bind, pure, Except.pure,
    Except.ok.injEq] at hreg
  subst hreg
  exact ⟨stripped, pattern, rfl, hpattern, patterns_handle hmux, hwalk⟩

theorem registerAssetDirectory_nil (hreg : registerAssetDirectory [] reg pre fsys = .ok reg') :
    reg'.PatternMuxer.patterns = reg.PatternMuxer.patterns ++
        [(pre, .asset pre ⟨fsys, false, true, []⟩)] ∧
      fsys.walk.foldlM (registerFile fsys pre) reg.cacheBuster = .ok reg'.cacheBuster := by
  obtain ⟨stripped, pattern, hstripped, hpattern, h⟩ := registerAssetDirectory_ok hreg
  cases hstripped
  cases hpattern
  exact h

end Register

end GoraddServe.AssetRoutes
