import GoraddServe.AssetRoutes
import GoraddServe.UrlPaths

/-!
# From an asset to its URL and back

The URL of an asset leads to the asset directory when the muxer has no better pattern for it. Then
the prefix is stripped, the checksum is taken out, and the name of the file is left. Behind a proxy
path an asset directory is registered with the proxy path twice.
-/
namespace GoraddServe.AssetUrls
open GoMaps GoPaths UrlPaths Panics ResponseWriters CacheBuster StaticFiles FileRoutes AssetRoutes

variable {ε : Type}

/-- What io/fs documents of a file system: `fs.WalkDir` gives valid paths, what can be read is no
directory, and the dot is one. -/
structure Lawful (fsys : FileSystem) : Prop where
  walk : ∀ d ∈ fsys.walk, validPath d.path = true
  read : ∀ name data, fsys.ReadFile name = .ok data →
    ∃ info, fsys.Stat name = .ok info ∧ info.isDir = false
  root : ∀ info, fsys.Stat [dot] = .ok info → info.isDir = true

/-- The URL of the asset is one, and a request for it is routed to its directory, which opens the
file or a compressed form of it and nothing else. -/
def Reachable (env : Env ε) (reg : Registry ε) (next : ServeHTTP ε) (w : Writer) (s : Serving ε)
    (pre : Path) (fsys : FileSystem) (file : Path) : Prop :=
  ∃ url path, getAssetUrl [] reg.cacheBuster (join [pre, file]) = .ok url ∧
    parsePath url = some path ∧ ∀ r : FileRequest, r.path = path →
      (∃ serv : FileSystemServer, serv.Fsys = fsys ∧
        reg.PatternMuxer.handler env r = ((StaticHandler.asset pre serv).serveHTTP env, pre)) ∧
      ∃ name ∈ [file, file ++ brotliSuffix, file ++ gzipSuffix],
        (outcome (withPatternMuxer env reg next w r) s).2.opened = s.opened ++ [name]

/-- The directory, the file in it, and the checksum before its last element. -/
def assetUrl (pre file : Path) (h : Hash) : Path :=
  pre ++ (split file).1 ++ cacheBusterPrefix ++ h.text ++ [slash] ++ (split file).2

/-- The path of the asset can stand in a URL as it is, the prefix is clean and ends in a slash, and
no other pattern takes the path that the asset has below it. -/
structure Routed (reg : Registry ε) (pre file : Path) : Prop where
  plain : ∀ b ∈ join [pre, file], Plain b
  clean : cleanPath pre = pre
  last : pre.getLast? = some slash
  others : ∀ h, reg.cacheBuster.get (join [pre, file]) = some h →
    ∀ q ∈ reg.PatternMuxer.patterns.map Prod.fst, ¬ServeMux.Takes pre (assetUrl pre file h) q

section Urls

variable {pre e : Path} {D : List Path} {cacheBuster : Checksums} {url : Path}

theorem join_asset (hhead : pre.head? = some slash) (hD : ∀ d ∈ D, IsName d) (he : IsName e) :
    join [pre, dirs D ++ e] = slash :: (dirs (resolve pre ++ D) ++ e) := by
  obtain ⟨p, rfl⟩ := List.head?_eq_some_iff.mp hhead
  rw [join_rooted (proper_file hD he), resolve_slash, elements_file hD he, ← List.append_assoc,
    intercalate_dirs]

theorem trimSuffix_asset (hhead : pre.head? = some slash) (hD : ∀ d ∈ D, IsName d) (he : IsName e)
    (hgz : ¬gzipSuffix <:+ dirs D ++ e) (hbr : ¬brotliSuffix <:+ dirs D ++ e) :
    trimSuffix (join [pre, dirs D ++ e]) = join [pre, dirs D ++ e] := by
  have hsuffix : ∀ s : Path, slash ∉ s → ¬s <:+ dirs D ++ e →
      ¬s.isSuffixOf (join [pre, dirs D ++ e]) = true := by
    intro s hs hnot h
    rw [List.isSuffixOf_iff_suffix, join_asset hhead hD he] at h
    obtain ⟨q, hq⟩ := exists_directory (D := resolve pre ++ D) (e := e)
    rw [hq] at h
    exact hnot ((suffix_of_noSlash hs h).trans (List.suffix_append _ _))
  rw [trimSuffix, if_neg (hsuffix _ (by decide) hgz), if_neg (hsuffix _ (by decide) hbr)]

theorem cacheBustedPath_asset (hhead : pre.head? = some slash) (hD : ∀ d ∈ D, IsName d)
    (he : IsName e) {h : Hash} (hget : cacheBuster.get (join [pre, dirs D ++ e]) = some h) :
    cacheBustedPath cacheBuster (join [pre, dirs D ++ e]) =
      slash :: (dirs (resolve pre ++ D ++ [cacheBusterPrefix ++ h.text]) ++ e) := by
  have hnames : ∀ d ∈ resolve pre ++ D, IsName d :=
    List.forall_mem_append.mpr ⟨resolve_isName, hD⟩
  have hsplit : split (slash :: (dirs (resolve pre ++ D) ++ e)) =
      (slash :: dirs (resolve pre ++ D), e) := split_dirs (D := [] :: (resolve pre ++ D)) he.noSlash
  rw [cacheBustedPath, hget]
  dsimp only
  rw [join_asset hhead hD he, hsplit, join_inserted hnames (isName_busted h) he]

theorem assetUrl_eq (hclean : cleanPath pre = pre) (hhead : pre.head? = some slash)
    (hlast : pre.getLast? = some slash) (he : IsName e) (h : Hash) :
    assetUrl pre (dirs D ++ e) h =
      slash :: (dirs (resolve pre ++ D ++ [cacheBusterPrefix ++ h.text]) ++ e) := by
  have hpre := eq_dirs_of_cleanPath hclean hhead hlast
  calc assetUrl pre (dirs D ++ e) h
      = pre ++ (dirs (D ++ [cacheBusterPrefix ++ h.text]) ++ e) := by
        simp [assetUrl, split_dirs he.noSlash]
    _ = slash :: dirs (resolve pre) ++ (dirs (D ++ [cacheBusterPrefix ++ h.text]) ++ e) := by
        rw [← hpre]
    _ = slash :: (dirs (resolve pre ++ D ++ [cacheBusterPrefix ++ h.text]) ++ e) := by simp

theorem plain_busted (h : Hash) : ∀ b ∈ cacheBusterPrefix ++ h.text, Plain b := by
  have hstart : ∀ b ∈ cacheBusterPrefix, Plain b := plain_of_all (by decide)
  have hdigit : ∀ d < 36, Plain (digit d) := by decide
  intro b hb
  rcases List.mem_append.mp hb with hb | hb
  · exact hstart b hb
  · rcases h.digits b hb with rfl | ⟨d, hd, rfl⟩
    · decide
    · exact hdigit d hd

theorem getAssetUrl_nil (h : cacheBustedPath cacheBuster url ≠ []) :
    getAssetUrl [] cacheBuster url = .ok (cacheBustedPath cacheBuster url) := by
  rw [getAssetUrl, makeLocalPath, if_neg h, if_neg fun h => h.2 rfl]

end Urls

section Served

variable {env : Env ε} {reg reg' : Registry ε} {next : ServeHTTP ε} {pre e file url : Path}
  {fsys : FileSystem} {serv : FileSystemServer} {D : List Path} {r : FileRequest} {w : Writer}
  {s : Serving ε}

theorem requested_asset (hbuster : serv.UseCacheBuster = true) (h : Hash)
    (hr : r.path = dirs (D ++ [cacheBusterPrefix ++ h.text]) ++ e) (hD : ∀ d ∈ D, IsName d)
    (he : IsName e) : serv.requested r env.strs = .ok (serv.indexed (dirs D ++ e)) := by
  rw [FileSystemServer.requested, hr, stripCacheBusterPath_busted hD he, if_pos hbuster]
  change Except.ok _ = _
  rw [if_neg (head_file hD he)]

/-- The name that is left below the prefix is looked for as the file. -/
theorem resolve_asset (hfs : Lawful fsys) (hserv : serv = ⟨fsys, false, true, []⟩) (h : Hash)
    (hr : r.path = dirs (D ++ [cacheBusterPrefix ++ h.text]) ++ e) (hD : ∀ d ∈ D, IsName d)
    (he : IsName e) (hvalid : validPath (dirs D ++ e) = true) {data : Bytes}
    (hread : fsys.ReadFile (dirs D ++ e) = .ok data) :
    serv.resolve r env.strs = .ok (some (dirs D ++ e)) := by
  obtain ⟨info, hstat, hdir⟩ := hfs.read _ _ hread
  have hne : dirs D ++ e ≠ [] := by simp [he.proper.1]
  have hindexed : serv.indexed (dirs D ++ e) = dirs D ++ e := by
    subst hserv
    rw [FileSystemServer.indexed, if_neg hne, if_neg (getLast_file he), hstat]
    exact if_neg (by simp [hdir])
  have hrequested : serv.requested r env.strs = .ok (dirs D ++ e) := by
    rw [requested_asset (hserv ▸ rfl) h hr hD he, hindexed]
  have hhidden : serv.hidden env.strs (dirs D ++ e) = false := by
    rw [hserv]
    rfl
  rw [resolve_eq, hrequested]
  dsimp only
  rw [if_pos ⟨hvalid, hhidden⟩]

theorem opens_asset (hresolve : serv.resolve r env.strs = .ok (some file))
    (hexists : serv.pathExists file = true) :
    ∃ name ∈ [file, file ++ brotliSuffix, file ++ gzipSuffix], opens serv env r = [name] := by
  obtain ⟨rt, hroute⟩ := Option.isSome_iff_exists.mp (route_isSome_iff (r := r).mpr (.inl hexists))
  have hdirect : rt.Direct := direct_of_exists hroute hexists
  refine ⟨rt.path file, ?_, ?_⟩
  · cases rt <;> simp [Route.path]
  · rw [opens, hresolve]
    dsimp only
    rw [hroute, Option.map_some, Option.getD_some, Route.names, if_pos (.inl hdirect)]

theorem opened_serveHTTP : (outcome (serv.serveHTTP env w r) s).2.opened =
    s.opened ++ opens serv env r := by
  rw [FileSystemServer.serveHTTP, outcome_bind, ← opened_serveStaticFile (f := serv)]
  obtain ⟨result, t⟩ := outcome (serv.serveStaticFile env w r) s
  cases result with
  | error panic => rfl
  | ok found =>
    cases found with
    | true => rfl
    | false => rfl

theorem opened_asset (hpre : pre ≠ []) (hhandler : reg.PatternMuxer.handler env r =
    ((StaticHandler.asset pre serv).serveHTTP env, pre)) {p : Path} (hr : r.path = pre ++ p) :
    (outcome (withPatternMuxer env reg next w r) s).2.opened =
      s.opened ++ opens serv env { r with path := p } := by
  have hstart : pre.isPrefixOf r.path = true := by
    rw [List.isPrefixOf_iff_prefix, hr]
    exact List.prefix_append pre p
  have hdrop : r.path.drop pre.length = p := by rw [hr, List.drop_left]
  rw [withPatternMuxer, withMuxer, hhandler]
  dsimp only
  rw [if_neg hpre, StaticHandler.serveHTTP, stripPrefix, if_neg hpre, if_pos hstart, hdrop,
    opened_serveHTTP]

/-- A pattern that gets the URL of an asset below it ends in a slash. -/
theorem longest_of_asset {mux : ServeMux ε} {G : List Path} (hG : ∀ d ∈ G, IsName d) (he : IsName e)
    (hbelow : (resolve pre).length ≤ G.length) (hne : pre ≠ [])
    (hr : r.path = slash :: (dirs G ++ e)) (hpattern : (mux.handler env r).2 = pre) :
    pre.getLast? = some slash ∧ ServeMux.Matches r.path pre ∧
      ∀ q ∈ mux.patterns.map Prod.fst, ¬ServeMux.Takes pre r.path q := by
  have hlast : r.path.getLast? ≠ some slash := by
    rw [hr]
    exact getLast_file (p := slash :: dirs G) he
  have hresolve : resolve r.path = G ++ [e] := by rw [hr, resolve_slash, resolve_file hG he]
  have hresolve' : resolve (r.path ++ [slash]) = G ++ [e] := by
    have hdirs : r.path ++ [slash] = slash :: dirs (G ++ [e]) := by simp [hr]
    rw [hdirs, resolve_slash, resolve_dirs (isName_concat hG he)]
  have hlength : resolve pre ≠ G ++ [e] := by
    intro h
    rw [h, List.length_append, List.length_singleton] at hbelow
    omega
  have hpath : pre ≠ r.path := fun h => hlength (h ▸ hresolve)
  have hredirect : pre ≠ r.path ++ [slash] := fun h => hlength (h ▸ hresolve')
  have hclean : cleanPath r.path = r.path := by rw [hr, cleanPath_file hG he]
  obtain ⟨hmatch, hothers⟩ := ServeMux.longest_of_handler hclean hlast hpattern hne hpath hredirect
  refine ⟨?_, hmatch, hothers⟩
  by_contra hslash
  rw [ServeMux.Matches, if_neg hslash] at hmatch
  exact hpath hmatch

/-- A redirect opens nothing, so it is the handler of the pattern that has got the request. -/
theorem handler_of_opened {mux : ServeMux ε} {h : StaticHandler ε} (hmem : (pre, h) ∈ mux.patterns)
    (hpattern : (mux.handler env r).2 = pre) (hne : pre ≠ [])
    (hopened : (outcome ((mux.handler env r).1 w r) s).2.opened ≠ s.opened) :
    ServeMux.Matches r.path pre ∧ mux.handler env r = (h.serveHTTP env, pre) := by
  rw [ServeMux.handler] at hpattern hopened ⊢
  split at hopened
  · exact absurd rfl hopened
  next hslash =>
  rw [if_neg hslash] at hpattern ⊢
  split at hopened
  · exact absurd rfl hopened
  next hclean =>
  rw [if_neg hclean] at hpattern ⊢
  have hclean : cleanPath r.path = r.path := not_not.mp hclean
  rw [hclean] at hpattern ⊢
  cases hbest : mux.best r.path with
  | none =>
    rw [hbest] at hpattern
    exact absurd hpattern.symm hne
  | some e =>
    rw [hbest] at hpattern
    obtain ⟨hbestmem, hmatch, -⟩ := ServeMux.best_eq_some hbest
    obtain rfl := List.inj_on_of_nodup_map mux.nodup hbestmem hmem hpattern
    exact ⟨hmatch, rfl⟩

/-- A request that opens something below a pattern gets there without the pattern. -/
theorem exists_opens {name : Path} (hmem : (pre, .asset pre serv) ∈ reg.PatternMuxer.patterns)
    (hpattern : (reg.PatternMuxer.handler env r).2 = pre) (hne : pre ≠ [])
    (hopened : (outcome (withPatternMuxer env reg next w r) s).2.opened = s.opened ++ [name]) :
    ∃ q, pre ++ q = r.path ∧
      reg.PatternMuxer.handler env r = ((StaticHandler.asset pre serv).serveHTTP env, pre) ∧
        opens serv env { r with path := q } = [name] := by
  have hrun : withPatternMuxer env reg next w r = (reg.PatternMuxer.handler env r).1 w r := by
    rw [withPatternMuxer, withMuxer]
    exact if_neg (hpattern ▸ hne)
  have hmore : (outcome ((reg.PatternMuxer.handler env r).1 w r) s).2.opened ≠ s.opened := by
    rw [← hrun, hopened]
    simp
  obtain ⟨hmatch, hhandler⟩ := handler_of_opened hmem hpattern hne hmore
  obtain ⟨q, hq⟩ := hmatch.isPrefix
  rw [opened_asset hne hhandler hq.symm, List.append_cancel_left_eq] at hopened
  exact ⟨q, hq, hhandler, hopened⟩

theorem count_stripCacheBusterPath {strs : StringTests} {p q : Path} {b : UInt8}
    (h : stripCacheBusterPath strs p = .ok q) (hslash : b ≠ slash) (hdot : b ≠ dot) :
    q.count b ≤ p.count b := by
  have hp := congrArg (List.count b) (split_eq p)
  have hdir := congrArg (List.count b) (split_eq (split p).1.dropLast)
  have hle := (List.dropLast_sublist (split p).1).count_le b
  rw [List.count_append] at hp hdir
  rw [stripCacheBusterPath] at h
  dsimp only at h
  split at h
  · cases h
  split at h
  · cases h
    refine (count_join hslash hdot).trans ?_
    omega
  · cases h
    exact Nat.le_refl _

/-- The rules for names and directories add no bytes but those of the index. -/
theorem count_requested {p : Path} {b : UInt8} (h : serv.requested r env.strs = .ok p)
    (hb : b ∉ dot :: bytes "/index.html") : p.count b ≤ r.path.count b := by
  have hindex : (bytes "/index.html").count b = 0 :=
    List.count_eq_zero.mpr fun h => hb (List.mem_cons_of_mem _ h)
  have hindex' : (bytes "index.html").count b = 0 := by
    have hbytes : bytes "/index.html" = slash :: bytes "index.html" := by decide
    rw [hbytes] at hindex
    exact Nat.le_zero.mp (hindex ▸ (List.sublist_cons_self _ _).count_le b)
  have hdot : b ≠ dot := fun h => hb (h ▸ List.mem_cons_self)
  have hslash : b ≠ slash := fun h => hb (h ▸ by decide)
  have hindexed : ∀ q : Path, (serv.indexed q).count b ≤ q.count b := by
    intro q
    unfold FileSystemServer.indexed
    split
    · exact hindex' ▸ Nat.zero_le _
    split
    · exact (count_join hslash hdot).trans (by omega)
    split
    · split
      · exact (count_join hslash hdot).trans (by omega)
      · exact Nat.le_refl _
    · exact Nat.le_refl _
  have htail : ∀ q : Path, (if q.head? = some slash then q.tail else q).count b ≤ q.count b := by
    intro q
    split
    · exact (List.tail_sublist q).count_le b
    · exact Nat.le_refl _
  rw [FileSystemServer.requested] at h
  dsimp only at h
  split at h
  · cases hstrip : stripCacheBusterPath env.strs r.path with
    | error panic =>
      rw [hstrip] at h
      cases h
    | ok q =>
      rw [hstrip] at h
      cases h
      exact ((hindexed _).trans (htail q)).trans (count_stripCacheBusterPath hstrip hslash hdot)
  · cases h
    exact (hindexed _).trans (htail _)

/-- What is opened is a name that the path stands for, with a suffix or without. -/
theorem name_of_opens {name : Path} (h : opens serv env r = [name]) :
    ∃ p, serv.requested r env.strs = .ok p ∧
      name ∈ [p, p ++ brotliSuffix, p ++ gzipSuffix] := by
  rw [opens] at h
  split at h
  · rename_i p hresolve
    refine ⟨p, ?_, ?_⟩
    · rw [resolve_eq] at hresolve
      cases hrequested : serv.requested r env.strs with
      | error panic =>
        rw [hrequested] at hresolve
        cases hresolve
      | ok q =>
        rw [hrequested, Except.ok.injEq] at hresolve
        obtain ⟨-, hq⟩ := Option.ite_none_right_eq_some.mp hresolve
        rw [Option.some.inj hq]
    · cases hroute : route serv r p with
      | none =>
        rw [hroute] at h
        cases h
      | some rt =>
        rw [hroute, Option.map_some, Option.getD_some, Route.names] at h
        obtain ⟨-, heq⟩ : _ ∧ [rt.path p] = [name] := by
          split at h
          · next hdirect => exact ⟨hdirect, h⟩
          · cases h
        rw [← List.singleton_inj.mp heq]
        cases rt <;> simp [Route.path]
  · cases h

theorem exists_suffix {p name : Path} (h : name ∈ [p, p ++ brotliSuffix, p ++ gzipSuffix]) :
    ∃ suffix ∈ [[], brotliSuffix, gzipSuffix], name = p ++ suffix := by
  simp only [List.mem_cons, List.not_mem_nil, or_false] at h
  rcases h with rfl | rfl | rfl
  · exact ⟨[], by simp, (List.append_nil _).symm⟩
  · exact ⟨brotliSuffix, by simp, rfl⟩
  · exact ⟨gzipSuffix, by simp, rfl⟩

theorem count_of_suffix {p name : Path} {b : UInt8} (hb : b ∉ brotliSuffix ++ gzipSuffix)
    (h : name ∈ [p, p ++ brotliSuffix, p ++ gzipSuffix]) : name.count b = p.count b := by
  obtain ⟨suffix, hsuffix, rfl⟩ := exists_suffix h
  have hall : ∀ suffix ∈ [[], brotliSuffix, gzipSuffix], suffix ⊆ brotliSuffix ++ gzipSuffix := by
    decide
  rw [List.count_append, List.count_eq_zero.mpr fun h => hb (hall suffix hsuffix h), Nat.add_zero]

theorem count_of_opened {name : Path} {b : UInt8} (hb : ¬Plain b)
    (hopens : opens serv env r = [name])
    (hname : name ∈ [file, file ++ brotliSuffix, file ++ gzipSuffix]) :
    file.count b ≤ r.path.count b := by
  have hplain : ∀ b ∈ dot :: bytes "/index.html" ++ brotliSuffix ++ gzipSuffix, Plain b :=
    plain_of_all (by decide)
  have hsuffix : b ∉ brotliSuffix ++ gzipSuffix := fun h => hb (hplain b (by simp_all))
  obtain ⟨p, hrequested, hp⟩ := name_of_opens hopens
  rw [← count_of_suffix hsuffix hname, count_of_suffix hsuffix hp]
  exact count_requested hrequested fun h => hb (hplain b (by simp_all))

theorem indexed_file (hD : ∀ d ∈ D, IsName d) (he : IsName e) :
    serv.indexed (dirs D ++ e) = dirs D ++ e ∨
      serv.indexed (dirs D ++ e) = dirs (D ++ [e]) ++ bytes "index.html" := by
  have hne : dirs D ++ e ≠ [] := by simp [he.proper.1]
  have hindex : IsName (bytes "index.html") := ⟨by decide, by decide⟩
  rw [FileSystemServer.indexed, if_neg hne, if_neg (getLast_file he)]
  split
  · split
    · exact .inr (join_below hD he hindex)
    · exact .inl rfl
  · exact .inl rfl

/-- When the unescaped name leads to the file, the file has no escapes. -/
theorem notMem_of_opened {D' : List Path} {e' p name : Path} (hD : ∀ d ∈ D, IsName d)
    (he : IsName e) (hD' : List.Forall₂ Unescapes D D') (he' : Unescapes e e')
    (hnames : ∀ d ∈ D', IsName d) (hname : IsName e')
    (hp : p = dirs D' ++ e' ∨ p = dirs (D' ++ [e']) ++ bytes "index.html")
    (hopened : name ∈ [p, p ++ brotliSuffix, p ++ gzipSuffix])
    (hfile : name ∈ [dirs D ++ e, dirs D ++ e ++ brotliSuffix, dirs D ++ e ++ gzipSuffix]) :
    (∀ d ∈ D, 37 ∉ d) ∧ 37 ∉ e := by
  have hall : ∀ suffix ∈ [[], brotliSuffix, gzipSuffix],
      slash ∉ suffix ∧ (suffix.length = 0 ∨ suffix.length = 3) := by decide
  obtain ⟨s₁, hs₁, rfl⟩ := exists_suffix hopened
  obtain ⟨s₂, hs₂, heq⟩ := exists_suffix hfile
  obtain ⟨hslash₁, hlength₁⟩ := hall s₁ hs₁
  obtain ⟨hslash₂, hlength₂⟩ := hall s₂ hs₂
  have hslash : ∀ {n s : Path}, IsName n → slash ∉ s → slash ∉ n ++ s := fun hn hs h =>
    (List.mem_append.mp h).elim hn.noSlash hs
  have hnoSlash : ∀ d ∈ D, slash ∉ d := fun d hd => (hD d hd).noSlash
  rcases hp with rfl | rfl
  · rw [List.append_assoc, List.append_assoc] at heq
    obtain ⟨rfl, hlast⟩ := dirs_inj (fun d hd => (hnames d hd).noSlash) hnoSlash
      (hslash hname hslash₁) (hslash he hslash₂) heq
    refine ⟨fun d hd => (List.forall₂_same.mp hD' d hd).notMem, List.count_eq_zero.mp ?_⟩
    -- an escape is two bytes shorter, and a suffix has three
    have hlength := congrArg List.length hlast
    rw [List.length_append, List.length_append, he'.length] at hlength
    omega
  · -- the index is in a directory more
    have hindex : IsName (bytes "index.html") := ⟨by decide, by decide⟩
    rw [List.append_assoc, List.append_assoc] at heq
    obtain ⟨hdirs, -⟩ := dirs_inj (fun d hd => (isName_concat hnames hname d hd).noSlash) hnoSlash
      (hslash hindex hslash₁) (hslash he hslash₂) heq
    have hlength := congrArg List.length hdirs
    rw [List.length_append, List.length_singleton, ← hD'.length_eq] at hlength
    omega

/-- The URL has no percent signs but those of its names. -/
theorem notMem_url (h : Hash) (hP : ∀ d ∈ resolve pre, 37 ∉ d) (hD : ∀ d ∈ D, 37 ∉ d)
    (he : 37 ∉ e) :
    37 ∉ slash :: (dirs (resolve pre ++ D ++ [cacheBusterPrefix ++ h.text]) ++ e) := by
  intro hmem
  rcases List.mem_cons.mp hmem with heq | hmem
  · exact absurd heq (by decide)
  rcases List.mem_append.mp hmem with hmem | hmem
  · rcases mem_dirs hmem with heq | ⟨d, hd, hmem⟩
    · exact absurd heq (by decide)
    rcases List.mem_append.mp hd with hd | hd
    · exact (List.mem_append.mp hd).elim (fun hd => hP d hd hmem) fun hd => hD d hd hmem
    · exact (plain_busted h 37 (List.mem_singleton.mp hd ▸ hmem)).2.2.1 rfl
  · exact he hmem

/-- What the URL of a file is made of. -/
structure Locates (reg : Registry ε) (pre : Path) (fsys : FileSystem) (file : Path) (D : List Path)
    (h : Hash) (e : Path) : Prop where
  file_eq : file = dirs D ++ e
  dirs_isName : ∀ d ∈ D, IsName d
  isName : IsName e
  hash : reg.cacheBuster.get (join [pre, file]) = some h
  url_eq : cacheBustedPath reg.cacheBuster (join [pre, file]) =
    slash :: (dirs (resolve pre ++ D ++ [cacheBusterPrefix ++ h.text]) ++ e)
  valid : validPath file = true
  read : ∃ data, fsys.ReadFile file = .ok data

theorem exists_locates (hhead : pre.head? = some slash) (hfs : Lawful fsys)
    (hreg : registerAssetDirectory [] reg pre fsys = .ok reg')
    (hfile : ∃ d ∈ fsys.walk, d.path = file ∧ d.isDir = false)
    (hgz : ¬gzipSuffix <:+ file) (hbr : ¬brotliSuffix <:+ file) :
    ∃ D h e, Locates reg' pre fsys file D h e := by
  obtain ⟨d, hd, rfl, hdir⟩ := hfile
  have hwalk := (registerAssetDirectory_nil hreg).2
  obtain ⟨⟨data, hread⟩, hkey⟩ := (registerFiles_ok hwalk).2 d hd hdir
  have hvalid := hfs.walk d hd
  obtain ⟨info, hstat, hinfo⟩ := hfs.read _ _ hread
  have hproper : ∀ e ∈ elements d.path, Proper e := by
    refine (validPath_cases hvalid).resolve_left fun hdot => ?_
    rw [hdot] at hstat
    rw [hfs.root info hstat] at hinfo
    cases hinfo
  obtain ⟨D, e, hd', hD, he⟩ := exists_file hproper
  rw [hd'] at hgz hbr hkey
  rw [trimSuffix_asset hhead hD he hgz hbr] at hkey
  obtain ⟨h, hget⟩ := Option.isSome_iff_exists.mp hkey
  have hurl := cacheBustedPath_asset hhead hD he hget
  exact ⟨D, h, e, hd', hD, he, hd' ▸ hget, hd' ▸ hurl, hvalid, data, hread⟩

section Located

variable {h : Hash} (hloc : Locates reg' pre fsys file D h e)
include hloc

theorem Locates.names : ∀ d ∈ resolve pre ++ D ++ [cacheBusterPrefix ++ h.text], IsName d := by
  apply isName_concat
  · exact List.forall_mem_append.mpr ⟨resolve_isName, hloc.dirs_isName⟩
  · exact isName_busted h

theorem Locates.getAssetUrl_eq : getAssetUrl [] reg'.cacheBuster (join [pre, file]) =
    .ok (slash :: (dirs (resolve pre ++ D ++ [cacheBusterPrefix ++ h.text]) ++ e)) := by
  rw [getAssetUrl_nil (hloc.url_eq ▸ List.cons_ne_nil _ _), hloc.url_eq]

theorem Locates.count_url {b : UInt8} (hb : ¬Plain b) :
    (slash :: (dirs (resolve pre ++ D ++ [cacheBusterPrefix ++ h.text]) ++ e)).count b ≤
      pre.count b + file.count b := by
  have hslash : b ≠ slash := fun h => hb (h ▸ by decide)
  have hbusted : (cacheBusterPrefix ++ h.text).count b = 0 :=
    List.count_eq_zero.mpr fun hmem => hb (plain_busted h b hmem)
  have hpre := count_resolve (p := pre) hslash
  rw [hloc.file_eq, List.count_cons_of_ne hslash.symm, List.count_append, List.count_append,
    count_dirs hslash, count_dirs hslash, List.flatten_append, List.flatten_append,
    List.flatten_singleton, List.count_append, List.count_append, hbusted]
  omega

/-- When the file is opened, nothing of the URL is left out of the path, and its escapes all give
percent signs. -/
theorem Locates.unescapes {path q : Path}
    (hparse : parsePath (slash :: (dirs (resolve pre ++ D ++ [cacheBusterPrefix ++ h.text]) ++ e)) =
      some path) (hpath : pre ++ q = path) (hcount : ∀ b, ¬Plain b → file.count b ≤ q.count b) :
    Unescapes (slash :: (dirs (resolve pre ++ D ++ [cacheBusterPrefix ++ h.text]) ++ e)) path ∧
      (slash :: (dirs (resolve pre ++ D ++ [cacheBusterPrefix ++ h.text]) ++ e)).count 37 ≤
        path.count 37 ∧
      ∀ b ∈ slash :: (dirs (resolve pre ++ D ++ [cacheBusterPrefix ++ h.text]) ++ e),
        isControl b = false ∧ b ≠ 35 ∧ b ≠ 63 := by
  have hurl := fun b (hb : ¬Plain b) => hloc.count_url hb
  generalize slash :: (dirs (resolve pre ++ D ++ [cacheBusterPrefix ++ h.text]) ++ e) = url
    at hparse hurl ⊢
  obtain ⟨v, hstart, hv, hplain, hwhole⟩ := parsePath_eq_some hparse
  have hle : ∀ b, ¬Plain b → url.count b ≤ path.count b := by
    intro b hb
    rw [← hpath, List.count_append]
    exact (hurl b hb).trans (Nat.add_le_add_left (hcount b hb) _)
  have hpercent : url.count 37 ≤ path.count 37 := hle 37 (by decide)
  have hnot : ∀ b, b = 35 ∨ b = 63 → b ∉ url := by
    intro b hb hmem
    have hnotPlain : ¬Plain b := by rcases hb with rfl | rfl <;> decide
    have hpos := List.count_pos_iff.mpr hmem
    have hpathb : b ∈ path := List.count_pos_iff.mp (hpos.trans_le (hle b hnotPlain))
    rcases hv.mem ((hstart.sublist.count_le 37).trans hpercent) hpathb with rfl | hbv
    · exact absurd hb (by decide)
    · exact hb.elim (hplain b hbv).2.1 (hplain b hbv).2.2
  obtain rfl := hwhole (hnot 35 (.inl rfl)) (hnot 63 (.inr rfl))
  exact ⟨hv, hpercent, hplain⟩

/-- The pattern that gets the request ends in a slash, and no other pattern takes the path. -/
theorem Locates.longest (hne : pre ≠ [])
    (hv : Unescapes (slash :: (dirs (resolve pre ++ D ++ [cacheBusterPrefix ++ h.text]) ++ e))
      r.path)
    (hpercent :
      (slash :: (dirs (resolve pre ++ D ++ [cacheBusterPrefix ++ h.text]) ++ e)).count 37 ≤
        r.path.count 37)
    (hpattern : (reg'.PatternMuxer.handler env r).2 = pre) :
    pre.getLast? = some slash ∧
      ∀ q ∈ reg'.PatternMuxer.patterns.map Prod.fst, ¬ServeMux.Takes pre r.path q := by
  obtain ⟨G', e', hG', -, hnames, hname, hpath⟩ := hv.rooted hpercent hloc.names hloc.isName
  have hbelow : (resolve pre).length ≤ G'.length := by
    rw [← hG'.length_eq, List.length_append, List.length_append, Nat.add_assoc]
    exact Nat.le_add_right _ _
  obtain ⟨hlast, -, hothers⟩ := longest_of_asset hnames hname hbelow hne hpath hpattern
  exact ⟨hlast, hothers⟩

theorem Locates.notMem {D' : List Path} {e' name : Path} (hD' : List.Forall₂ Unescapes D D')
    (he' : Unescapes e e') (hnames : ∀ d ∈ D', IsName d) (hname : IsName e')
    (hbuster : serv.UseCacheBuster = true)
    (hr : r.path = dirs (D' ++ [cacheBusterPrefix ++ h.text]) ++ e')
    (hopens : opens serv env r = [name])
    (hfile : name ∈ [file, file ++ brotliSuffix, file ++ gzipSuffix]) :
    (∀ d ∈ D, 37 ∉ d) ∧ 37 ∉ e := by
  obtain ⟨p, hrequested, hp⟩ := name_of_opens hopens
  rw [requested_asset hbuster h hr hnames hname, Except.ok.injEq] at hrequested
  rw [hloc.file_eq] at hfile
  exact notMem_of_opened hloc.dirs_isName hloc.isName hD' he' hnames hname
    (hrequested ▸ indexed_file hnames hname) hp hfile

/-- Behind a clean prefix the names of the path are those of the URL without their escapes. -/
theorem Locates.exists_names {path q : Path} (hhead : pre.head? = some slash)
    (hlast : pre.getLast? = some slash) (hq : pre ++ q = path)
    (hv : Unescapes (slash :: (dirs (resolve pre ++ D ++ [cacheBusterPrefix ++ h.text]) ++ e)) path)
    (hpercent :
      (slash :: (dirs (resolve pre ++ D ++ [cacheBusterPrefix ++ h.text]) ++ e)).count 37 ≤
        path.count 37) :
    cleanPath pre = pre ∧ (∀ d ∈ resolve pre, 37 ∉ d) ∧
      ∃ D' e', List.Forall₂ Unescapes D D' ∧ Unescapes e e' ∧ (∀ d ∈ D', IsName d) ∧ IsName e' ∧
        q = dirs (D' ++ [cacheBusterPrefix ++ h.text]) ++ e' := by
  obtain ⟨G', e', hG', he', hnames, hname, rfl⟩ := hv.rooted hpercent hloc.names hloc.isName
  have hstart : pre <+: slash :: (dirs G' ++ e') := ⟨q, hq⟩
  have hclean := cleanPath_of_isPrefix hnames hname hstart hlast
  have hpre := eq_dirs_of_cleanPath hclean hhead hlast
  have hdirs : resolve pre <+: G' := by
    have hslash : slash :: dirs (resolve pre) <+: slash :: (dirs G' ++ e') := hpre ▸ hstart
    exact prefix_of_dirs hnames hname (fun d hd => (resolve_isName d hd).noSlash)
      (List.cons_prefix_cons.mp hslash).2
  have hbusted : 37 ∉ cacheBusterPrefix ++ h.text := fun hmem =>
    (plain_busted h 37 hmem).2.2.1 rfl
  obtain ⟨D', hD', rfl, hP⟩ := exists_unescaped hG' hdirs hbusted
  refine ⟨hclean, hP, D', e', hD', he', fun d hd => ?_, hname, ?_⟩
  · exact hnames d (List.mem_append_left _ (List.mem_append_right _ hd))
  · refine (List.append_right_inj pre).mp ?_
    rw [hq]
    nth_rewrite 2 [hpre]
    simp

/-- A URL that is its own path stands for what the asset needs to be routed. -/
theorem Locates.routed_of_path (hhead : pre.head? = some slash) (hclean : cleanPath pre = pre)
    (hlast : pre.getLast? = some slash)
    (hplain : ∀ b ∈ slash :: (dirs (resolve pre ++ D ++ [cacheBusterPrefix ++ h.text]) ++ e),
      Plain b)
    (hothers : ∀ q ∈ reg'.PatternMuxer.patterns.map Prod.fst, ¬ServeMux.Takes pre
      (slash :: (dirs (resolve pre ++ D ++ [cacheBusterPrefix ++ h.text]) ++ e)) q) :
    Routed reg' pre file := by
  refine ⟨fun b hb => hplain b ?_, hclean, hlast, fun h' hh' q hq => ?_⟩
  · rw [hloc.file_eq, join_asset hhead hloc.dirs_isName hloc.isName] at hb
    simp only [List.mem_cons, List.mem_append, dirs_append] at hb ⊢
    tauto
  · obtain rfl := Option.some.inj (hloc.hash.symm.trans hh')
    rw [hloc.file_eq, assetUrl_eq hclean hhead hlast hloc.isName]
    exact hothers q hq

theorem Locates.routed (hhead : pre.head? = some slash)
    (hreg : registerAssetDirectory [] reg pre fsys = .ok reg')
    (hreach : Reachable env reg' next w s pre fsys file) : Routed reg' pre file := by
  have hne : pre ≠ [] := by
    rintro rfl
    cases hhead
  obtain ⟨url, path, hurl, hparse, hall⟩ := hreach
  rw [hloc.getAssetUrl_eq] at hurl
  obtain rfl := Except.ok.inj hurl
  obtain ⟨r, rfl⟩ : ∃ r : FileRequest, r.path = path :=
    ⟨⟨⟨fun _ => none, none, none⟩, path, none⟩, rfl⟩
  obtain ⟨⟨serv, -, hpattern⟩, name, hname, hopened⟩ := hall r rfl
  -- the directory that is registered gets what is below the prefix
  have hmem : (pre, StaticHandler.asset pre ⟨fsys, false, true, []⟩) ∈
      reg'.PatternMuxer.patterns := by
    rw [(registerAssetDirectory_nil hreg).1]
    exact List.mem_append_right _ List.mem_cons_self
  obtain ⟨q, hq, hhandler, hopens⟩ :=
    exists_opens hmem (congrArg Prod.snd hpattern) hne hopened
  obtain ⟨hv, hpercent, hplain⟩ :=
    hloc.unescapes hparse hq fun b hb => count_of_opened hb hopens hname
  obtain ⟨hlast, hothers⟩ := hloc.longest hne hv hpercent (congrArg Prod.snd hhandler)
  obtain ⟨hclean, hP, D', e', hD', he', hnames, hname', hbelow⟩ :=
    hloc.exists_names hhead hlast hq hv hpercent
  -- nothing in the URL is an escape, so it is the path
  obtain ⟨hD, he⟩ := hloc.notMem hD' he' hnames hname' rfl hbelow hopens hname
  have hnot := notMem_url h hP hD he
  rw [hv.eq (List.count_eq_zero.mpr hnot)] at hothers
  refine hloc.routed_of_path hhead hclean hlast (fun b hb => ?_) hothers
  obtain ⟨hcontrol, hnumber, hquery⟩ := hplain b hb
  exact ⟨hcontrol, hnumber, fun heq => hnot (heq ▸ hb), hquery⟩

theorem Locates.reachable (hhead : pre.head? = some slash) (hfs : Lawful fsys)
    (hreg : registerAssetDirectory [] reg pre fsys = .ok reg') (hrouted : Routed reg' pre file) :
    Reachable env reg' next w s pre fsys file := by
  have hpre := eq_dirs_of_cleanPath hrouted.clean hhead hrouted.last
  have hne : pre ≠ [] := hpre ▸ List.cons_ne_nil _ _
  have hbelow : slash :: (dirs (resolve pre ++ D ++ [cacheBusterPrefix ++ h.text]) ++ e) =
      pre ++ (dirs (D ++ [cacheBusterPrefix ++ h.text]) ++ e) := by
    rw [← assetUrl_eq hrouted.clean hhead hrouted.last hloc.isName]
    simp [assetUrl, split_dirs hloc.isName.noSlash]
  obtain ⟨data, hread⟩ := hloc.read
  obtain ⟨info, hstat, -⟩ := hfs.read _ _ hread
  have hplain : ∀ b ∈ slash :: (dirs (resolve pre ++ D ++ [cacheBusterPrefix ++ h.text]) ++ e),
      Plain b := by
    have hjoin := hrouted.plain
    rw [hloc.file_eq, join_asset hhead hloc.dirs_isName hloc.isName] at hjoin
    have hslash : Plain slash := by decide
    have hbusted := plain_busted h
    intro b hb
    simp only [List.mem_cons, List.mem_append, dirs_append, dirs_cons, dirs_nil] at hb hjoin hbusted
    grind
  refine ⟨_, _, hloc.getAssetUrl_eq, parsePath_of_plain hplain, fun r hr => ?_⟩
  have hhandler : reg'.PatternMuxer.handler env r =
      ((StaticHandler.asset pre ⟨fsys, false, true, []⟩).serveHTTP env, pre) := by
    apply ServeMux.handler_of_longest
    · rw [(registerAssetDirectory_nil hreg).1]
      exact List.mem_append_right _ List.mem_cons_self
    · rw [hr, cleanPath_file hloc.names hloc.isName]
    · rw [hr, hbelow, ServeMux.Matches, if_pos hrouted.last]
      exact List.prefix_append _ _
    · rw [hr, ← assetUrl_eq hrouted.clean hhead hrouted.last hloc.isName, ← hloc.file_eq]
      exact hrouted.others h hloc.hash
  refine ⟨⟨_, rfl, hhandler⟩, ?_⟩
  have hresolve : FileSystemServer.resolve ⟨fsys, false, true, []⟩
      { r with path := dirs (D ++ [cacheBusterPrefix ++ h.text]) ++ e } env.strs =
      .ok (some file) := by
    obtain ⟨hfile, hD, he, -, -, hvalid, -⟩ := hloc
    subst hfile
    exact resolve_asset hfs rfl h rfl hD he hvalid hread
  have hexists : FileSystemServer.pathExists ⟨fsys, false, true, []⟩ file = true := by
    rw [FileSystemServer.pathExists, hstat]
    rfl
  obtain ⟨name, hname, hopens⟩ := opens_asset hresolve hexists
  exact ⟨name, hname, hopens ▸ opened_asset hne hhandler (hr.trans hbelow)⟩

end Located

/-- The URL of an asset leads to its file if and only if no byte of it stands for something else in
a URL, the prefix is clean and ends in a slash, and no other pattern takes the URL. -/
theorem reachable_iff (hhead : pre.head? = some slash) (hfs : Lawful fsys)
    (hreg : registerAssetDirectory [] reg pre fsys = .ok reg')
    (hfile : ∃ d ∈ fsys.walk, d.path = file ∧ d.isDir = false)
    (hgz : ¬gzipSuffix <:+ file) (hbr : ¬brotliSuffix <:+ file) :
    Reachable env reg' next w s pre fsys file ↔ Routed reg' pre file := by
  obtain ⟨D, h, e, hloc⟩ := exists_locates hhead hfs hreg hfile hgz hbr
  exact ⟨hloc.routed hhead hreg, hloc.reachable hhead hfs hreg⟩

end Served

def makeFs : FileSystem := mapFS [(bytes "test1", bytes "test"), (bytes "test2.js", bytes "test2")]

def noRoutes : Registry Unit := ⟨⟨[], List.nodup_nil, fun _ _ _ => pure ()⟩, ∅⟩

def nextHandler : ServeHTTP Unit := fun w _ => onExchange (notFound w)

theorem lawful_mapFS {files : List (Path × Bytes)}
    (hvalid : ∀ file ∈ files, validPath file.1 = true)
    (hroot : files.lookup [dot] = none) : Lawful (mapFS files) := by
  refine ⟨fun d hd => ?_, fun name data hread => ?_, fun info hstat => ?_⟩
  · rcases List.mem_cons.mp hd with rfl | hd
    · decide
    · obtain ⟨file, hfile, rfl⟩ := List.mem_map.mp hd
      exact hvalid file hfile
  · rw [mapFS] at hread ⊢
    dsimp only at hread ⊢
    cases hlookup : files.lookup name with
    | none =>
      rw [hlookup] at hread
      cases hread
    | some data => exact ⟨_, rfl, rfl⟩
  · rw [mapFS] at hstat
    dsimp only at hstat
    rw [hroot] at hstat
    cases hstat
    rfl

theorem lawful_makeFs : Lawful makeFs := lawful_mapFS (by decide) (by decide)

theorem exists_test2 : ∃ d ∈ makeFs.walk, d.path = bytes "test2.js" ∧ d.isDir = false :=
  ⟨⟨bytes "test2.js", false, none⟩, by simp [makeFs, mapFS], rfl, rfl⟩

theorem exists_registered (proxyPath pre : Path)
    (h : (registerAssetDirectory proxyPath noRoutes pre makeFs).isOk = true) :
    ∃ reg, registerAssetDirectory proxyPath noRoutes pre makeFs = .ok reg := by
  cases hreg : registerAssetDirectory proxyPath noRoutes pre makeFs with
  | error panic =>
    rw [hreg] at h
    cases h
  | ok reg => exact ⟨reg, rfl⟩

theorem reachable_iff_makeFs : ∃ reg,
    registerAssetDirectory [] noRoutes (bytes "/assets/") makeFs = .ok reg ∧
    Reachable testEnv reg nextHandler .server freshServing (bytes "/assets/") makeFs
      (bytes "test2.js") := by
  obtain ⟨reg, hreg⟩ := exists_registered [] (bytes "/assets/") (by decide)
  refine ⟨reg, hreg, ?_⟩
  apply (reachable_iff (by decide) lawful_makeFs hreg exists_test2 (by decide) (by decide)).mpr
  refine ⟨plain_of_all (by decide), by decide, by decide, fun h _ q hq htakes => ?_⟩
  rw [(registerAssetDirectory_nil hreg).1] at hq
  obtain rfl : q = bytes "/assets/" := List.mem_singleton.mp hq
  rcases htakes with ⟨-, hlt⟩ | heq
  · exact absurd hlt (Nat.lt_irrefl _)
  · have hlength := congrArg List.length heq
    simp only [assetUrl, List.length_append, List.length_singleton] at hlength
    omega

/-- As the tests register it, the directory gets a request for its prefix only. -/
theorem prefix_without_slash : ∃ reg,
    registerAssetDirectory [] noRoutes (bytes "/assets") makeFs = .ok reg ∧
    ¬Reachable testEnv reg nextHandler .server freshServing (bytes "/assets") makeFs
      (bytes "test2.js") := by
  obtain ⟨reg, hreg⟩ := exists_registered [] (bytes "/assets") (by decide)
  obtain ⟨D, h, e, hloc⟩ :=
    exists_locates (by decide) lawful_makeFs hreg exists_test2 (by decide) (by decide)
  refine ⟨reg, hreg, fun hreach => ?_⟩
  exact absurd (hloc.routed (by decide) hreg hreach).last (by decide)

/-- The URL and the pattern have the proxy path once, and the pattern is stripped from requests. -/
structure Agrees (proxyPath pre file : Path) (reg reg' : Registry ε) : Prop where
  url : ∃ h, getAssetUrl proxyPath reg'.cacheBuster (join [pre, file]) =
    .ok (assetUrl (proxyPath ++ pre) file h)
  pattern : ∃ pattern stripped serv, reg'.PatternMuxer.patterns =
    reg.PatternMuxer.patterns ++ [(pattern, .asset stripped serv)] ∧
      pattern = proxyPath ++ pre ∧ stripped = pattern

section Proxy

variable {proxyPath pre file : Path} {reg reg' : Registry ε} {fsys : FileSystem}

/-- The directory is registered with the proxy path twice, and only one is stripped. -/
theorem patterns_behind_proxy (hproxy : proxyPath.head? = some slash)
    (hhead : pre.head? = some slash)
    (hreg : registerAssetDirectory proxyPath reg pre fsys = .ok reg') :
    reg'.PatternMuxer.patterns = reg.PatternMuxer.patterns ++
      [(proxyPath ++ (proxyPath ++ pre),
        .asset (proxyPath ++ pre) ⟨fsys, false, true, []⟩)] := by
  have hne : proxyPath ≠ [] := by
    rintro rfl
    cases hproxy
  have hhead' : (proxyPath ++ pre).head? = some slash := by
    rw [List.head?_append_of_ne_nil _ hne, hproxy]
  obtain ⟨stripped, pattern, hstripped, hpattern, hpatterns, -⟩ := registerAssetDirectory_ok hreg
  rw [joinProxyPath_rooted hne hhead] at hstripped
  cases hstripped
  rw [joinProxyPath_rooted hne hhead'] at hpattern
  cases hpattern
  exact hpatterns

/-- The URL and the routes never agree. -/
theorem not_agrees (hproxy : proxyPath.head? = some slash) (hhead : pre.head? = some slash)
    (hreg : registerAssetDirectory proxyPath reg pre fsys = .ok reg') :
    ¬Agrees proxyPath pre file reg reg' := by
  rintro ⟨-, pattern, stripped, serv, hpatterns, hpattern, -⟩
  rw [patterns_behind_proxy hproxy hhead hreg, List.append_cancel_left_eq, List.cons.injEq,
    Prod.mk.injEq, hpattern] at hpatterns
  have hproxy' : proxyPath = [] := List.append_left_eq_self.mp hpatterns.1.1
  rw [hproxy'] at hproxy
  cases hproxy

theorem not_agrees_makeFs : ∃ reg,
    registerAssetDirectory (bytes "/app") noRoutes (bytes "/assets/") makeFs = .ok reg ∧
    ¬Agrees (bytes "/app") (bytes "/assets/") (bytes "test2.js") noRoutes reg := by
  obtain ⟨reg, hreg⟩ := exists_registered (bytes "/app") (bytes "/assets/") (by decide)
  exact ⟨reg, hreg, not_agrees (by decide) (by decide) hreg⟩

/-- The muxer of the tests has the pattern `/app/app/assets/`. -/
theorem proxied_twice : ∃ reg,
    registerAssetDirectory (bytes "/app") noRoutes (bytes "/assets/") makeFs = .ok reg ∧
    reg.PatternMuxer.registered (bytes "/app/assets/") = false ∧
    ¬Agrees (bytes "/app") (bytes "/assets/") (bytes "test2.js") noRoutes reg := by
  obtain ⟨reg, hreg⟩ := exists_registered (bytes "/app") (bytes "/assets/") (by decide)
  have hpatterns := patterns_behind_proxy (by decide) (by decide) hreg
  have hnot : reg.PatternMuxer.registered (bytes "/app/assets/") = false := by
    rw [ServeMux.registered, hpatterns]
    decide
  refine ⟨reg, hreg, hnot, ?_⟩
  rintro ⟨-, pattern, stripped, serv, hregistered, rfl, -⟩
  have hmem : bytes "/app" ++ bytes "/assets/" ∈ reg.PatternMuxer.patterns.map Prod.fst := by
    rw [hregistered]
    simp
  have hbytes : bytes "/app" ++ bytes "/assets/" = bytes "/app/assets/" := by decide
  rw [← ServeMux.registered_iff, hbytes, hnot] at hmem
  cases hmem

end Proxy

end GoraddServe.AssetUrls
