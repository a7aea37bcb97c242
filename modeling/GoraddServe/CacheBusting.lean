import GoraddServe.AssetUrls

/-!
# Cache busting and stripping

The keys of the cache buster are clean paths from the root, because the prefix and the name of a
file are joined, so a checksum that is put before the last element is found there again and taken
out. A compressed form of a file has the key of the file, whose last element may then be none.
-/
namespace GoraddServe.CacheBusting
open GoMaps GoPaths Panics ResponseWriters CacheBuster StaticFiles FileRoutes AssetRoutes

variable {ε : Type} {strs : StringTests} {D : List Path} {e p s s' : Path} {h : Hash}
  {cacheBuster cacheBuster' : Checksums}

/-- A proxy path and a prefix that begin as they should. -/
structure Rooted (proxyPath pre : Path) : Prop where
  proxyPath : proxyPath = [] ∨ proxyPath.head? = some slash
  pre : pre.head? = some slash

/-- What calls of `RegisterAssetDirectory` make of the cache buster. A call that panics leaves what
it has registered by then. -/
inductive Built : Checksums → Prop where
  | empty : Built ∅
  | registered {ε : Type} {reg reg' : Registry ε} {proxyPath pre : Path} {fsys : FileSystem}
      (built : Built reg.cacheBuster) (rooted : Rooted proxyPath pre)
      (call : registerAssetDirectory proxyPath reg pre fsys = .ok reg') : Built reg'.cacheBuster
  | stopped {cacheBuster cacheBuster' : Checksums} {proxyPath pre pre' : Path} {fsys : FileSystem}
      {walked : List WalkEntry} (built : Built cacheBuster) (rooted : Rooted proxyPath pre)
      (joined : joinProxyPath proxyPath pre = .ok pre') (part : walked <+: fsys.walk)
      (files : walked.foldlM (registerFile fsys pre') cacheBuster = .ok cacheBuster') :
      Built cacheBuster'

/-- A path of names from the root, and what follows the last slash. -/
def IsKey (s : Path) : Prop :=
  ∃ D e, (∀ d ∈ D, IsName d) ∧ slash ∉ e ∧ s = slash :: (dirs D ++ e)

theorem isKey_join {pre : Path} (hhead : pre.head? = some slash) (p : Path) :
    IsKey (join [pre, p]) := by
  obtain ⟨q, rfl⟩ := List.head?_eq_some_iff.mp hhead
  have hjoin : join [slash :: q, p] = clean (slash :: (q ++ slash :: p)) := by
    simp [join, List.intercalate_cons_cons]
  rw [hjoin, clean_rooted]
  have hname : ∀ e ∈ resolve (q ++ slash :: p), IsName e := resolve_isName
  rcases List.eq_nil_or_concat' (resolve (q ++ slash :: p)) with hnil | ⟨E, e, hE⟩
  · rw [hnil]
    exact ⟨[], [], by simp, List.not_mem_nil, rfl⟩
  · rw [hE] at hname ⊢
    rw [intercalate_dirs]
    exact ⟨E, e, fun d hd => hname d (List.mem_append_left _ hd),
      (hname e (List.mem_append_right _ List.mem_cons_self)).noSlash, rfl⟩

theorem isKey_take {suffix : Path} (hsuffix : slash ∉ suffix) (hs : IsKey s)
    (h : suffix <:+ s) : IsKey (s.take (s.length - suffix.length)) := by
  obtain ⟨D, e, hD, he, rfl⟩ := hs
  obtain ⟨q, hq⟩ := exists_directory (D := D) (e := e)
  obtain ⟨e', rfl⟩ : suffix <:+ e := suffix_of_noSlash hsuffix (hq ▸ h)
  refine ⟨D, e', hD, fun hslash => he (List.mem_append_left _ hslash), ?_⟩
  have hsplit : slash :: (dirs D ++ (e' ++ suffix)) = (slash :: (dirs D ++ e')) ++ suffix := by
    simp
  rw [hsplit, List.length_append, Nat.add_sub_cancel, List.take_left]

theorem isKey_trimSuffix (hs : IsKey s) : IsKey (trimSuffix s) := by
  rw [trimSuffix]
  split
  · next h => exact isKey_take (by decide) hs (List.isSuffixOf_iff_suffix.mp h)
  split
  · next h => exact isKey_take (by decide) hs (List.isSuffixOf_iff_suffix.mp h)
  · exact hs

def Keyed (cacheBuster : Checksums) : Prop := ∀ s, cacheBuster.has s = true → IsKey s

theorem Keyed.registerFile {fsys : FileSystem} {pre : Path} {d : WalkEntry}
    (hhead : pre.head? = some slash) (hkeyed : Keyed cacheBuster)
    (hreg : AssetRoutes.registerFile fsys pre cacheBuster d = .ok cacheBuster') :
    Keyed cacheBuster' := by
  rw [AssetRoutes.registerFile] at hreg
  split at hreg
  · cases hreg
  split at hreg
  · cases hreg
    exact hkeyed
  cases hdata : fsys.ReadFile d.path with
  | error err =>
    rw [hdata] at hreg
    cases hreg
  | ok data =>
    rw [hdata] at hreg
    cases hreg
    intro s hs
    split at hs
    · exact hkeyed s hs
    · rcases (GoMap.has_set ..).mp hs with rfl | hs
      · exact isKey_trimSuffix (isKey_join hhead d.path)
      · exact hkeyed s hs

theorem Keyed.registerFiles {fsys : FileSystem} {pre : Path} {l : List WalkEntry}
    (hhead : pre.head? = some slash) (hkeyed : Keyed cacheBuster)
    (hreg : l.foldlM (AssetRoutes.registerFile fsys pre) cacheBuster = .ok cacheBuster') :
    Keyed cacheBuster' := by
  induction l generalizing cacheBuster with
  | nil =>
    cases hreg
    exact hkeyed
  | cons d l ih =>
    rw [List.foldlM_cons] at hreg
    cases hstep : AssetRoutes.registerFile fsys pre cacheBuster d with
    | error err =>
      rw [hstep] at hreg
      cases hreg
    | ok next =>
      rw [hstep] at hreg
      exact ih (hkeyed.registerFile hhead hstep) hreg

theorem Rooted.joined {proxyPath pre pre' : Path} (hrooted : Rooted proxyPath pre)
    (hjoin : joinProxyPath proxyPath pre = .ok pre') : pre'.head? = some slash := by
  rcases hrooted.proxyPath with rfl | hproxy
  · cases hjoin
    exact hrooted.pre
  · have hne : proxyPath ≠ [] := by
      rintro rfl
      cases hproxy
    rw [joinProxyPath_rooted hne hrooted.pre] at hjoin
    cases hjoin
    rw [List.head?_append_of_ne_nil _ hne, hproxy]

theorem Built.keyed (hbuilt : Built cacheBuster) : Keyed cacheBuster := by
  induction hbuilt with
  | empty =>
    intro s hs
    have hnone : (none : Option Hash).isSome = true := GoMap.get_empty s ▸ hs
    cases hnone
  | registered built rooted call ih =>
    obtain ⟨stripped, pattern, hstripped, -, -, hfiles⟩ := registerAssetDirectory_ok call
    exact ih.registerFiles (rooted.joined hstripped) hfiles
  | stopped built rooted joined part files ih => exact ih.registerFiles (rooted.joined joined) files

theorem cacheBustedPath_key (hD : ∀ d ∈ D, IsName d) (he : IsName e)
    (hget : cacheBuster.get (slash :: (dirs D ++ e)) = some h) :
    cacheBustedPath cacheBuster (slash :: (dirs D ++ e)) =
      slash :: (dirs (D ++ [cacheBusterPrefix ++ h.text]) ++ e) := by
  have hsplit : split (slash :: (dirs D ++ e)) = (slash :: dirs D, e) :=
    split_dirs (D := [] :: D) he.noSlash
  rw [cacheBustedPath, hget]
  dsimp only
  rw [hsplit, join_inserted hD (isName_busted h) he]

theorem stripCacheBusterPath_key (hD : ∀ d ∈ D, IsName d) (he : IsName e) (h : Hash) :
    stripCacheBusterPath strs (slash :: (dirs (D ++ [cacheBusterPrefix ++ h.text]) ++ e)) =
      .ok (slash :: (dirs D ++ e)) := by
  have hn := isName_busted h
  have hsplit : split (slash :: (dirs (D ++ [cacheBusterPrefix ++ h.text]) ++ e)) =
      (slash :: dirs (D ++ [cacheBusterPrefix ++ h.text]), e) :=
    split_dirs (D := [] :: (D ++ [cacheBusterPrefix ++ h.text])) he.noSlash
  have hlast : (slash :: dirs (D ++ [cacheBusterPrefix ++ h.text])).dropLast =
      slash :: (dirs D ++ (cacheBusterPrefix ++ h.text)) := by
    have hdirs : slash :: dirs (D ++ [cacheBusterPrefix ++ h.text]) =
        slash :: (dirs D ++ (cacheBusterPrefix ++ h.text)) ++ [slash] := by simp
    rw [hdirs, List.dropLast_concat]
  have hsplit' : split (slash :: (dirs D ++ (cacheBusterPrefix ++ h.text))) =
      (slash :: dirs D, cacheBusterPrefix ++ h.text) := split_dirs (D := [] :: D) hn.noSlash
  have hjoin : join [slash :: dirs D, e] = slash :: (dirs D ++ e) := by
    have helements : ∀ d ∈ elements e, Proper d := by
      rw [he.elements]
      exact List.forall_mem_singleton.mpr he.proper
    rw [join_rooted helements, resolve_dirs hD, he.elements, intercalate_dirs]
  rw [stripCacheBusterPath, hsplit]
  dsimp only
  rw [if_neg (List.cons_ne_nil _ _), hlast, hsplit']
  dsimp only
  rw [if_pos ((strs.startsWith_iff _ _).mpr (List.prefix_append _ _)), hjoin]

/-- The key of an asset whose last element is a name. -/
structure Asset (cacheBuster : Checksums) (s : Path) : Prop where
  key : cacheBuster.has s = true
  last : Proper (split s).2

theorem Asset.strip_busted (hbuilt : Built cacheBuster) (hs : Asset cacheBuster s) :
    cacheBustedPath cacheBuster s ≠ s ∧
      stripCacheBusterPath strs (cacheBustedPath cacheBuster s) = .ok s := by
  obtain ⟨D, e, hD, he, rfl⟩ := hbuilt.keyed s hs.key
  have hsplit : split (slash :: (dirs D ++ e)) = (slash :: dirs D, e) :=
    split_dirs (D := [] :: D) he
  have hname : IsName e := ⟨by simpa [hsplit] using hs.last, he⟩
  obtain ⟨h, hget⟩ := Option.isSome_iff_exists.mp hs.key
  rw [cacheBustedPath_key hD hname hget]
  refine ⟨fun heq => ?_, stripCacheBusterPath_key hD hname h⟩
  have hlength := congrArg List.length heq
  simp only [dirs_append, dirs_cons, List.length_cons, List.length_append] at hlength
  omega

/-- The checksum of an asset is taken out of its path again, and two assets never have one path. -/
theorem stripping_undoes_busting (strs : StringTests) (hbuilt : Built cacheBuster) :
    (∀ s, Asset cacheBuster s → cacheBustedPath cacheBuster s ≠ s ∧
        stripCacheBusterPath strs (cacheBustedPath cacheBuster s) = .ok s) ∧
      ∀ s s', Asset cacheBuster s → Asset cacheBuster s' → s ≠ s' →
        cacheBustedPath cacheBuster s ≠ cacheBustedPath cacheBuster s' := by
  refine ⟨fun s hs => hs.strip_busted hbuilt, fun s s' hs hs' hne heq => hne ?_⟩
  have hback : stripCacheBusterPath strs (cacheBustedPath cacheBuster s) = .ok s :=
    (hs.strip_busted hbuilt).2
  rw [heq, (hs'.strip_busted hbuilt).2] at hback
  exact (Except.ok.inj hback).symm

/-- What the test of the cache buster registers. -/
theorem stripping_undoes_busting_test2 : ∃ reg,
    registerAssetDirectory [] AssetUrls.noRoutes (bytes "/assets") AssetUrls.makeFs = .ok reg ∧
      stripCacheBusterPath testEnv.strs
          (cacheBustedPath reg.cacheBuster (bytes "/assets/test2.js")) =
        .ok (bytes "/assets/test2.js") := by
  obtain ⟨reg, hreg⟩ := AssetUrls.exists_registered [] (bytes "/assets") (by decide)
  refine ⟨reg, hreg, ?_⟩
  have hbuilt : Built reg.cacheBuster := .registered .empty ⟨.inl rfl, by decide⟩ hreg
  obtain ⟨d, hd, hpath, hdir⟩ := AssetUrls.exists_test2
  obtain ⟨-, hkey⟩ := (registerFiles_ok (registerAssetDirectory_nil hreg).2).2 d hd hdir
  have htrim : trimSuffix (join [bytes "/assets", bytes "test2.js"]) =
      bytes "/assets/test2.js" := by decide
  rw [hpath, htrim] at hkey
  exact ((stripping_undoes_busting testEnv.strs hbuilt).1 _ ⟨hkey, by decide⟩).2

end GoraddServe.CacheBusting
