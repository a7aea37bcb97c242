import GoraddServe.AssetRoutes

/-!
# Local paths behind a proxy

The path of the proxy and a local path are joined, which cleans the whole, so what is added to is
changed as well when one of its elements is empty or has dots only, also in a query. A path that
begins with two slashes is taken for a local one.
-/
namespace GoraddServe.LocalPaths
open GoPaths Panics ResponseWriters CacheBuster AssetRoutes

variable {proxyPath p q x : Path}

/-- The path begins with one slash and no more. -/
def SingleSlash (p : Path) : Prop := p.head? = some slash ∧ p.tail.head? ≠ some slash

instance (p : Path) : Decidable (SingleSlash p) := inferInstanceAs (Decidable (_ ∧ _))

/-- A local path gets the proxy path before it, as a pattern does, and any other stays. -/
structure OnlyAdds (proxyPath p : Path) : Prop where
  single : SingleSlash p → makeLocalPath proxyPath p = .ok (proxyPath ++ p) ∧
    joinProxyPath proxyPath p = .ok (proxyPath ++ p)
  other : ¬SingleSlash p → makeLocalPath proxyPath p = .ok p

def withoutLastSlash (p : Path) : Path := if p.getLast? = some slash then p.dropLast else p

/-- After one slash there are only elements that cleaning keeps, in both paths. After two slashes
there is nothing, and nothing is left of the proxy path. -/
structure Kept (proxyPath p : Path) : Prop where
  single : SingleSlash p → (∀ e ∈ elements proxyPath.tail, Proper e) ∧
    (p = [slash] ∨ ∀ e ∈ elements (withoutLastSlash p).tail, Proper e)
  double : p.head? = some slash → ¬SingleSlash p → p = [slash, slash] ∧ resolve proxyPath = []

theorem elements_resolve_ne_nil (h : resolve x ≠ []) :
    elements ([slash].intercalate (resolve x)) = resolve x := by
  have hname : ∀ e ∈ resolve x, IsName e := resolve_isName
  obtain ⟨D, e, hsplit⟩ := (List.eq_nil_or_concat' (resolve x)).resolve_left h
  rw [hsplit] at hname ⊢
  rw [intercalate_dirs, elements_file (fun d hd => hname d (List.mem_append_left _ hd))
    (hname e (List.mem_append_right _ List.mem_cons_self))]

theorem intercalate_resolve_iff (hx : x ≠ []) :
    [slash].intercalate (resolve x) = x ↔ ∀ e ∈ elements x, Proper e := by
  constructor
  · intro heq e he
    have hne : resolve x ≠ [] := by
      intro hnil
      rw [hnil] at heq
      exact hx heq.symm
    rw [← heq, elements_resolve_ne_nil hne] at he
    exact (resolve_isName e he).proper
  · intro hproper
    rw [resolve, foldl_push hproper, List.append_nil, List.reverse_reverse]
    exact List.intercalate_splitOn slash

theorem resolve_slash_slash : resolve (p ++ slash :: slash :: q) = resolve (p ++ slash :: q) := by
  have hempty : elements (slash :: q) = [] :: elements q := by
    rw [← List.nil_append (slash :: q), elements_append]
    rfl
  rw [resolve, elements_append, hempty, List.foldl_append, List.foldl_cons, push_empty,
    ← List.foldl_append, ← elements_append, resolve]

theorem resolve_concat_slash : resolve (p ++ [slash]) = resolve p := by
  rw [resolve, elements_append, List.foldl_append]
  rfl

theorem join_local : join [slash :: x, slash :: q] =
    slash :: [slash].intercalate (resolve (x ++ slash :: q)) := by
  have hjoin : join [slash :: x, slash :: q] = clean (slash :: (x ++ slash :: slash :: q)) := by
    simp [join, List.intercalate_cons_cons]
  rw [hjoin, clean_rooted, resolve_slash_slash]

theorem makeLocalPath_local : makeLocalPath (slash :: x) (slash :: q) =
    .ok (slash :: [slash].intercalate (resolve (x ++ slash :: q)) ++
      if (slash :: q).getLast? = some slash then [slash] else []) := by
  rw [makeLocalPath, if_neg (List.cons_ne_nil _ _), if_pos ⟨List.head?_cons, List.cons_ne_nil _ _⟩,
    join_local]
  split
  · rfl
  · rw [List.append_nil]

theorem makeLocalPath_other (hp : p ≠ []) (hhead : p.head? ≠ some slash) :
    makeLocalPath proxyPath p = .ok p := by
  rw [makeLocalPath, if_neg hp, if_neg fun h => hhead h.1]

theorem forall_elements_append : (∀ e ∈ elements (p ++ slash :: q), Proper e) ↔
    (∀ e ∈ elements p, Proper e) ∧ ∀ e ∈ elements q, Proper e := by
  rw [elements_append]
  exact List.forall_mem_append

theorem local_file_iff (hlast : (slash :: q).getLast? ≠ some slash) :
    makeLocalPath (slash :: x) (slash :: q) = .ok (slash :: x ++ slash :: q) ↔
      (∀ e ∈ elements x, Proper e) ∧ ∀ e ∈ elements q, Proper e := by
  rw [makeLocalPath_local, if_neg hlast, List.append_nil, Except.ok.injEq, List.cons_append,
    List.cons.injEq, eq_self_iff_true, true_and, ← forall_elements_append]
  exact intercalate_resolve_iff (by simp)

theorem local_dir_iff : makeLocalPath (slash :: x) (slash :: (q ++ [slash])) =
      .ok (slash :: x ++ slash :: (q ++ [slash])) ↔
      (∀ e ∈ elements x, Proper e) ∧ ∀ e ∈ elements q, Proper e := by
  have hlast : (slash :: (q ++ [slash])).getLast? = some slash := by
    rw [← List.cons_append, List.getLast?_concat]
  have hassoc : x ++ slash :: (q ++ [slash]) = (x ++ slash :: q) ++ [slash] := by simp
  rw [makeLocalPath_local, if_pos hlast, Except.ok.injEq, List.cons_append, List.cons_append,
    List.cons.injEq, eq_self_iff_true, true_and, hassoc, List.append_left_inj,
    resolve_concat_slash, ← forall_elements_append]
  exact intercalate_resolve_iff (by simp)

theorem local_root_iff (hx : x ≠ []) : makeLocalPath (slash :: x) [slash] =
      .ok (slash :: x ++ [slash]) ↔ ∀ e ∈ elements x, Proper e := by
  rw [makeLocalPath_local, if_pos List.getLast?_singleton, Except.ok.injEq, List.cons_append,
    List.cons_append, List.cons.injEq, eq_self_iff_true, true_and, List.append_left_inj,
    resolve_concat_slash]
  exact intercalate_resolve_iff hx

theorem single_iff (hx : x ≠ []) :
    makeLocalPath (slash :: x) (slash :: q) = .ok (slash :: x ++ slash :: q) ↔
      (∀ e ∈ elements x, Proper e) ∧
        (slash :: q = [slash] ∨ ∀ e ∈ elements (withoutLastSlash (slash :: q)).tail, Proper e) := by
  rcases List.eq_nil_or_concat' q with rfl | ⟨q, b, rfl⟩
  · rw [local_root_iff hx]
    exact (and_iff_left (.inl rfl)).symm
  have hne : slash :: (q ++ [b]) ≠ [slash] := by simp
  have hlast : (slash :: (q ++ [b])).getLast? = some b := by
    rw [← List.cons_append, List.getLast?_concat]
  rw [or_iff_right hne, withoutLastSlash, hlast]
  by_cases hb : b = slash
  · subst hb
    rw [if_pos rfl, ← List.cons_append, List.dropLast_concat]
    exact local_dir_iff
  · have hb' : some b ≠ some slash := fun h => hb (Option.some.inj h)
    rw [if_neg hb']
    exact local_file_iff (hlast ▸ hb')

theorem head_intercalate_resolve : ([slash].intercalate (resolve x)).head? ≠ some slash := by
  have hname : ∀ e ∈ resolve x, IsName e := resolve_isName
  rcases List.eq_nil_or_concat' (resolve x) with hnil | ⟨D, e, hsplit⟩
  · rw [hnil]
    exact fun h => by cases h
  · rw [hsplit] at hname ⊢
    rw [intercalate_dirs]
    exact head_file (fun d hd => hname d (List.mem_append_left _ hd))
      (hname e (List.mem_append_right _ List.mem_cons_self))

theorem double_iff : makeLocalPath (slash :: x) (slash :: slash :: q) =
    .ok (slash :: slash :: q) ↔
      slash :: slash :: q = [slash, slash] ∧ resolve (slash :: x) = [] := by
  have hresolve : resolve (x ++ [slash, slash]) = resolve x := by
    rw [resolve_slash_slash, resolve_concat_slash]
  rw [makeLocalPath_local, Except.ok.injEq, List.cons_append, List.cons.injEq, eq_self_iff_true,
    true_and, resolve_slash]
  constructor
  · intro heq
    have hnil : [slash].intercalate (resolve (x ++ slash :: slash :: q)) = [] := by
      by_contra hne
      refine head_intercalate_resolve (x := x ++ slash :: slash :: q) ?_
      rw [← List.head?_append_of_ne_nil _ hne, heq, List.head?_cons]
    rw [hnil, List.nil_append] at heq
    split at heq
    · cases heq
      refine ⟨rfl, ?_⟩
      rw [hresolve] at hnil
      by_contra hne
      have helements := elements_resolve_ne_nil hne
      rw [hnil] at helements
      have hmem : [] ∈ resolve x := helements ▸ List.mem_cons_self
      exact (resolve_isName [] hmem).proper.1 rfl
    · cases heq
  · rintro ⟨heq, hnil⟩
    cases heq
    rw [hresolve, hnil]
    rfl

/-- `MakeLocalPath` only adds the proxy path when and only when joining the two leaves them as they
are. -/
theorem onlyAdds_iff (hhead : proxyPath.head? = some slash)
    (hlast : proxyPath.getLast? ≠ some slash) (hp : p ≠ []) :
    OnlyAdds proxyPath p ↔ Kept proxyPath p := by
  obtain ⟨x, rfl⟩ := List.head?_eq_some_iff.mp hhead
  have hx : x ≠ [] := by
    rintro rfl
    exact hlast rfl
  by_cases hrooted : p.head? = some slash
  · obtain ⟨q, rfl⟩ := List.head?_eq_some_iff.mp hrooted
    have hjoin : joinProxyPath (slash :: x) (slash :: q) = .ok (slash :: x ++ slash :: q) :=
      joinProxyPath_rooted (List.cons_ne_nil _ _) hrooted
    by_cases hsingle : SingleSlash (slash :: q)
    · have hiff := single_iff (q := q) hx
      exact ⟨fun h => ⟨fun _ => hiff.mp (h.single hsingle).1, fun _ h => absurd hsingle h⟩,
        fun h => ⟨fun _ => ⟨hiff.mpr (h.single hsingle), hjoin⟩, fun h => absurd hsingle h⟩⟩
    · obtain ⟨q, rfl⟩ := List.head?_eq_some_iff.mp (not_not.mp fun h => hsingle ⟨hrooted, h⟩)
      exact ⟨fun h => ⟨fun h => absurd h hsingle, fun _ _ => double_iff.mp (h.other hsingle)⟩,
        fun h => ⟨fun h => absurd h hsingle, fun _ => double_iff.mpr (h.double hrooted hsingle)⟩⟩
  · have hsingle : ¬SingleSlash p := fun h => hrooted h.1
    exact ⟨fun _ => ⟨fun h => absurd h hsingle, fun h => absurd h hrooted⟩,
      fun _ => ⟨fun h => absurd h hsingle, fun _ => makeLocalPath_other hp hrooted⟩⟩

theorem onlyAdds_iff_test : OnlyAdds (bytes "/proxy") (bytes "/test/") ↔
    Kept (bytes "/proxy") (bytes "/test/") :=
  onlyAdds_iff (by decide) (by decide) (by decide)

/-- A URL in a query loses a slash, and a path on another host becomes a local one. -/
theorem query_and_host_changed :
    ¬OnlyAdds (bytes "/proxy") (bytes "/login?to=http://host/") ∧
      ¬OnlyAdds (bytes "/proxy") (bytes "//host/path") := by
  refine ⟨fun h => ?_, fun h => ?_⟩
  · have hjoined : makeLocalPath (bytes "/proxy") (bytes "/login?to=http://host/") =
        .ok (bytes "/proxy/login?to=http:/host/") := by rfl
    have hsame := Except.ok.inj (hjoined.symm.trans (h.single (by decide)).1)
    exact absurd hsame (by decide)
  · have hjoined : makeLocalPath (bytes "/proxy") (bytes "//host/path") =
        .ok (bytes "/proxy/host/path") := by rfl
    have hsame := Except.ok.inj (hjoined.symm.trans (h.other (by decide)))
    exact absurd hsame (by decide)

end GoraddServe.LocalPaths
