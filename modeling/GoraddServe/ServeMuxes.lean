import GoraddServe.AssetRoutes
import GoraddServe.UrlPaths

/-!
# The muxer of net/http

A pattern is an optional method, an optional host and the segments of a path, some of which are
wildcards. The muxer keeps its patterns in a tree, first by host, then by method and then by
segments, and looks a request up in it: literal segments go before wildcards and these before
those that take the rest of a path. A path that is not clean, or that a slash is missing from,
is answered by a redirect.
-/
namespace GoraddServe.ServeMuxes
open GoPaths UrlPaths
open AssetRoutes (cleanPath)

def text (s : String) : Path := ResponseWriters.bytes s

/-- `s` is the literal or the name of the wildcard. A slash at the end of a pattern is a wildcard
without a name that takes the rest, and a dollar sign stands for the literal slash. -/
structure Segment where
  s : Path
  wild : Bool
  multi : Bool
  deriving DecidableEq

structure Pattern where
  str : Path
  method : Path
  host : Path
  segments : List Segment
  deriving DecidableEq

def isTokenByte (b : UInt8) : Bool :=
  decide (b < 128) && ResponseWriters.isTokenChar (Char.ofNat b.toNat)

def validMethod (method : Path) : Bool := decide (method ≠ []) && method.all isTokenByte

/-- The name of a wildcard, and whether it takes the rest of a path. -/
def cutEllipsis (name : Path) : Path × Bool :=
  if (text "...").isSuffixOf name then (name.take (name.length - 3), true) else (name, false)

/-- The segments of a path whose elements these are. The wildcards before them have the names in
`seenNames`, and `isValidWildcardName` asks Unicode which characters are letters. -/
def parseSegments (isValidWildcardName : Path → Bool) (seenNames : List Path) :
    List Path → Option (List Segment)
  | [] => some []
  | seg :: rest =>
    if seg = [] ∧ rest = [] then some [⟨[], true, true⟩]
    else if 123 ∉ seg then
      (parseSegments isValidWildcardName seenNames rest).map (⟨pathUnescape seg, false, false⟩ :: ·)
    else if seg.head? ≠ some 123 ∨ seg.getLast? ≠ some 125 then none
    else
      let name := (seg.drop 1).dropLast
      if name = text "$" then if rest = [] then some [⟨[slash], false, false⟩] else none
      else
        let (name, multi) := cutEllipsis name
        if multi = true ∧ rest ≠ [] then none
        else if name = [] ∨ isValidWildcardName name = false ∨ name ∈ seenNames then none
        else
          (parseSegments isValidWildcardName (name :: seenNames) rest).map
            (⟨name, true, multi⟩ :: ·)

def isBlank (b : UInt8) : Bool := decide (b = 32 ∨ b = 9)

/-- The method of a pattern, if it has one, and the rest. -/
def splitMethod (s : Path) : Path × Path :=
  if s.any isBlank then
    (s.takeWhile fun b => !isBlank b,
      ((s.dropWhile fun b => !isBlank b).drop 1).dropWhile isBlank)
  else ([], s)

/-- `parsePattern(s)`, if there is no error. -/
def parsePattern (isValidWildcardName : Path → Bool) (s : Path) : Option Pattern :=
  let method := (splitMethod s).1
  let rest := (splitMethod s).2
  let host := rest.takeWhile (· ≠ slash)
  let path := rest.dropWhile (· ≠ slash)
  if s = [] ∨ (method ≠ [] ∧ validMethod method = false) then none
  else if slash ∉ rest ∨ 123 ∈ host then none
  -- such a path would never match
  else if method ≠ [] ∧ method ≠ text "CONNECT" ∧ cleanPath path ≠ path then none
  else (parseSegments isValidWildcardName [] (elements (path.drop 1))).map (⟨s, method, host, ·⟩)

theorem parsePattern_str {isValidWildcardName : Path → Bool} {s : Path} {p : Pattern}
    (h : parsePattern isValidWildcardName s = some p) : p.str ≠ [] := by
  rw [parsePattern] at h
  split at h
  · cases h
  next hs =>
  split at h
  · cases h
  split at h
  · cases h
  obtain ⟨segments, -, rfl⟩ := Option.map_eq_some_iff.mp h
  exact fun hstr => hs (.inl hstr)

/-- `relationship` -/
inductive Relationship where
  | equivalent
  | moreGeneral
  | moreSpecific
  | disjoint
  | overlaps
  deriving DecidableEq

namespace Relationship

def inverse : Relationship → Relationship
  | moreGeneral => moreSpecific
  | moreSpecific => moreGeneral
  | r => r

def combine (r1 r2 : Relationship) : Relationship :=
  match r1 with
  | equivalent => r2
  | disjoint => disjoint
  | overlaps => if r2 = disjoint then disjoint else overlaps
  | r1 => if r2 = equivalent then r1 else if r2 = r1.inverse then overlaps else r2

end Relationship

def compareSegments (s1 s2 : Segment) : Relationship :=
  if s1.multi && s2.multi then .equivalent
  else if s1.multi then .moreGeneral
  else if s2.multi then .moreSpecific
  else if s1.wild && s2.wild then .equivalent
  else if s1.wild then if s2.s = [slash] then .disjoint else .moreGeneral
  else if s2.wild then if s1.s = [slash] then .disjoint else .moreSpecific
  else if s1.s = s2.s then .equivalent
  else .disjoint

namespace Pattern

def lastMulti (p : Pattern) : Bool := p.segments.getLast?.any (·.multi)

def compareMethods (p1 p2 : Pattern) : Relationship :=
  if p1.method = p2.method then .equivalent
  else if p1.method = [] then .moreGeneral
  else if p2.method = [] then .moreSpecific
  else if p1.method = text "GET" ∧ p2.method = text "HEAD" then .moreGeneral
  else if p2.method = text "GET" ∧ p1.method = text "HEAD" then .moreSpecific
  else .disjoint

def comparePaths (p1 p2 : Pattern) : Relationship :=
  let l1 := p1.segments.length
  let l2 := p2.segments.length
  let rel := (List.zipWith compareSegments p1.segments p2.segments).foldl Relationship.combine
    .equivalent
  if l1 ≠ l2 ∧ p1.lastMulti = false ∧ p2.lastMulti = false then .disjoint
  else if rel = .disjoint ∨ l1 = l2 then rel
  else if l1 < l2 ∧ p1.lastMulti = true then rel.combine .moreGeneral
  else if l2 < l1 ∧ p2.lastMulti = true then rel.combine .moreSpecific
  else .disjoint

def conflictsWith (p1 p2 : Pattern) : Bool :=
  let rel := (p1.compareMethods p2).combine (p1.comparePaths p2)
  decide (p1.host = p2.host ∧ (rel = .equivalent ∨ rel = .overlaps))

/-- `p.lastSegment().s != ""` -/
def lastNamed (p : Pattern) : Bool := p.segments.getLast?.any fun s => decide (s.s ≠ [])

def names (p : Pattern) : List Path :=
  (p.segments.filter fun s => s.wild && decide (s.s ≠ [])).map (·.s)

end Pattern

variable {H : Type}

/-- A pattern and its handler. -/
abbrev Leaf (H : Type) := Pattern × H

/-- The patterns below a node of the tree, each with its segments from there on. -/
abbrev Node (H : Type) := List (List Segment × Leaf H)

def Segment.key (s : Segment) : Path := if s.wild then [] else s.s

namespace Node

variable (n : Node H)

def findChild (key : Path) : Node H := n.filterMap fun e =>
  match e.1 with
  | s :: segs => if s.multi = false ∧ s.key = key then some (segs, e.2) else none
  | [] => none

def leaf : Option (Leaf H) := n.findSome? fun e => if e.1 = [] then some e.2 else none

def multiChild : Option (Leaf H) := n.findSome? fun e =>
  match e.1 with
  | [s] => if s.multi then some e.2 else none
  | _ => none

end Node

def firstSegment (path : Path) : Path × Path :=
  if path = [slash] then ([slash], [])
  else
    let path := path.drop 1
    (pathUnescape (path.takeWhile (· ≠ slash)), path.dropWhile (· ≠ slash))

def segmentsOf : ℕ → Path → List (Path × Path)
  | 0, _ => []
  | n + 1, path =>
    if path = [] then []
    else ((firstSegment path).1, path) :: segmentsOf n (firstSegment path).2

/-- The segments that `matchPath` takes off a path, each with the path it takes them off. -/
def pathSegments (path : Path) : List (Path × Path) := segmentsOf path.length path

def matchPath : List (Path × Path) → Node H → List Path → Option (Leaf H × List Path)
  | [], n, values => n.leaf.map (·, values)
  | (seg, path) :: rest, n, values =>
    (matchPath rest (n.findChild seg) values).or <|
      -- a wildcard does not match a slash at the end
      (if seg ≠ [slash] then matchPath rest (n.findChild []) (values ++ [seg]) else none).or <|
        n.multiChild.map fun leaf =>
          (leaf, if leaf.1.lastNamed then values ++ [pathUnescape (path.drop 1)] else values)

/-- The patterns are in the order of their registration, the last one first. -/
structure ServeMux (H : Type) where
  patterns : List (Leaf H)
  str_ne : ∀ e ∈ patterns, e.1.str ≠ []

namespace ServeMux

variable (mux : ServeMux H)

/-- The node for a host and a method, which may be empty. -/
def node (host method : Path) : Node H := mux.patterns.filterMap fun e =>
  if e.1.host = host ∧ e.1.method = method then some (e.1.segments, e) else none

/-- `n.matchMethodAndPath(method, path)` for the node of a host -/
def matchMethodAndPath (host method path : Path) : Option (Leaf H × List Path) :=
  (matchPath (pathSegments path) (mux.node host method) []).or <|
    (if method = text "HEAD" then matchPath (pathSegments path) (mux.node host (text "GET")) []
      else none).or <|
      matchPath (pathSegments path) (mux.node host []) []

/-- `mux.tree.match(host, method, path)` -/
def find (host method path : Path) : Option (Leaf H × List Path) :=
  (if host ≠ [] then mux.matchMethodAndPath host method path else none).or <|
    mux.matchMethodAndPath [] method path

/-- The pattern would have the same leaf in the tree. -/
def SameLeaf (p q : Pattern) : Prop :=
  p.host = q.host ∧ p.method = q.method ∧ p.lastMulti = false ∧ q.lastMulti = false ∧
    p.segments.map Segment.key = q.segments.map Segment.key

instance (p q : Pattern) : Decidable (SameLeaf p q) := inferInstanceAs (Decidable (_ ∧ _))

/-- `http.NewServeMux()` -/
def new : ServeMux H := ⟨[], fun _ h => absurd h List.not_mem_nil⟩

/-- `mux.Handle(pattern, handler)`, if it does not panic. -/
def handle (isValidWildcardName : Path → Bool) (pattern : Path) (h : H) : Option (ServeMux H) :=
  match hparse : parsePattern isValidWildcardName pattern with
  | none => none
  | some p =>
    if mux.patterns.any fun e => p.conflictsWith e.1 || decide (SameLeaf p e.1) then none
    else some
      { patterns := (p, h) :: mux.patterns
        str_ne := by
          intro e he
          rcases List.mem_cons.mp he with rfl | he
          · exact parsePattern_str hparse
          · exact mux.str_ne e he }

end ServeMux

/-- `escapedPath` is what `u.EscapedPath()` returns. -/
structure URL where
  host : Path
  path : Path
  escapedPath : Path
  rawQuery : Path

/-- `pat` and `values` are the unexported fields `pat` and `matches`. -/
structure Request where
  method : Path
  url : URL
  host : Path
  requestURI : Path
  pattern : Path
  pat : Option Pattern
  values : List Path
  otherValues : Path → Path

def Request.patIndex (r : Request) (name : Path) : Option ℕ :=
  match r.pat with
  | none => none
  | some p => p.names.idxOf? name

/-- `r.PathValue(name)`, if the value is there. -/
def Request.pathValue (r : Request) (name : Path) : Option Path :=
  match r.patIndex name with
  | some i => r.values[i]?
  | none => some (r.otherValues name)

/-- What is called: a handler, `http.RedirectHandler` for a path and a query, the handler that
answers a request that nothing matches, or the answer to the request for an asterisk. -/
inductive Callee (H : Type) where
  | handler (h : H)
  | redirect (path rawQuery : Path)
  | unmatched
  | badRequest
  deriving DecidableEq

/-- The host of a host and port, as `net.SplitHostPort` returns it if there is no error. -/
def splitHost (hostport : Path) : Option Path :=
  let before := (hostport.rdropWhile (· ≠ 58)).dropLast
  let bracketed := hostport.takeWhile (· ≠ 93)
  if 58 ∉ hostport then none
  else if hostport.head? = some 91 then
    if bracketed.length + 1 = before.length ∧ 93 ∈ hostport ∧ 91 ∉ hostport.drop 1 ∧
        93 ∉ hostport.drop before.length then some (bracketed.drop 1)
    else none
  else if 58 ∈ before ∨ 91 ∈ hostport ∨ 93 ∈ hostport then none
  else some before

def stripHostPort (h : Path) : Path := (splitHost h).getD h

/-- What `mux.findHandler(r)` returns. -/
structure Found (H : Type) where
  handler : Callee H
  patStr : Path
  pat : Option Pattern
  values : List Path

def exactMatch (n : Option (Leaf H × List Path)) (path : Path) : Bool :=
  match n with
  | none => false
  | some (leaf, _) =>
    if leaf.1.lastMulti = false then true
    else if path ≠ [] ∧ path.getLast? ≠ some slash then false
    else decide (leaf.1.segments.length = path.count slash)

namespace ServeMux

variable (mux : ServeMux H)

def Redirects (host method path : Path) : Prop :=
  exactMatch (mux.find host method path) path = false ∧ path.getLast? ≠ some slash ∧ path ≠ [] ∧
    exactMatch (mux.find host method (path ++ [slash])) (path ++ [slash]) = true

instance (host method path : Path) : Decidable (mux.Redirects host method path) :=
  inferInstanceAs (Decidable (_ ∧ _))

/-- `mux.matchOrRedirect(host, method, path, u)` with the path and the query of the URL that it
redirects to -/
def matchOrRedirect (host method path : Path) (u : Option URL) :
    Option (Leaf H × List Path) × Option (Path × Path) :=
  match u with
  | none => (mux.find host method path, none)
  | some u =>
    if mux.Redirects host method path then
      ((mux.find host method (path ++ [slash])).map fun n => (n.1, []),
        some (cleanPath u.path ++ [slash], u.rawQuery))
    else (mux.find host method path, none)

def patternOf (n : Option (Leaf H × List Path)) : Path := n.elim [] fun n => n.1.1.str

def foundAt : Option (Leaf H × List Path) → Found H
  | none => ⟨.unmatched, [], none, []⟩
  | some ((p, h), values) => ⟨.handler h, p.str, some p, values⟩

def findHandler (r : Request) : Found H :=
  if r.method = text "CONNECT" then
    match (mux.matchOrRedirect r.url.host r.method r.url.escapedPath (some r.url)).2 with
    | some (path, rawQuery) => ⟨.redirect path rawQuery, path, none, []⟩
    | none => foundAt (mux.matchOrRedirect r.host r.method r.url.escapedPath none).1
  else
    let path := cleanPath r.url.escapedPath
    match mux.matchOrRedirect (stripHostPort r.host) r.method path (some r.url) with
    | (n, some (path, rawQuery)) => ⟨.redirect path rawQuery, patternOf n, none, []⟩
    | (n, none) =>
      if path ≠ r.url.escapedPath then ⟨.redirect path r.url.rawQuery, patternOf n, none, []⟩
      else foundAt n

def handler (r : Request) : Callee H × Path :=
  ((mux.findHandler r).handler, (mux.findHandler r).patStr)

/-- `mux.ServeHTTP(w, r)`: what is called in the end, and the request that it is called with. -/
def serveHTTP (r : Request) : Callee H × Request :=
  if r.requestURI = text "*" then (.badRequest, r)
  else
    let found := mux.findHandler r
    (found.handler, { r with pattern := found.patStr, pat := found.pat, values := found.values })

end ServeMux

/-- A segment of a path is matched by one of a pattern. An empty literal is a wildcard here. -/
def Segment.Takes (s : Segment) (seg : Path) : Prop := s.key = seg ∨ s.key = [] ∧ seg ≠ [slash]

/-- The segments of a pattern match those of a path. -/
def SegmentsMatch : List Segment → List Path → Prop
  | [], [] => True
  | s :: segs, seg :: rest =>
    if s.multi then segs = [] else s.Takes seg ∧ SegmentsMatch segs rest
  | _, _ => False

/-- The pattern matches a host, a method and a path. -/
structure Pattern.Matches (p : Pattern) (host method path : Path) : Prop where
  host : p.host = [] ∨ p.host = host
  method : p.method = [] ∨ p.method = method ∨ p.method = text "GET" ∧ method = text "HEAD"
  segments : SegmentsMatch p.segments ((pathSegments path).map Prod.fst)

section Search

variable {n : Node H} {key seg : Path} {s : Segment} {segs : List Segment} {l : Leaf H}
  {path : List (Path × Path)} {values : List Path}

theorem mem_findChild : (segs, l) ∈ n.findChild key ↔
    ∃ s, (s :: segs, l) ∈ n ∧ s.multi = false ∧ s.key = key := by
  rw [Node.findChild, List.mem_filterMap]
  constructor
  · rintro ⟨⟨segs', l'⟩, hmem, h⟩
    cases segs' with
    | nil => cases h
    | cons s segs' =>
      obtain ⟨hs, heq⟩ := Option.ite_none_right_eq_some.mp h
      cases heq
      exact ⟨s, hmem, hs⟩
  · rintro ⟨s, hmem, hs⟩
    exact ⟨_, hmem, if_pos hs⟩

theorem leaf_of_mem (h : ([], l) ∈ n) : ∃ l', n.leaf = some l' :=
  Option.isSome_iff_exists.mp (List.findSome?_isSome_iff.mpr ⟨_, h, rfl⟩)

theorem mem_of_leaf (h : n.leaf = some l) : ([], l) ∈ n := by
  obtain ⟨⟨segs, l'⟩, hmem, h⟩ := List.exists_of_findSome?_eq_some h
  obtain ⟨hsegs, heq⟩ := Option.ite_none_right_eq_some.mp h
  cases heq
  cases hsegs
  exact hmem

theorem multiChild_of_mem (h : ([s], l) ∈ n) (hs : s.multi = true) :
    ∃ l', n.multiChild = some l' := by
  refine Option.isSome_iff_exists.mp (List.findSome?_isSome_iff.mpr ⟨_, h, ?_⟩)
  dsimp only
  rw [if_pos hs]
  rfl

theorem mem_of_multiChild (h : n.multiChild = some l) : ∃ s, ([s], l) ∈ n ∧ s.multi = true := by
  obtain ⟨⟨segs, l'⟩, hmem, h⟩ := List.exists_of_findSome?_eq_some h
  match segs, h with
  | [s], h =>
    obtain ⟨hs, heq⟩ := Option.ite_none_right_eq_some.mp h
    cases heq
    exact ⟨s, hmem, hs⟩

theorem matchPath_sound {values' : List Path} (h : matchPath path n values = some (l, values')) :
    ∃ segs, (segs, l) ∈ n ∧ SegmentsMatch segs (path.map Prod.fst) := by
  induction path generalizing n values values' with
  | nil =>
    obtain ⟨l', hl, heq⟩ := Option.map_eq_some_iff.mp h
    cases heq
    exact ⟨[], mem_of_leaf hl, trivial⟩
  | cons e path ih =>
    obtain ⟨seg, rest⟩ := e
    have hchild : ∀ {key values values'}, key = seg ∨ key = [] ∧ seg ≠ [slash] →
        matchPath path (n.findChild key) values = some (l, values') →
          ∃ segs, (segs, l) ∈ n ∧ SegmentsMatch segs (seg :: path.map Prod.fst) := by
      intro key values values' hkey h
      obtain ⟨segs, hmem, hmatch⟩ := ih h
      obtain ⟨s, hs, hmulti, rfl⟩ := mem_findChild.mp hmem
      refine ⟨s :: segs, hs, ?_⟩
      rw [SegmentsMatch, hmulti]
      exact ⟨hkey, hmatch⟩
    rw [matchPath, Option.or_eq_some_iff, Option.or_eq_some_iff] at h
    rcases h with h | ⟨-, h | ⟨-, h⟩⟩
    · exact hchild (.inl rfl) h
    · obtain ⟨hseg, h⟩ := Option.ite_none_right_eq_some.mp h
      exact hchild (.inr ⟨rfl, hseg⟩) h
    · obtain ⟨l', hl, heq⟩ := Option.map_eq_some_iff.mp h
      cases heq
      obtain ⟨s, hs, hmulti⟩ := mem_of_multiChild hl
      refine ⟨[s], hs, ?_⟩
      rw [List.map_cons, SegmentsMatch, if_pos hmulti]

theorem matchPath_complete (hmem : (segs, l) ∈ n)
    (hmatch : SegmentsMatch segs (path.map Prod.fst)) (values : List Path) :
    (matchPath path n values).isSome = true := by
  induction path generalizing n segs values with
  | nil =>
    cases segs with
    | nil =>
      obtain ⟨l', hl⟩ := leaf_of_mem hmem
      rw [matchPath, hl]
      rfl
    | cons s segs => exact hmatch.elim
  | cons e path ih =>
    obtain ⟨seg, rest⟩ := e
    rw [matchPath, Option.isSome_or, Option.isSome_or, Bool.or_eq_true, Bool.or_eq_true]
    cases segs with
    | nil => exact hmatch.elim
    | cons s segs =>
      rw [List.map_cons, SegmentsMatch] at hmatch
      by_cases hmulti : s.multi = true
      · rw [if_pos hmulti] at hmatch
        subst hmatch
        obtain ⟨l', hl⟩ := multiChild_of_mem hmem hmulti
        exact .inr (.inr (by rw [hl]; rfl))
      · rw [if_neg hmulti] at hmatch
        have hchild : ∀ key, s.key = key → (segs, l) ∈ n.findChild key := fun key hkey =>
          mem_findChild.mpr ⟨s, hmem, Bool.eq_false_iff.mpr hmulti, hkey⟩
        rcases hmatch.1 with hkey | ⟨hkey, hseg⟩
        · exact .inl (ih (hchild _ hkey) hmatch.2 _)
        · refine .inr (.inl ?_)
          rw [if_pos hseg]
          exact ih (hchild _ hkey) hmatch.2 _

end Search

namespace ServeMux

variable {mux : ServeMux H} {host method path : Path} {p : Pattern} {l : Leaf H}
  {values : List Path} {segs : List Segment}

def Has (mux : ServeMux H) (host method path : Path) : Prop :=
  ∃ e ∈ mux.patterns, e.1.Matches host method path

theorem mem_node : (segs, l) ∈ mux.node host method ↔
    l ∈ mux.patterns ∧ l.1.segments = segs ∧ l.1.host = host ∧ l.1.method = method := by
  rw [node, List.mem_filterMap]
  constructor
  · rintro ⟨e, he, h⟩
    obtain ⟨hkeys, heq⟩ := Option.ite_none_right_eq_some.mp h
    cases heq
    exact ⟨he, rfl, hkeys⟩
  · rintro ⟨hl, rfl, hkeys⟩
    exact ⟨l, hl, if_pos hkeys⟩

theorem matchMethodAndPath_sound (h : mux.matchMethodAndPath host method path = some (l, values)) :
    l ∈ mux.patterns ∧ l.1.host = host ∧
      (l.1.method = [] ∨ l.1.method = method ∨
        l.1.method = text "GET" ∧ method = text "HEAD") ∧
      SegmentsMatch l.1.segments ((pathSegments path).map Prod.fst) := by
  have hnode : ∀ {m values}, matchPath (pathSegments path) (mux.node host m) [] = some (l, values) →
      l ∈ mux.patterns ∧ l.1.host = host ∧ l.1.method = m ∧
        SegmentsMatch l.1.segments ((pathSegments path).map Prod.fst) := by
    intro m values h
    obtain ⟨segs, hmem, hmatch⟩ := matchPath_sound h
    obtain ⟨hl, rfl, hhost, hmethod⟩ := mem_node.mp hmem
    exact ⟨hl, hhost, hmethod, hmatch⟩
  rw [matchMethodAndPath, Option.or_eq_some_iff, Option.or_eq_some_iff] at h
  rcases h with h | ⟨-, h | ⟨-, h⟩⟩
  · obtain ⟨hl, hhost, hmethod, hmatch⟩ := hnode h
    exact ⟨hl, hhost, .inr (.inl hmethod), hmatch⟩
  · obtain ⟨hhead, h⟩ := Option.ite_none_right_eq_some.mp h
    obtain ⟨hl, hhost, hmethod, hmatch⟩ := hnode h
    exact ⟨hl, hhost, .inr (.inr ⟨hmethod, hhead⟩), hmatch⟩
  · obtain ⟨hl, hhost, hmethod, hmatch⟩ := hnode h
    exact ⟨hl, hhost, .inl hmethod, hmatch⟩

theorem matchMethodAndPath_complete (hl : l ∈ mux.patterns)
    (hmethod : l.1.method = [] ∨ l.1.method = method ∨
      l.1.method = text "GET" ∧ method = text "HEAD")
    (hmatch : SegmentsMatch l.1.segments ((pathSegments path).map Prod.fst)) :
    (mux.matchMethodAndPath l.1.host method path).isSome = true := by
  have hnode := matchPath_complete (mem_node.mpr ⟨hl, rfl, rfl, rfl⟩) hmatch []
  rw [matchMethodAndPath, Option.isSome_or, Option.isSome_or, Bool.or_eq_true, Bool.or_eq_true]
  rcases hmethod with hmethod | hmethod | ⟨hmethod, hhead⟩
  · rw [hmethod] at hnode
    exact .inr (.inr hnode)
  · rw [hmethod] at hnode
    exact .inl hnode
  · rw [hmethod] at hnode
    exact .inr (.inl (by rw [if_pos hhead]; exact hnode))

theorem find_sound (h : mux.find host method path = some (l, values)) :
    l ∈ mux.patterns ∧ l.1.Matches host method path := by
  rw [find, Option.or_eq_some_iff] at h
  rcases h with h | ⟨-, h⟩
  · obtain ⟨-, h⟩ := Option.ite_none_right_eq_some.mp h
    obtain ⟨hl, hhost, hmethod, hmatch⟩ := matchMethodAndPath_sound h
    exact ⟨hl, .inr hhost, hmethod, hmatch⟩
  · obtain ⟨hl, hhost, hmethod, hmatch⟩ := matchMethodAndPath_sound h
    exact ⟨hl, .inl hhost, hmethod, hmatch⟩

theorem find_isSome : (mux.find host method path).isSome = true ↔ mux.Has host method path := by
  constructor
  · intro h
    obtain ⟨⟨l, values⟩, hfind⟩ := Option.isSome_iff_exists.mp h
    exact ⟨l, find_sound hfind⟩
  · rintro ⟨l, hl, hmatch⟩
    have hfound := matchMethodAndPath_complete hl hmatch.method hmatch.segments
    rw [find, Option.isSome_or, Bool.or_eq_true]
    by_cases hempty : l.1.host = []
    · rw [hempty] at hfound
      exact .inr hfound
    · have hhost : l.1.host = host := hmatch.host.resolve_left hempty
      rw [hhost] at hfound hempty
      exact .inl (by rw [if_pos hempty]; exact hfound)

end ServeMux

section Paths

variable {path e q : Path} {D : List Path}

theorem firstSegment_length (h : path ≠ []) : (firstSegment path).2.length < path.length := by
  have hpos := List.length_pos_iff.mpr h
  rw [firstSegment]
  split
  · exact hpos
  · have hdrop := (List.dropWhile_suffix (· ≠ slash) (l := path.drop 1)).length_le
    rw [List.length_drop] at hdrop
    dsimp only
    omega

theorem segmentsOf_eq {n : ℕ} (h : path.length ≤ n) : segmentsOf n path = pathSegments path := by
  rw [pathSegments]
  induction hlength : path.length using Nat.strong_induction_on generalizing n path with
  | _ m ih =>
    subst hlength
    by_cases hpath : path = []
    · subst hpath
      cases n <;> rfl
    · have hrest := firstSegment_length hpath
      obtain ⟨k, rfl⟩ : ∃ k, n = k + 1 := ⟨n - 1, by omega⟩
      obtain ⟨j, hj⟩ : ∃ j, path.length = j + 1 := ⟨path.length - 1, by omega⟩
      rw [hj, segmentsOf, segmentsOf, if_neg hpath, if_neg hpath,
        ih _ hrest (n := k) (by omega) rfl, ih _ hrest (n := j) (by omega) rfl]

theorem pathSegments_cons (h : path ≠ []) :
    pathSegments path = ((firstSegment path).1, path) :: pathSegments (firstSegment path).2 := by
  have hrest := firstSegment_length h
  obtain ⟨j, hj⟩ : ∃ j, path.length = j + 1 := ⟨path.length - 1, by omega⟩
  rw [pathSegments, hj, segmentsOf, if_neg h, segmentsOf_eq (by omega)]

theorem firstSegment_dir (he : slash ∉ e) :
    firstSegment (slash :: (e ++ slash :: q)) = (pathUnescape e, slash :: q) := by
  have hne : slash :: (e ++ slash :: q) ≠ [slash] := by simp
  have hall : ∀ b ∈ e, decide (b ≠ slash) = true :=
    fun b hb => decide_eq_true fun h => he (h ▸ hb)
  rw [firstSegment, if_neg hne]
  simp only [List.drop_one, List.tail_cons]
  rw [List.takeWhile_append_of_pos hall, List.dropWhile_append_of_pos hall]
  simp

theorem firstSegment_file (he : slash ∉ e) (hne : e ≠ []) :
    firstSegment (slash :: e) = (pathUnescape e, []) := by
  have hall : ∀ b ∈ e, decide (b ≠ slash) = true :=
    fun b hb => decide_eq_true fun h => he (h ▸ hb)
  rw [firstSegment, if_neg (by simp [hne])]
  simp only [List.drop_one, List.tail_cons]
  rw [List.takeWhile_eq_self_iff.mpr hall, List.dropWhile_eq_nil_iff.mpr hall]

theorem segments_file (hD : ∀ d ∈ D, slash ∉ d) (he : slash ∉ e) (hne : e ≠ []) :
    (pathSegments (slash :: (dirs D ++ e))).map Prod.fst = (D ++ [e]).map pathUnescape := by
  induction D with
  | nil =>
    rw [pathSegments_cons (List.cons_ne_nil _ _), dirs_nil, List.nil_append,
      firstSegment_file he hne]
    rfl
  | cons d D ih =>
    rw [dirs_cons, List.append_assoc, List.cons_append, pathSegments_cons (List.cons_ne_nil _ _),
      firstSegment_dir (hD d List.mem_cons_self), List.map_cons,
      ih fun d' hd' => hD d' (List.mem_cons_of_mem _ hd')]
    rfl

theorem segments_dirs (hD : ∀ d ∈ D, slash ∉ d) :
    (pathSegments (slash :: dirs D)).map Prod.fst = D.map pathUnescape ++ [[slash]] := by
  induction D with
  | nil => rfl
  | cons d D ih =>
    rw [dirs_cons, pathSegments_cons (List.cons_ne_nil _ _),
      firstSegment_dir (hD d List.mem_cons_self), List.map_cons,
      ih fun d' hd' => hD d' (List.mem_cons_of_mem _ hd')]
    rfl

theorem count_dirs (hD : ∀ d ∈ D, slash ∉ d) : (dirs D).count slash = D.length := by
  induction D with
  | nil => rfl
  | cons d D ih =>
    rw [dirs_cons, List.count_append, List.count_cons_self,
      List.count_eq_zero.mpr (hD d List.mem_cons_self),
      ih fun d' hd' => hD d' (List.mem_cons_of_mem _ hd'), List.length_cons, Nat.zero_add]

/-- A path from the root that does not end in a slash is that of a file. -/
theorem exists_file (hhead : path.head? = some slash) (hlast : path.getLast? ≠ some slash) :
    ∃ D e, (∀ d ∈ D, slash ∉ d) ∧ slash ∉ e ∧ e ≠ [] ∧ path = slash :: (dirs D ++ e) := by
  obtain ⟨q, rfl⟩ := List.head?_eq_some_iff.mp hhead
  obtain ⟨D, e, hq⟩ := (List.eq_nil_or_concat' (elements q)).resolve_left (List.splitOn_ne_nil _ _)
  have hnoSlash : ∀ d ∈ D ++ [e], slash ∉ d := fun d hd => slash_notMem_of_mem (hq ▸ hd)
  have hpath : q = dirs D ++ e := by
    rw [← intercalate_dirs, ← hq, elements, List.intercalate_splitOn]
  refine ⟨D, e, fun d hd => hnoSlash d (List.mem_append_left _ hd),
    hnoSlash e (List.mem_append_right _ List.mem_cons_self), ?_, by rw [hpath]⟩
  rintro rfl
  rcases List.eq_nil_or_concat' D with rfl | ⟨D, d, rfl⟩
  · exact hlast (by rw [hpath]; rfl)
  · have hslash : slash :: q = (slash :: (dirs D ++ d)) ++ [slash] := by
      rw [hpath]
      simp
    exact hlast (hslash ▸ List.getLast?_concat ..)

end Paths

section Redirect

variable {segs : List Segment} {l : List Path} {seg host method path : Path} {mux : ServeMux H}

/-- Segments that match one segment more, and end in a wildcard that takes the rest, have as many
or match without it too. -/
theorem segmentsMatch_concat (hmatch : SegmentsMatch segs (l ++ [seg]))
    (hlast : segs.getLast?.any (·.multi) = true) :
    segs.length = l.length + 1 ∨ SegmentsMatch segs l := by
  induction segs generalizing l with
  | nil => cases hlast
  | cons s segs ih =>
    cases l with
    | nil =>
      rw [List.nil_append, SegmentsMatch] at hmatch
      by_cases hmulti : s.multi = true
      · rw [if_pos hmulti] at hmatch
        exact .inl (by rw [hmatch]; rfl)
      · rw [if_neg hmulti] at hmatch
        cases segs with
        | nil => exact absurd hlast (by simpa using hmulti)
        | cons s' segs => exact hmatch.2.elim
    | cons x l =>
      rw [List.cons_append, SegmentsMatch] at hmatch
      rw [SegmentsMatch]
      by_cases hmulti : s.multi = true
      · rw [if_pos hmulti] at hmatch ⊢
        exact .inr hmatch
      · rw [if_neg hmulti] at hmatch ⊢
        have hne : segs ≠ [] := by
          rintro rfl
          exact absurd hlast (by simpa using hmulti)
        rw [List.getLast?_cons_of_ne_nil hne] at hlast
        rcases ih hmatch.2 hlast with h | h
        · exact .inl (by rw [List.length_cons, h]; rfl)
        · exact .inr ⟨hmatch.1, h⟩

/-- If no pattern matches the path, and one does with a slash at the end, then there is a
redirect. -/
theorem ServeMux.redirects (hhead : path.head? = some slash) (hlast : path.getLast? ≠ some slash)
    (hno : ¬mux.Has host method path) (hslash : mux.Has host method (path ++ [slash])) :
    mux.Redirects host method path := by
  have hnone : mux.find host method path = none :=
    Option.not_isSome_iff_eq_none.mp fun h => hno (find_isSome.mp h)
  have hpath : path ≠ [] := fun h => nomatch h ▸ hhead
  refine ⟨by rw [hnone]; rfl, hlast, hpath, ?_⟩
  obtain ⟨⟨⟨p, h⟩, values⟩, hfind⟩ := Option.isSome_iff_exists.mp (find_isSome.mpr hslash)
  obtain ⟨hmem, hhost, hmethod, hmatch⟩ := find_sound hfind
  rw [hfind, exactMatch]
  by_cases hmulti : p.lastMulti = false
  · rw [if_pos hmulti]
  rw [if_neg hmulti, if_neg fun h => h.2 List.getLast?_concat]
  obtain ⟨D, e, hD, he, hne, rfl⟩ := exists_file hhead hlast
  have hconcat : slash :: (dirs D ++ e) ++ [slash] = slash :: dirs (D ++ [e]) := by simp
  have hDe : ∀ d ∈ D ++ [e], slash ∉ d := by
    intro d hd
    rcases List.mem_append.mp hd with hd | hd
    · exact hD d hd
    · exact List.mem_singleton.mp hd ▸ he
  rw [hconcat, segments_dirs hDe] at hmatch
  rcases segmentsMatch_concat hmatch (Bool.not_eq_false _ ▸ hmulti) with hlength | hmatch
  · rw [hconcat, List.count_cons_self, count_dirs hDe, decide_eq_true_eq, hlength, List.length_map]
  · rw [← segments_file hD he hne] at hmatch
    exact absurd ⟨(p, h), hmem, hhost, hmethod, hmatch⟩ hno

theorem cleanPath_head (p : Path) : (cleanPath p).head? = some slash := by
  have hclean : ∀ (q : Path) (c : Prop) [Decidable c],
      (if c then clean (slash :: q) ++ [slash] else clean (slash :: q)).head? = some slash := by
    intro q c _
    rw [clean_rooted]
    split <;> rfl
  rw [cleanPath]
  split
  · rfl
  dsimp only
  split
  · next h =>
    obtain ⟨q, rfl⟩ := List.head?_eq_some_iff.mp h
    exact hclean q _
  · exact hclean p _

end Redirect

namespace ServeMux

/-- Some pattern matches the request, or does so once its path is clean or has a slash at the end.
The path of a CONNECT request is not cleaned, and its slash is looked for at the host of the URL. -/
def Serves (mux : ServeMux H) (r : Request) : Prop :=
  if r.method = text "CONNECT" then
    mux.Has r.host r.method r.url.escapedPath ∨
      mux.Redirects r.url.host r.method r.url.escapedPath
  else
    let host := stripHostPort r.host
    let path := cleanPath r.url.escapedPath
    mux.Has host r.method path ∨
      path.getLast? ≠ some slash ∧ mux.Has host r.method (path ++ [slash])

section Serves

variable {mux : ServeMux H} {r : Request} {host method path : Path} {u : URL}

theorem patternOf_ne : patternOf (mux.find host method path) ≠ [] ↔ mux.Has host method path := by
  rw [← find_isSome]
  cases hfind : mux.find host method path with
  | none => simp [patternOf]
  | some n =>
    obtain ⟨l, values⟩ := n
    exact iff_of_true (mux.str_ne l (find_sound hfind).1) rfl

theorem foundAt_patStr (n : Option (Leaf H × List Path)) : (foundAt n).patStr = patternOf n := by
  cases n <;> rfl

theorem patternOf_map (n : Option (Leaf H × List Path)) :
    patternOf (n.map fun n => (n.1, [])) = patternOf n := by
  cases n <;> rfl

theorem Redirects.has (h : mux.Redirects host method path) :
    mux.Has host method (path ++ [slash]) := by
  rw [← find_isSome]
  have hexact := h.2.2.2
  cases hfind : mux.find host method (path ++ [slash]) with
  | none =>
    rw [hfind] at hexact
    cases hexact
  | some n => rfl

theorem matchOrRedirect_some (h : mux.Redirects host method path) :
    mux.matchOrRedirect host method path (some u) =
      ((mux.find host method (path ++ [slash])).map fun n => (n.1, []),
        some (cleanPath u.path ++ [slash], u.rawQuery)) := if_pos h

theorem matchOrRedirect_of_not (h : ¬mux.Redirects host method path) :
    mux.matchOrRedirect host method path (some u) = (mux.find host method path, none) := if_neg h

theorem has_or_iff (hhead : path.head? = some slash) (h : ¬mux.Redirects host method path) :
    (mux.Has host method path ∨
      path.getLast? ≠ some slash ∧ mux.Has host method (path ++ [slash])) ↔
      mux.Has host method path := by
  refine ⟨fun hserves => ?_, .inl⟩
  by_contra hno
  obtain ⟨hlast, hslash⟩ := hserves.resolve_left hno
  exact h (redirects hhead hlast hno hslash)

/-- There is a pattern to return if and only if the request is served. -/
theorem patStr_ne : (mux.findHandler r).patStr ≠ [] ↔ mux.Serves r := by
  rw [findHandler, Serves]
  by_cases hconnect : r.method = text "CONNECT"
  · rw [if_pos hconnect, if_pos hconnect]
    by_cases hredirect : mux.Redirects r.url.host r.method r.url.escapedPath
    · rw [matchOrRedirect_some hredirect]
      exact iff_of_true (by simp) (.inr hredirect)
    · rw [matchOrRedirect_of_not hredirect, or_iff_left hredirect, ← patternOf_ne, ← foundAt_patStr]
      rfl
  · rw [if_neg hconnect, if_neg hconnect]
    dsimp only
    by_cases hredirect :
        mux.Redirects (stripHostPort r.host) r.method (cleanPath r.url.escapedPath)
    · rw [matchOrRedirect_some hredirect]
      refine iff_of_true ?_ (.inr ⟨hredirect.2.1, hredirect.has⟩)
      exact fun h => patternOf_ne.mpr hredirect.has ((patternOf_map _).symm.trans h)
    · rw [matchOrRedirect_of_not hredirect, has_or_iff (cleanPath_head _) hredirect, ← patternOf_ne]
      dsimp only
      split
      · exact Iff.rfl
      · rw [foundAt_patStr]

end Serves

end ServeMux

end GoraddServe.ServeMuxes
