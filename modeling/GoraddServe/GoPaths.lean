import Mathlib.Data.List.DropRight
import Mathlib.Tactic.Tauto

/-!
# Slash-separated paths

A path is a string of bytes, and its elements stand between slashes. Cleaning a path takes its
elements one at a time onto a stack: empty ones and dots are dropped, and two dots take back the
element before them. A file is named by the directories above it and a last element, and joining,
splitting and cleaning such names is work on lists of elements.
-/
namespace GoraddServe.GoPaths

abbrev Path := List UInt8

def slash : UInt8 := 47

def dot : UInt8 := 46

/-- The text between the slashes, which may be empty. -/
def elements (p : Path) : List Path := p.splitOn slash

def Proper (e : Path) : Prop := e ≠ [] ∧ e ≠ [dot] ∧ e ≠ [dot, dot]

instance (e : Path) : Decidable (Proper e) := inferInstanceAs (Decidable (_ ∧ _))

/-- An element is taken onto the stack of those before it. -/
def push (rooted : Bool) (stack : List Path) (e : Path) : List Path :=
  if e = [] ∨ e = [dot] then stack
  else if e = [dot, dot] then
    match stack with
    | [] => if rooted then [] else [e]
    | top :: rest => if top = [dot, dot] then e :: stack else rest
  else e :: stack

/-- `path.Clean(p)` -/
def clean (p : Path) : Path :=
  let rooted := p.head? == some slash
  let kept := [slash].intercalate ((elements p).foldl (push rooted) []).reverse
  if rooted then slash :: kept else if kept = [] then [dot] else kept

/-- `path.Join(parts...)` -/
def join (parts : List Path) : Path :=
  let parts := parts.dropWhile (· = [])
  if parts = [] then [] else clean ([slash].intercalate parts)

/-- `path.Split(p)` -/
def split (p : Path) : Path × Path := (p.rdropWhile (· ≠ slash), p.rtakeWhile (· ≠ slash))

/-- `path.Ext(p)` -/
def ext (p : Path) : Path :=
  let file := (split p).2
  if dot ∈ file then dot :: file.rtakeWhile (· ≠ dot) else []

/-- What is known of a character whose first bytes have been read: how many are to come, and the
range of the next. -/
def utf8Next : Option (ℕ × UInt8 × UInt8) → UInt8 → Option (ℕ × UInt8 × UInt8)
  | none, _ => none
  | some (0, _, _), b =>
    if b ≤ 0x7F then some (0, 0x80, 0xBF)
    else if 0xC2 ≤ b ∧ b ≤ 0xDF then some (1, 0x80, 0xBF)
    else if b = 0xE0 then some (2, 0xA0, 0xBF)
    else if b = 0xED then some (2, 0x80, 0x9F)
    else if 0xE1 ≤ b ∧ b ≤ 0xEF then some (2, 0x80, 0xBF)
    else if b = 0xF0 then some (3, 0x90, 0xBF)
    else if 0xF1 ≤ b ∧ b ≤ 0xF3 then some (3, 0x80, 0xBF)
    else if b = 0xF4 then some (3, 0x80, 0x8F)
    else none
  | some (more + 1, low, high), b =>
    if low ≤ b ∧ b ≤ high then some (more, 0x80, 0xBF) else none

/-- `utf8.ValidString(p)` -/
def validString (p : Path) : Bool :=
  p.foldl utf8Next (some (0, 0x80, 0xBF)) == some (0, 0x80, 0xBF)

/-- `fs.ValidPath(name)` -/
def validPath (name : Path) : Bool :=
  validString name && (name == [dot] || (elements name).all fun e => decide (Proper e))

section Elements

variable {p q e : Path} {es D E stack : List Path} {rooted : Bool}

/-- An element that cleaning keeps and that has no slash. -/
structure IsName (e : Path) : Prop where
  proper : Proper e
  noSlash : slash ∉ e

theorem elements_append : elements (p ++ slash :: q) = elements p ++ elements q :=
  List.splitOn_append_cons_self p q

theorem elements_of_noSlash (h : slash ∉ p) : elements p = [p] := List.splitOn_eq_singleton h

theorem slash_notMem_of_mem (h : e ∈ elements p) : slash ∉ e := by
  induction hn : p.length using Nat.strong_induction_on generalizing p with
  | _ n ih =>
    by_cases hp : slash ∈ p
    · obtain ⟨a, b, rfl⟩ := List.append_of_mem hp
      rw [List.length_append, List.length_cons] at hn
      rw [elements_append, List.mem_append] at h
      rcases h with h | h
      · exact ih a.length (by omega) h rfl
      · exact ih b.length (by omega) h rfl
    · rw [elements_of_noSlash hp, List.mem_singleton] at h
      exact h ▸ hp

/-- The directories above a file, each with a slash after it. -/
def dirs (D : List Path) : Path := D.flatMap (· ++ [slash])

@[simp] theorem dirs_nil : dirs [] = [] := rfl

@[simp] theorem dirs_cons : dirs (e :: D) = e ++ slash :: dirs D := by simp [dirs]

@[simp] theorem dirs_append : dirs (D ++ E) = dirs D ++ dirs E := by simp [dirs]

theorem elements_dirs (hD : ∀ e ∈ D, slash ∉ e) : elements (dirs D ++ p) = D ++ elements p := by
  induction D with
  | nil => rfl
  | cons e D ih =>
    rw [dirs_cons, List.append_assoc, List.cons_append, elements_append,
      elements_of_noSlash (hD e List.mem_cons_self),
      ih fun e he => hD e (List.mem_cons_of_mem _ he)]
    rfl

theorem intercalate_dirs : [slash].intercalate (D ++ [e]) = dirs D ++ e := by
  induction D with
  | nil => exact List.intercalate_singleton
  | cons d D ih =>
    rw [List.cons_append, List.intercalate_cons_of_ne_nil (by simp), ih]
    simp

theorem IsName.elements (h : IsName e) : elements e = [e] := elements_of_noSlash h.noSlash

theorem elements_file (hD : ∀ e ∈ D, IsName e) (he : IsName e) :
    elements (dirs D ++ e) = D ++ [e] := by
  rw [elements_dirs fun d hd => (hD d hd).noSlash, he.elements]

theorem isName_concat (hD : ∀ e ∈ D, IsName e) (he : IsName e) : ∀ d ∈ D ++ [e], IsName d :=
  List.forall_mem_append.mpr ⟨hD, List.forall_mem_singleton.mpr he⟩

theorem proper_file (hD : ∀ e ∈ D, IsName e) (he : IsName e) :
    ∀ d ∈ elements (dirs D ++ e), Proper d := by
  rw [elements_file hD he]
  exact fun d hd => (isName_concat hD he d hd).proper

theorem push_proper (he : Proper e) : push rooted stack e = e :: stack := by
  unfold push
  rw [if_neg (not_or.mpr ⟨he.1, he.2.1⟩), if_neg he.2.2]

theorem push_empty : push rooted stack [] = stack := if_pos (.inl rfl)

theorem foldl_push (h : ∀ e ∈ es, Proper e) :
    es.foldl (push rooted) stack = es.reverse ++ stack := by
  induction es generalizing stack with
  | nil => rfl
  | cons e es ih =>
    rw [List.foldl_cons, push_proper (h e List.mem_cons_self),
      ih fun e he => h e (List.mem_cons_of_mem _ he)]
    simp

/-- A rooted path has nothing to take back at its root, so only names are kept. -/
theorem push_isName (hstack : ∀ e ∈ stack, IsName e) (he : slash ∉ e) :
    ∀ e' ∈ push true stack e, IsName e' := by
  unfold push
  split
  · exact hstack
  · next hempty =>
    split
    · cases stack with
      | nil => simp
      | cons top rest =>
        have htop : top ≠ [dot, dot] := (hstack top List.mem_cons_self).proper.2.2
        dsimp only
        rw [if_neg htop]
        exact fun e' he' => hstack e' (List.mem_cons_of_mem _ he')
    · next hdots =>
      intro e' he'
      rcases List.mem_cons.mp he' with rfl | he'
      · exact ⟨⟨fun h => hempty (.inl h), fun h => hempty (.inr h), hdots⟩, he⟩
      · exact hstack e' he'

theorem foldl_push_isName (hstack : ∀ e ∈ stack, IsName e) (hes : ∀ e ∈ es, slash ∉ e) :
    ∀ e' ∈ es.foldl (push true) stack, IsName e' := by
  induction es generalizing stack with
  | nil => exact hstack
  | cons e es ih =>
    exact ih (push_isName hstack (hes e List.mem_cons_self))
      fun e he => hes e (List.mem_cons_of_mem _ he)

/-- The elements of a rooted path that cleaning keeps. -/
def resolve (p : Path) : List Path := ((elements p).foldl (push true) []).reverse

theorem resolve_isName : ∀ e ∈ resolve p, IsName e := by
  intro e he
  exact foldl_push_isName (by simp) (fun e he => slash_notMem_of_mem he) e (List.mem_reverse.mp he)

theorem resolve_append (hq : ∀ e ∈ elements q, Proper e) :
    resolve (p ++ slash :: q) = resolve p ++ elements q := by
  rw [resolve, elements_append, List.foldl_append, foldl_push hq, List.reverse_append,
    List.reverse_reverse]
  rfl

theorem resolve_slash : resolve (slash :: p) = resolve p := by
  rw [resolve, ← List.nil_append (slash :: p), elements_append]
  rfl

theorem resolve_file (hD : ∀ e ∈ D, IsName e) (he : IsName e) :
    resolve (dirs D ++ e) = D ++ [e] := by
  rw [resolve, foldl_push (proper_file hD he), elements_file hD he, List.append_nil,
    List.reverse_reverse]

theorem resolve_dirs (hD : ∀ e ∈ D, IsName e) : resolve (dirs D) = D := by
  have h := elements_dirs (p := []) fun d hd => (hD d hd).noSlash
  rw [List.append_nil, show elements [] = [[]] from rfl] at h
  rw [resolve, h, List.foldl_append, foldl_push fun d hd => (hD d hd).proper]
  simp [push_empty]

theorem clean_rooted : clean (slash :: p) = slash :: [slash].intercalate (resolve p) := by
  rw [← resolve_slash]
  rfl

theorem exists_file (h : ∀ e ∈ elements p, Proper e) : ∃ D e, p = dirs D ++ e ∧
    (∀ d ∈ D, IsName d) ∧ IsName e := by
  have hname : ∀ e ∈ elements p, IsName e := fun e he => ⟨h e he, slash_notMem_of_mem he⟩
  have hp : [slash].intercalate (elements p) = p := List.intercalate_splitOn slash
  obtain ⟨D, e, hsplit⟩ : ∃ D e, elements p = D ++ [e] :=
    (List.eq_nil_or_concat' _).resolve_left (List.splitOn_ne_nil slash p)
  rw [hsplit, intercalate_dirs] at hp
  rw [hsplit] at hname
  exact ⟨D, e, hp.symm, fun d hd => hname d (List.mem_append_left _ hd),
    hname e (List.mem_append_right _ List.mem_cons_self)⟩

theorem split_append (he : slash ∉ e) : split (p ++ slash :: e) = (p ++ [slash], e) := by
  induction e using List.reverseRecOn with
  | nil => simp [split]
  | append_singleton e b ih =>
    have hb : b ≠ slash := fun h => he (by simp [h])
    have hsplit := ih fun h => he (List.mem_append_left _ h)
    simp only [split, Prod.mk.injEq] at hsplit ⊢
    rw [← List.cons_append, ← List.append_assoc,
      List.rdropWhile_concat_pos _ _ _ (by simpa using hb),
      List.rtakeWhile_concat_pos _ _ _ (by simpa using hb), hsplit.1, hsplit.2]
    exact ⟨rfl, rfl⟩

theorem split_of_noSlash (he : slash ∉ e) : split e = ([], e) := by
  induction e using List.reverseRecOn with
  | nil => rfl
  | append_singleton e b ih =>
    have hb : b ≠ slash := fun h => he (by simp [h])
    have hsplit := ih fun h => he (List.mem_append_left _ h)
    simp only [split, Prod.mk.injEq] at hsplit ⊢
    rw [List.rdropWhile_concat_pos _ _ _ (by simpa using hb),
      List.rtakeWhile_concat_pos _ _ _ (by simpa using hb), hsplit.1, hsplit.2]
    exact ⟨rfl, rfl⟩

theorem split_dirs (he : slash ∉ e) : split (dirs D ++ e) = (dirs D, e) := by
  rcases List.eq_nil_or_concat' D with rfl | ⟨D, d, rfl⟩
  · exact split_of_noSlash he
  · have hdirs : dirs (D ++ [d]) = dirs D ++ d ++ [slash] := by simp
    rw [hdirs, List.append_assoc _ [slash], List.singleton_append, split_append he]

theorem split_fst_eq_nil : (split p).1 = [] ↔ slash ∉ p := by
  rw [split, List.rdropWhile_eq_nil_iff]
  simp only [decide_eq_true_eq]
  exact ⟨fun h hslash => h slash hslash rfl, fun h b hb hslash => h (hslash ▸ hb)⟩

theorem join_rooted (hq : ∀ e ∈ elements q, Proper e) : join [slash :: p, q] =
    slash :: [slash].intercalate (resolve p ++ elements q) := by
  have hjoin : join [slash :: p, q] = clean (slash :: (p ++ slash :: q)) := by
    simp [join, List.intercalate_cons_cons]
  rw [hjoin, clean_rooted, resolve_append hq]

theorem join_inserted {n : Path} (hD : ∀ d ∈ D, IsName d) (hn : IsName n) (he : IsName e) :
    join [slash :: dirs D, n, e] = slash :: (dirs (D ++ [n]) ++ e) := by
  have hjoin : join [slash :: dirs D, n, e] =
      clean (slash :: (dirs D ++ slash :: (n ++ slash :: e))) := by
    simp [join, List.intercalate_cons_cons]
  have hbelow : ∀ d ∈ elements (n ++ slash :: e), Proper d := by
    intro d hd
    rw [elements_append, hn.elements, he.elements] at hd
    simp only [List.singleton_append, List.mem_cons, List.not_mem_nil, or_false] at hd
    rcases hd with rfl | rfl
    · exact hn.proper
    · exact he.proper
  rw [hjoin, clean_rooted, resolve_append hbelow, resolve_dirs hD, elements_append, hn.elements,
    he.elements, ← List.append_assoc, intercalate_dirs]

theorem head_file (hD : ∀ d ∈ D, IsName d) (he : IsName e) : (dirs D ++ e).head? ≠ some slash := by
  have hname : ∀ {d : Path} (q : Path), IsName d → (d ++ q).head? ≠ some slash := by
    intro d q hd hhead
    obtain ⟨b, d', rfl⟩ := List.exists_cons_of_ne_nil hd.proper.1
    have hb : b = slash := by simpa using hhead
    exact hd.noSlash (hb ▸ List.mem_cons_self)
  cases D with
  | nil => exact List.append_nil e ▸ hname [] he
  | cons d D =>
    rw [dirs_cons, List.append_assoc]
    exact hname _ (hD d List.mem_cons_self)

theorem clean_relative (he : IsName e) (hhead : p.head? ≠ some slash)
    (hstack : (elements p).foldl (push false) [] = e :: D.reverse) : clean p = dirs D ++ e := by
  have hrooted : (p.head? == some slash) = false := by simpa using hhead
  rw [clean, hrooted, hstack, List.reverse_cons, List.reverse_reverse, intercalate_dirs]
  simp [he.proper.1]

theorem join_dirs (hD : ∀ d ∈ D, IsName d) (he : IsName e) : join [dirs D, e] = dirs D ++ e := by
  have hproper : ∀ d ∈ D, Proper d := fun d hd => (hD d hd).proper
  cases D with
  | nil =>
    have hjoin : join [dirs [], e] = clean e := by simp [join, he.proper.1]
    refine hjoin.trans (clean_relative he (head_file (D := []) (by simp) he) ?_)
    rw [he.elements, List.foldl_cons, push_proper he.proper]
    rfl
  | cons d D =>
    have hjoin : join [dirs (d :: D), e] = clean (dirs (d :: D) ++ slash :: e) := by
      simp [join, List.intercalate_cons_cons]
    have hhead : (dirs (d :: D) ++ slash :: e).head? ≠ some slash := by
      rw [dirs_cons, List.append_assoc]
      have h := head_file (D := []) (by simp) (hD d List.mem_cons_self)
      rw [dirs_nil, List.nil_append] at h
      rwa [List.head?_append_of_ne_nil _ (hD d List.mem_cons_self).proper.1]
    refine hjoin.trans (clean_relative he hhead ?_)
    rw [elements_dirs fun d hd => (hD d hd).noSlash, ← List.nil_append (slash :: e),
      elements_append, he.elements, show elements [] = [[]] from rfl, List.foldl_append,
      foldl_push hproper, List.append_nil, List.singleton_append, List.foldl_cons, push_empty,
      List.foldl_cons, push_proper he.proper]
    rfl

theorem join_below {n : Path} (hD : ∀ d ∈ D, IsName d) (he : IsName e) (hn : IsName n) :
    join [dirs D ++ e, slash :: n] = dirs (D ++ [e]) ++ n := by
  have hjoin : join [dirs D ++ e, slash :: n] = clean (dirs D ++ e ++ slash :: (slash :: n)) := by
    simp [join, List.intercalate_cons_cons, he.proper.1]
  have hhead : (dirs D ++ e ++ slash :: (slash :: n)).head? ≠ some slash := by
    rw [List.head?_append_of_ne_nil _ (by simp [he.proper.1])]
    exact head_file hD he
  have hbelow : elements (slash :: n) = [[], n] := by
    rw [← List.nil_append (slash :: n), elements_append, hn.elements]
    rfl
  refine hjoin.trans (clean_relative hn hhead ?_)
  rw [elements_append, elements_file hD he, hbelow, List.foldl_append,
    foldl_push fun d hd => (isName_concat hD he d hd).proper, List.foldl_cons, push_empty,
    List.foldl_cons, push_proper hn.proper, List.append_nil]
  rfl

theorem getLast_file (he : IsName e) : (p ++ e).getLast? ≠ some slash := by
  intro hlast
  obtain ⟨e', b, rfl⟩ := (List.eq_nil_or_concat' e).resolve_left he.proper.1
  rw [← List.append_assoc, List.getLast?_concat, Option.some.injEq] at hlast
  exact he.noSlash (hlast ▸ List.mem_append_right _ List.mem_cons_self)

theorem exists_directory : ∃ q, slash :: (dirs D ++ e) = q ++ slash :: e := by
  rcases List.eq_nil_or_concat' D with rfl | ⟨D, d, rfl⟩
  · exact ⟨[], rfl⟩
  · exact ⟨slash :: (dirs D ++ d), by simp⟩

theorem suffix_of_noSlash {s : Path} (hs : slash ∉ s) (h : s <:+ p ++ slash :: e) : s <:+ e := by
  have hcons : s <:+ slash :: e := by
    refine (List.suffix_or_suffix_of_suffix h (List.suffix_append p _)).resolve_right fun h' => ?_
    exact hs (h'.subset List.mem_cons_self)
  rcases List.suffix_cons_iff.mp hcons with rfl | hsuffix
  · exact absurd List.mem_cons_self hs
  · exact hsuffix

theorem exists_dirs (hD : ∀ d ∈ D, IsName d) (he : IsName e) (h : p ++ [slash] <+: dirs D ++ e) :
    ∃ D', (∀ d ∈ D', IsName d) ∧ p ++ [slash] = dirs D' := by
  obtain ⟨q, hq⟩ := h
  have helements : elements p ++ elements q = D ++ [e] := by
    rw [← elements_append, ← elements_file hD he, ← hq, List.append_assoc, List.singleton_append]
  have hproper : ∀ d ∈ elements p, Proper d := by
    intro d hd
    have hmem : d ∈ D ++ [e] := helements ▸ List.mem_append_left _ hd
    exact (isName_concat hD he d hmem).proper
  obtain ⟨D', e', rfl, hD', he'⟩ := exists_file hproper
  exact ⟨D' ++ [e'], isName_concat hD' he', by simp⟩

theorem prefix_of_dirs (hD : ∀ d ∈ D, IsName d) (he : IsName e) (hE : ∀ d ∈ E, slash ∉ d)
    (h : dirs E <+: dirs D ++ e) : E <+: D := by
  obtain ⟨q, hq⟩ := h
  have helements : E ++ elements q = D ++ [e] := by
    rw [← elements_dirs hE, hq, elements_file hD he]
  have hne : elements q ≠ [] := List.splitOn_ne_nil slash q
  refine List.prefix_of_prefix_length_le (helements ▸ List.prefix_append E _)
    (List.prefix_append D [e]) ?_
  have hlength := congrArg List.length helements
  have hpos := List.length_pos_iff.mpr hne
  rw [List.length_append, List.length_append, List.length_singleton] at hlength
  omega

theorem dirs_inj {n : Path} (hD : ∀ d ∈ D, slash ∉ d) (hE : ∀ d ∈ E, slash ∉ d) (he : slash ∉ e)
    (hn : slash ∉ n) (h : dirs D ++ e = dirs E ++ n) : D = E ∧ e = n := by
  have helements := congrArg elements h
  rw [elements_dirs hD, elements_dirs hE, elements_of_noSlash he, elements_of_noSlash hn]
    at helements
  obtain ⟨hdirs, hfile⟩ := List.append_inj' helements rfl
  exact ⟨hdirs, List.singleton_inj.mp hfile⟩

section Bytes

variable {b : UInt8} {l : List Path}

theorem mem_dirs (hb : b ∈ dirs D) : b = slash ∨ ∃ d ∈ D, b ∈ d := by
  obtain ⟨d, hd, hmem⟩ := List.mem_flatMap.mp hb
  rcases List.mem_append.mp hmem with hmem | hmem
  · exact .inr ⟨d, hd, hmem⟩
  · exact .inl (List.mem_singleton.mp hmem)

theorem count_dirs (hb : b ≠ slash) : (dirs D).count b = D.flatten.count b := by
  induction D with
  | nil => rfl
  | cons d D ih =>
    rw [dirs_cons, List.count_append, List.count_cons_of_ne hb.symm, ih, List.flatten_cons,
      List.count_append]

theorem count_intercalate (hb : b ≠ slash) :
    ([slash].intercalate l).count b = l.flatten.count b := by
  rcases List.eq_nil_or_concat' l with rfl | ⟨D, e, rfl⟩
  · rfl
  · rw [intercalate_dirs, List.count_append, count_dirs hb]
    simp

theorem count_elements (hb : b ≠ slash) : (elements p).flatten.count b = p.count b := by
  rw [← count_intercalate hb, elements, List.intercalate_splitOn]

theorem count_push :
    (push rooted stack e).flatten.count b ≤ e.count b + stack.flatten.count b := by
  have hcons : (e :: stack).flatten.count b ≤ e.count b + stack.flatten.count b := by
    rw [List.flatten_cons, List.count_append]
  unfold push
  split
  · exact Nat.le_add_left _ _
  split
  · rcases stack with _ | ⟨top, rest⟩
    · dsimp only
      split
      · exact Nat.zero_le _
      · exact hcons
    · dsimp only
      split
      · exact hcons
      · rw [List.flatten_cons, List.count_append]
        omega
  · exact hcons

theorem count_foldl_push :
    (es.foldl (push rooted) stack).flatten.count b ≤
      es.flatten.count b + stack.flatten.count b := by
  induction es generalizing stack with
  | nil => simp
  | cons e es ih =>
    have hpush : (push rooted stack e).flatten.count b ≤ e.count b + stack.flatten.count b :=
      count_push
    rw [List.foldl_cons, List.flatten_cons, List.count_append]
    refine ih.trans ?_
    omega

theorem count_stack (rooted : Bool) (hb : b ≠ slash) :
    ((elements p).foldl (push rooted) []).reverse.flatten.count b ≤ p.count b := by
  rw [(List.reverse_perm _).flatten.count_eq, ← count_elements (p := p) hb]
  exact count_foldl_push

theorem count_resolve (hb : b ≠ slash) : (resolve p).flatten.count b ≤ p.count b :=
  count_stack true hb

theorem count_clean (hslash : b ≠ slash) (hdot : b ≠ dot) : (clean p).count b ≤ p.count b := by
  have hstack := count_stack (p := p) (p.head? == some slash) hslash
  rw [← count_intercalate hslash] at hstack
  unfold clean
  dsimp only
  split_ifs
  · rwa [List.count_cons_of_ne hslash.symm]
  · simp [hdot.symm]
  · exact hstack

theorem count_join (hslash : b ≠ slash) (hdot : b ≠ dot) :
    (join [p, q]).count b ≤ p.count b + q.count b := by
  have hle : ∀ parts : List Path, (clean ([slash].intercalate parts)).count b ≤
      parts.flatten.count b := fun parts =>
    (count_clean hslash hdot).trans_eq (count_intercalate hslash)
  have hdrop : ∀ empty : Path → Bool,
      ([p, q].dropWhile empty).flatten.count b ≤ p.count b + q.count b := by
    intro empty
    obtain ⟨t, ht⟩ := List.dropWhile_suffix (l := [p, q]) empty
    have hcount := congrArg (fun l : List Path => l.flatten.count b) ht
    simp only [List.flatten_append, List.count_append, List.flatten_cons, List.flatten_nil,
      List.append_nil] at hcount
    omega
  rw [join]
  split_ifs
  · exact Nat.zero_le _
  · exact (hle _).trans (hdrop _)

theorem split_eq (p : Path) : (split p).1 ++ (split p).2 = p := by
  rw [split, List.rdropWhile, List.rtakeWhile, ← List.reverse_append,
    List.takeWhile_append_dropWhile, List.reverse_reverse]

end Bytes

theorem validString_append (hp : validString p = true) (hq : validString q = true) :
    validString (p ++ q) = true := by
  rw [validString, beq_iff_eq] at hp hq ⊢
  rw [List.foldl_append, hp, hq]

theorem validPath_cases (h : validPath p = true) :
    p = [dot] ∨ ∀ e ∈ elements p, Proper e := by
  rw [validPath, Bool.and_eq_true, Bool.or_eq_true, beq_iff_eq, List.all_eq_true] at h
  exact h.2.imp_right fun h e he => of_decide_eq_true (h e he)

/-- A suffix without a slash leaves a valid path valid, when it is too long for dots. -/
theorem validPath_append {s : Path} (hp : validPath p = true) (hs : slash ∉ s) (hlen : 2 < s.length)
    (hvalid : validString s = true) : validPath (p ++ s) = true := by
  have hutf8 : validString p = true := by
    rw [validPath, Bool.and_eq_true] at hp
    exact hp.1
  have hlast : ∀ e : Path, Proper (e ++ s) := by
    refine fun e => ⟨fun h => ?_, fun h => ?_, fun h => ?_⟩
    all_goals
      have hlength := congrArg List.length h
      simp only [List.length_append, List.length_cons, List.length_nil] at hlength
      omega
  have hproper : ∀ e ∈ elements (p ++ s), Proper e := by
    rcases validPath_cases hp with rfl | hp
    · have hdot : slash ∉ [dot] ++ s := by
        simp only [List.mem_append, not_or]
        exact ⟨by decide, hs⟩
      rw [elements_of_noSlash hdot]
      exact fun e he => List.mem_singleton.mp he ▸ hlast [dot]
    · obtain ⟨D, e, rfl, hD, he⟩ := exists_file hp
      have hes : slash ∉ e ++ s := fun h => (List.mem_append.mp h).elim he.noSlash hs
      rw [List.append_assoc, elements_dirs fun d hd => (hD d hd).noSlash, elements_of_noSlash hes]
      intro e' he'
      rcases List.mem_append.mp he' with he' | he'
      · exact (hD e' he').proper
      · exact List.mem_singleton.mp he' ▸ hlast e
  rw [validPath, validString_append hutf8 hvalid, Bool.true_and, Bool.or_eq_true, List.all_eq_true]
  exact .inr fun e he => decide_eq_true (hproper e he)

end Elements

end GoraddServe.GoPaths
