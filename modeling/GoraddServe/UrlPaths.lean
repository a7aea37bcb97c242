import GoraddServe.GoPaths
import Mathlib.Data.List.Forall2

/-!
# Paths in URLs

A path is written into a URL byte by byte, where a percent sign stands for an escape. What comes
after a question mark or a number sign is no longer the path.
-/
namespace GoraddServe.UrlPaths
open GoPaths

def isHex (b : UInt8) : Bool :=
  decide ((48 ≤ b ∧ b ≤ 57) ∨ (65 ≤ b ∧ b ≤ 70) ∨ (97 ≤ b ∧ b ≤ 102))

def unhex (b : UInt8) : UInt8 := if b ≤ 57 then b - 48 else if b ≤ 70 then b - 55 else b - 87

/-- `url.PathUnescape(p)`, if there is no error. -/
def unescape : Path → Option Path
  | [] => some []
  | c :: rest =>
    if c ≠ 37 then (unescape rest).map (c :: ·)
    else
      match rest with
      | a :: b :: rest =>
        if isHex a && isHex b then (unescape rest).map ((unhex a * 16 + unhex b) :: ·) else none
      | _ => none

def pathUnescape (p : Path) : Path := (unescape p).getD p

def isControl (b : UInt8) : Bool := decide (b < 32 ∨ b = 127)

/-- `u.Path`, where `url.Parse(rawURL)` gives `u`, for a URL that is a rooted path. -/
def parsePath (rawURL : Path) : Option Path :=
  let u := rawURL.takeWhile (· ≠ 35)
  let frag := (rawURL.dropWhile (· ≠ 35)).drop 1
  if u.any isControl ∨ unescape frag = none then none else unescape (u.takeWhile (· ≠ 63))

def Plain (b : UInt8) : Prop := isControl b = false ∧ b ≠ 35 ∧ b ≠ 37 ∧ b ≠ 63

instance (b : UInt8) : Decidable (Plain b) := inferInstanceAs (Decidable (_ ∧ _))

theorem plain_of_all {p : Path} (h : p.all fun b => decide (Plain b)) : ∀ b ∈ p, Plain b := by
  simpa using h

/-- What `unescape` does byte by byte. -/
inductive Unescapes : Path → Path → Prop where
  | nil : Unescapes [] []
  | byte {b : UInt8} {p q : Path} (hb : b ≠ 37) (h : Unescapes p q) : Unescapes (b :: p) (b :: q)
  | escape {x y : UInt8} {p q : Path} (hx : isHex x = true) (hy : isHex y = true)
      (h : Unescapes p q) : Unescapes (37 :: x :: y :: p) ((unhex x * 16 + unhex y) :: q)

section Escapes

variable {p q r g e : Path} {G : List Path} {b : UInt8}

theorem unescape_cons (hb : b ≠ 37) : unescape (b :: p) = (unescape p).map (b :: ·) := by
  rcases p with _ | ⟨x, _ | ⟨y, p⟩⟩ <;> simp [unescape, hb]

theorem unescapes_of_eq_some (h : unescape p = some q) : Unescapes p q := by
  induction p using unescape.induct generalizing q with
  | case1 =>
    cases h
    exact .nil
  | case2 b p hb ih =>
    rw [unescape_cons hb] at h
    obtain ⟨q', hq', rfl⟩ := Option.map_eq_some_iff.mp h
    exact .byte hb (ih hq')
  | case3 b hb x y p hhex ih =>
    obtain rfl : b = 37 := not_not.mp hb
    rw [unescape, if_neg hb, if_pos hhex] at h
    obtain ⟨q', hq', rfl⟩ := Option.map_eq_some_iff.mp h
    obtain ⟨hx, hy⟩ := Bool.and_eq_true_iff.mp hhex
    exact .escape hx hy (ih hq')
  | case4 b hb x y p hhex =>
    rw [unescape, if_neg hb, if_neg hhex] at h
    cases h
  | case5 b p hb hshort =>
    rcases p with _ | ⟨x, _ | ⟨y, p⟩⟩
    · simp [unescape, hb] at h
    · simp [unescape, hb] at h
    · exact absurd rfl (hshort x y p)

theorem unescape_of_notMem (h : 37 ∉ p) : unescape p = some p := by
  induction p with
  | nil => rfl
  | cons b p ih =>
    have hb : b ≠ 37 := fun hb => h (hb ▸ List.mem_cons_self)
    rw [unescape_cons hb, ih fun hp => h (List.mem_cons_of_mem b hp), Option.map_some]

theorem isHex_ne (h : isHex b = true) : b ≠ 37 ∧ b ≠ slash := by
  refine ⟨?_, ?_⟩
  all_goals
    rintro rfl
    exact absurd h (by decide)

theorem Unescapes.length (h : Unescapes p q) : p.length = q.length + 2 * p.count 37 := by
  induction h with
  | nil => rfl
  | byte hb h ih => rw [List.length_cons, List.length_cons, List.count_cons_of_ne hb, ih]; omega
  | escape hx hy h ih =>
    rw [List.count_cons_self, List.count_cons_of_ne (isHex_ne hx).1,
      List.count_cons_of_ne (isHex_ne hy).1]
    simp only [List.length_cons]
    omega

theorem Unescapes.eq (h : Unescapes p q) (hp : p.count 37 = 0) : q = p := by
  induction h with
  | nil => rfl
  | byte hb h ih => rw [ih (by rwa [List.count_cons_of_ne hb] at hp)]
  | escape hx hy h ih => simp at hp

theorem Unescapes.count_le (h : Unescapes p q) : q.count 37 ≤ p.count 37 := by
  induction h with
  | nil => exact Nat.le_refl _
  | byte hb h ih => rwa [List.count_cons_of_ne hb, List.count_cons_of_ne hb]
  | escape hx hy h ih =>
    rw [List.count_cons_self, List.count_cons_of_ne (isHex_ne hx).1,
      List.count_cons_of_ne (isHex_ne hy).1, List.count_cons]
    split <;> omega

/-- When each escape gives a percent sign there are no other new bytes. -/
theorem Unescapes.mem (h : Unescapes p q) (hcount : p.count 37 ≤ q.count 37) (hb : b ∈ q) :
    b = 37 ∨ b ∈ p := by
  induction h with
  | nil => exact .inr hb
  | @byte c p q hc h ih =>
    rw [List.count_cons_of_ne hc, List.count_cons_of_ne hc] at hcount
    rcases List.mem_cons.mp hb with rfl | hb
    · exact .inr List.mem_cons_self
    · exact (ih hcount hb).imp_right (List.mem_cons_of_mem c)
  | escape hx hy h ih =>
    have hle := h.count_le
    rw [List.count_cons_self, List.count_cons_of_ne (isHex_ne hx).1,
      List.count_cons_of_ne (isHex_ne hy).1, List.count_cons] at hcount
    split at hcount
    · rename_i heq
      rcases List.mem_cons.mp hb with rfl | hb
      · exact .inl (eq_of_beq heq)
      · refine (ih (by omega) hb).imp_right fun hp => ?_
        exact List.mem_cons_of_mem _ (List.mem_cons_of_mem _ (List.mem_cons_of_mem _ hp))
    · omega

theorem Unescapes.slash (h : Unescapes (p ++ slash :: q) r) :
    ∃ p' q', Unescapes p p' ∧ Unescapes q q' ∧ r = p' ++ slash :: q' := by
  generalize hw : p ++ GoPaths.slash :: q = w at h
  induction h generalizing p with
  | nil => simp at hw
  | @byte b w r hb h ih =>
    rcases p with _ | ⟨c, p⟩
    · obtain ⟨rfl, rfl⟩ := List.cons.inj hw
      exact ⟨[], r, .nil, h, rfl⟩
    · rw [List.cons_append, List.cons.injEq] at hw
      obtain ⟨rfl, hw⟩ := hw
      obtain ⟨p', q', hp', hq', rfl⟩ := ih hw
      exact ⟨c :: p', q', .byte hb hp', hq', rfl⟩
  | @escape x y w r hx hy h ih =>
    rcases p with _ | ⟨c, _ | ⟨c', _ | ⟨c'', p⟩⟩⟩
    · exact absurd (List.cons.inj hw).1 (by decide)
    · exact absurd (List.cons.inj (List.cons.inj hw).2).1.symm (isHex_ne hx).2
    · exact absurd (List.cons.inj (List.cons.inj (List.cons.inj hw).2).2).1.symm (isHex_ne hy).2
    · simp only [List.cons_append, List.cons.injEq] at hw
      obtain ⟨rfl, rfl, rfl, hw⟩ := hw
      obtain ⟨p', q', hp', hq', rfl⟩ := ih hw
      exact ⟨_, q', .escape hx hy hp', hq', rfl⟩

theorem Unescapes.isName (h : Unescapes p q) (hcount : p.count 37 ≤ q.count 37) (hp : IsName p) :
    IsName q := by
  have hslash : GoPaths.slash ∉ q := fun hmem =>
    (h.mem hcount hmem).elim (by decide) hp.noSlash
  by_cases hpercent : p.count 37 = 0
  · exact h.eq hpercent ▸ hp
  · have hmem : (37 : UInt8) ∈ q := List.count_pos_iff.mp (by omega)
    refine ⟨⟨?_, ?_, ?_⟩, hslash⟩
    all_goals
      rintro rfl
      revert hmem
      decide

/-- The names of directories and of a file are unescaped one by one. -/
theorem Unescapes.file (h : Unescapes (dirs G ++ e) p)
    (hcount : (dirs G ++ e).count 37 ≤ p.count 37) (hG : ∀ d ∈ G, IsName d) (he : IsName e) :
    ∃ G' e', List.Forall₂ Unescapes G G' ∧ Unescapes e e' ∧ (∀ d ∈ G', IsName d) ∧ IsName e' ∧
      p = dirs G' ++ e' := by
  induction G generalizing p with
  | nil => exact ⟨[], p, .nil, h, by simp, h.isName hcount he, rfl⟩
  | cons g G ih =>
    rw [dirs_cons, List.append_assoc, List.cons_append] at h hcount
    obtain ⟨g', p', hg, hp, rfl⟩ := h.slash
    have hgle := hg.count_le
    have hple := hp.count_le
    have hslash : (37 : UInt8) ≠ GoPaths.slash := by decide
    rw [List.count_append, List.count_append, List.count_cons_of_ne hslash.symm,
      List.count_cons_of_ne hslash.symm] at hcount
    obtain ⟨G', e', hG', he', hnames, hname, rfl⟩ :=
      ih hp (by omega) fun d hd => hG d (List.mem_cons_of_mem g hd)
    have hg' : IsName g' := hg.isName (by omega) (hG g List.mem_cons_self)
    exact ⟨g' :: G', e', .cons hg hG', he', List.forall_mem_cons.mpr ⟨hg', hnames⟩, hname,
      by simp⟩

theorem Unescapes.rooted (h : Unescapes (GoPaths.slash :: (dirs G ++ e)) p)
    (hcount : (GoPaths.slash :: (dirs G ++ e)).count 37 ≤ p.count 37) (hG : ∀ d ∈ G, IsName d)
    (he : IsName e) : ∃ G' e', List.Forall₂ Unescapes G G' ∧ Unescapes e e' ∧
      (∀ d ∈ G', IsName d) ∧ IsName e' ∧ p = GoPaths.slash :: (dirs G' ++ e') := by
  obtain ⟨p', q', hp', hq', rfl⟩ := Unescapes.slash (p := []) h
  obtain rfl : p' = [] := hp'.eq rfl
  have hslash : GoPaths.slash ≠ (37 : UInt8) := by decide
  rw [List.nil_append, List.count_cons_of_ne hslash, List.count_cons_of_ne hslash] at hcount
  obtain ⟨G', e', hG', he', hnames, hname, rfl⟩ := hq'.file hcount hG he
  exact ⟨G', e', hG', he', hnames, hname, rfl⟩

theorem Unescapes.notMem (h : Unescapes p p) : 37 ∉ p := by
  have hlength := h.length
  exact List.count_eq_zero.mp (by omega)

/-- Directories that begin the unescaped path as they are have no escapes. -/
theorem exists_unescaped {P D G' : List Path} {x : Path}
    (h : List.Forall₂ Unescapes (P ++ D ++ [x]) G') (hP : P <+: G') (hx : 37 ∉ x) :
    ∃ D', List.Forall₂ Unescapes D D' ∧ G' = P ++ D' ++ [x] ∧ ∀ d ∈ P, 37 ∉ d := by
  obtain ⟨R, rfl⟩ := hP
  rw [List.append_assoc] at h
  have hsame : List.Forall₂ Unescapes P P := by simpa using List.forall₂_take P.length h
  have hrest : List.Forall₂ Unescapes (D ++ [x]) R := by
    simpa using List.forall₂_drop P.length h
  have hD : List.Forall₂ Unescapes D (R.take D.length) := by
    simpa using List.forall₂_take D.length hrest
  have hlast : List.Forall₂ Unescapes [x] (R.drop D.length) := by
    simpa using List.forall₂_drop D.length hrest
  rw [List.forall₂_cons_left_iff] at hlast
  obtain ⟨x', rest, hx', hnil, hdrop⟩ := hlast
  rw [List.forall₂_nil_left_iff] at hnil
  rw [hnil, hx'.eq (List.count_eq_zero.mpr hx)] at hdrop
  refine ⟨R.take D.length, hD, ?_, fun d hd => (List.forall₂_same.mp hsame d hd).notMem⟩
  rw [List.append_assoc, ← hdrop, List.take_append_drop]

end Escapes

section Parse

variable {rawURL p : Path}

theorem parsePath_of_plain (h : ∀ b ∈ rawURL, Plain b) : parsePath rawURL = some rawURL := by
  have hnumber : rawURL.takeWhile (· ≠ 35) = rawURL :=
    List.takeWhile_eq_self_iff.mpr fun b hb => decide_eq_true (h b hb).2.1
  have hfrag : rawURL.dropWhile (· ≠ 35) = [] :=
    List.dropWhile_eq_nil_iff.mpr fun b hb => decide_eq_true (h b hb).2.1
  have hquery : rawURL.takeWhile (· ≠ 63) = rawURL :=
    List.takeWhile_eq_self_iff.mpr fun b hb => decide_eq_true (h b hb).2.2.2
  have hcontrol : rawURL.any isControl = false := by
    rw [List.any_eq_false]
    exact fun b hb => by simp [(h b hb).1]
  have hpercent : unescape rawURL = some rawURL :=
    unescape_of_notMem fun hb => (h 37 hb).2.2.1 rfl
  rw [parsePath, hnumber, hfrag, hquery, hcontrol, hpercent]
  rfl

/-- The path comes from a beginning of the URL, or from the whole of it. -/
theorem parsePath_eq_some (h : parsePath rawURL = some p) : ∃ v, v <+: rawURL ∧ Unescapes v p ∧
    (∀ b ∈ v, isControl b = false ∧ b ≠ 35 ∧ b ≠ 63) ∧
      (35 ∉ rawURL → 63 ∉ rawURL → v = rawURL) := by
  rw [parsePath] at h
  obtain ⟨hnot, hpath⟩ := Option.ite_none_left_eq_some.mp h
  have hcontrol := List.any_eq_false.mp (Bool.eq_false_iff.mpr (not_or.mp hnot).1)
  refine ⟨_, (List.takeWhile_prefix _).trans (List.takeWhile_prefix _),
    unescapes_of_eq_some hpath, fun b hb => ?_, fun hnumber hquery => ?_⟩
  · have hmem := (List.takeWhile_prefix _).subset hb
    refine ⟨by simpa using hcontrol b hmem, ?_, ?_⟩
    · simpa using List.mem_takeWhile_imp hmem
    · simpa using List.mem_takeWhile_imp hb
  · have hu : rawURL.takeWhile (· ≠ 35) = rawURL :=
      List.takeWhile_eq_self_iff.mpr fun b hb => decide_eq_true fun h => hnumber (h ▸ hb)
    rw [hu]
    exact List.takeWhile_eq_self_iff.mpr fun b hb => decide_eq_true fun h => hquery (h ▸ hb)

end Parse

end GoraddServe.UrlPaths
