import GoraddServe.ElementScanner
import Mathlib.Order.Monotone.Basic

/-!
# What `findGoraddElements` reports

The reported elements are the marked ones among the spans of the source. Offsets grow from
token to token, so the order and the nesting of the spans become those of the byte ranges. A
marked start tag without a span is lost: that is one whose element no end tag closes before
an end tag of an element around it, or before the source ends.
-/
namespace GoraddServe.MarkedElements
open TagMatching ElementScanner

variable {tokens : List Token} {tokenize : List UInt8 → Tokenized} {src : List UInt8}
  {result : List GoraddElement} {i j : ℕ} {e : GoraddElement}

theorem offset_mono : Monotone (offset tokens) := by
  refine monotone_nat_of_le_succ fun i => ?_
  unfold offset
  rw [List.take_add_one, List.map_append, List.flatten_append, List.length_append]
  exact Nat.le_add_right _ _

theorem offset_lt (hnonempty : ∀ tok ∈ tokens, tok.raw ≠ []) (hi : i < tokens.length)
    (hij : i < j) : offset tokens i < offset tokens j := by
  have hraw : 0 < tokens[i].raw.length :=
    List.length_pos_iff.mpr (hnonempty _ (List.getElem_mem hi))
  calc offset tokens i < offset tokens i + tokens[i].raw.length := Nat.lt_add_of_pos_right hraw
    _ = offset tokens (i + 1) := (offset_succ (List.getElem?_eq_getElem hi)).symm
    _ ≤ offset tokens j := offset_mono hij

theorem offset_le (hpart : (tokens.map Token.raw).flatten <+: src) (i : ℕ) :
    offset tokens i ≤ src.length := by
  have htotal : offset tokens (max i tokens.length) = (tokens.map Token.raw).flatten.length := by
    rw [offset, List.take_of_length_le (le_max_right ..)]
  calc offset tokens i ≤ offset tokens (max i tokens.length) := offset_mono (le_max_left ..)
    _ ≤ src.length := htotal ▸ hpart.length_le

theorem element_eq_some : element tokens (i, j) = some e ↔
    ∃ tok, tokens[i]? = some tok ∧ tok.HasGoradd ∧
      e = ⟨tok.data, (inspect tok.attr).2, offset tokens i, offset tokens (j + 1)⟩ := by
  cases h : tokens[i]? with
  | none => simp [element, h]
  | some tok =>
    simp only [element_eq h, inspect_hasGoradd, Option.ite_none_right_eq_some, Option.some.injEq,
      exists_eq_left', eq_comm (a := e)]

/-- The start and the end of a reported element are tokens that may be these. -/
def Originates (tokens : List Token) (e : GoraddElement) : Prop :=
  ∃ i tok, tokens[i]? = some tok ∧ tok.IsStart ∧ tok.HasGoradd ∧ tok.data = e.Tag ∧
    e.Start = offset tokens i ∧
      ((tok.IsSelfClosing ∧ e.End = offset tokens (i + 1)) ∨
        ∃ j tok', i < j ∧ tokens[j]? = some tok' ∧ tok'.type = .endTag ∧ tok'.data = e.Tag ∧
          e.End = offset tokens (j + 1))

theorem originates_of_spanned (hspan : Spanned (tokens.map Token.kind) i j)
    (he : element tokens (i, j) = some e) : Originates tokens e := by
  obtain ⟨tok, htok, hmarked, rfl⟩ := element_eq_some.mp he
  rcases hspan with ⟨hj, rfl⟩ | hc
  · rw [List.getElem?_map, htok, Option.map_some, Option.some.injEq, kind_eq_whole] at hj
    exact ⟨i, tok, htok, hj.1, hmarked, rfl, rfl, .inl ⟨hj.2, rfl⟩⟩
  · obtain ⟨name, hj, ho, -⟩ := closes_iff.mp hc
    have hi := ho.opens
    rw [List.getElem?_map, htok, Option.map_some, Option.some.injEq, kind_eq_opens] at hi
    rw [List.getElem?_map, Option.map_eq_some_iff] at hj
    obtain ⟨tok', htok', hkind⟩ := hj
    obtain ⟨hend, hdata⟩ := kind_eq_closes.mp hkind
    exact ⟨i, tok, htok, .inl hi.1, hmarked, rfl, rfl,
      .inr ⟨j, tok', ho.lt, htok', hend, hdata.trans hi.2.2.symm, rfl⟩⟩

theorem findGoraddElements_eq (h : findGoraddElements tokenize src = .ok result) :
    result = (scan ((tokenize src).tokens.map Token.kind)).spans.filterMap
      (element (tokenize src).tokens) := by
  unfold findGoraddElements at h
  rw [← (refines_scan _).result]
  dsimp only at h
  split at h
  · split at h
    · cases h
    · exact (Except.ok.inj h).symm
  · exact (Except.ok.inj h).symm

theorem mem_result (h : findGoraddElements tokenize src = .ok result) :
    e ∈ result ↔ ∃ i j, Spanned ((tokenize src).tokens.map Token.kind) i j ∧
      element (tokenize src).tokens (i, j) = some e := by
  rw [findGoraddElements_eq h, List.mem_filterMap, Prod.exists]
  simp only [mem_spans]

/-- The range of `a` ends before that of `b`, and lies before or inside it. -/
structure Precedes (a b : GoraddElement) : Prop where
  ends : a.End < b.End
  apart : a.End ≤ b.Start ∨ b.Start < a.Start

theorem result_precedes (h : findGoraddElements tokenize src = .ok result)
    (hnonempty : ∀ tok ∈ (tokenize src).tokens, tok.raw ≠ []) : result.Pairwise Precedes := by
  have hnested := nested_scan ((tokenize src).tokens.map Token.kind)
  have hnext :
      (scan ((tokenize src).tokens.map Token.kind)).next = (tokenize src).tokens.length := by
    simpa using (matched_all ((tokenize src).tokens.map Token.kind)).next
  rw [findGoraddElements_eq h, List.pairwise_filterMap]
  refine List.Pairwise.imp_of_mem ?_ hnested.apart
  intro a b ha hb hab e he f hf
  obtain ⟨hends, hapart⟩ := hab
  obtain ⟨ha, ha'⟩ := hnested.past a ha
  obtain ⟨hb, hb'⟩ := hnested.past b hb
  obtain ⟨tok, -, -, rfl⟩ := element_eq_some.mp he
  obtain ⟨tok', -, -, rfl⟩ := element_eq_some.mp hf
  refine ⟨offset_lt hnonempty (by omega) (by omega), ?_⟩
  rcases hapart with hbefore | hinside
  · exact .inl (offset_mono hbefore)
  · exact .inr (offset_lt hnonempty (by omega) hinside)

theorem start_lt_end (hok : findGoraddElements tokenize src = .ok result)
    (hnonempty : ∀ tok ∈ (tokenize src).tokens, tok.raw ≠ []) (he : e ∈ result) :
    e.Start < e.End := by
  obtain ⟨i, j, hspan, hij⟩ := (mem_result hok).mp he
  obtain ⟨tok, htok, -, rfl⟩ := element_eq_some.mp hij
  exact offset_lt hnonempty (List.getElem?_eq_some_iff.mp htok).1 (Nat.lt_succ_of_le hspan.le)

theorem starts_differ (hok : findGoraddElements tokenize src = .ok result)
    (hnonempty : ∀ tok ∈ (tokenize src).tokens, tok.raw ≠ []) :
    result.Pairwise fun a b => a.Start ≠ b.Start := by
  refine (result_precedes hok hnonempty).imp_of_mem fun ha _ hab => ?_
  have hproper := start_lt_end hok hnonempty ha
  rcases hab.apart with hbefore | hinside <;> omega

def Disjoint (a b : GoraddElement) : Prop := a.End ≤ b.Start ∨ b.End ≤ a.Start

/-- The range of `a` strictly contains that of `b`. -/
def Contains (a b : GoraddElement) : Prop := a.Start < b.Start ∧ b.End < a.End

/-- Every reported range is that of a marked element, ranges are ordered by their ends and
differ in their starts, and no two of them overlap. -/
theorem ranges_sound (hok : findGoraddElements tokenize src = .ok result)
    (hnonempty : ∀ tok ∈ (tokenize src).tokens, tok.raw ≠ [])
    (hpart : ((tokenize src).tokens.map Token.raw).flatten <+: src) :
    (∀ e ∈ result, 0 ≤ e.Start ∧ e.Start < e.End ∧ e.End ≤ src.length ∧
      Originates (tokenize src).tokens e) ∧
    (result.Pairwise fun a b => a.End < b.End) ∧ (result.Pairwise fun a b => a.Start ≠ b.Start) ∧
      result.Pairwise fun a b => Disjoint a b ∨ Contains a b ∨ Contains b a := by
  have hprecedes := result_precedes hok hnonempty
  refine ⟨fun e he => ?_, hprecedes.imp Precedes.ends, starts_differ hok hnonempty,
    hprecedes.imp fun hab => ?_⟩
  · refine ⟨Nat.zero_le _, start_lt_end hok hnonempty he, ?_⟩
    obtain ⟨i, j, hspan, hij⟩ := (mem_result hok).mp he
    refine ⟨?_, originates_of_spanned hspan hij⟩
    obtain ⟨tok, -, -, rfl⟩ := element_eq_some.mp hij
    exact offset_le hpart _
  · rcases hab.apart with hbefore | hinside
    · exact .inl (.inl hbefore)
    · exact .inr (.inr ⟨hinside, hab.ends⟩)

def bytes (text : String) : List UInt8 := text.toUTF8.data.toList

/-- A marked `br` in a `p` that is never closed, inside a marked `div`. -/
def nestedMarks : Tokenized where
  tokens := [⟨.startTag, bytes "<div data-goradd>", "div", [⟨"data-goradd", ""⟩]⟩,
    ⟨.startTag, bytes "<p>", "p", []⟩,
    ⟨.startTag, bytes "<br id=\"b\" data-goradd>", "br", [⟨"id", "b"⟩, ⟨"data-goradd", ""⟩]⟩,
    ⟨.endTag, bytes "</div>", "div", []⟩]
  err := some "EOF"

def nestedSource : List UInt8 := bytes "<div data-goradd><p><br id=\"b\" data-goradd></div>"

theorem ranges_sound_nested :
    ∃ result, findGoraddElements (fun _ => nestedMarks) nestedSource = .ok result ∧
      result = [⟨"br", "b", 20, 43⟩, ⟨"div", "", 0, 49⟩] ∧
      result.Pairwise fun a b => Disjoint a b ∨ Contains a b ∨ Contains b a := by
  have hok : findGoraddElements (fun _ => nestedMarks) nestedSource =
      .ok [⟨"br", "b", 20, 43⟩, ⟨"div", "", 0, 49⟩] := by decide
  exact ⟨_, hok, rfl, (ranges_sound hok (by decide) (by decide)).2.2.2⟩

private theorem countP_le_one {α : Type*} {p : α → Bool} {l : List α}
    (h : l.Pairwise fun a b => p a = true → p b ≠ true) : l.countP p ≤ 1 := by
  induction l with
  | nil => exact Nat.zero_le 1
  | cons a l ih =>
    obtain ⟨ha, hl⟩ := List.pairwise_cons.mp h
    rw [List.countP_cons]
    split
    · rename_i hpa
      rw [List.countP_eq_zero.mpr fun b hb => ha b hb hpa]
    · exact ih hl

theorem offset_injective (hnonempty : ∀ tok ∈ tokens, tok.raw ≠ []) (hi : i < tokens.length)
    (hj : j < tokens.length) (h : offset tokens i = offset tokens j) : i = j := by
  rcases lt_trichotomy i j with hlt | heq | hgt
  · exact absurd h (offset_lt hnonempty hi hlt).ne
  · exact heq
  · exact absurd h.symm (offset_lt hnonempty hj hgt).ne

/-- How many reported elements have the tag and the start of the token at `i`. -/
def occurrences (tokens : List Token) (result : List GoraddElement) (i : ℕ) (tok : Token) : ℕ :=
  result.countP fun e => e.Tag = tok.data ∧ e.Start = offset tokens i

/-- A marked token is found once if it ends where it starts or an end tag closes its element,
and not at all otherwise. -/
theorem found_once_iff (hok : findGoraddElements tokenize src = .ok result)
    (hnonempty : ∀ tok ∈ (tokenize src).tokens, tok.raw ≠ []) {tok : Token}
    (htok : (tokenize src).tokens[i]? = some tok) (hstart : tok.IsStart) (hmarked : tok.HasGoradd) :
    occurrences (tokenize src).tokens result i tok = 1 ↔
      tok.IsSelfClosing ∨ ∃ j, Closes ((tokenize src).tokens.map Token.kind) j i := by
  have hkind : ((tokenize src).tokens.map Token.kind)[i]? = some tok.kind := by simp [htok]
  have hi : i < (tokenize src).tokens.length := (List.getElem?_eq_some_iff.mp htok).1
  have hatmost : occurrences (tokenize src).tokens result i tok ≤ 1 := by
    refine countP_le_one ((starts_differ hok hnonempty).imp fun hab ha hb => hab ?_)
    simp only [decide_eq_true_eq] at ha hb
    rw [ha.2, hb.2]
  have hsome : occurrences (tokenize src).tokens result i tok = 1 ↔
      ∃ e ∈ result, e.Tag = tok.data ∧ e.Start = offset (tokenize src).tokens i := by
    rw [Nat.eq_iff_le_and_ge, and_iff_right hatmost, ← Nat.lt_iff_add_one_le, occurrences,
      List.countP_pos_iff]
    simp only [decide_eq_true_eq]
  rw [hsome]
  constructor
  · rintro ⟨e, he, -, hoffset⟩
    obtain ⟨i', j, hspan, hij⟩ := (mem_result hok).mp he
    obtain ⟨tok', htok', -, rfl⟩ := element_eq_some.mp hij
    obtain rfl : i' = i :=
      offset_injective hnonempty (List.getElem?_eq_some_iff.mp htok').1 hi hoffset
    rcases hspan with ⟨hwhole, rfl⟩ | hc
    · left
      rw [hkind, Option.some.injEq] at hwhole
      exact (kind_eq_whole.mp hwhole).2
    · exact .inr ⟨j, hc⟩
  · intro h
    have hspan : ∃ j, Spanned ((tokenize src).tokens.map Token.kind) i j := by
      rcases h with hself | ⟨j, hc⟩
      · exact ⟨i, .inl ⟨by rw [hkind, kind_eq_whole.mpr ⟨hstart, hself⟩], rfl⟩⟩
      · exact ⟨j, .inr hc⟩
    obtain ⟨j, hspan⟩ := hspan
    exact ⟨_, (mem_result hok).mpr ⟨i, j, hspan, element_eq_some.mpr ⟨tok, htok, hmarked, rfl⟩⟩,
      rfl, rfl⟩

/-- All marked elements are found if and only if each of them that takes an end tag is closed
by one. -/
theorem every_marked_found_iff (heof : (tokenize src).err = some "EOF")
    (hnonempty : ∀ tok ∈ (tokenize src).tokens, tok.raw ≠ []) :
    (∃ result, findGoraddElements tokenize src = .ok result ∧
      ∀ i tok, (tokenize src).tokens[i]? = some tok → tok.IsStart → tok.HasGoradd →
        occurrences (tokenize src).tokens result i tok = 1) ↔
    ∀ i tok, (tokenize src).tokens[i]? = some tok → tok.IsStart → tok.HasGoradd →
      tok.IsSelfClosing ∨ ∃ j, Closes ((tokenize src).tokens.map Token.kind) j i := by
  have hok : ∃ result, findGoraddElements tokenize src = .ok result := by
    simp [findGoraddElements, heof]
  constructor
  · rintro ⟨result, hok, hfound⟩ i tok htok hstart hmarked
    exact (found_once_iff hok hnonempty htok hstart hmarked).mp (hfound i tok htok hstart hmarked)
  · intro hclosed
    obtain ⟨result, hok⟩ := hok
    refine ⟨result, hok, fun i tok htok hstart hmarked => ?_⟩
    exact (found_once_iff hok hnonempty htok hstart hmarked).mpr (hclosed i tok htok hstart hmarked)

theorem every_marked_found_iff_nested : ∃ j, Closes (nestedMarks.tokens.map Token.kind) j 0 := by
  have hfound : ∀ i < 4, ∀ tok ∈ nestedMarks.tokens[i]?, tok.IsStart → tok.HasGoradd →
      occurrences nestedMarks.tokens [⟨"br", "b", 20, 43⟩, ⟨"div", "", 0, 49⟩] i tok = 1 := by
    decide
  have hok : findGoraddElements (fun _ => nestedMarks) nestedSource =
      .ok [⟨"br", "b", 20, 43⟩, ⟨"div", "", 0, 49⟩] := by decide
  have hiff := @every_marked_found_iff (fun _ => nestedMarks) nestedSource rfl (by decide)
  have hclosed := hiff.mp ⟨_, hok, fun i tok htok =>
    hfound i (List.getElem?_eq_some_iff.mp htok).1 tok htok⟩
  exact (hclosed 0 _ rfl (by decide) (by decide)).resolve_left (by decide)

/-- A list whose marked item has no end tag of its own, as HTML allows. -/
def omittedEnd : Tokenized where
  tokens := [⟨.startTag, bytes "<ul>", "ul", []⟩,
    ⟨.startTag, bytes "<li data-goradd>", "li", [⟨"data-goradd", ""⟩]⟩,
    ⟨.text, bytes "a", "a", []⟩, ⟨.endTag, bytes "</ul>", "ul", []⟩]
  err := some "EOF"

/-- The marked item is not reported. -/
theorem omittedEnd_lost :
    (∀ tok ∈ omittedEnd.tokens, tok.raw ≠ []) ∧
      (omittedEnd.tokens.map Token.raw).flatten = bytes "<ul><li data-goradd>a</ul>" ∧
      (∃ tok, omittedEnd.tokens[1]? = some tok ∧ tok.IsStart ∧ tok.HasGoradd) ∧
      findGoraddElements (fun _ => omittedEnd) (bytes "<ul><li data-goradd>a</ul>") = .ok [] := by
  refine ⟨by decide, by decide, ⟨_, rfl, by decide, by decide⟩, by decide⟩

end GoraddServe.MarkedElements
