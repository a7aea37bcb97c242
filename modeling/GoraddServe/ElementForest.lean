import GoraddServe.MarkedElements

/-!
# Well-formed sources

A well-formed source is a forest of elements with text, comments and a doctype between them.
An element is one tag if it is void or closed by itself, else a start tag and an end tag
around a forest. On the tokens of such a source `findGoraddElements` reports the marked
elements in post-order: the elements inside a start tag leave the stack as they found it, so
the end tag meets the start tag of its own element, whatever the names inside are.
-/
namespace GoraddServe.ElementForest
open ElementScanner
open MarkedElements (bytes)

/-- A start tag as it is written, with at most one `id`. -/
structure Tag where
  name : String
  attr : List Attribute
  raw : List UInt8
  oneID : (attr.filter (·.Key = "id")).length ≤ 1

inductive Misc where
  | text
  | comment
  | doctype

def Misc.type : Misc → TokenType
  | .text => .text
  | .comment => .comment
  | .doctype => .doctype

/-- The elements of a document or of an element, one after the other. -/
inductive Forest where
  | nil
  | misc (type : Misc) (raw : List UInt8) (data : String) (rest : Forest)
  | void (tag : Tag) (hvoid : tag.name ∈ voidElements) (rest : Forest)
  | selfClosed (tag : Tag) (rest : Forest)
  | element (tag : Tag) (hvoid : tag.name ∉ voidElements) (children : Forest)
      (endRaw : List UInt8) (rest : Forest)

namespace Tag

variable (tag : Tag)

def marked : Bool := tag.attr.any (·.Key = "data-goradd")

/-- The value of the `id`, empty without one. -/
def id : String := ((tag.attr.find? (·.Key = "id")).map Attribute.Val).getD ""

def token (type : TokenType) : Token := ⟨type, tag.raw, tag.name, tag.attr⟩

end Tag

/-- An element, with the bytes from its start tag to its end tag and the offset of these. -/
structure Placed where
  tag : Tag
  source : List UInt8
  start : ℕ

def Placed.report (p : Placed) : Option GoraddElement :=
  if p.tag.marked then some ⟨p.tag.name, p.tag.id, p.start, p.start + p.source.length⟩ else none

namespace Forest

def source : Forest → List UInt8
  | nil => []
  | misc _ raw _ rest => raw ++ rest.source
  | void tag _ rest => tag.raw ++ rest.source
  | selfClosed tag rest => tag.raw ++ rest.source
  | element tag _ children endRaw rest => tag.raw ++ children.source ++ endRaw ++ rest.source

def tokens : Forest → List Token
  | nil => []
  | misc type raw data rest => ⟨type.type, raw, data, []⟩ :: rest.tokens
  | void tag _ rest => tag.token .startTag :: rest.tokens
  | selfClosed tag rest => tag.token .selfClosingTag :: rest.tokens
  | element tag _ children endRaw rest => tag.token .startTag :: (children.tokens ++
      ⟨.endTag, endRaw, tag.name, []⟩ :: rest.tokens)

/-- The elements in post-order, when the forest starts at an offset. -/
def postorder : Forest → ℕ → List Placed
  | nil, _ => []
  | misc _ raw _ rest, start => rest.postorder (start + raw.length)
  | void tag _ rest, start => ⟨tag, tag.raw, start⟩ :: rest.postorder (start + tag.raw.length)
  | selfClosed tag rest, start =>
    ⟨tag, tag.raw, start⟩ :: rest.postorder (start + tag.raw.length)
  | element tag _ children endRaw rest, start =>
    let source := tag.raw ++ children.source ++ endRaw
    children.postorder (start + tag.raw.length) ++
      ⟨tag, source, start⟩ :: rest.postorder (start + source.length)

end Forest

private theorem inspectAttr_id (attrs : List Attribute) (acc : Bool × String) :
    (attrs.foldl inspectAttr acc).2 =
      (((attrs.filter (·.Key = "id")).getLast?).map Attribute.Val).getD acc.2 := by
  induction attrs generalizing acc with
  | nil => rfl
  | cons attr attrs ih =>
    rw [List.foldl_cons, ih]
    by_cases hid : attr.Key = "id"
    · rw [List.filter_cons_of_pos (by simpa using hid), List.getLast?_cons]
      cases (attrs.filter (·.Key = "id")).getLast? <;> simp [inspectAttr, hid]
    · rw [List.filter_cons_of_neg (by simpa using hid)]
      simp [inspectAttr, hid]

private theorem getLast?_eq_head? {attrs : List Attribute} (h : attrs.length ≤ 1) :
    attrs.getLast? = attrs.head? := by
  cases attrs with
  | nil => rfl
  | cons attr rest =>
    have hrest : rest = [] := List.length_eq_zero_iff.mp (by simpa using h)
    rw [hrest, List.getLast?_singleton, List.head?_cons]

theorem inspect_attr (tag : Tag) : inspect tag.attr = (tag.marked, tag.id) := by
  refine Prod.ext ?_ ?_
  · refine Bool.eq_iff_iff.mpr ((inspect_hasGoradd (tag.token .startTag)).trans ?_)
    simp [Tag.marked, Token.HasGoradd, Tag.token]
  · have hlast := inspectAttr_id tag.attr (false, "")
    rwa [getLast?_eq_head? tag.oneID, List.head?_filter] at hlast

private theorem filterMap_cons' (p : Placed) (ps : List Placed) :
    (p :: ps).filterMap Placed.report = p.report.toList ++ ps.filterMap Placed.report := by
  cases h : p.report <;> simp [h]

section Scanning

variable {s : ScanState}

theorem scanToken_tag (tag : Tag) {type : TokenType} (hstart : (tag.token type).IsStart)
    (hself : (tag.token type).IsSelfClosing) :
    scanToken s (tag.token type) = ⟨s.offset + tag.raw.length, s.stack,
      s.result ++ (Placed.report ⟨tag, tag.raw, s.offset⟩).toList⟩ := by
  have hattr : inspect (tag.token type).attr = (tag.marked, tag.id) := inspect_attr tag
  rw [scanToken_whole hstart hself, hattr]
  cases hmarked : tag.marked <;> simp [Placed.report, hmarked, Tag.token]

theorem scanToken_end (tag : Tag) (source endRaw : List UInt8) (start : ℕ)
    (hoffset : s.offset + endRaw.length = start + source.length) {stack : List StackElem}
    (hstack : s.stack = ⟨tag.name, start, tag.marked, tag.id⟩ :: stack) :
    scanToken s ⟨.endTag, endRaw, tag.name, []⟩ = ⟨start + source.length, stack,
      s.result ++ (Placed.report ⟨tag, source, start⟩).toList⟩ := by
  have hdrop : s.stack.dropWhile (·.tag != tag.name) = s.stack := by
    simp [hstack]
  rw [scanToken_closes rfl]
  dsimp only
  rw [hdrop, hstack, hoffset]
  cases hmarked : tag.marked <;> simp [Placed.report, hmarked]

end Scanning

/-- A forest leaves the stack as it was and adds its marked elements. -/
theorem scan_forest (f : Forest) (s : ScanState) :
    f.tokens.foldl scanToken s = ⟨s.offset + f.source.length, s.stack,
      s.result ++ (f.postorder s.offset).filterMap Placed.report⟩ := by
  induction f generalizing s with
  | nil => simp [Forest.tokens, Forest.source, Forest.postorder]
  | misc type raw data rest ih =>
    have hmisc : scanToken s ⟨type.type, raw, data, []⟩ =
        { s with offset := s.offset + raw.length } := by
      cases type <;> rfl
    rw [Forest.tokens, List.foldl_cons, hmisc, ih]
    simp [Forest.source, Forest.postorder, Nat.add_assoc]
  | void tag hvoid rest ih =>
    rw [Forest.tokens, List.foldl_cons, scanToken_tag tag (.inl rfl) (.inr hvoid), ih]
    simp [Forest.source, Forest.postorder, Nat.add_assoc, filterMap_cons']
  | selfClosed tag rest ih =>
    rw [Forest.tokens, List.foldl_cons, scanToken_tag tag (.inr rfl) (.inl rfl), ih]
    simp [Forest.source, Forest.postorder, Nat.add_assoc, filterMap_cons']
  | element tag hvoid children endRaw rest ihc ih =>
    have hopen : ¬(tag.token .startTag).IsSelfClosing := by
      rintro (h | h)
      · cases h
      · exact hvoid h
    have hattr : inspect (tag.token .startTag).attr = (tag.marked, tag.id) := inspect_attr tag
    have hoffset : s.offset + tag.raw.length + children.source.length + endRaw.length =
        s.offset + (tag.raw ++ children.source ++ endRaw).length := by
      simp [Nat.add_assoc]
    rw [Forest.tokens, List.foldl_cons, scanToken_opens rfl hopen, List.foldl_append,
      List.foldl_cons, ihc, hattr]
    -- the children have left the entry of the start tag on top
    rw [scanToken_end tag (tag.raw ++ children.source ++ endRaw) endRaw s.offset hoffset rfl, ih]
    simp [Forest.source, Forest.postorder, Nat.add_assoc, filterMap_cons', Tag.token]

theorem flatten_tokens (f : Forest) : (f.tokens.map Token.raw).flatten = f.source := by
  induction f with
  | nil => rfl
  | misc type raw data rest ih => simp [Forest.tokens, Forest.source, ih]
  | void tag hvoid rest ih => simp [Forest.tokens, Forest.source, Tag.token, ih]
  | selfClosed tag rest ih => simp [Forest.tokens, Forest.source, Tag.token, ih]
  | element tag hvoid children endRaw rest ihc ih =>
    simp [Forest.tokens, Forest.source, Tag.token, ihc, ih]

/-- The bytes of an element stand in the source at its offset. -/
theorem postorder_source {f : Forest} {start : ℕ} {p : Placed} (hp : p ∈ f.postorder start) :
    ∃ before after, f.source = before ++ p.source ++ after ∧ p.start = start + before.length := by
  induction f generalizing start with
  | nil => cases hp
  | misc type raw data rest ih =>
    obtain ⟨before, after, hsource, hstart⟩ := ih hp
    exact ⟨raw ++ before, after, by simp [Forest.source, hsource],
      by simp [hstart, Nat.add_assoc]⟩
  | void tag hvoid rest ih =>
    rcases List.mem_cons.mp hp with rfl | hp
    · exact ⟨[], rest.source, rfl, rfl⟩
    · obtain ⟨before, after, hsource, hstart⟩ := ih hp
      exact ⟨tag.raw ++ before, after, by simp [Forest.source, hsource],
        by simp [hstart, Nat.add_assoc]⟩
  | selfClosed tag rest ih =>
    rcases List.mem_cons.mp hp with rfl | hp
    · exact ⟨[], rest.source, rfl, rfl⟩
    · obtain ⟨before, after, hsource, hstart⟩ := ih hp
      exact ⟨tag.raw ++ before, after, by simp [Forest.source, hsource],
        by simp [hstart, Nat.add_assoc]⟩
  | element tag hvoid children endRaw rest ihc ih =>
    rcases List.mem_append.mp hp with hp | hp
    · obtain ⟨before, after, hsource, hstart⟩ := ihc hp
      exact ⟨tag.raw ++ before, after ++ endRaw ++ rest.source,
        by simp [Forest.source, hsource], by simp [hstart, Nat.add_assoc]⟩
    rcases List.mem_cons.mp hp with rfl | hp
    · exact ⟨[], rest.source, rfl, rfl⟩
    · obtain ⟨before, after, hsource, hstart⟩ := ih hp
      exact ⟨tag.raw ++ children.source ++ endRaw ++ before, after,
        by simp [Forest.source, hsource], by simp [hstart, Nat.add_assoc]⟩

/-- On the tokens of a well-formed source the marked elements are reported in post-order, with
the range of their bytes. -/
theorem findGoraddElements_forest (f : Forest) (tokenize : List UInt8 → Tokenized)
    (htokens : tokenize f.source = ⟨f.tokens, some "EOF"⟩) :
    findGoraddElements tokenize f.source = .ok ((f.postorder 0).filterMap Placed.report) ∧
      ∀ p ∈ f.postorder 0, (f.source.drop p.start).take p.source.length = p.source := by
  refine ⟨?_, fun p hp => ?_⟩
  · simp [findGoraddElements, htokens, scan_forest]
  · obtain ⟨before, after, hsource, hstart⟩ := postorder_source hp
    rw [hsource, hstart, Nat.zero_add, List.append_assoc, List.drop_left, List.take_left]

/-- A marked `div` inside a paragraph that is inside another one. -/
def nestedDivs : Forest :=
  .element ⟨"div", [⟨"id", "a"⟩, ⟨"data-goradd", ""⟩], bytes "<div id=a data-goradd>", by decide⟩
    (by decide)
    (.element ⟨"p", [], bytes "<p>", by decide⟩ (by decide)
      (.element ⟨"div", [⟨"data-goradd", ""⟩], bytes "<div data-goradd>", by decide⟩ (by decide)
        (.misc .text (bytes "x") "x" <|
          .void ⟨"br", [⟨"id", "b"⟩, ⟨"data-goradd", ""⟩], bytes "<br id=b data-goradd>",
            by decide⟩ (by decide) .nil)
        (bytes "</div>") .nil)
      (bytes "</p>") .nil)
    (bytes "</div>") .nil

theorem findGoraddElements_nestedDivs :
    findGoraddElements (fun _ => ⟨nestedDivs.tokens, some "EOF"⟩) nestedDivs.source =
      .ok [⟨"br", "b", 43, 64⟩, ⟨"div", "", 25, 70⟩, ⟨"div", "a", 0, 80⟩] :=
  (findGoraddElements_forest nestedDivs (fun _ => ⟨nestedDivs.tokens, some "EOF"⟩) rfl).1.trans
    (by decide)

end GoraddServe.ElementForest
