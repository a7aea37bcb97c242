import GoraddServe.TagMatching

/-!
# Elements marked with `data-goradd`

`findGoraddElements` reads the tokens of an HTML source and reports the marked elements with
their byte ranges. Its stack is the one of `TagMatching` under the byte offsets of the
tokens, so what is reported are the marked elements that have an end, and their ranges nest.
-/
namespace GoraddServe.ElementScanner
open TagMatching

structure Attribute where
  Key : String
  Val : String

inductive TokenType where
  | text
  | startTag
  | endTag
  | selfClosingTag
  | comment
  | doctype
  deriving DecidableEq

/-- A token of `html.Tokenizer` with its raw bytes. -/
structure Token where
  type : TokenType
  raw : List UInt8
  data : String
  attr : List Attribute

/-- What the tokenizer of a source yields: the tokens before the first `ErrorToken`, and the
text of `z.Err()` there. -/
structure Tokenized where
  tokens : List Token
  err : Option String

structure GoraddElement where
  Tag : String
  ID : String
  Start : ℕ
  End : ℕ
  deriving DecidableEq

structure StackElem where
  tag : String
  startPos : ℕ
  hasGoradd : Bool
  id : String

def voidElements : List String :=
  ["area", "base", "br", "col", "embed", "hr", "img", "input", "link", "meta", "param", "source",
    "track", "wbr"]

/-- The variables of the loop; `stack` has its top first. -/
structure ScanState where
  offset : ℕ
  stack : List StackElem
  result : List GoraddElement

/-- The body of the loop over the attributes, on `hasGoradd` and `idVal`. -/
def inspectAttr (acc : Bool × String) (attr : Attribute) : Bool × String :=
  (if attr.Key = "data-goradd" then true else acc.1, if attr.Key = "id" then attr.Val else acc.2)

def inspect (attrs : List Attribute) : Bool × String := attrs.foldl inspectAttr (false, "")

def scanToken (s : ScanState) (tok : Token) : ScanState :=
  let tokenStart := s.offset
  let tokenEnd := s.offset + tok.raw.length
  let s := { s with offset := tokenEnd }
  let tagName := tok.data
  match tok.type with
  | .startTag | .selfClosingTag =>
    let (hasGoradd, idVal) := inspect tok.attr
    if tok.type = .selfClosingTag ∨ tagName ∈ voidElements then
      if hasGoradd then { s with result := s.result ++ [⟨tagName, idVal, tokenStart, tokenEnd⟩] }
      else s
    else { s with stack := ⟨tagName, tokenStart, hasGoradd, idVal⟩ :: s.stack }
  | .endTag =>
    -- walk backwards to the matching start tag; what lies above it goes with it
    match s.stack.dropWhile (·.tag != tagName) with
    | [] => s
    | elem :: stack =>
      let s := { s with stack }
      if elem.hasGoradd then
        { s with result := s.result ++ [⟨elem.tag, elem.id, elem.startPos, tokenEnd⟩] }
      else s
  | _ => s

def findGoraddElements (tokenize : List UInt8 → Tokenized) (src : List UInt8) :
    Except String (List GoraddElement) :=
  let z := tokenize src
  let result := (z.tokens.foldl scanToken ⟨0, [], []⟩).result
  match z.err with
  | some err => if err ≠ "EOF" then .error err else .ok result
  | none => .ok result

namespace Token

variable (tok : Token)

def IsStart : Prop := tok.type = .startTag ∨ tok.type = .selfClosingTag

def IsSelfClosing : Prop := tok.type = .selfClosingTag ∨ tok.data ∈ voidElements

instance : Decidable tok.IsStart := inferInstanceAs (Decidable (_ ∨ _))

instance : Decidable tok.IsSelfClosing := inferInstanceAs (Decidable (_ ∨ _))

/-- The token carries a `data-goradd` attribute. -/
def HasGoradd : Prop := ∃ attr ∈ tok.attr, attr.Key = "data-goradd"

instance : Decidable tok.HasGoradd := inferInstanceAs (Decidable (∃ attr ∈ _, _))

def kind : Kind String :=
  match tok.type with
  | .startTag => if tok.IsSelfClosing then .whole else .opens tok.data
  | .selfClosingTag => .whole
  | .endTag => .closes tok.data
  | _ => .other

end Token

theorem inspect_hasGoradd (tok : Token) : (inspect tok.attr).1 = true ↔ tok.HasGoradd := by
  have hfold : ∀ (attrs : List Attribute) (acc : Bool × String),
      (attrs.foldl inspectAttr acc).1 = true ↔
        acc.1 = true ∨ ∃ attr ∈ attrs, attr.Key = "data-goradd" := by
    intro attrs
    induction attrs with
    | nil => simp
    | cons attr attrs ih =>
      intro acc
      rw [List.foldl_cons, ih]
      by_cases hattr : attr.Key = "data-goradd" <;> simp [inspectAttr, hattr]
  exact (hfold tok.attr (false, "")).trans (by simp [Token.HasGoradd])

section Kinds

variable {s : ScanState} {tok : Token}

theorem kind_eq_opens {name : String} :
    tok.kind = .opens name ↔ tok.type = .startTag ∧ ¬tok.IsSelfClosing ∧ tok.data = name := by
  unfold Token.kind
  cases htype : tok.type <;> simp
  split <;> simp_all

theorem kind_eq_closes {name : String} :
    tok.kind = .closes name ↔ tok.type = .endTag ∧ tok.data = name := by
  unfold Token.kind
  cases htype : tok.type <;> simp
  split <;> simp

theorem kind_eq_whole : tok.kind = .whole ↔ tok.IsStart ∧ tok.IsSelfClosing := by
  unfold Token.kind
  cases htype : tok.type <;> simp [Token.IsStart, htype]
  simp [Token.IsSelfClosing, htype]

theorem scanToken_opens (hstart : tok.type = .startTag) (hopen : ¬tok.IsSelfClosing) :
    scanToken s tok = ⟨s.offset + tok.raw.length,
      ⟨tok.data, s.offset, (inspect tok.attr).1, (inspect tok.attr).2⟩ :: s.stack, s.result⟩ := by
  unfold Token.IsSelfClosing at hopen
  unfold scanToken
  rw [hstart] at hopen ⊢
  simp only [if_neg hopen]

theorem scanToken_whole (hstart : tok.IsStart) (hself : tok.IsSelfClosing) :
    scanToken s tok = ⟨s.offset + tok.raw.length, s.stack, s.result ++
      if (inspect tok.attr).1 then
        [⟨tok.data, (inspect tok.attr).2, s.offset, s.offset + tok.raw.length⟩] else []⟩ := by
  unfold Token.IsSelfClosing at hself
  unfold scanToken
  rcases hstart with hstart | hstart
  · rw [hstart] at hself ⊢
    simp only [if_pos hself]
    by_cases hg : (inspect tok.attr).1 = true <;> simp [hg]
  · by_cases hg : (inspect tok.attr).1 = true <;> simp [hstart, hg]

theorem scanToken_closes (hend : tok.type = .endTag) :
    scanToken s tok = match s.stack.dropWhile (·.tag != tok.data) with
      | [] => { s with offset := s.offset + tok.raw.length }
      | elem :: stack => ⟨s.offset + tok.raw.length, stack, s.result ++
          if elem.hasGoradd then
            [⟨elem.tag, elem.id, elem.startPos, s.offset + tok.raw.length⟩] else []⟩ := by
  unfold scanToken
  rw [hend]
  dsimp only
  split
  · rfl
  · split <;> simp

theorem scanToken_other (hstart : ¬tok.IsStart) (hend : tok.type ≠ .endTag) :
    scanToken s tok = { s with offset := s.offset + tok.raw.length } ∧ tok.kind = .other := by
  have htype : tok.type = .text ∨ tok.type = .comment ∨ tok.type = .doctype := by
    unfold Token.IsStart at hstart
    revert hstart hend
    cases tok.type <;> simp
  rcases htype with htype | htype | htype <;> simp [scanToken, Token.kind, htype]

end Kinds

section Refinement

variable (tokens : List Token)

def offset (i : ℕ) : ℕ := ((tokens.take i).map Token.raw).flatten.length

def attrAt (i : ℕ) : List Attribute := (tokens[i]?.map Token.attr).getD []

/-- The entry of the stack for an open element. -/
def stackElem (e : ℕ × String) : StackElem :=
  ⟨e.2, offset tokens e.1, (inspect (attrAt tokens e.1)).1, (inspect (attrAt tokens e.1)).2⟩

/-- The element that is reported for a span, if it is marked. -/
def element (a : ℕ × ℕ) : Option GoraddElement :=
  tokens[a.1]?.bind fun tok =>
    if (inspect tok.attr).1 then
      some ⟨tok.data, (inspect tok.attr).2, offset tokens a.1, offset tokens (a.2 + 1)⟩
    else none

/-- The variables of the loop hold what the positions on the abstract stack stand for. -/
structure Refines (a : Scan String) (s : ScanState) : Prop where
  offset : s.offset = offset tokens a.next
  stack : s.stack = a.stack.map (stackElem tokens)
  result : s.result = a.spans.filterMap (element tokens)

variable {tokens : List Token} {a : Scan String} {s : ScanState} {n : ℕ}

theorem offset_succ {tok : Token} (h : tokens[n]? = some tok) :
    offset tokens (n + 1) = offset tokens n + tok.raw.length := by
  simp [offset, List.take_add_one, h]

theorem element_eq {tok : Token} (h : tokens[n]? = some tok) (j : ℕ) :
    element tokens (n, j) = if (inspect tok.attr).1 then
      some ⟨tok.data, (inspect tok.attr).2, offset tokens n, offset tokens (j + 1)⟩ else none := by
  simp [element, h]

private theorem append_element {i : ℕ} {tok : Token} (h : tokens[i]? = some tok) (j : ℕ) :
    (a.spans ++ [(i, j)]).filterMap (element tokens) = a.spans.filterMap (element tokens) ++
      if (inspect tok.attr).1 then
        [⟨tok.data, (inspect tok.attr).2, offset tokens i, offset tokens (j + 1)⟩] else [] := by
  by_cases hg : (inspect tok.attr).1 = true <;> simp [element_eq h, hg]

private theorem dropWhile_stack (stack : List (ℕ × String)) (name : String) :
    (stack.map (stackElem tokens)).dropWhile (·.tag != name) =
      (stack.dropWhile (·.2 != name)).map (stackElem tokens) := by
  induction stack with
  | nil => rfl
  | cons e stack ih =>
    by_cases he : e.2 = name <;> simp [stackElem, he, ih]

/-- A token does to the variables what its kind does to the positions. -/
theorem Refines.scanToken (hr : Refines tokens a s)
    (hm : Matched (tokens.map Token.kind) n a) {tok : Token} (htok : tokens[n]? = some tok) :
    Refines tokens (a.read tok.kind) (scanToken s tok) := by
  have hnext : tokens[a.next]? = some tok := hm.next ▸ htok
  have hoffset : s.offset + tok.raw.length = ElementScanner.offset tokens (a.next + 1) := by
    rw [hr.offset, offset_succ hnext]
  by_cases hstart : tok.IsStart
  · by_cases hself : tok.IsSelfClosing
    · rw [kind_eq_whole.mpr ⟨hstart, hself⟩, scanToken_whole hstart hself]
      refine ⟨hoffset, hr.stack, ?_⟩
      rw [Scan.read, append_element hnext, ← hr.result, ← hr.offset, ← hoffset]
    · have htype : tok.type = .startTag := hstart.resolve_right fun h => hself (.inl h)
      rw [kind_eq_opens.mpr ⟨htype, hself, rfl⟩, scanToken_opens htype hself]
      refine ⟨hoffset, ?_, hr.result⟩
      simp [Scan.read, stackElem, attrAt, hnext, hr.offset, hr.stack]
  · by_cases hend : tok.type = .endTag
    · rw [kind_eq_closes.mpr ⟨hend, rfl⟩, scanToken_closes hend, hr.stack, dropWhile_stack]
      cases hdrop : a.stack.dropWhile (·.2 != tok.data) with
      | nil =>
        rw [Scan.read, hdrop]
        exact ⟨hoffset, rfl, hr.result⟩
      | cons e rest =>
        -- the entry on the stack is the start tag at its position
        have he : e ∈ a.stack := (List.dropWhile_suffix _).subset (hdrop ▸ List.mem_cons_self)
        have hkind := ((hm.stack e.1 e.2).mp he).opens
        rw [List.getElem?_map, Option.map_eq_some_iff] at hkind
        obtain ⟨opening, hopening, hkind⟩ := hkind
        obtain ⟨-, -, hdata⟩ := kind_eq_opens.mp hkind
        rw [Scan.read, hdrop]
        refine ⟨hoffset, rfl, ?_⟩
        rw [append_element hopening, ← hr.result, ← hoffset, hdata]
        simp [stackElem, attrAt, hopening]
    · obtain ⟨hscan, hkind⟩ := scanToken_other hstart hend
      rw [hkind, hscan]
      exact ⟨hoffset, hr.stack, hr.result⟩

theorem refines_scan (tokens : List Token) :
    Refines tokens (scan (tokens.map Token.kind)) (tokens.foldl scanToken ⟨0, [], []⟩) := by
  have hpart : ∀ n ≤ tokens.length, Refines tokens (scan ((tokens.take n).map Token.kind))
      ((tokens.take n).foldl ElementScanner.scanToken ⟨0, [], []⟩) := by
    intro n hn
    induction n with
    | zero => exact ⟨rfl, rfl, rfl⟩
    | succ n ih =>
      have hm := matched_scan (tokens.map Token.kind) n (by simpa using Nat.le_of_succ_le hn)
      rw [← List.map_take] at hm
      rw [List.take_succ_eq_append_getElem hn, List.map_append, List.map_singleton, scan_concat,
        List.foldl_append, List.foldl_cons, List.foldl_nil]
      exact (ih (Nat.le_of_succ_le hn)).scanToken hm (List.getElem?_eq_getElem hn)
  simpa using hpart tokens.length le_rfl

end Refinement

end GoraddServe.ElementScanner
