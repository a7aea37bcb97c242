import Mathlib.Data.List.Basic
import Mathlib.Data.List.Count

/-!
# Escaping text for html

`textToHtml` makes five replacements, one after the other. The replacement of a string by
`String.prototype.replace` changes its first occurrence only. A string is the list of its
UTF-16 code units.
-/
namespace GoraddServe.TextToHtml

abbrev Text := List UInt16

/-- The code unit of a character below `U+10000`. -/
def unit (c : Char) : UInt16 := .ofNat c.toNat

def units (s : String) : Text := s.toList.map unit

/-- `text.replace(pattern, replacement)`, for a replacement without a `$`. -/
def replace (pattern replacement : Text) : Text → Text
  | [] => if pattern.isPrefixOf [] then replacement else []
  | c :: text =>
    if pattern.isPrefixOf (c :: text) then replacement ++ (c :: text).drop pattern.length
    else c :: replace pattern replacement text

def textToHtml (text : Text) : Text :=
  let text := replace (units "&") (units "&amp;") text
  let text := replace (units "<") (units "&lt;") text
  let text := replace (units ">") (units "&gt;") text
  let text := replace (units "\"") (units "&quot;") text
  replace (units "'") (units "&apos;") text

def entities : List (UInt16 × Text) :=
  [(unit '&', units "&amp;"), (unit '<', units "&lt;"), (unit '>', units "&gt;"),
    (unit '"', units "&quot;"), (unit '\'', units "&apos;")]

/-- The entity at the start of a text, with its character. -/
def entityAt (text : Text) : Option (UInt16 × Text) :=
  entities.find? (·.2.isPrefixOf text)

/-- Replace the entities of a text by their characters. -/
def decode : Text → Text
  | [] => []
  | c :: text =>
    match entityAt (c :: text) with
    | some e => e.1 :: decode (text.drop (e.2.length - 1))
    | none => c :: decode text
termination_by text => text.length
decreasing_by all_goals simp; try omega

/-- An `&` is the start of an entity. -/
def OnlyEntities (html : Text) : Prop :=
  ∀ before after, html = before ++ unit '&' :: after → (entityAt (unit '&' :: after)).isSome

/-- The html shows the text, and has none of its characters as markup. -/
structure Escapes (text html : Text) : Prop where
  plain : ∀ c ∈ [unit '<', unit '>', unit '"', unit '\''], c ∉ html
  ampersands : OnlyEntities html
  decodes : decode html = text

section Replace

variable {c x y : UInt16} {e text : Text}

theorem replace_cons : replace [c] e (x :: text) =
    if x = c then e ++ text else x :: replace [c] e text := by
  by_cases h : x = c
  · simp [replace, h]
  · simp [replace, h, Ne.symm h]

theorem replace_eq_flatMap (h : text.count c ≤ 1) :
    replace [c] e text = text.flatMap fun x => if x = c then e else [x] := by
  induction text with
  | nil => rfl
  | cons x text ih =>
    rw [replace_cons, List.flatMap_cons]
    by_cases hx : x = c
    · subst hx
      have hnone : x ∉ text := List.count_eq_zero.mp (by simpa using h)
      have hrest : (text.flatMap fun y => if y = x then e else [y]) = text.flatMap fun y => [y] :=
        List.flatMap_congr fun y hy => if_neg fun heq : y = x => hnone (heq ▸ hy)
      simp [hrest]
    · rw [List.count_cons_of_ne hx] at h
      simp [hx, ih h]

theorem count_replace (hy : y ≠ c) :
    (replace [c] e text).count y = text.count y + if c ∈ text then e.count y else 0 := by
  induction text with
  | nil => rfl
  | cons x text ih =>
    rw [replace_cons]
    by_cases hx : x = c
    · subst hx
      simp [List.count_cons_of_ne (Ne.symm hy), Nat.add_comm]
    · simp only [hx, if_false, List.count_cons, ih, List.mem_cons, Ne.symm hx, false_or]
      omega

theorem count_replace_self (h : c ∈ text) :
    (replace [c] e text).count c + 1 = text.count c + e.count c := by
  induction text with
  | nil => cases h
  | cons x text ih =>
    rw [replace_cons]
    by_cases hx : x = c
    · subst hx
      simp
      omega
    · have hmem : c ∈ text := by simpa [Ne.symm hx] using h
      simp [hx, List.count_cons_of_ne hx, ih hmem]

theorem replace_of_not_mem (h : c ∉ text) : replace [c] e text = text := by
  induction text with
  | nil => rfl
  | cons x text ih =>
    rw [List.mem_cons, not_or] at h
    rw [replace_cons, if_neg (Ne.symm h.1), ih h.2]

theorem count_le_replace (text : Text) :
    text.count y ≤ (replace [c] e text).count y + if c = y then 1 else 0 := by
  by_cases hy : c = y
  · subst hy
    by_cases hmem : c ∈ text
    · have hself := count_replace_self (e := e) hmem
      simp only [if_true]
      omega
    · simp [List.count_eq_zero.mpr hmem]
  · rw [count_replace (Ne.symm hy)]
    omega

theorem mem_replace (hy : y ≠ c) (he : y ∉ e) : y ∈ replace [c] e text ↔ y ∈ text := by
  rw [← List.count_pos_iff, ← List.count_pos_iff, count_replace hy, List.count_eq_zero.mpr he]
  simp

end Replace

def replaceEach (es : List (UInt16 × Text)) (text : Text) : Text :=
  es.foldl (fun text e => replace [e.1] e.2 text) text

/-- What stands for a character when all are replaced. -/
def escape (es : List (UInt16 × Text)) (x : UInt16) : Text := (es.lookup x).getD [x]

/-- No replacement makes a character that a later one replaces. -/
def Independent (es : List (UInt16 × Text)) : Prop :=
  es.Pairwise fun e e' => e'.1 ≠ e.1 ∧ e'.1 ∉ e.2

section ReplaceEach

variable {es : List (UInt16 × Text)} {text : Text} {y : UInt16}

theorem count_le_replaceEach (es : List (UInt16 × Text)) (text : Text) : text.count y ≤
    (replaceEach es text).count y + es.countP (·.1 = y) := by
  induction es generalizing text with
  | nil => simp [replaceEach]
  | cons e es ih =>
    have hfirst := count_le_replace text (c := e.1) (e := e.2) (y := y)
    have hrest := ih (replace [e.1] e.2 text)
    simp only [replaceEach, List.foldl_cons, List.countP_cons, decide_eq_true_eq] at hrest ⊢
    omega

/-- A character that every replacement makes once, and none replaces. -/
theorem count_replaceEach (text : Text) (hes : Independent es)
    (hy : ∀ e ∈ es, y ≠ e.1 ∧ e.2.count y = 1) :
    (replaceEach es text).count y = text.count y + es.countP (·.1 ∈ text) := by
  induction es generalizing text with
  | nil => simp [replaceEach]
  | cons e es ih =>
    obtain ⟨hlater, hes⟩ := List.pairwise_cons.mp hes
    obtain ⟨hye, hone⟩ := hy e List.mem_cons_self
    have hrest := ih (replace [e.1] e.2 text) hes fun e' he' =>
      hy e' (List.mem_cons_of_mem _ he')
    have hsame : es.countP (·.1 ∈ replace [e.1] e.2 text) = es.countP (·.1 ∈ text) :=
      List.countP_congr fun e' he' => by
        simp [mem_replace (hlater e' he').1 (hlater e' he').2]
    rw [hsame, count_replace hye, hone] at hrest
    simp only [replaceEach, List.foldl_cons, List.countP_cons, decide_eq_true_eq] at hrest ⊢
    omega

theorem escape_cons {e : UInt16 × Text} {x : UInt16} :
    escape (e :: es) x = if x = e.1 then e.2 else escape es x := by
  obtain ⟨c, t⟩ := e
  rw [escape, List.lookup_cons]
  by_cases hx : x = c
  · simp [hx]
  · rw [beq_eq_false_iff_ne.mpr hx, if_neg hx, escape]

theorem replaceEach_eq (text : Text) (hes : Independent es) (h : ∀ e ∈ es, text.count e.1 ≤ 1) :
    replaceEach es text = text.flatMap (escape es) := by
  induction es generalizing text with
  | nil => exact (List.flatMap_singleton' text).symm
  | cons e es ih =>
    obtain ⟨hlater, hes⟩ := List.pairwise_cons.mp hes
    have hcounts : ∀ e' ∈ es, (replace [e.1] e.2 text).count e'.1 ≤ 1 := by
      intro e' he'
      obtain ⟨hne, hnot⟩ := hlater e' he'
      rw [count_replace hne, List.count_eq_zero.mpr hnot]
      simpa using h e' (List.mem_cons_of_mem _ he')
    have hkeep : e.2.flatMap (escape es) = e.2.flatMap fun x => [x] := by
      refine List.flatMap_congr fun x hx => ?_
      have hnone : es.lookup x = none := List.lookup_eq_none_iff.mpr fun e' he' => by
        simpa using fun heq : x = e'.1 => (hlater e' he').2 (heq ▸ hx)
      simp [escape, hnone]
    have hrest := ih (replace [e.1] e.2 text) hes hcounts
    rw [replace_eq_flatMap (h e List.mem_cons_self), List.flatMap_assoc] at hrest
    rw [replaceEach, List.foldl_cons, replace_eq_flatMap (h e List.mem_cons_self)]
    refine hrest.trans (List.flatMap_congr fun x _ => ?_)
    rw [escape_cons]
    by_cases hx : x = e.1 <;> simp [hx, hkeep]

end ReplaceEach

section Entities

variable {e : UInt16 × Text} {text html : Text} {x : UInt16}

theorem textToHtml_eq : textToHtml text = replaceEach entities text := rfl

theorem entities_independent : Independent entities := by
  unfold Independent
  decide

theorem entity_shape : ∀ e ∈ entities, e.2.head? = some (unit '&') ∧
    e.2.count (unit '&') = 1 ∧ e.2.count (unit ';') = 1 ∧ unit ';' ≠ e.1 ∧
    ∀ e' ∈ entities, e'.1 ≠ unit '&' → e'.1 ∉ e.2 := by
  decide

theorem entityAt_append (text : Text) (he : e ∈ entities) : entityAt (e.2 ++ text) = some e := by
  revert e
  simp only [entities, List.forall_mem_cons]
  exact ⟨rfl, rfl, rfl, rfl, rfl, by simp⟩

theorem entityAt_some (h : entityAt text = some e) : e ∈ entities ∧ ∃ rest, text = e.2 ++ rest := by
  have hprefix : e.2.isPrefixOf text = true :=
    List.find?_some (p := fun e : UInt16 × Text => e.2.isPrefixOf text) h
  obtain ⟨rest, hrest⟩ := List.isPrefixOf_iff_prefix.mp hprefix
  exact ⟨List.mem_of_find?_eq_some h, rest, hrest.symm⟩

theorem entityAt_none (hx : x ≠ unit '&') : entityAt (x :: text) = none := by
  cases h : entityAt (x :: text) with
  | none => rfl
  | some e =>
    obtain ⟨he, rest, hrest⟩ := entityAt_some h
    obtain ⟨hhead, -⟩ := entity_shape e he
    obtain ⟨tail, htail⟩ := List.head?_eq_some_iff.mp hhead
    rw [htail] at hrest
    exact absurd (List.cons.inj hrest).1 hx

theorem decode_cons (h : entityAt (x :: text) = none) : decode (x :: text) = x :: decode text := by
  rw [decode, h]

theorem decode_entity (he : e ∈ entities) : decode (e.2 ++ text) = e.1 :: decode text := by
  obtain ⟨tail, htail⟩ := List.head?_eq_some_iff.mp (entity_shape e he).1
  have hat := entityAt_append text he
  rw [htail, List.cons_append] at hat ⊢
  rw [decode, hat]
  simp [htail]

theorem onlyEntities_cons : OnlyEntities (x :: html) ↔
    (x = unit '&' → (entityAt (x :: html)).isSome) ∧ OnlyEntities html := by
  constructor
  · intro h
    refine ⟨fun hx => hx ▸ h [] html (by rw [hx, List.nil_append]), fun before after heq => ?_⟩
    exact h (x :: before) after (by rw [heq, List.cons_append])
  · rintro ⟨hx, h⟩ before after heq
    cases before with
    | nil =>
      obtain ⟨rfl, rfl⟩ := List.cons.inj heq
      exact hx rfl
    | cons y before => exact h before after (List.cons.inj heq).2

theorem OnlyEntities.append {front : Text} (hfront : unit '&' ∉ front) (h : OnlyEntities html) :
    OnlyEntities (front ++ html) := by
  induction front with
  | nil => exact h
  | cons x front ih =>
    rw [List.mem_cons, not_or] at hfront
    exact onlyEntities_cons.mpr ⟨fun hx => absurd hx.symm hfront.1, ih hfront.2⟩

theorem OnlyEntities.entity (he : e ∈ entities) (h : OnlyEntities html) :
    OnlyEntities (e.2 ++ html) := by
  obtain ⟨hhead, hcount, -⟩ := entity_shape e he
  obtain ⟨tail, htail⟩ := List.head?_eq_some_iff.mp hhead
  have hat := entityAt_append html he
  rw [htail, List.cons_append] at hat ⊢
  rw [htail, List.count_cons_self] at hcount
  refine onlyEntities_cons.mpr ⟨fun _ => by rw [hat]; rfl, h.append ?_⟩
  exact List.count_eq_zero.mp (Nat.succ.inj hcount)

/-- Each `&` goes with one semicolon when the entities are replaced. -/
theorem count_decode (h : OnlyEntities html) :
    html.count (unit ';') = (decode html).count (unit ';') + html.count (unit '&') := by
  induction html using decode.induct with
  | case1 => simp [decode]
  | case2 x text e hat ih =>
    obtain ⟨he, rest, hrest⟩ := entityAt_some hat
    obtain ⟨hhead, hamp, hsemi, hne, -⟩ := entity_shape e he
    obtain ⟨tail, htail⟩ := List.head?_eq_some_iff.mp hhead
    have hdrop : text.drop (e.2.length - 1) = rest := by
      rw [htail] at hrest ⊢
      rw [(List.cons.inj hrest).2]
      simp
    have honly : OnlyEntities rest := fun before after heq =>
      h (e.2 ++ before) after (by rw [hrest, heq, List.append_assoc])
    rw [hdrop] at ih
    rw [hrest, decode_entity he, List.count_append, List.count_append, hamp, hsemi,
      List.count_cons_of_ne hne.symm, ih honly]
    omega
  | case3 x text hat ih =>
    obtain ⟨hamp, honly⟩ := onlyEntities_cons.mp h
    have hx : x ≠ unit '&' := fun hx => by simp [hat] at hamp; exact hamp hx
    rw [decode_cons hat, List.count_cons, List.count_cons, List.count_cons_of_ne hx, ih honly]
    omega

theorem escape_cases (x : UInt16) : (∃ e ∈ entities, e.1 = x ∧ escape entities x = e.2) ∨
    (∀ e ∈ entities, e.1 ≠ x) ∧ escape entities x = [x] := by
  by_cases h : ∃ e ∈ entities, e.1 = x
  · obtain ⟨e, he, rfl⟩ := h
    refine .inl ⟨e, he, rfl, ?_⟩
    revert e
    decide
  · have hnone : entities.lookup x = none := List.lookup_eq_none_iff.mpr fun e he => by
      simpa using fun heq : x = e.1 => h ⟨e, he, heq.symm⟩
    exact .inr ⟨fun e he heq => h ⟨e, he, heq⟩, by simp [escape, hnone]⟩

theorem mem_plain : ∀ c ∈ [unit '<', unit '>', unit '"', unit '\''],
    c ≠ unit '&' ∧ ∃ e ∈ entities, e.1 = c ∧ entities.countP (·.1 = c) = 1 := by
  simp only [List.forall_mem_cons]
  exact ⟨by decide, by decide, by decide, by decide, List.forall_mem_nil _⟩

theorem escapes_flatMap (text : Text) : Escapes text (text.flatMap (escape entities)) := by
  refine ⟨fun c hc hmem => ?_, ?_, ?_⟩
  · obtain ⟨hne, e, he, rfl, -⟩ := mem_plain c hc
    obtain ⟨x, -, hx⟩ := List.mem_flatMap.mp hmem
    obtain ⟨e', he', -, hesc⟩ | ⟨hnot, hesc⟩ := escape_cases x
    · rw [hesc] at hx
      exact (entity_shape e' he').2.2.2.2 e he hne hx
    · rw [hesc, List.mem_singleton] at hx
      exact hnot e he hx
  · induction text with
    | nil => exact fun before after h => by simp at h
    | cons x text ih =>
      rw [List.flatMap_cons]
      obtain ⟨e, he, -, hesc⟩ | ⟨hnot, hesc⟩ := escape_cases x
      · exact hesc ▸ ih.entity he
      · have hx : unit '&' ∉ [x] := by
          simpa using hnot (unit '&', units "&amp;") List.mem_cons_self
        exact hesc ▸ ih.append hx
  · induction text with
    | nil => simp [decode]
    | cons x text ih =>
      rw [List.flatMap_cons]
      obtain ⟨e, he, rfl, hesc⟩ | ⟨hnot, hesc⟩ := escape_cases x
      · rw [hesc, decode_entity he, ih]
      · have hx : x ≠ unit '&' :=
          Ne.symm (hnot (unit '&', units "&amp;") List.mem_cons_self)
        rw [hesc, List.singleton_append, decode_cons (entityAt_none hx), ih]

/-- After an ampersand is replaced there are as many as before. -/
theorem count_ampersand : (textToHtml text).count (unit '&') =
    text.count (unit '&') + entities.tail.countP (·.1 ∈ text) := by
  have hfirst : (replace [unit '&'] (units "&amp;") text).count (unit '&') =
      text.count (unit '&') := by
    by_cases hmem : unit '&' ∈ text
    · have hself := count_replace_self (e := units "&amp;") hmem
      have hone : (units "&amp;").count (unit '&') = 1 := by decide
      omega
    · rw [replace_of_not_mem hmem]
  have hrest := count_replaceEach (y := unit '&') (replace [unit '&'] (units "&amp;") text)
    (show Independent entities.tail from entities_independent.tail) (by decide)
  have hsame : entities.tail.countP (·.1 ∈ replace [unit '&'] (units "&amp;") text) =
      entities.tail.countP (·.1 ∈ text) := List.countP_congr fun e he => by
    have hlater := (List.pairwise_cons.mp entities_independent).1 e he
    simp [mem_replace hlater.1 hlater.2]
  rw [hsame, hfirst] at hrest
  exact hrest

/-- `textToHtml` escapes a text exactly when none of the five characters is in it twice. -/
theorem textToHtml_escapes (text : Text) :
    Escapes text (textToHtml text) ↔ ∀ e ∈ entities, text.count e.1 ≤ 1 := by
  constructor
  · rintro ⟨hplain, hamp, hdecode⟩
    have hmarkup : ∀ c ∈ [unit '<', unit '>', unit '"', unit '\''], text.count c ≤ 1 := by
      intro c hc
      obtain ⟨-, -, -, -, hone⟩ := mem_plain c hc
      have hle := count_le_replaceEach entities text (y := c)
      rwa [← textToHtml_eq, List.count_eq_zero.mpr (hplain c hc), hone] at hle
    have hampersand : text.count (unit '&') ≤ 1 := by
      have hsemi := count_decode hamp
      have hmade := count_replaceEach (y := unit ';') text entities_independent
        fun e he => ⟨(entity_shape e he).2.2.2.1, (entity_shape e he).2.2.1⟩
      rw [← textToHtml_eq, hsemi, hdecode, count_ampersand] at hmade
      have hsplit : entities.countP (·.1 ∈ text) =
          entities.tail.countP (·.1 ∈ text) + if unit '&' ∈ text then 1 else 0 := by
        simp [entities, List.countP_cons]
      split_ifs at hsplit <;> omega
    have hall : ∀ e ∈ entities,
        e.1 = unit '&' ∨ e.1 ∈ [unit '<', unit '>', unit '"', unit '\''] := by decide
    intro e he
    obtain heq | hmem := hall e he
    · exact heq ▸ hampersand
    · exact hmarkup e.1 hmem
  · intro h
    rw [textToHtml_eq, replaceEach_eq text entities_independent h]
    exact escapes_flatMap text

end Entities

/-- A second angle bracket stays as it is. -/
theorem textToHtml_twice : ¬Escapes (units "<<") (textToHtml (units "<<")) := by
  rintro ⟨hplain, -, -⟩
  exact hplain (unit '<') List.mem_cons_self (by decide)

end GoraddServe.TextToHtml
