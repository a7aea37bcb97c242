import GoraddServe.HeaderValues

/-!
# Parameters of header fields

The value of a parameter is a token or a quoted string. The parser takes what is between the
equals sign and the next semicolon for the value, with the quotation marks, the backslashes and
up to a semicolon that is quoted.
-/
namespace GoraddServe.HeaderParams
open GoMaps ResponseWriters HeaderValues

/-- A name, or a value that need not be quoted. -/
structure Token where
  text : List Char
  nonempty : text ≠ []
  tokenChars : text.all isTokenChar = true

theorem Token.isTokenChar (t : Token) {c : Char} (h : c ∈ t.text) :
    ResponseWriters.isTokenChar c = true := List.all_eq_true.mp t.tokenChars c h

/-- A character of a quoted string, as it is or behind a backslash. -/
inductive QuotedChar where
  | plain (c : Char) (hplain : c ≠ '"' ∧ c ≠ '\\')
  | escaped (c : Char)

namespace QuotedChar

def char : QuotedChar → Char
  | plain c _ => c
  | escaped c => c

def text : QuotedChar → List Char
  | plain c _ => [c]
  | escaped c => ['\\', c]

end QuotedChar

inductive ParamValue where
  | token (t : Token)
  | quoted (cs : List QuotedChar)

namespace ParamValue

def text : ParamValue → List Char
  | token t => t.text
  | quoted cs => '"' :: cs.flatMap QuotedChar.text ++ ['"']

def unquoted : ParamValue → List Char
  | token t => t.text
  | quoted cs => cs.map QuotedChar.char

def isToken : ParamValue → Bool
  | token _ => true
  | quoted _ => false

end ParamValue

structure Param where
  name : Token
  value : ParamValue

/-- `; name=value` without the semicolon -/
def Param.text (p : Param) : List Char := ' ' :: (p.name.text ++ '=' :: p.value.text)

def render (value : List Char) (params : List Param) : String :=
  String.ofList (value ++ params.flatMap fun p => ';' :: p.text)

/-- The map from the name of each parameter to what `value` makes of it. -/
def mapOf (value : ParamValue → List Char) (params : List Param) : GoMap String String :=
  params.foldl (fun m p => m.set (String.ofList p.name.text) (String.ofList (value p.value))) ∅

/-- The parser gets the value and the parameters back. -/
def RoundTrips (value : List Char) (params : List Param) : Prop :=
  (parseValueAndParams (render value params)).1 = String.ofList value ∧
    (parseValueAndParams (render value params)).2.getD ∅ = mapOf ParamValue.unquoted params

theorem isSpace_of_isTokenChar {c : Char} (h : isTokenChar c = true) : isSpace c = false := by
  rw [isTokenChar, Bool.or_eq_true] at h
  rcases h with hletter | hmark
  · have hbounds : (48 ≤ c.toNat ∧ c.toNat ≤ 57) ∨ (65 ≤ c.toNat ∧ c.toNat ≤ 90) ∨
        97 ≤ c.toNat ∧ c.toNat ≤ 122 := by
      have hranges : ((decide (65 ≤ c.val ∧ c.val ≤ 90) ||
          (decide (97 ≤ c.val) && decide (c.val ≤ 122))) ||
          (decide (48 ≤ c.val) && decide (c.val ≤ 57))) = true := hletter
      simp [UInt32.le_iff_toNat_le] at hranges
      have hval : c.toNat = c.val.toNat := rfl
      omega
    simp [isSpace]
    omega
  · -- the marks are few
    have hmarks : ("!#$%&'*+-.^_`|~".toList.all fun c => !isSpace c) = true := by decide
    simpa using List.all_eq_true.mp hmarks c (List.contains_iff_mem.mp hmark)

theorem ne_of_isTokenChar {c d : Char} (h : isTokenChar c = true) (hd : isTokenChar d = false) :
    c ≠ d := by
  rintro rfl
  exact Bool.false_ne_true (hd.symm.trans h)

theorem semicolon_mem_text_iff (v : ParamValue) : ';' ∈ v.text ↔ ';' ∈ v.unquoted := by
  cases v with
  | token t => rfl
  | quoted cs =>
    rw [ParamValue.text, ParamValue.unquoted]
    induction cs with
    | nil => simp
    | cons q cs ih =>
      cases q with
      | plain c hc => simp_all [QuotedChar.text, QuotedChar.char]
      | escaped c => simp_all [QuotedChar.text, QuotedChar.char]

theorem text_eq_unquoted_iff (v : ParamValue) : v.text = v.unquoted ↔ v.isToken = true := by
  cases v with
  | token t => exact iff_of_true rfl rfl
  | quoted cs =>
    have hlength : cs.length ≤ (cs.flatMap QuotedChar.text).length := by
      induction cs with
      | nil => exact Nat.le_refl 0
      | cons q cs ih =>
        have hq : 1 ≤ q.text.length := by cases q <;> simp [QuotedChar.text]
        rw [List.flatMap_cons, List.length_append, List.length_cons]
        omega
    refine iff_of_false (fun h => ?_) Bool.false_ne_true
    have hsame := congrArg List.length h
    rw [ParamValue.text, ParamValue.unquoted, List.length_append, List.length_cons,
      List.length_map] at hsame
    omega

/-- A parameter is trimmed of the space in front of it and of nothing else. -/
theorem trimSpace_text (p : Param) :
    trimSpace p.text = p.name.text ++ '=' :: p.value.text := by
  have htrimmed : Trimmed (p.name.text ++ '=' :: p.value.text) := by
    constructor
    · obtain ⟨c, cs, hname⟩ := List.exists_cons_of_ne_nil p.name.nonempty
      rw [hname, List.cons_append, List.head?_cons]
      intro d hd
      cases hd
      exact isSpace_of_isTokenChar (p.name.isTokenChar (hname ▸ List.mem_cons_self))
    · obtain ⟨cs, c, hvalue, hc⟩ : ∃ cs c, p.value.text = cs ++ [c] ∧ isSpace c = false := by
        cases p.value with
        | token t =>
          obtain ⟨cs, c, htext⟩ := (List.eq_nil_or_concat t.text).resolve_left t.nonempty
          rw [List.concat_eq_append] at htext
          exact ⟨cs, c, htext, isSpace_of_isTokenChar (t.isTokenChar (by simp [htext]))⟩
        | quoted cs => exact ⟨_, '"', rfl, by decide⟩
      rw [hvalue, ← List.cons_append, ← List.append_assoc, List.getLast?_concat]
      intro d hd
      cases hd
      exact hc
  have hspace : trimSpace p.text = trimSpace (p.name.text ++ '=' :: p.value.text) := by
    rw [trimSpace, trimSpace, Param.text, List.dropWhile_cons_of_pos (by decide)]
  rw [hspace, trimSpace_eq_self_iff.mpr htrimmed]

theorem parseParam_text (m : Option (GoMap String String)) (p : Param) :
    parseParam m p.text =
      some ((m.getD ∅).set (String.ofList p.name.text) (String.ofList p.value.text)) := by
  have hname : ∀ c ∈ p.name.text, decide (c ≠ '=') = true := fun c hc =>
    decide_eq_true (ne_of_isTokenChar (p.name.isTokenChar hc) (by decide))
  rw [parseParam, trimSpace_text, if_pos (by simp), List.takeWhile_append_of_pos hname,
    List.dropWhile_append_of_pos hname, List.takeWhile_cons_of_neg (by simp),
    List.dropWhile_cons_of_neg (by simp), List.append_nil, List.drop_one, List.tail_cons]

section Map

variable {value : List Char} {params : List Param} {f : ParamValue → List Char}

theorem get_foldl_of_notMem {m : GoMap String String} {name : List Char}
    (hname : name ∉ params.map fun p => p.name.text) :
    (params.foldl (fun m p => m.set (String.ofList p.name.text) (String.ofList (f p.value)))
      m).get (String.ofList name) = m.get (String.ofList name) := by
  induction params generalizing m with
  | nil => rfl
  | cons p params ih =>
    obtain ⟨hne, hname⟩ := not_or.mp (List.mem_cons.not.mp hname)
    rw [List.foldl_cons, ih hname, GoMap.get_set, if_neg]
    exact fun h => hne (String.ofList_injective h)

theorem get_mapOf (hnames : (params.map fun p => p.name.text).Nodup) {p : Param}
    (hp : p ∈ params) :
    (mapOf f params).get (String.ofList p.name.text) = some (String.ofList (f p.value)) := by
  rw [mapOf]
  generalize (∅ : GoMap String String) = m
  induction params generalizing m with
  | nil => cases hp
  | cons q params ih =>
    obtain ⟨hq, hnames⟩ := List.nodup_cons.mp hnames
    rw [List.foldl_cons]
    rcases List.mem_cons.mp hp with rfl | hp
    · rw [get_foldl_of_notMem hq, GoMap.get_set, if_pos rfl]
    · exact ih hnames hp _

theorem splitOn_render (hvalue : ';' ∉ value) (hparams : ∀ p ∈ params, ';' ∉ p.value.text) :
    (value ++ params.flatMap fun p => ';' :: p.text).splitOn ';' =
      value :: params.map Param.text := by
  induction params generalizing value with
  | nil => rw [List.flatMap_nil, List.append_nil, List.splitOn_eq_singleton hvalue, List.map_nil]
  | cons p params ih =>
    have htext : ';' ∉ p.text := by
      have hname : ';' ∉ p.name.text := fun h =>
        ne_of_isTokenChar (p.name.isTokenChar h) (d := ';') (by decide) rfl
      simp [Param.text, hname, hparams p List.mem_cons_self]
    rw [List.flatMap_cons, List.cons_append, List.splitOn_append_cons_self_of_not_mem hvalue,
      ih htext fun p hp => hparams p (List.mem_cons_of_mem _ hp), List.map_cons]

theorem parse_render (hvalue : ';' ∉ value) (htrimmed : Trimmed value)
    (hparams : ∀ p ∈ params, ';' ∉ p.value.text) :
    (parseValueAndParams (render value params)).1 = String.ofList value ∧
      (parseValueAndParams (render value params)).2.getD ∅ = mapOf ParamValue.text params := by
  have hfold : ∀ m : Option (GoMap String String),
      ((params.map Param.text).foldl parseParam m).getD ∅ = params.foldl
        (fun m p => m.set (String.ofList p.name.text) (String.ofList p.value.text)) (m.getD ∅) := by
    intro m
    induction params generalizing m with
    | nil => rfl
    | cons p params ih =>
      rw [List.map_cons, List.foldl_cons, parseParam_text, List.foldl_cons,
        ih fun p hp => hparams p (List.mem_cons_of_mem _ hp), Option.getD_some]
  rw [parseValueAndParams, render, String.toList_ofList, splitOn_render hvalue hparams]
  exact ⟨congrArg String.ofList (trimSpace_eq_self_iff.mpr htrimmed), hfold none⟩

end Map

theorem notMem_of_mem_splitOn {s part : List Char} (h : part ∈ s.splitOn ';') : ';' ∉ part := by
  induction s generalizing part with
  | nil =>
    rw [List.splitOn_nil, List.mem_singleton] at h
    simp [h]
  | cons c s ih =>
    rw [List.splitOn_cons_eq_if_modifyHead] at h
    split at h
    · rcases List.mem_cons.mp h with rfl | h
      · exact List.not_mem_nil
      · exact ih h
    · next hc =>
      -- the character goes in front of the first part of the rest
      obtain ⟨first, parts, hsplit⟩ := List.exists_cons_of_ne_nil (List.splitOn_ne_nil ';' s)
      rw [hsplit, List.modifyHead_cons] at h
      rcases List.mem_cons.mp h with rfl | h
      · have hfirst := ih (hsplit ▸ List.mem_cons_self)
        exact List.not_mem_cons_of_ne_of_not_mem (fun h => hc (by simp [← h])) hfirst
      · exact ih (hsplit ▸ List.mem_cons_of_mem _ h)

def NoSemicolons (m : GoMap String String) : Prop :=
  ∀ k v, m.get k = some v → ';' ∉ v.toList

theorem noSemicolons_parseParam {m : Option (GoMap String String)} {part : List Char}
    (hm : NoSemicolons (m.getD ∅)) (hpart : ';' ∉ part) :
    NoSemicolons ((parseParam m part).getD ∅) := by
  rw [parseParam]
  split
  · intro k v hv
    rw [Option.getD_some, GoMap.get_set] at hv
    split at hv
    · cases hv
      rw [String.toList_ofList]
      intro hmem
      have hsub := (List.drop_sublist 1 _).trans (List.dropWhile_sublist (· ≠ '=')
        (l := trimSpace part))
      exact hpart (((hsub.trans (trimSpace_sublist part)).subset) hmem)
    · exact hm k v hv
  · exact hm

theorem noSemicolons_parse (s : String) :
    NoSemicolons ((parseValueAndParams s).2.getD ∅) := by
  rw [parseValueAndParams]
  have hparts : ∀ part ∈ s.toList.splitOn ';', ';' ∉ part := fun part => notMem_of_mem_splitOn
  generalize s.toList.splitOn ';' = parts at hparts
  cases parts with
  | nil => exact fun k v hv => by cases hv
  | cons part parts =>
    have hrun : ∀ (l : List (List Char)) (m : Option (GoMap String String)),
        (∀ part ∈ l, ';' ∉ part) → NoSemicolons (m.getD ∅) →
          NoSemicolons ((l.foldl parseParam m).getD ∅) := by
      intro l
      induction l with
      | nil => exact fun m _ hm => hm
      | cons part l ih =>
        intro m hl hm
        exact ih _ (fun part hpart => hl part (List.mem_cons_of_mem _ hpart))
          (noSemicolons_parseParam hm (hl part List.mem_cons_self))
    exact hrun parts none (fun part hpart => hparts part (List.mem_cons_of_mem _ hpart))
      fun k v hv => by cases hv

/-- A header round-trips exactly when the values of its parameters are tokens. -/
theorem roundTrips_iff {value : List Char} {params : List Param} (hvalue : ';' ∉ value)
    (htrimmed : Trimmed value) (hnames : (params.map fun p => p.name.text).Nodup) :
    RoundTrips value params ↔ ∀ p ∈ params, p.value.isToken = true := by
  by_cases hsemi : ∃ p ∈ params, ';' ∈ p.value.text
  · -- a semicolon can only be quoted, and is not found in the map
    obtain ⟨p, hp, hmem⟩ := hsemi
    refine iff_of_false (fun h => ?_) fun htokens => ?_
    · have hget := get_mapOf (f := ParamValue.unquoted) hnames hp
      rw [← h.2] at hget
      refine noSemicolons_parse _ _ _ hget ?_
      rw [String.toList_ofList]
      exact (semicolon_mem_text_iff p.value).mp hmem
    · have htoken := htokens p hp
      cases hv : p.value with
      | token t =>
        rw [hv] at hmem
        exact ne_of_isTokenChar (t.isTokenChar hmem) (d := ';') (by decide) rfl
      | quoted cs =>
        rw [hv] at htoken
        cases htoken
  · have hparams : ∀ p ∈ params, ';' ∉ p.value.text := fun p hp hmem => hsemi ⟨p, hp, hmem⟩
    obtain ⟨hparsed, hmap⟩ := parse_render hvalue htrimmed hparams
    rw [RoundTrips, and_iff_right hparsed, hmap]
    constructor
    · intro h p hp
      have hget := get_mapOf (f := ParamValue.text) hnames hp
      rw [h, get_mapOf hnames hp] at hget
      exact (text_eq_unquoted_iff _).mp (String.ofList_injective (Option.some.inj hget)).symm
    · intro htokens
      refine List.foldl_ext _ _ _ fun m p hp => ?_
      rw [(text_eq_unquoted_iff _).mpr (htokens p hp)]

/-- The name of a parameter of `Content-Type`, and of one of `Content-Disposition`. -/
def charset : Token := ⟨"charset".toList, by decide, by decide⟩

def filename : Token := ⟨"filename".toList, by decide, by decide⟩

theorem roundTrips_iff_charset :
    RoundTrips "text/html".toList
      [⟨charset, .token ⟨"utf-8".toList, by decide, by decide⟩⟩] :=
  (roundTrips_iff (by decide) (trimSpace_eq_self_iff.mp (by decide)) (by decide)).mpr (by decide)

/-- `attachment; filename="a b"`, whose file name is parsed with the quotation marks. -/
theorem filename_quoted : ¬RoundTrips "attachment".toList [⟨filename, .quoted
    [.plain 'a' (by decide), .plain ' ' (by decide), .plain 'b' (by decide)]⟩] := by
  rintro ⟨-, hmap⟩
  have hget := congrArg (GoMap.get · "filename") hmap
  revert hget
  decide

end GoraddServe.HeaderParams
