import Mathlib.Data.List.Basic

/-!
# Formats without arguments

`fmt.Errorf` and its like called with a format alone. A directive finds no argument and comes
out as a complaint, so the text is the format itself exactly when that has no percent sign.
-/
namespace GoraddServe.GoFormats

/-- A directive that is being read: what has been written for it, whether the argument indexes
were good, whether one came last, and the rest of the format. The flags, the width and the
precision are left out, for there is nothing to print with them. -/
structure Scan where
  out : List Char
  goodArgNum : Bool
  afterIndex : Bool
  rest : List Char

def isFlag (c : Char) : Bool := c ∈ ['#', '0', '+', '-', ' ']

/-- `parsenum` reads digits, until the number is too large: whether there is one and what
follows it. -/
def parsenum (num : ℕ) (isnum : Bool) : List Char → Bool × List Char
  | [] => (isnum, [])
  | c :: cs =>
    if '0' ≤ c ∧ c ≤ '9' then
      if 1000000 < num then (false, []) else parsenum (num * 10 + (c.toNat - 48)) true cs
    else (isnum, c :: cs)

/-- `parseArgNumber` of a format whose bracket has been read: whether there is a number up to
the closing one, and what follows. -/
def parseArgNumber (cs : List Char) : Bool × List Char :=
  if cs.length < 2 then (false, cs)
  else
    match cs.dropWhile (· ≠ ']') with
    | [] => (false, cs)
    | _ :: rest => (parsenum 0 false (cs.takeWhile (· ≠ ']')) = (true, []), rest)

/-- `p.argNumber`: no index is one of an argument. -/
def argNumber (s : Scan) : Scan :=
  match s.rest with
  | '[' :: cs =>
    { s with
      goodArgNum := false
      afterIndex := (parseArgNumber cs).1
      rest := (parseArgNumber cs).2 }
  | _ => { s with afterIndex := false }

def width (s : Scan) : Scan :=
  match s.rest with
  | '*' :: cs => { s with out := s.out ++ "%!(BADWIDTH)".toList, afterIndex := false, rest := cs }
  | cs =>
    { s with
      goodArgNum := s.goodArgNum && !(s.afterIndex && (parsenum 0 false cs).1)
      rest := (parsenum 0 false cs).2 }

def precisionValue (s : Scan) : Scan :=
  match s.rest with
  | '*' :: cs => { s with out := s.out ++ "%!(BADPREC)".toList, afterIndex := false, rest := cs }
  | cs => { s with rest := (parsenum 0 false cs).2 }

def precision (s : Scan) : Scan :=
  match s.rest with
  | '.' :: cs =>
    precisionValue (argNumber { s with goodArgNum := s.goodArgNum && !s.afterIndex, rest := cs })
  | _ => s

/-- The verb: what is written for the directive, and the rest of the format. -/
def verb (s : Scan) : List Char × List Char :=
  match s.rest with
  | [] => (s.out ++ "%!(NOVERB)".toList, [])
  | c :: cs =>
    if c = '%' then (s.out ++ ['%'], cs)
    else (s.out ++ '%' :: '!' :: c ::
      (if s.goodArgNum then "(MISSING)" else "(BADINDEX)").toList, cs)

def directive (cs : List Char) : List Char × List Char :=
  let s := precision (width (argNumber ⟨[], true, false, cs.dropWhile isFlag⟩))
  verb (if s.afterIndex then s else argNumber s)

section Directives

def marks (cs : List Char) : ℕ := cs.countP fun c => c = '%' || c = '*'

theorem marks_cons (c : Char) (cs : List Char) :
    marks (c :: cs) = marks cs + if c = '%' ∨ c = '*' then 1 else 0 := by
  simp [marks, List.countP_cons]

theorem marks_append (cs cs' : List Char) : marks (cs ++ cs') = marks cs + marks cs' :=
  List.countP_append

theorem marks_suffix {cs cs' : List Char} (h : cs <:+ cs') : marks cs ≤ marks cs' :=
  h.sublist.countP_le

/-- `t` comes after `s` in a directive: what has been written starts with a complaint, and
there is a percent sign for each mark that was read at most. -/
structure Scans (s t : Scan) : Prop where
  rest : t.rest <:+ s.rest
  bound : marks t.out + marks t.rest ≤ marks s.out + marks s.rest
  out : t.out = s.out ∨ ∃ out, t.out = s.out ++ '%' :: '!' :: out

variable {s t u : Scan} {cs : List Char}

theorem Scans.trans (h : Scans s t) (h' : Scans t u) : Scans s u := by
  refine ⟨h'.rest.trans h.rest, Nat.le_trans h'.bound h.bound, ?_⟩
  rcases h.out with hout | ⟨out, hout⟩
  · exact hout ▸ h'.out
  · rcases h'.out with hout' | ⟨out', hout'⟩
    · exact .inr ⟨out, hout'.trans hout⟩
    · exact .inr ⟨out ++ '%' :: '!' :: out', by rw [hout', hout]; simp⟩

theorem Scans.of_suffix (hrest : t.rest <:+ s.rest) (hout : t.out = s.out) : Scans s t :=
  ⟨hrest, hout ▸ Nat.add_le_add_left (marks_suffix hrest) _, .inl hout⟩

theorem Scans.of_star (out : List Char) (hrest : s.rest = '*' :: cs) (hcs : t.rest = cs)
    (hout : t.out = s.out ++ '%' :: '!' :: out) (hmarks : marks out = 0) : Scans s t := by
  refine ⟨?_, ?_, .inr ⟨out, hout⟩⟩
  · rw [hcs, hrest]
    exact List.suffix_cons ..
  · rw [hout, hcs, hrest, marks_append, marks_cons, marks_cons, marks_cons, hmarks]
    simp only [or_true, true_or, if_true]
    have hbang : ¬('!' = '%' ∨ '!' = '*') := by decide
    rw [if_neg hbang]
    omega

theorem parsenum_suffix (num : ℕ) (isnum : Bool) (cs : List Char) :
    (parsenum num isnum cs).2 <:+ cs := by
  induction cs generalizing num isnum with
  | nil => exact List.suffix_rfl
  | cons c cs ih =>
    rw [parsenum]
    split
    · split
      · exact List.nil_suffix
      · exact (ih ..).trans (List.suffix_cons ..)
    · exact List.suffix_rfl

theorem parseArgNumber_suffix (cs : List Char) : (parseArgNumber cs).2 <:+ cs := by
  rw [parseArgNumber]
  split
  · exact List.suffix_rfl
  · split
    · exact List.suffix_rfl
    · next c rest h =>
      have hdrop : c :: rest <:+ cs := h ▸ List.dropWhile_suffix _
      exact (List.suffix_cons c rest).trans hdrop

theorem scans_argNumber (s : Scan) : Scans s (argNumber s) := by
  rw [argNumber]
  split
  · next cs hrest =>
    refine .of_suffix ?_ rfl
    rw [hrest]
    exact (parseArgNumber_suffix cs).trans (List.suffix_cons ..)
  · exact .of_suffix List.suffix_rfl rfl

theorem scans_width (s : Scan) : Scans s (width s) := by
  rw [width]
  split
  · next cs hrest => exact .of_star "(BADWIDTH)".toList hrest rfl rfl (by decide)
  · exact .of_suffix (parsenum_suffix ..) rfl

theorem scans_precisionValue (s : Scan) : Scans s (precisionValue s) := by
  rw [precisionValue]
  split
  · next cs hrest => exact .of_star "(BADPREC)".toList hrest rfl rfl (by decide)
  · exact .of_suffix (parsenum_suffix ..) rfl

theorem scans_precision (s : Scan) : Scans s (precision s) := by
  rw [precision]
  split
  · next cs hrest =>
    have hpoint : Scans s { s with goodArgNum := s.goodArgNum && !s.afterIndex, rest := cs } :=
      .of_suffix (hrest ▸ List.suffix_cons ..) rfl
    exact (hpoint.trans (scans_argNumber _)).trans (scans_precisionValue _)
  · exact .of_suffix List.suffix_rfl rfl

theorem verb_suffix (s : Scan) : (verb s).2 <:+ s.rest := by
  rw [verb]
  split
  · exact List.nil_suffix
  · next c cs hrest =>
    rw [hrest]
    split <;> exact List.suffix_cons ..

/-- The percent sign of a directive is written when its verb is a percent sign too; otherwise
there is a complaint. -/
theorem verb_bound (s : Scan) :
    marks (verb s).1 + marks (verb s).2 ≤ marks s.out + marks s.rest ∨
      marks (verb s).1 + marks (verb s).2 = marks s.out + marks s.rest + 1 ∧
        ∃ out, (verb s).1 = s.out ++ '%' :: '!' :: out := by
  rw [verb]
  split
  · next hrest =>
    refine .inr ⟨?_, "(NOVERB)".toList, rfl⟩
    rw [hrest, marks_append]
    rfl
  · next c cs hrest =>
    rw [hrest, marks_cons]
    split
    · next hc =>
      refine .inl ?_
      rw [marks_append, hc]
      simp [marks]
      omega
    · next hc =>
      refine .inr ⟨?_, _, rfl⟩
      have hmessage : marks (if s.goodArgNum then "(MISSING)" else "(BADINDEX)").toList = 0 := by
        split <;> decide
      rw [marks_append, marks_cons, marks_cons, marks_cons, hmessage]
      simp
      omega

theorem directive_spec (cs : List Char) : ∃ s, Scans ⟨[], true, false, cs⟩ s ∧
    directive cs = verb s := by
  rw [directive]
  have hflags : Scans ⟨[], true, false, cs⟩ ⟨[], true, false, cs.dropWhile isFlag⟩ :=
    .of_suffix (List.dropWhile_suffix _) rfl
  have hs := ((hflags.trans (scans_argNumber _)).trans (scans_width _)).trans (scans_precision _)
  refine ⟨_, ?_, rfl⟩
  split
  · exact hs
  · exact hs.trans (scans_argNumber _)

theorem directive_suffix (cs : List Char) : (directive cs).2 <:+ cs := by
  obtain ⟨s, hs, hdirective⟩ := directive_spec cs
  rw [hdirective]
  exact (verb_suffix s).trans hs.rest

theorem directive_bound (cs : List Char) :
    marks (directive cs).1 + marks (directive cs).2 ≤ marks cs ∨
      marks (directive cs).1 + marks (directive cs).2 ≤ marks cs + 1 ∧
        ∃ out, (directive cs).1 = '%' :: '!' :: out := by
  obtain ⟨s, hs, hdirective⟩ := directive_spec cs
  have hbound : marks s.out + marks s.rest ≤ marks cs := by simpa [marks] using hs.bound
  rw [hdirective]
  rcases verb_bound s with h | ⟨h, out', hout'⟩
  · exact .inl (Nat.le_trans h hbound)
  · refine .inr ⟨by omega, ?_⟩
    rcases hs.out with hout | ⟨out, hout⟩
    · exact ⟨out', by rw [hout', hout]; rfl⟩
    · exact ⟨out ++ '%' :: '!' :: out', by rw [hout', hout]; simp⟩

theorem directive_bang (cs : List Char) :
    directive ('!' :: cs) = ("%!!(MISSING)".toList, cs) := by
  simp [directive, isFlag, argNumber, width, parsenum, precision, verb]

end Directives

def doPrintf : List Char → List Char
  | [] => []
  | c :: cs => if c = '%' then (directive cs).1 ++ doPrintf (directive cs).2 else c :: doPrintf cs
termination_by format => format.length
decreasing_by
  · exact Nat.lt_succ_of_le (directive_suffix cs).length_le
  · exact Nat.lt_succ_self _

/-- The text of `fmt.Errorf(format)`. -/
def errorf (format : String) : String := String.ofList (doPrintf format.toList)

section Formats

variable {cs text : List Char} {c : Char}

theorem doPrintf_percent :
    doPrintf ('%' :: cs) = (directive cs).1 ++ doPrintf (directive cs).2 := by
  rw [doPrintf, if_pos rfl]

theorem doPrintf_cons (hc : c ≠ '%') : doPrintf (c :: cs) = c :: doPrintf cs := by
  rw [doPrintf, if_neg hc]

theorem doPrintf_append (htext : '%' ∉ text) : doPrintf (text ++ cs) = text ++ doPrintf cs := by
  induction text with
  | nil => rfl
  | cons c text ih =>
    have hc : c ≠ '%' := fun hc => htext (hc ▸ List.mem_cons_self)
    rw [List.cons_append, doPrintf_cons hc, ih fun hmem => htext (List.mem_cons_of_mem _ hmem)]
    rfl

theorem marks_doPrintf (cs : List Char) : marks (doPrintf cs) ≤ marks cs := by
  fun_induction doPrintf cs with
  | case1 => exact Nat.le_refl _
  | case2 cs ih =>
    have hmarks : marks ('%' :: cs) = marks cs + 1 := marks_cons ..
    rw [marks_append, hmarks]
    rcases directive_bound cs with h | ⟨h, -⟩ <;> omega
  | case3 c cs hc ih =>
    rw [marks_cons, marks_cons]
    omega

theorem ne_append_doPrintf (htext : '%' ∉ text) (hne : text ≠ []) (cs : List Char) :
    cs ≠ text ++ doPrintf cs := by
  intro heq
  have hshorter : (doPrintf cs).length < cs.length := by
    have hlength := congrArg List.length heq
    rw [List.length_append] at hlength
    have hpos := List.length_pos_iff.mpr hne
    omega
  refine ne_append_doPrintf htext hne (doPrintf cs) ?_
  conv_lhs => rw [heq, doPrintf_append htext]
termination_by cs.length

theorem doPrintf_percent_ne (cs : List Char) : doPrintf ('%' :: cs) ≠ '%' :: cs := by
  intro heq
  rw [doPrintf_percent] at heq
  rcases directive_bound cs with h | ⟨-, out, hout⟩
  · have hmarks := congrArg marks heq
    have hrest := marks_doPrintf (directive cs).2
    rw [marks_append, marks_cons, if_pos (.inl rfl)] at hmarks
    omega
  · rw [hout] at heq
    obtain ⟨rest, rfl⟩ : ∃ rest, cs = '!' :: rest := ⟨_, (List.cons.inj heq).2.symm⟩
    rw [← hout, directive_bang] at heq
    have hbang : '%' ∉ "!(MISSING)".toList := by decide
    refine ne_append_doPrintf hbang (by decide) rest ?_
    exact (List.cons.inj (List.cons.inj heq).2).2.symm

theorem doPrintf_eq_self : doPrintf cs = cs ↔ '%' ∉ cs := by
  induction cs with
  | nil => simp [doPrintf]
  | cons c cs ih =>
    by_cases hc : c = '%'
    · subst hc
      exact iff_of_false (doPrintf_percent_ne cs) fun h => h List.mem_cons_self
    · rw [doPrintf_cons hc, List.cons.injEq, ih, List.mem_cons, not_or]
      simp [Ne.symm hc]

theorem errorf_eq_self {format : String} : errorf format = format ↔ '%' ∉ format.toList := by
  rw [← doPrintf_eq_self, errorf, ← String.toList_inj, String.toList_ofList]

end Formats

end GoraddServe.GoFormats
