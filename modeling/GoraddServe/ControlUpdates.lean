import GoraddServe.Forests
import GoraddServe.LabelledRuns

/-!
# Controls that are drawn again

A response has new html for controls. `_processAjax2` puts it where the wrapper of the control is,
or the control itself, or else at the end of the form. A control without a wrapper may stand inside
of elements that are related to it, such as a label, and these are drawn again with it.
-/
namespace GoraddServe.ControlUpdates
open Forests Forest LabelledRuns

/-- An element of the page; `key` tells the elements apart, and `data-grel` names the control that
an element is related to. -/
structure Element where
  key : ℕ
  tagName : String
  type : String
  id : String
  grel : Option String
  grctl : Option String
  grctlhigh : Bool
  watch : Option String
  deriving DecidableEq

def Element.is (e a : Element) : Bool := a.key == e.key

/-- The element matches `[data-grel='id']`. -/
def relates (id : String) (a : Element) : Bool := a.grel == some id

variable {t t' html : Forest Element} {id : String} {e a : Element}

def el (t : Forest Element) (id : String) : Option Element :=
  if id = "" then none else t.labels.find? (·.id == id)

def form (t : Forest Element) : Option Element :=
  t.labels.find? fun a => a.tagName == "FORM" && a.grctl == some "form"

def parents (t : Forest Element) (e : Element) : List Element :=
  ((t.ancestors e.is).getD []).reverse

def remove (t : Forest Element) (e : Element) : Forest Element := t.prune e.is

/-- The `relatedParent` of the control. -/
def relatedParent (t : Forest Element) (id : String) (e : Element) : Option Element :=
  ((parents t e).filter (relates id)).getLast?

/-- The control without its related elements, moved out of them before. -/
def release (t : Forest Element) (id : String) (e : Element) : Forest Element :=
  let relatedItems := t.labels.filter (relates id)
  let t :=
    match relatedParent t id e with
    | some parent => (remove t e).insertBefore parent.is (t.cut e.is)
    | none => t
  relatedItems.foldl remove t

/-- What is done for a control with html. A control that is related to itself has been removed, so
nothing can be inserted before it. -/
def replaceHtml (t : Forest Element) (id : String) (html : Forest Element) :
    Option (Forest Element) :=
  match el t (id ++ "_ctl") with
  | some wrapper => some (remove (t.insertBefore wrapper.is html) wrapper)
  | none =>
    match el t id with
    | some e =>
      if relates id e then none
      else some (remove ((release t id e).insertBefore e.is html) e)
    | none => (form t).map fun form => t.appendChild form.is html

/-- The elements are different, and those of the html are new. -/
def Distinct (t html : Forest Element) : Prop := ((t.labels ++ html.labels).map Element.key).Nodup

/-- The element in the place of which the html of a control comes, unless it stands inside of an
element that is drawn again. -/
def target (t : Forest Element) (id : String) : Option Element :=
  match el t (id ++ "_ctl") with
  | some wrapper => some wrapper
  | none => el t id

/-- The elements that are drawn again with a control. -/
def covers (t : Forest Element) (id : String) (a : Element) : Bool :=
  match el t (id ++ "_ctl") with
  | some wrapper => wrapper.is a
  | none =>
    match el t id with
    | some e => relates id a || e.is a
    | none => false

theorem mem_of_el (h : el t id = some e) : e ∈ t.labels ∧ e.id = id ∧ id ≠ "" := by
  obtain ⟨hid, hfind⟩ := Option.ite_none_left_eq_some.mp h
  refine ⟨List.mem_of_find?_eq_some hfind, ?_, hid⟩
  simpa using List.find?_some hfind

theorem Distinct.left (h : Distinct t html) : (t.labels.map Element.key).Nodup := by
  rw [Distinct, List.map_append] at h
  exact h.of_append_left

theorem once_is (h : (t.labels.map Element.key).Nodup) (he : e ∈ t.labels) : Once e.is t := by
  have hcount : (t.labels.map Element.key).count e.key = 1 :=
    List.count_eq_one_of_mem h (List.mem_map_of_mem he)
  rw [List.count, List.countP_map] at hcount
  exact hcount

theorem free_html (h : Distinct t html) (he : e ∈ t.labels) : Free e.is html := by
  intro a ha
  rw [Distinct, List.map_append] at h
  have hdisjoint := List.disjoint_of_nodup_append h (List.mem_map_of_mem he)
  refine Bool.eq_false_iff.mpr fun heq => hdisjoint ?_
  rw [← eq_of_beq heq]
  exact List.mem_map_of_mem ha

theorem is_iff (h : (t.labels.map Element.key).Nodup) (he : e ∈ t.labels) (ha : a ∈ t.labels) :
    e.is a = true ↔ a = e := by
  refine ⟨fun heq => ?_, fun heq => by simp [Element.is, heq]⟩
  exact List.inj_on_of_nodup_map h ha he (eq_of_beq heq)

theorem relatedParent_eq {above : List Element} (habove : t.ancestors e.is = some above) :
    relatedParent t id e = above.find? (relates id) := by
  rw [relatedParent, parents, habove, Option.getD_some, List.filter_reverse, List.getLast?_reverse,
    List.head?_filter]

theorem foldl_remove (items : List Element) (t : Forest Element) :
    items.foldl remove t = t.prune fun a => items.any fun item => item.is a := by
  induction items generalizing t with
  | nil => exact (prune_free fun _ _ => rfl).symm
  | cons item items ih =>
    rw [List.foldl_cons, ih, remove, prune_prune]
    rfl

theorem any_related (h : (t.labels.map Element.key).Nodup) (ha : a ∈ t.labels) :
    (t.labels.filter (relates id)).any (fun item => item.is a) = relates id a := by
  rw [Bool.eq_iff_iff, List.any_eq_true]
  constructor
  · rintro ⟨item, hitem, heq⟩
    obtain ⟨hmem, hrelates⟩ := List.mem_filter.mp hitem
    rwa [(is_iff h hmem ha).mp heq]
  · exact fun hrelates => ⟨a, List.mem_filter.mpr ⟨ha, hrelates⟩, (is_iff h ha ha).mpr rfl⟩

/-- Without a wrapper, moving the control out of the elements that are related to it, removing
these one after another and replacing the control comes to dropping all of them together. -/
theorem replace_control (h : Distinct t html) (he : e ∈ t.labels) (hself : relates id e = false) :
    remove ((release t id e).insertBefore e.is html) e =
      t.splice (fun a => relates id a || e.is a) e.is html := by
  have hkeys := h.left
  have honce := once_is hkeys he
  have hhtml := free_html h he
  obtain ⟨above, habove⟩ := ancestors_once honce
  -- the related elements, once they are collected
  generalize hitems : (fun a => (t.labels.filter (relates id)).any fun item => item.is a) = q
  have hq : ∀ a ∈ t.labels, q a = relates id a := by
    intro a ha
    rw [← hitems]
    exact any_related hkeys ha
  have hqself : ∀ a ∈ t.labels, e.is a = true → q a = false := by
    intro a ha heq
    obtain rfl := (is_iff hkeys he ha).mp heq
    rw [hq a ha, hself]
  have hcovered : t.splice (fun a => q a || e.is a) e.is html =
      t.splice (fun a => relates id a || e.is a) e.is html :=
    splice_congr fun a ha => by rw [hq a ha]
  have hfind : above.find? (relates id) = above.find? q := by
    rw [← List.head?_filter, ← List.head?_filter,
      List.filter_congr fun a ha => (hq a (mem_of_ancestors habove ha)).symm]
  rw [← hcovered, release, foldl_remove, hitems, relatedParent_eq habove, hfind]
  cases hparent : above.find? q with
  | none =>
    refine splice_in_place hhtml honce hqself fun above' h' => ?_
    cases habove.symm.trans h'
    rw [List.any_eq_false]
    exact fun a ha => List.find?_eq_none.mp hparent a ha
  | some parent =>
    have hmem := mem_of_ancestors habove (List.mem_of_find?_eq_some hparent)
    exact splice_hoisted hhtml honce hqself (once_is hkeys hmem) habove hparent
      ((is_iff hkeys hmem hmem).mpr rfl)

/-- The html of a control that is on the page comes in the place of its wrapper, or else of the
outermost of the control and the elements related to it that are around it; with that element go
all others that are related to the control, and the rest of the page stays as it is. This is so
unless the control has no wrapper and is related to itself: then nothing comes of it. -/
theorem replaceHtml_eq (h : Distinct t html) (htarget : target t id = some e) :
    replaceHtml t id html =
      if el t (id ++ "_ctl") = none ∧ relates id e = true then none
      else some (t.splice (covers t id) e.is html) := by
  unfold replaceHtml target covers at *
  cases hwrapper : el t (id ++ "_ctl") with
  | some wrapper =>
    rw [hwrapper] at htarget
    obtain rfl := Option.some.inj htarget
    have hmem := (mem_of_el hwrapper).1
    have hplace := splice_in_place (q := fun _ => false) (free_html h hmem)
      (once_is h.left hmem) (fun _ _ _ => rfl) fun above _ => by simp
    rw [prune_free fun _ _ => rfl] at hplace
    simp only [Bool.false_or] at hplace
    simpa [remove] using hplace
  | none =>
    rw [hwrapper] at htarget
    dsimp only at htarget ⊢
    rw [htarget]
    dsimp only
    cases hself : relates id e with
    | true => simp
    | false =>
      simp only [Bool.false_eq_true, if_false, and_false]
      rw [replace_control h (mem_of_el htarget).1 hself]

/-- The elements of the html come in one piece among those that stay. -/
theorem labels_replaceHtml (h : Distinct t html) (hstep : replaceHtml t id html = some t') :
    ∃ before after, t'.labels = before ++ html.labels ++ after ∧
      (t.prune (covers t id)).labels = before ++ after := by
  cases htarget : target t id with
  | some e =>
    have heq := replaceHtml_eq h htarget
    rw [hstep] at heq
    split at heq
    · cases heq
    · obtain rfl := Option.some.inj heq
      have hmem : e ∈ t.labels := by
        unfold target at htarget
        split at htarget
        · rename_i hwrapper
          exact Option.some.inj htarget ▸ (mem_of_el hwrapper).1
        · exact (mem_of_el htarget).1
      refine labels_splice (once_is h.left hmem) fun a ha heq => ?_
      unfold covers target at *
      split at htarget
      · rename_i hwrapper
        cases htarget
        exact heq
      · rw [htarget]
        simp [heq]
  | none =>
    unfold target at htarget
    split at htarget
    · cases htarget
    · rename_i hwrapper
      have hcovers : t.prune (covers t id) = t := by
        refine prune_free fun a _ => ?_
        rw [covers, hwrapper, htarget]
      rw [replaceHtml, hwrapper, htarget] at hstep
      obtain ⟨form, hform, rfl⟩ := Option.map_eq_some_iff.mp hstep
      rw [hcovers]
      exact labels_appendChild (once_is h.left (List.mem_of_find?_eq_some hform))

/-- `made` counts the elements that were ever made. -/
structure Page where
  forest : Forest Element
  made : ℕ

/-- What a response has for a control, of which only the html is modelled. -/
structure Update where
  id : String
  html : Option (Forest Element)

/-- The elements of the html are made in document order. -/
def Numbered (p : Page) (html : Forest Element) : Prop :=
  html.labels.map Element.key = List.range' p.made html.labels.length

instance (p : Page) (html : Forest Element) : Decidable (Numbered p html) :=
  inferInstanceAs (Decidable (_ = _))

/-- The function that `_processAjax2` calls for each control. -/
def update (p : Page) (u : Update) : Option Page :=
  match u.html with
  | none => some p
  | some html =>
    if Numbered p html then
      (replaceHtml p.forest u.id html).map fun forest => ⟨forest, p.made + html.labels.length⟩
    else none

variable {p q : Page} {u : Update}

/-- The elements of the page are different, and were made. -/
structure Fresh (p : Page) : Prop where
  nodup : (p.forest.labels.map Element.key).Nodup
  made : ∀ a ∈ p.forest.labels, a.key < p.made

theorem Fresh.distinct (hp : Fresh p) (hnumbered : Numbered p html) : Distinct p.forest html := by
  rw [Distinct, List.map_append, hnumbered, List.nodup_append]
  refine ⟨hp.nodup, List.nodup_range', fun k hk k' hk' => ?_⟩
  obtain ⟨a, ha, rfl⟩ := List.mem_map.mp hk
  have hlt := hp.made a ha
  have hle := (List.mem_range'_1.mp hk').1
  omega

theorem update_eq_some (h : update p u = some q) :
    u.html = none ∧ q = p ∨ ∃ html, u.html = some html ∧ Numbered p html ∧
      q.made = p.made + html.labels.length ∧
        replaceHtml p.forest u.id html = some q.forest := by
  unfold update at h
  split at h
  · rename_i hhtml
    exact .inl ⟨hhtml, (Option.some.inj h).symm⟩
  · rename_i html hhtml
    obtain ⟨hnumbered, h⟩ := Option.ite_none_right_eq_some.mp h
    obtain ⟨forest, hforest, rfl⟩ := Option.map_eq_some_iff.mp h
    exact .inr ⟨html, hhtml, hnumbered, rfl, hforest⟩

theorem fresh_update (hp : Fresh p) (h : update p u = some q) : Fresh q := by
  rcases update_eq_some h with ⟨-, rfl⟩ | ⟨html, -, hnumbered, hmade, hreplace⟩
  · exact hp
  have hdistinct := hp.distinct hnumbered
  obtain ⟨before, after, hlabels, hprune⟩ := labels_replaceHtml hdistinct hreplace
  have hsub := labels_prune_sublist (covers p.forest u.id) p.forest
  rw [hprune] at hsub
  have hperm : (before ++ html.labels ++ after).Perm (before ++ after ++ html.labels) := by
    rw [List.append_assoc, List.append_assoc]
    exact List.perm_append_comm.append_left before
  constructor
  · rw [hlabels, (hperm.map Element.key).nodup_iff]
    exact hdistinct.sublist ((hsub.append_right _).map Element.key)
  · intro a ha
    rw [hlabels] at ha
    rcases List.mem_append.mp (hperm.mem_iff.mp ha) with ha | ha
    · have hlt := hp.made a (hsub.subset ha)
      omega
    · have hkey := List.mem_map_of_mem (f := Element.key) ha
      rw [hnumbered] at hkey
      have hlt := (List.mem_range'_1.mp hkey).2
      omega

def ids (l : List Element) : List String := (l.map Element.id).filter (· ≠ "")

def UniqueIds (t : Forest Element) : Prop := (ids t.labels).Nodup

/-- The html has no id twice, and none of an element that stays on the page. -/
def Careful (p : Page) (u : Update) : Prop :=
  ∀ html, u.html = some html → (ids html.labels).Nodup ∧
    ∀ i ∈ ids html.labels, i ∉ ids (p.forest.prune (covers p.forest u.id)).labels

@[simp] theorem ids_append (l l' : List Element) : ids (l ++ l') = ids l ++ ids l' := by
  simp [ids]

theorem uniqueIds_update (hp : Fresh p) (hunique : UniqueIds p.forest)
    (h : update p u = some q) : UniqueIds q.forest ↔ Careful p u := by
  rcases update_eq_some h with ⟨hhtml, rfl⟩ | ⟨html, hhtml, hnumbered, -, hreplace⟩
  · exact iff_of_true hunique fun html h => by cases hhtml.symm.trans h
  obtain ⟨before, after, hlabels, hprune⟩ :=
    labels_replaceHtml (hp.distinct hnumbered) hreplace
  have hstay : (ids (before ++ after)).Nodup := by
    rw [← hprune]
    exact hunique.sublist (((labels_prune_sublist _ _).map _).filter _)
  have hperm : (ids before ++ ids html.labels ++ ids after).Perm
      (ids html.labels ++ (ids before ++ ids after)) := by
    rw [← List.append_assoc]
    exact List.perm_append_comm.append_right _
  rw [UniqueIds, hlabels, ids_append, ids_append, hperm.nodup_iff, List.nodup_append, ← ids_append]
  constructor
  · rintro ⟨hnodup, -, hne⟩ html' h'
    cases hhtml.symm.trans h'
    refine ⟨hnodup, fun i hi hi' => ?_⟩
    rw [hprune] at hi'
    exact hne i hi i hi' rfl
  · intro hcareful
    obtain ⟨hnodup, hnew⟩ := hcareful html hhtml
    refine ⟨hnodup, hstay, fun i hi j hj heq => hnew i hi ?_⟩
    rw [hprune, heq]
    exact hj

/-- In any sequence of updates, the ids stay unique if and only if every html has no id twice and
none of an element that stays on the page when it comes. -/
theorem uniqueIds_iff {hist : List (Page × Update)} (run : Run update p hist q) (hp : Fresh p)
    (hunique : UniqueIds p.forest) :
    ((∀ e ∈ hist, UniqueIds e.1.forest) ∧ UniqueIds q.forest) ↔ ∀ e ∈ hist, Careful e.1 e.2 := by
  have hfresh : ∀ {hist q}, Run update p hist q → Fresh q := fun run =>
    run.invariant (fun _ _ _ hp h => fresh_update hp h) hp
  induction run with
  | start => simp [hunique]
  | @next hist t q u run taken ih =>
    simp only [List.mem_append, List.mem_singleton]
    constructor
    · rintro ⟨hall, hq⟩ e (he | rfl)
      · exact ih.mp ⟨fun e he => hall e (.inl he), hall _ (.inr rfl)⟩ e he
      · exact (uniqueIds_update (hfresh run) (hall _ (.inr rfl)) taken).mp hq
    · intro hcareful
      obtain ⟨hbefore, ht⟩ := ih.mpr fun e he => hcareful e (.inl he)
      refine ⟨?_, (uniqueIds_update (hfresh run) ht taken).mpr (hcareful _ (.inr rfl))⟩
      rintro e (he | rfl)
      · exact hbefore e he
      · exact ht

def tagged (key : ℕ) (tagName id : String) : Element :=
  ⟨key, tagName, "", id, none, some "", false, none⟩

/-- A form with a label around a control, an error text for it, and another control. -/
def namePage : Page where
  forest := .node { tagged 0 "FORM" "form" with grctl := some "form" }
    (.node { tagged 1 "LABEL" "" with grel := some "name" }
      (.node (tagged 2 "INPUT" "name") .nil .nil)
      (.node { tagged 3 "SPAN" "error" with grel := some "name" } .nil
        (.node (tagged 4 "INPUT" "street") .nil .nil))) .nil
  made := 5

def nameHtml : Forest Element :=
  .node { tagged 5 "LABEL" "" with grel := some "name" } (.node (tagged 6 "INPUT" "name") .nil .nil)
    .nil

theorem namePage_fresh : Fresh namePage := ⟨by decide, by decide⟩

theorem replaceHtml_eq_name : replaceHtml namePage.forest "name" nameHtml =
    some (.node { tagged 0 "FORM" "form" with grctl := some "form" }
      (nameHtml ++ .node (tagged 4 "INPUT" "street") .nil .nil) .nil) := by
  have htarget : target namePage.forest "name" = some (tagged 2 "INPUT" "name") := by decide
  have hdistinct : Distinct namePage.forest nameHtml := by
    unfold Distinct
    decide
  exact (replaceHtml_eq hdistinct htarget).trans (by decide)

theorem uniqueIds_iff_name : ∃ q, update namePage ⟨"name", some nameHtml⟩ = some q ∧
    UniqueIds q.forest := by
  obtain ⟨q, hq⟩ : ∃ q, update namePage ⟨"name", some nameHtml⟩ = some q :=
    Option.isSome_iff_exists.mp (by decide)
  have hunique : UniqueIds namePage.forest := by
    unfold UniqueIds
    decide
  refine ⟨q, hq, ((uniqueIds_iff (Run.one hq) namePage_fresh hunique).mpr fun e he => ?_).2⟩
  obtain rfl := List.mem_singleton.mp he
  rintro html ⟨⟩
  decide

end GoraddServe.ControlUpdates
