import GoraddServe.FormChanges

/-!
# What the posts say of a form

A post has only the controls that have changed since the post before it. Together the posts say
what the form shows, as if each of them had every control.
-/
namespace GoraddServe.PostedValues
open LabelledRuns GoMaps FormChanges

variable {V : Type*}

/-- Controls that are posted under one name are the radio buttons of a group, and there is none
under the name that makes no property. -/
structure WellNamed (page : Page) : Prop where
  proto : ∀ c ∈ page.controls, c.key ≠ "__proto__"
  group : ∀ c ∈ page.controls, ∀ c' ∈ page.controls, c.key = c'.key →
    c = c' ∨ c.type = .radio ∧ c'.type = .radio

instance (page : Page) : Decidable (WellNamed page) :=
  decidable_of_iff
    ((∀ c ∈ page.controls, c.key ≠ "__proto__") ∧
      ∀ c ∈ page.controls, ∀ c' ∈ page.controls, c.key = c'.key →
        c = c' ∨ c.type = .radio ∧ c'.type = .radio)
    ⟨fun h => ⟨h.1, h.2⟩, fun h => ⟨h.proto, h.group⟩⟩

/-- What the form has to say under a name. -/
def shows (page : Page) (dom : Dom) (name : String) : Option PostValue :=
  (page.controls.find? (·.key = name)).map (·.value page.controls dom)

/-- What a post tells under each name, or a response of the server, which has no number. -/
structure News where
  ajaxID : Option ℕ
  tells : String → Option PostValue

/-- The form on the screen, and what the server has drawn or been told, the latest first. -/
structure Screen (V : Type*) where
  dom : Dom
  news : List News
  shim : Shim V

/-- What the server knows of the form. Posts count in the order in which they were built, and one
that has failed tells nothing. -/
def Screen.told (s : Screen V) (name : String) : Option PostValue :=
  (s.news.filter fun n => ∀ ajaxID ∈ n.ajaxID, ajaxID ∉ s.shim.failed).findSome? (·.tells name)

def init (page : Page) (dom : Dom) : Screen V := ⟨dom, [⟨none, shows page dom⟩], FormChanges.init⟩

inductive Action (V : Type*) where
  /-- the control is changed and gets an event -/
  | change (c : Control) (dom : Dom)
  /-- a response of the server changes what the form shows -/
  | respond (dom : Dom)
  | send
  | other (a : FormChanges.Action V)

/-- A change is one of the control and of the radio buttons in its group. -/
def ChangesOnly (page : Page) (c : Control) (dom dom' : Dom) : Prop :=
  ∀ c' ∈ page.controls, c'.key ≠ c.key → c'.value page.controls dom' = c'.value page.controls dom

instance (page : Page) (c : Control) (dom dom' : Dom) : Decidable (ChangesOnly page c dom dom') :=
  inferInstanceAs (Decidable (∀ c' ∈ page.controls, _))

def step (page : Page) (s : Screen V) : Action V → Option (Screen V)
  | .change c dom =>
    if c ∈ page.controls ∧ c.id ≠ "" ∧ ChangesOnly page c s.dom dom then
      some { s with dom, shim := s.shim.formObjChanged c }
    else none
  | .respond dom =>
    let tells name :=
      if shows page dom name = shows page s.dom name then none else shows page dom name
    some { s with dom, news := ⟨none, tells⟩ :: s.news }
  | .send => (s.shim.send page s.dom).map fun shim =>
    let tells := (s.shim.ajaxData page s.dom).postData.get
    { s with shim, news := ⟨some shim.queue.idCounter, tells⟩ :: s.news }
  | .other (.send _) => none
  | .other a => (FormChanges.step page s.shim a).map ({ s with shim := · })

variable {page : Page} {dom : Dom} {s t : Screen V} {name : String}

theorem shows_none {dom' : Dom} (h : shows page dom name = none) : shows page dom' name = none :=
  Option.map_eq_none_iff.mpr (Option.map_eq_none_iff.mp h)

theorem WellNamed.hasField (hnamed : WellNamed page) {c : Control} (hc : c ∈ page.controls)
    (hparams : c.key ≠ "Goradd__Params") : HasField page c :=
  ⟨hc, ⟨hnamed.proto c hc, hparams⟩, fun c' hc' hkey => hnamed.group c' hc' c hc hkey⟩

theorem shows_eq (hnamed : WellNamed page) {c : Control} (hc : c ∈ page.controls) :
    shows page dom c.key = some (c.value page.controls dom) := by
  cases hfind : page.controls.find? (·.key = c.key) with
  | none =>
    have hnone := List.find?_eq_none.mp hfind c hc
    simp at hnone
  | some c' =>
    have hkey : c'.key = c.key := by simpa using List.find?_some hfind
    rw [shows, hfind, Option.map_some, value_eq hkey]
    exact hnamed.group c' (List.mem_of_find?_eq_some hfind) c hc hkey

theorem shows_congr {dom' : Dom} (h : ∀ c ∈ page.controls, c.key = name →
    c.value page.controls dom' = c.value page.controls dom) :
    shows page dom' name = shows page dom name := by
  unfold shows
  cases hfind : page.controls.find? (·.key = name) with
  | none => rfl
  | some c =>
    have hkey : c.key = name := by simpa using List.find?_some hfind
    exact congrArg some (h c (List.mem_of_find?_eq_some hfind) hkey)

theorem get_postData_or (hnamed : WellNamed page) (hname : name ≠ "Goradd__Params")
    (shim : Shim V) (old : Option PostValue) :
    ((shim.ajaxData page dom).postData.get name).or old =
      if ∃ c ∈ page.controls, c.key = name ∧ shim.posts page c = true then shows page dom name
      else old := by
  by_cases hc : ∃ c ∈ page.controls, c.key = name
  · obtain ⟨c, hc, rfl⟩ := hc
    rw [(hnamed.hasField hc hname).get, shows_eq hnamed hc]
    split_ifs
    · rfl
    · rfl
  · have hnone : ¬∃ c ∈ page.controls, c.key = name ∧ shim.posts page c = true :=
      fun ⟨c, hmem, hkey, _⟩ => hc ⟨c, hmem, hkey⟩
    rw [get_postData (v := .null) hname fun c hmem hkey => absurd ⟨c, hmem, hkey⟩ hc, if_neg hnone,
      if_neg hnone, Option.none_or]

def Pending (page : Page) (s : Screen V) (name : String) : Prop :=
  ∃ c ∈ page.controls, c.key = name ∧ c.id ≠ "" ∧ c.id ∈ s.shim.formObjsModified

/-- What has been told or drawn last, whether or not a post has failed. -/
def latest (news : List News) (name : String) : Option PostValue := news.findSome? (·.tells name)

theorem latest_cons (n : News) (news : List News) (name : String) :
    latest (n :: news) name = (n.tells name).or (latest news name) := by
  rw [latest, List.findSome?_cons, latest]
  cases n.tells name <;> rfl

def ToldOrPending (page : Page) (s : Screen V) : Prop :=
  ∀ name, name ≠ "Goradd__Params" →
    latest s.news name = shows page s.dom name ∨ Pending page s name

theorem step_other {a : FormChanges.Action V} (ha : ∀ dom, a ≠ .send dom) :
    step page s (.other a) = (FormChanges.step page s.shim a).map ({ s with shim := · }) := by
  cases a with
  | send dom => exact absurd rfl (ha dom)
  | _ => rfl

theorem formObjsModified_step {a : FormChanges.Action V} {shim shim' : Shim V}
    (ha : ∀ dom, a ≠ .send dom) (h : FormChanges.step page shim a = some shim') :
    shim.formObjsModified ⊆ shim'.formObjsModified := by
  cases a with
  | formObjChanged c =>
    obtain ⟨-, heq⟩ := Option.ite_none_right_eq_some.mp h
    cases heq
    exact Finset.subset_insert _ _
  | setControlValue id prop v =>
    cases h
    unfold Shim.setControlValue
    split
    · exact Finset.Subset.refl _
    · exact Finset.Subset.refl _
  | block on =>
    cases h
    exact Finset.Subset.refl _
  | postAjax async =>
    cases h
    unfold Shim.postAjax
    split
    · exact Finset.Subset.refl _
    · exact Finset.Subset.refl _
  | send dom => exact absurd rfl (ha dom)
  | success ajaxID =>
    obtain ⟨queue, -, rfl⟩ := Option.map_eq_some_iff.mp h
    exact Finset.Subset.refl _
  | error ajaxID =>
    obtain ⟨queue, -, rfl⟩ := Option.map_eq_some_iff.mp h
    obtain ⟨err, blocked, hdisplay⟩ := displayAjaxError_eq page
      { shim with queue, failed := shim.failed ++ [ajaxID] }
    rw [hdisplay]
  | settle =>
    obtain ⟨queue, -, rfl⟩ := Option.map_eq_some_iff.mp h
    exact Finset.Subset.refl _
  | finish =>
    obtain ⟨queue, -, rfl⟩ := Option.map_eq_some_iff.mp h
    exact Finset.Subset.refl _

theorem ToldOrPending.send (hs : ToldOrPending page s) (hnamed : WellNamed page)
    (hname : name ≠ "Goradd__Params") (h : step page s .send = some t) :
    latest t.news name = shows page t.dom name := by
  obtain ⟨shim, -, rfl⟩ := Option.map_eq_some_iff.mp h
  dsimp only
  rw [latest_cons, get_postData_or hnamed hname]
  split
  · rfl
  · next hnone =>
    refine (hs name hname).resolve_right ?_
    rintro ⟨c, hc, rfl, hid, hmodified⟩
    exact hnone ⟨c, hc, rfl, posts_of_pending hid hmodified⟩

theorem ToldOrPending.step {a : Action V} (hs : ToldOrPending page s) (hnamed : WellNamed page)
    (h : step page s a = some t) : ToldOrPending page t := by
  cases a with
  | change c dom =>
    obtain ⟨⟨hc, hid, honly⟩, heq⟩ := Option.ite_none_right_eq_some.mp h
    cases heq
    intro name hname
    by_cases hkey : name = c.key
    · exact .inr ⟨c, hc, hkey.symm, hid, Finset.mem_insert_self _ _⟩
    · have hsame : shows page dom name = shows page s.dom name :=
        shows_congr fun c' hc' hkey' => honly c' hc' fun h => hkey (hkey'.symm.trans h)
      refine (hs name hname).imp (fun htold => htold.trans hsame.symm) ?_
      rintro ⟨c', hc', hkey', hid', hmodified⟩
      exact ⟨c', hc', hkey', hid', Finset.mem_insert_of_mem hmodified⟩
  | respond dom =>
    cases h
    intro name hname
    dsimp only
    rw [latest_cons]
    dsimp only
    split
    · next hsame =>
      rw [Option.none_or]
      exact (hs name hname).imp_left fun htold => htold.trans hsame.symm
    · next hdiffer =>
      cases hshows : shows page dom name with
      | none => exact absurd (hshows.trans (shows_none hshows).symm) hdiffer
      | some v => exact .inl rfl
  | send => exact fun name hname => .inl (hs.send hnamed hname h)
  | other a =>
    have hother : ∃ shim, t = { s with shim } ∧
        s.shim.formObjsModified ⊆ shim.formObjsModified := by
      by_cases ha : ∃ dom, a = .send dom
      · obtain ⟨dom, rfl⟩ := ha
        cases h
      · have ha : ∀ dom, a ≠ .send dom := not_exists.mp ha
        rw [step_other ha] at h
        obtain ⟨shim, hshim, rfl⟩ := Option.map_eq_some_iff.mp h
        exact ⟨shim, rfl, formObjsModified_step ha hshim⟩
    obtain ⟨shim, rfl, hmodified⟩ := hother
    refine fun name hname => (hs name hname).imp_right ?_
    rintro ⟨c, hc, hkey, hid, hmem⟩
    exact ⟨c, hc, hkey, hid, hmodified hmem⟩

end GoraddServe.PostedValues
