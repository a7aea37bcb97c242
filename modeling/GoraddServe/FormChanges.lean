import GoraddServe.AjaxQueue
import GoraddServe.GoMaps
import GoraddServe.JsValues

/-!
# Changes on a form

A change on a form is recorded, as the id of a control or as a value of a property, and goes
out with the next post, whose function clears the records. When the post fails nothing brings
them back: `_ajaxError`, which makes the next post send every control, is private to the
script and set by no one. `displayAjaxError` does nothing by default, and that of the debug
script writes a global variable of the same name.
-/
namespace GoraddServe.FormChanges
open LabelledRuns GoMaps JsValues AjaxQueue

inductive ControlType where
  | radio
  | checkbox
  | other
  deriving DecidableEq

/-- An element that is changed; `grPost` when its `data-gr-post` is `""`. -/
structure Control where
  id : String
  type : ControlType
  name : String
  grPost : Bool
  deriving DecidableEq

/-- The name can stand in a selector without quotes. -/
def isIdentifier (name : String) : Bool :=
  let start (c : Char) : Bool := c.isAlpha || c == '_' || 128 ≤ c.toNat
  let begins :=
    match name.toList with
    | '-' :: c :: _ => c == '-' || start c
    | c :: _ => start c
    | [] => false
  begins && name.toList.all fun c => start c || c.isDigit || c == '-'

/-- What the controls show. -/
structure Dom where
  val : Control → String
  checked : Control → Bool

inductive PostValue where
  | null
  | checked (on : Bool)
  | val (text : String)
  deriving DecidableEq

/-- The page of the form: its `input`, `select` and `textarea` elements, whether the browser has
`oninput`, and whether the debug script is loaded. -/
structure Page where
  controls : List Control
  inputSupport : Bool
  debug : Bool

inductive Change (V : Type*) where
  | control (c : Control)
  | value (id prop : String) (v : V)

/-- The data of a post; `controlValues` is that of its `Goradd__Params`. -/
structure AjaxData (V : Type*) where
  postData : GoMap String PostValue
  controlValues : Option (GoMap String (GoMap String V))

/-- A request that was sent, what the controls showed and how many changes had been recorded when it
was built. -/
structure Sent (V : Type*) where
  ajaxID : ℕ
  dom : Dom
  data : AjaxData V
  changes : ℕ

/-- The private variables of the script, the globals that the debug script writes, and a record
of the changes and of the requests with their outcomes. -/
structure Shim (V : Type*) where
  formObjsModified : Finset String
  controlValues : GoMap String (GoMap String V)
  ajaxError : Bool
  blockEvents : Bool
  windowAjaxError : Bool
  windowBlockEvents : Bool
  queue : State
  log : List (Change V)
  sent : List (Sent V)
  succeeded : List ℕ
  failed : List ℕ

namespace Control

variable (c : Control)

def key : String := if c.type = .radio then c.name else c.id

/-- `Goradd__` begins the id. -/
def blnForm : Bool := "Goradd__".toList.isPrefixOf c.id.toList

def value (controls : List Control) (dom : Dom) : PostValue :=
  match c.type with
  -- the selector throws for a name that is no identifier
  | .radio =>
    match controls.find? fun r => r.type ≠ .other ∧ r.name = c.name ∧ dom.checked r with
    | some radio => .val (dom.val radio)
    | none => .null
  | .checkbox => .checked (dom.checked c)
  | .other => .val (dom.val c)

end Control

variable {V : Type*}

/-- `obj[key] = value`. An assignment to `__proto__` makes no property. -/
def assign (obj : GoMap String V) (key : String) (value : V) : GoMap String V :=
  if key = "__proto__" then obj else obj.set key value

def init : Shim V := ⟨∅, ∅, false, false, false, false, AjaxQueue.init, [], [], [], []⟩

namespace Shim

variable (s : Shim V)

def formObjChanged (c : Control) : Shim V :=
  { s with formObjsModified := insert c.id s.formObjsModified, log := s.log ++ [.control c] }

/-- Under an inherited name no object is made, and what is inherited gets the property. -/
def setControlValue (id prop : String) (v : V) : Shim V :=
  let log := s.log ++ [.value id prop v]
  if id ∈ inherited then { s with log }
  else
    let controlValues :=
      if s.controlValues.has id then s.controlValues else s.controlValues.set id ∅
    let values := (controlValues.get id).getD ∅
    { s with controlValues := controlValues.set id (assign values prop v), log }

/-- `_formObjsModified[id]` is true of what was put there and of what is inherited. -/
def modified (id : String) : Bool := id ∈ inherited || id ∈ s.formObjsModified

def posts (page : Page) (c : Control) : Bool :=
  !page.inputSupport || s.ajaxError || (c.id ≠ "" && s.modified c.id) || c.grPost || c.blnForm

/-- The `controlValues` that `_getParamsValue` puts into the parameters. -/
def paramsControlValues : Option (GoMap String (GoMap String V)) :=
  if s.controlValues.len ≠ 0 then some s.controlValues else none

/-- `Goradd__Params` is that of the parameters, also when a control has the name. -/
def ajaxData (page : Page) (dom : Dom) : AjaxData V where
  postData := (page.controls.foldl
    (fun postData c => if s.posts page c then assign postData c.key (c.value page.controls dom)
      else postData) ∅).delete "Goradd__Params"
  controlValues := s.paramsControlValues

/-- `_getAjaxData` clears what it has put into the data. -/
def clear : Shim V :=
  { s with ajaxError := false, formObjsModified := ∅, controlValues := ∅ }

def postAjax (async : Bool) : Shim V :=
  if s.blockEvents then s else { s with queue := s.queue.enqueue async }

/-- The function of a post, and what `_do1` does after it. -/
def send (page : Page) (dom : Dom) : Option (Shim V) :=
  s.queue.send.map fun queue =>
    { s.clear with queue,
                   sent := s.sent ++ [⟨queue.idCounter, dom, s.ajaxData page dom, s.log.length⟩] }

def displayAjaxError (page : Page) : Shim V :=
  if page.debug then { s with windowAjaxError := true, windowBlockEvents := false } else s

def success (ajaxID : ℕ) : Option (Shim V) :=
  (s.queue.complete ajaxID).map fun queue =>
    { s with queue, succeeded := s.succeeded ++ [ajaxID], blockEvents := false }

def error (page : Page) (ajaxID : ℕ) : Option (Shim V) :=
  (s.queue.complete ajaxID).map fun queue =>
    { s with queue, failed := s.failed ++ [ajaxID] }.displayAjaxError page

end Shim

inductive Action (V : Type*) where
  | formObjChanged (c : Control)
  | setControlValue (id prop : String) (v : V)
  | block (on : Bool)
  | postAjax (async : Bool)
  | send (dom : Dom)
  | success (ajaxID : ℕ)
  | error (ajaxID : ℕ)
  | settle
  | finish

def step (page : Page) (s : Shim V) : Action V → Option (Shim V)
  | .formObjChanged c => if c.id ≠ "" then some (s.formObjChanged c) else none
  | .setControlValue id prop v => some (s.setControlValue id prop v)
  | .block on => some { s with blockEvents := on }
  | .postAjax async => some (s.postAjax async)
  | .send dom => s.send page dom
  | .success ajaxID => s.success ajaxID
  | .error ajaxID => s.error page ajaxID
  | .settle => s.queue.settle.map ({ s with queue := · })
  | .finish => s.queue.finish.map ({ s with queue := · })

/-- What a later change replaces: the value of a field, or that of a property. -/
inductive Key where
  | field (name : String)
  | prop (id prop : String)
  deriving DecidableEq

def Change.key : Change V → Key
  | .control c => .field c.key
  | .value id prop _ => .prop id prop

/-- The change was recorded as the `n`th one, and none after it has replaced it. -/
structure Latest (log : List (Change V)) (n : ℕ) (c : Change V) : Prop where
  recorded : log[n]? = some c
  last : ∀ m c', n < m → log[m]? = some c' → c'.key ≠ c.key

def Pending (s : Shim V) : Change V → Prop
  | .control c => c.id ∈ s.formObjsModified
  | .value id prop v => (s.controlValues.get id).bind (·.get prop) = some v

/-- The data has what the form showed under the name of the control, or the value. -/
def Carries (page : Page) (dom : Dom) (data : AjaxData V) : Change V → Prop
  | .control c => data.postData.get c.key = some (c.value page.controls dom)
  | .value id prop v => (data.controlValues.bind (·.get id)).bind (·.get prop) = some v

/-- The change is in the data of the request, which was built after it. -/
def Sent.Carries (page : Page) (r : Sent V) (n : ℕ) (c : Change V) : Prop :=
  n < r.changes ∧ FormChanges.Carries page r.dom r.data c

/-- The next request that is built has the change in its data, whatever the form shows then. -/
def NextPosts (page : Page) (s : Shim V) (c : Change V) : Prop :=
  ∀ dom, Carries page dom (s.ajaxData page dom) c

inductive Kept (page : Page) (s : Shim V) (n : ℕ) (c : Change V) : Prop where
  | pending (h : Pending s c)
  | inFlight {r : Sent V} (hr : r ∈ s.sent) (hs : r.ajaxID ∉ s.succeeded) (hf : r.ajaxID ∉ s.failed)
      (h : r.Carries page n c)
  | succeeded {r : Sent V} (hr : r ∈ s.sent) (hs : r.ajaxID ∈ s.succeeded) (h : r.Carries page n c)
  | next (h : NextPosts page s c)

def NoneLost (page : Page) (s : Shim V) : Prop := ∀ n c, Latest s.log n c → Kept page s n c

/-- A name under which a post can have the value of a control. -/
def Postable (name : String) : Prop := name ≠ "__proto__" ∧ name ≠ "Goradd__Params"

instance (name : String) : Decidable (Postable name) := inferInstanceAs (Decidable (_ ∧ _))

/-- The control is one of those that are posted, and the form has nothing else under its name than
the radio buttons of its group. -/
structure HasField (page : Page) (c : Control) : Prop where
  control : c ∈ page.controls
  postable : Postable c.key
  group : ∀ c' ∈ page.controls, c'.key = c.key → c' = c ∨ c'.type = .radio ∧ c.type = .radio

/-- A control that every post has, whether it has changed or not. -/
def AlwaysPosted (page : Page) (c : Control) : Prop :=
  page.inputSupport = false ∨ c.id ∈ inherited ∨ c.grPost = true ∨ c.blnForm = true

/-- What is changed has a field, or a property, of its own in the data, the names of the radio
buttons that are posted are identifiers, and a request fails only when each change in its data was
replaced by a later one, or is that of a control that every post has. -/
def Careful (page : Page) (s : Shim V) : Action V → Prop
  | .formObjChanged c => HasField page c
  | .setControlValue id prop _ => id ∉ inherited ∧ prop ≠ "__proto__"
  | .send _ => ∀ c ∈ page.controls, c.type = .radio → s.posts page c = true →
      isIdentifier c.name = true
  | .error ajaxID => ∀ r ∈ s.sent, r.ajaxID = ajaxID → ∀ n c, Latest s.log n c →
      r.Carries page n c → ∃ control ∈ page.controls,
        c.key = .field control.key ∧ AlwaysPosted page control
  | _ => True

section Data

variable {page : Page} {dom : Dom} {s t : Shim V} {c c' : Control}

theorem get_assign (obj : GoMap String V) (key key' : String) (value : V) :
    (assign obj key value).get key' =
      if key' = key ∧ key ≠ "__proto__" then some value else obj.get key' := by
  unfold assign
  by_cases hkey : key = "__proto__"
  · rw [if_pos hkey, if_neg fun h => h.2 hkey]
  · rw [if_neg hkey, GoMap.get_set]
    simp [hkey]

/-- The fields of the data are those of the controls that are posted. -/
theorem get_postData {name : String} {v : PostValue} (hname : name ≠ "Goradd__Params")
    (hv : ∀ c ∈ page.controls, c.key = name →
      c.key ≠ "__proto__" ∧ c.value page.controls dom = v) :
    (s.ajaxData page dom).postData.get name =
      if ∃ c ∈ page.controls, c.key = name ∧ s.posts page c = true then some v else none := by
  have hfold : ∀ (controls : List Control) (postData : GoMap String PostValue),
      (∀ c ∈ controls, c.key = name → c.key ≠ "__proto__" ∧ c.value page.controls dom = v) →
      (controls.foldl (fun postData c => if s.posts page c then
          assign postData c.key (c.value page.controls dom) else postData) postData).get name =
        if ∃ c ∈ controls, c.key = name ∧ s.posts page c = true then some v
        else postData.get name := by
    intro controls
    induction controls with
    | nil => simp
    | cons c controls ih =>
      intro postData hv
      rw [List.foldl_cons, ih _ fun c' hc' => hv c' (List.mem_cons_of_mem c hc')]
      by_cases hrest : ∃ c' ∈ controls, c'.key = name ∧ s.posts page c' = true
      · obtain ⟨c', hc', h⟩ := hrest
        rw [if_pos ⟨c', hc', h⟩, if_pos ⟨c', List.mem_cons_of_mem c hc', h⟩]
      · rw [if_neg hrest]
        by_cases hc : c.key = name ∧ s.posts page c = true
        · obtain ⟨hproto, hvalue⟩ := hv c List.mem_cons_self hc.1
          rw [if_pos hc.2, get_assign, if_pos ⟨hc.1.symm, hproto⟩,
            if_pos ⟨c, List.mem_cons_self, hc⟩, hvalue]
        · have hnone : ¬∃ c' ∈ c :: controls, c'.key = name ∧ s.posts page c' = true := by
            simp only [List.mem_cons, or_and_right, exists_or, exists_eq_left]
            exact not_or.mpr ⟨hc, hrest⟩
          rw [if_neg hnone]
          split
          · rename_i hposts
            rw [get_assign, if_neg fun h => hc ⟨h.1.symm, hposts⟩]
          · rfl
  refine (GoMap.get_delete _ _ _).trans ?_
  rw [if_neg hname, hfold page.controls ∅ hv, GoMap.get_empty]

theorem value_eq (hkey : c'.key = c.key) (h : c' = c ∨ c'.type = .radio ∧ c.type = .radio) :
    c'.value page.controls dom = c.value page.controls dom := by
  rcases h with rfl | ⟨htype', htype⟩
  · rfl
  · have hname : c'.name = c.name := by simpa [Control.key, htype, htype'] using hkey
    simp only [Control.value, htype, htype', hname]

theorem HasField.get (hc : HasField page c) : (s.ajaxData page dom).postData.get c.key =
    if ∃ c' ∈ page.controls, c'.key = c.key ∧ s.posts page c' = true then
      some (c.value page.controls dom) else none :=
  get_postData hc.postable.2 fun c' hc' hkey =>
    ⟨hkey ▸ hc.postable.1, value_eq hkey (hc.group c' hc' hkey)⟩

theorem nextPosts_control (hc : HasField page c) : NextPosts page s (.control c) ↔
    ∃ c' ∈ page.controls, c'.key = c.key ∧ s.posts page c' = true := by
  constructor
  · intro h
    have hget := h ⟨fun _ => "", fun _ => false⟩
    rw [Carries, hc.get] at hget
    exact (Option.ite_none_right_eq_some.mp hget).1
  · intro h dom
    rw [Carries, hc.get, if_pos h]

theorem get_paramsControlValues (s : Shim V) (id prop : String) :
    (s.paramsControlValues.bind (·.get id)).bind (·.get prop) =
      (s.controlValues.get id).bind (·.get prop) := by
  unfold Shim.paramsControlValues
  split
  · rfl
  · rename_i hlen
    have hempty : s.controlValues = ∅ := by
      by_contra hne
      exact hlen (Nat.ne_of_gt (GoMap.len_pos_iff.mpr hne))
    rw [hempty, GoMap.get_empty]
    rfl

theorem nextPosts_value {id prop : String} {v : V} :
    NextPosts page s (.value id prop v) ↔ Pending s (.value id prop v) := by
  unfold NextPosts Carries Pending
  change (∀ _, (s.paramsControlValues.bind (·.get id)).bind (·.get prop) = some v) ↔ _
  rw [get_paramsControlValues]
  exact ⟨fun h => h ⟨fun _ => "", fun _ => false⟩, fun h _ => h⟩

private theorem get_made (m : GoMap String (GoMap String V)) (id k prop : String) :
    ((if m.has id then m else m.set id ∅).get k).bind (·.get prop) =
      (m.get k).bind (·.get prop) := by
  split
  · rfl
  · rename_i hhas
    have hnone : m.get id = none := by simpa [GoMap.has] using hhas
    rw [GoMap.get_set]
    split
    · rename_i hk
      rw [hk, hnone]
      exact GoMap.get_empty prop
    · rfl

theorem setControlValue_eq (s : Shim V) {id prop : String} (hid : id ∉ inherited)
    (hprop : prop ≠ "__proto__") (v : V) : ∃ controlValues,
      s.setControlValue id prop v = { s with controlValues, log := s.log ++ [.value id prop v] } ∧
        ∀ id' prop', (controlValues.get id').bind (·.get prop') =
          if id' = id ∧ prop' = prop then some v
          else (s.controlValues.get id').bind (·.get prop') := by
  refine ⟨_, if_neg hid, fun id' prop' => ?_⟩
  have hmade := fun k => get_made s.controlValues id k prop'
  generalize (if s.controlValues.has id then s.controlValues
    else s.controlValues.set id ∅) = made at hmade ⊢
  rw [GoMap.get_set, ← hmade id']
  by_cases hid' : id' = id
  · rw [if_pos hid', Option.bind_some, get_assign]
    by_cases hprop' : prop' = prop
    · rw [if_pos ⟨hprop', hprop⟩, if_pos ⟨hid', hprop'⟩]
    · rw [if_neg (fun h => hprop' h.1), if_neg (fun h => hprop' h.2), hid']
      cases made.get id with
      | none => exact GoMap.get_empty prop'
      | some props => rfl
  · rw [if_neg hid', if_neg (fun h => hid' h.1)]

theorem posts_of_pending (hid : c.id ≠ "") (h : c.id ∈ s.formObjsModified) :
    s.posts page c = true := by
  simp [Shim.posts, Shim.modified, hid, h]

theorem posts_of_always (h : AlwaysPosted page c) : s.posts page c = true := by
  rcases h with h | h | h | h
  · simp [Shim.posts, h]
  · have hid : c.id ≠ "" := fun hid => absurd (hid ▸ h) (by decide)
    simp [Shim.posts, Shim.modified, hid, h]
  · simp [Shim.posts, h]
  · simp [Shim.posts, h]

theorem posts_mono (hmodified : s.formObjsModified ⊆ t.formObjsModified)
    (herror : t.ajaxError = s.ajaxError) (h : s.posts page c = true) : t.posts page c = true := by
  have hsub := @hmodified c.id
  simp only [Shim.posts, Shim.modified, herror, Bool.or_eq_true, Bool.and_eq_true,
    decide_eq_true_eq] at h ⊢
  tauto

theorem displayAjaxError_eq (page : Page) (s : Shim V) : ∃ err blocked,
    s.displayAjaxError page = { s with windowAjaxError := err, windowBlockEvents := blocked } := by
  unfold Shim.displayAjaxError
  split
  · exact ⟨_, _, rfl⟩
  · exact ⟨_, _, rfl⟩

theorem nextPosts_of_pending {c : Change V} (h : Pending s c)
    (hform : ∀ control, c = .control control → HasField page control ∧ control.id ≠ "") :
    NextPosts page s c := by
  cases c with
  | control c =>
    obtain ⟨hc, hid⟩ := hform c rfl
    exact (nextPosts_control hc).mpr ⟨c, hc.control, rfl, posts_of_pending hid h⟩
  | value id prop v => exact nextPosts_value.mpr h

end Data

/-- Every recorded control has a field, failures are those of requests that have been sent, and no
change is lost. -/
structure Sound (page : Page) (s : Shim V) : Prop where
  ids : Identified s.queue
  failed : ∀ ajaxID ∈ s.failed, ajaxID ≤ s.queue.idCounter
  fields : ∀ c, Change.control c ∈ s.log → HasField page c ∧ c.id ≠ ""
  kept : NoneLost page s

section Steps

variable {page : Page} {s t : Shim V} {a : Action V}

theorem latest_concat {log : List (Change V)} {c c' : Change V} {n : ℕ}
    (h : Latest (log ++ [c]) n c') :
    (n = log.length ∧ c' = c) ∨ (Latest log n c' ∧ c.key ≠ c'.key) := by
  by_cases hn : n < log.length
  · refine .inr ⟨⟨?_, fun m c'' hm hc'' => h.last m c'' hm ?_⟩, h.last log.length c hn ?_⟩
    · rw [← h.recorded, List.getElem?_append_left hn]
    · rw [List.getElem?_append_left (List.getElem?_eq_some_iff.mp hc'').1, hc'']
    · simp
  · have hrecorded := h.recorded
    rw [List.getElem?_append_right (by omega), List.getElem?_singleton] at hrecorded
    split at hrecorded
    · cases hrecorded
      exact .inl ⟨by omega, rfl⟩
    · cases hrecorded

theorem Sound.field (hs : Sound page s) {n : ℕ} {c : Change V} (h : Latest s.log n c) :
    ∀ control, c = .control control → HasField page control ∧ control.id ≠ "" := by
  rintro control rfl
  exact hs.fields control (List.mem_of_getElem? h.recorded)

/-- What was kept is kept, as long as no record is cleared and no request fails. -/
theorem Kept.mono {n : ℕ} {c : Change V} (h : Kept page s n c)
    (hfield : ∀ control, c = .control control → HasField page control ∧ control.id ≠ "")
    (hsent : t.sent = s.sent) (hsucceeded : s.succeeded ⊆ t.succeeded)
    (hfailed : t.failed = s.failed) (hpending : Pending s c → Pending t c)
    (hmodified : s.formObjsModified ⊆ t.formObjsModified) (herror : t.ajaxError = s.ajaxError) :
    Kept page t n c := by
  cases h with
  | pending h => exact .pending (hpending h)
  | @inFlight r hr hs hf h =>
    by_cases hs' : r.ajaxID ∈ t.succeeded
    · exact .succeeded (hsent ▸ hr) hs' h
    · exact .inFlight (hsent ▸ hr) hs' (hfailed ▸ hf) h
  | succeeded hr hs h => exact .succeeded (hsent ▸ hr) (hsucceeded hs) h
  | next h =>
    cases c with
    | control c =>
      have hc := (hfield c rfl).1
      obtain ⟨c', hc', hkey, hposts⟩ := (nextPosts_control hc).mp h
      exact .next ((nextPosts_control hc).mpr ⟨c', hc', hkey, posts_mono hmodified herror hposts⟩)
    | value id prop v => exact .pending (hpending (nextPosts_value.mp h))

theorem Sound.of_records (hs : Sound page s) {n : ℕ} {c : Change V} (hlatest : Latest s.log n c)
    (hsent : t.sent = s.sent) (hsucceeded : s.succeeded ⊆ t.succeeded)
    (hfailed : t.failed = s.failed) (hmodified : t.formObjsModified = s.formObjsModified)
    (hvalues : t.controlValues = s.controlValues) (herror : t.ajaxError = s.ajaxError) :
    Kept page t n c := by
  refine (hs.kept n c hlatest).mono (hs.field hlatest) hsent hsucceeded hfailed (fun h => ?_)
    (Finset.Subset.antisymm_iff.mp hmodified).2 herror
  cases c with
  | control c =>
    change c.id ∈ t.formObjsModified
    rwa [hmodified]
  | value id prop v =>
    change (t.controlValues.get id).bind (·.get prop) = some v
    rwa [hvalues]

theorem Sound.formObjChanged (hs : Sound page s) {c : Control} (hc : HasField page c)
    (hid : c.id ≠ "") : Sound page (s.formObjChanged c) := by
  refine ⟨hs.ids, hs.failed, ?_, ?_⟩
  · intro c' hc'
    rcases List.mem_append.mp hc' with hc' | hc'
    · exact hs.fields c' hc'
    · cases List.mem_singleton.mp hc'
      exact ⟨hc, hid⟩
  · intro n c' hlatest
    rcases latest_concat hlatest with ⟨-, rfl⟩ | ⟨hlatest, -⟩
    · exact .pending (Finset.mem_insert_self _ _)
    · have hsubset : s.formObjsModified ⊆ (s.formObjChanged c).formObjsModified :=
        Finset.subset_insert _ _
      refine (hs.kept n c' hlatest).mono (hs.field hlatest) rfl (List.Subset.refl _) rfl
        (fun h => ?_) hsubset rfl
      cases c' with
      | control c' => exact hsubset h
      | value => exact h

theorem Sound.setControlValue (hs : Sound page s) {id prop : String} (hid : id ∉ inherited)
    (hprop : prop ≠ "__proto__") (v : V) : Sound page (s.setControlValue id prop v) := by
  obtain ⟨controlValues, heq, hget⟩ := setControlValue_eq s hid hprop v
  rw [heq]
  refine ⟨hs.ids, hs.failed, ?_, ?_⟩
  · intro c' hc'
    rcases List.mem_append.mp hc' with hc' | hc'
    · exact hs.fields c' hc'
    · cases List.mem_singleton.mp hc'
  · intro n c' hlatest
    rcases latest_concat hlatest with ⟨-, rfl⟩ | ⟨hlatest, hkey⟩
    · exact .pending ((hget id prop).trans (if_pos ⟨rfl, rfl⟩))
    · refine (hs.kept n c' hlatest).mono (hs.field hlatest) rfl (List.Subset.refl _) rfl
        (fun h => ?_) (Finset.Subset.refl _) rfl
      cases c' with
      | control c' => exact h
      | value id' prop' v' =>
        have hother : ¬(id' = id ∧ prop' = prop) := by
          rintro ⟨rfl, rfl⟩
          exact hkey rfl
        exact ((hget id' prop').trans (if_neg hother)).trans h

/-- What was pending, and what the next post would have, is in the request that is sent. -/
theorem Sound.send (hs : Sound page s) {dom : Dom} (h : s.send page dom = some t) :
    Sound page t := by
  obtain ⟨queue, hqueue, ht⟩ := Option.map_eq_some_iff.mp h
  have hstep : AjaxQueue.step s.queue .send = some queue := hqueue
  have hcount : queue.idCounter = s.queue.idCounter + 1 := idCounter_of_step hstep
  let built : Sent V := ⟨queue.idCounter, dom, s.ajaxData page dom, s.log.length⟩
  have hsent : t.sent = s.sent ++ [built] := by rw [← ht]
  have hsucceeded : t.succeeded = s.succeeded := by rw [← ht]; rfl
  have hfailed : t.failed = s.failed := by rw [← ht]; rfl
  have hlog : t.log = s.log := by rw [← ht]; rfl
  have htqueue : t.queue = queue := by rw [← ht]
  have hnew : built.ajaxID ∉ t.failed := by
    intro hmem
    have hle := hs.failed built.ajaxID (hfailed ▸ hmem)
    simp only [built] at hle
    omega
  refine ⟨htqueue ▸ hs.ids.step hstep, fun ajaxID hmem => ?_, hlog ▸ hs.fields,
    fun n c hlatest => ?_⟩
  · have hle := hs.failed ajaxID (hfailed ▸ hmem)
    rw [htqueue]
    omega
  rw [hlog] at hlatest
  have hn : n < s.log.length := (List.getElem?_eq_some_iff.mp hlatest.recorded).1
  have hmem : built ∈ t.sent := hsent ▸ List.mem_append_right _ (List.mem_singleton_self built)
  have hold : ∀ r ∈ s.sent, r ∈ t.sent := fun r hr => hsent ▸ List.mem_append_left _ hr
  have hbuilt : NextPosts page s c → Kept page t n c := by
    intro hnext
    by_cases hs' : built.ajaxID ∈ t.succeeded
    · exact .succeeded hmem hs' ⟨hn, hnext dom⟩
    · exact .inFlight hmem hs' hnew ⟨hn, hnext dom⟩
  cases hs.kept n c hlatest with
  | pending h => exact hbuilt (nextPosts_of_pending h (hs.field hlatest))
  | inFlight hr hs' hf' h => exact .inFlight (hold _ hr) (hsucceeded ▸ hs') (hfailed ▸ hf') h
  | succeeded hr hs' h => exact .succeeded (hold _ hr) (hsucceeded ▸ hs') h
  | next h => exact hbuilt h

theorem Sound.of_queue (hs : Sound page s) {a : AjaxQueue.Action} {queue : State}
    (h : AjaxQueue.step s.queue a = some queue) : Sound page { s with queue } := by
  refine ⟨hs.ids.step h, fun ajaxID hmem => ?_, hs.fields, fun n c hlatest => ?_⟩
  · have hle := hs.failed ajaxID hmem
    have hcount := idCounter_of_step h
    dsimp only
    split at hcount <;> omega
  · exact hs.of_records hlatest rfl (List.Subset.refl _) rfl rfl rfl rfl

theorem Sound.success (hs : Sound page s) {ajaxID : ℕ} (h : s.success ajaxID = some t) :
    Sound page t := by
  obtain ⟨queue, hqueue, rfl⟩ := Option.map_eq_some_iff.mp h
  have hq := hs.of_queue (a := .complete ajaxID) hqueue
  refine ⟨hq.ids, hq.failed, hq.fields, fun n c hlatest => ?_⟩
  exact hs.of_records hlatest rfl (List.subset_append_left _ _) rfl rfl rfl rfl

/-- What the failed request had is a control that the next post has again. -/
theorem Sound.error (hs : Sound page s) {ajaxID : ℕ} (h : s.error page ajaxID = some t)
    (hcareful : Careful page s (.error ajaxID)) : Sound page t := by
  obtain ⟨queue, hqueue, ht⟩ := Option.map_eq_some_iff.mp h
  obtain ⟨err, blocked, hdisplay⟩ :=
    displayAjaxError_eq page { s with queue, failed := s.failed ++ [ajaxID] }
  obtain rfl := hdisplay.symm.trans ht
  have hstep : AjaxQueue.step s.queue (.complete ajaxID) = some queue := hqueue
  have hcount : queue.idCounter = s.queue.idCounter := idCounter_of_step hstep
  refine ⟨hs.ids.step hstep, fun failedID hmem => ?_, hs.fields, fun n c hlatest => ?_⟩
  · change failedID ≤ queue.idCounter
    rw [hcount]
    rcases List.mem_append.mp hmem with hmem | hmem
    · exact hs.failed failedID hmem
    · obtain rfl := List.mem_singleton.mp hmem
      cases effect_of_step hstep with
      | complete _ hr => exact hs.ids.counted _ hr
  · cases hs.kept n c hlatest with
    | pending h => exact .pending (by cases c <;> exact h)
    | @inFlight r hr hs' hf' h =>
      by_cases hid : r.ajaxID = ajaxID
      · refine .next ?_
        obtain ⟨control, hcontrol, hkey, halways⟩ := hcareful r hr hid n c hlatest h
        cases c with
        | control c =>
          refine (nextPosts_control (hs.field hlatest c rfl).1).mpr ?_
          exact ⟨control, hcontrol, (Key.field.inj hkey).symm, posts_of_always halways⟩
        | value => cases hkey
      · refine .inFlight hr hs' (fun hmem => ?_) h
        rcases List.mem_append.mp hmem with hmem | hmem
        · exact hf' hmem
        · exact hid (List.mem_singleton.mp hmem)
    | succeeded hr hs' h => exact .succeeded hr hs' h
    | next h => exact .next h

theorem Sound.step (hs : Sound page s) (hcareful : Careful page s a)
    (h : step page s a = some t) : Sound page t := by
  cases a with
  | formObjChanged c =>
    obtain ⟨hid, heq⟩ := Option.ite_none_right_eq_some.mp h
    cases heq
    exact hs.formObjChanged hcareful hid
  | setControlValue id prop v =>
    cases h
    exact hs.setControlValue hcareful.1 hcareful.2 v
  | block on =>
    cases h
    refine ⟨hs.ids, hs.failed, hs.fields, fun n c hlatest => ?_⟩
    exact hs.of_records hlatest rfl (List.Subset.refl _) rfl rfl rfl rfl
  | postAjax async =>
    obtain rfl : s.postAjax async = t := Option.some.inj h
    unfold Shim.postAjax
    split
    · exact hs
    · exact hs.of_queue (a := .enqueue async) rfl
  | send dom => exact hs.send h
  | success ajaxID => exact hs.success h
  | error ajaxID => exact hs.error h hcareful
  | settle =>
    obtain ⟨queue, hqueue, rfl⟩ := Option.map_eq_some_iff.mp h
    exact hs.of_queue (a := .settle) hqueue
  | finish =>
    obtain ⟨queue, hqueue, rfl⟩ := Option.map_eq_some_iff.mp h
    exact hs.of_queue (a := .finish) hqueue

end Steps

end GoraddServe.FormChanges
