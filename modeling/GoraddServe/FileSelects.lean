import GoraddServe.PostedValues

/-!
# Files to upload

A `FileSelect` tells the server which files are chosen, whenever the control is posted. `upload`
makes the next reading of the widget return the files themselves.
-/
namespace GoraddServe.FileSelects
open LabelledRuns GoMaps FormChanges

/-- What a post tells of a file. -/
structure Info where
  lastModified : ℕ
  name : String
  size : ℕ
  type : String
  deriving DecidableEq

structure File extends Info where
  content : List UInt8
  deriving DecidableEq

/-- What `val` returns: a `FileList`, an array without elements, or the JSON text of an array. -/
inductive Value where
  | fileList (files : List File)
  | array
  | stringify (ret : List Info)
  deriving DecidableEq

/-- The state of the widget. `_files` is an array until files are chosen for the first time. -/
structure FileSelect where
  files : Option (List File)
  readyToUpload : Bool
  deriving DecidableEq

namespace FileSelect

variable (w : FileSelect)

def new : FileSelect := ⟨none, false⟩

def handleChange (files : List File) : FileSelect := { w with files := some files }

def val : Value × FileSelect :=
  if w.readyToUpload then
    (match w.files with
      | some files => .fileList files
      | none => .array, { w with readyToUpload := false })
  else (.stringify ((w.files.getD []).map File.toInfo), w)

def upload : FileSelect := { w with readyToUpload := true }

end FileSelect

/-- A property of the object `postData`. -/
inductive PostData where
  | control (v : PostValue)
  | fileSelect (v : Value)
  deriving DecidableEq

/-- A value of the `FormData`. -/
inductive Entry where
  | file (f : File)
  | stringify (ret : List Info)
  | text (v : PostValue)
  deriving DecidableEq

/-- What `_getAjaxData` appends for a property. -/
def PostData.entries : PostData → List Entry
  | .control v => [.text v]
  | .fileSelect (.fileList files) => files.map .file
  | .fileSelect .array => [.text (.val "")]
  | .fileSelect (.stringify ret) => [.stringify ret]

/-- The page, and which of its controls have a `FileSelect`. -/
structure Form where
  page : Page
  fileSelects : List Control

/-- The script and the widgets, and the data of the latest post. -/
structure State (V : Type*) where
  shim : Shim V
  widget : Control → FileSelect
  postData : GoMap String PostData

variable {V : Type*}

def init : State V := ⟨FormChanges.init, fun _ => .new, ∅⟩

/-- One round of the loop of `_getAjaxData`. -/
def getControl (form : Form) (shim : Shim V) (dom : Dom)
    (s : GoMap String PostData × (Control → FileSelect)) (c : Control) :
    GoMap String PostData × (Control → FileSelect) :=
  if shim.posts form.page c then
    if c.type = .other ∧ c ∈ form.fileSelects then
      (assign s.1 c.key (.fileSelect (s.2 c).val.1), Function.update s.2 c (s.2 c).val.2)
    else (assign s.1 c.key (.control (c.value form.page.controls dom)), s.2)
  else s

def getAjaxData (form : Form) (s : State V) (dom : Dom) :
    GoMap String PostData × (Control → FileSelect) :=
  let data := form.page.controls.foldl (getControl form s.shim dom) (∅, s.widget)
  (data.1.delete "Goradd__Params", data.2)

inductive Action (V : Type*) where
  | handleChange (c : Control) (files : List File)
  | upload (c : Control)
  /-- a response, or other code of the page, calls `val` -/
  | val (c : Control)
  | replace (c : Control)
  | send (dom : Dom)
  | other (a : FormChanges.Action V)

def step (form : Form) (s : State V) : Action V → Option (State V)
  | .handleChange c files =>
    if c ∈ form.page.controls ∧ c ∈ form.fileSelects then
      some { s with
        shim := s.shim.formObjChanged c
        widget := Function.update s.widget c ((s.widget c).handleChange files) }
    else none
  | .upload c =>
    if c ∈ form.page.controls ∧ c ∈ form.fileSelects then
      some { s with
        shim := s.shim.formObjChanged c
        widget := Function.update s.widget c (s.widget c).upload }
    else none
  | .val c => some { s with widget := Function.update s.widget c (s.widget c).val.2 }
  | .replace c => some { s with widget := Function.update s.widget c .new }
  | .send dom => (s.shim.send form.page dom).map fun shim =>
    let data := getAjaxData form s dom
    ⟨shim, data.2, data.1⟩
  | .other (.send _) => none
  | .other a => (FormChanges.step form.page s.shim a).map ({ s with shim := · })

def State.formData (s : State V) (k : String) : List Entry :=
  (s.postData.get k).elim [] PostData.entries

variable {form : Form} {s t : State V} {c : Control} {dom : Dom} {shim : Shim V}
  {hist : List (State V × Action V)} {a : FormChanges.Action V} {files : List File}

/-- The control is a file input with its widget, and not under the name of the parameters. -/
structure Selects (form : Form) (c : Control) : Prop where
  control : c ∈ form.page.controls
  id : c.id ≠ ""
  params : c.id ≠ "Goradd__Params"
  type : c.type = .other
  widget : c ∈ form.fileSelects

theorem FileSelect.snd_val (w : FileSelect) : w.val.2 = { w with readyToUpload := false } := by
  unfold val
  split
  · rfl
  · next h => rw [← Bool.not_eq_true _ |>.mp h]

/-- Reading the controls turns off the uploads of those that are posted. -/
theorem widget_getControls (hc : Selects form c) (controls : List Control)
    (d : GoMap String PostData × (Control → FileSelect)) :
    (controls.foldl (getControl form shim dom) d).2 c =
      if c ∈ controls ∧ shim.posts form.page c = true then (d.2 c).val.2 else d.2 c := by
  induction controls generalizing d with
  | nil => simp
  | cons c' controls ih =>
    rw [List.foldl_cons, ih]
    by_cases hcc : c' = c
    · subst hcc
      by_cases hposts : shim.posts form.page c' = true
      · simp [getControl, hposts, hc.type, hc.widget, FileSelect.snd_val]
      · simp [getControl, hposts]
    · have hsame : (getControl form shim dom d c').2 c = d.2 c := by
        unfold getControl
        split_ifs
        · exact Function.update_of_ne (Ne.symm hcc) _ _
        · rfl
        · rfl
      rw [hsame]
      simp [Ne.symm hcc]

theorem get_getControls {k : String} (controls : List Control)
    (hkey : ∀ c ∈ controls, c.key ≠ k) (d : GoMap String PostData × (Control → FileSelect)) :
    (controls.foldl (getControl form shim dom) d).1.get k = d.1.get k := by
  induction controls generalizing d with
  | nil => rfl
  | cons c controls ih =>
    rw [List.foldl_cons, ih fun c' hc' => hkey c' (List.mem_cons_of_mem c hc')]
    have hne : k ≠ c.key := (hkey c List.mem_cons_self).symm
    unfold getControl
    split_ifs
    · rw [get_assign, if_neg fun h => hne h.1]
    · rw [get_assign, if_neg fun h => hne h.1]
    · rfl

/-- What a post has under the name of a file input. -/
theorem get_getAjaxData (hnamed : PostedValues.WellNamed form.page)
    (hnodup : form.page.controls.Nodup) (hc : Selects form c) :
    (getAjaxData form s dom).1.get c.key =
      if s.shim.posts form.page c then some (.fileSelect (s.widget c).val.1) else none := by
  obtain ⟨before, after, hsplit⟩ := List.append_of_mem hc.control
  rw [hsplit, List.nodup_append, List.nodup_cons] at hnodup
  obtain ⟨-, ⟨hafter, -⟩, hbefore⟩ := hnodup
  have hkey : ∀ c' ∈ form.page.controls, c' ≠ c → c'.key ≠ c.key := by
    intro c' hc' hne heq
    obtain rfl | ⟨-, hradio⟩ := hnamed.group c' hc' c hc.control heq
    · exact hne rfl
    · rw [hc.type] at hradio
      cases hradio
  have hfirst : ∀ c' ∈ before, c' ≠ c := fun c' hc' => hbefore c' hc' c List.mem_cons_self
  have hlast : ∀ c' ∈ after, c' ≠ c := by
    rintro c' hc' rfl
    exact hafter hc'
  have hname : c.key = c.id := by simp [Control.key, hc.type]
  have hparams : c.key ≠ "Goradd__Params" := hname ▸ hc.params
  rw [getAjaxData]
  dsimp only
  rw [GoMap.get_delete, if_neg hparams, hsplit, List.foldl_append, List.foldl_cons,
    get_getControls after fun c' hc' => hkey c' (by simp [hsplit, hc']) (hlast c' hc')]
  have hwidget : (before.foldl (getControl form s.shim dom) (∅, s.widget)).2 c = s.widget c := by
    rw [widget_getControls hc, if_neg fun h => hfirst c h.1 rfl]
  have hget : (before.foldl (getControl form s.shim dom) (∅, s.widget)).1.get c.key = none := by
    rw [get_getControls before fun c' hc' => hkey c' (by simp [hsplit, hc']) (hfirst c' hc')]
    exact GoMap.get_empty _
  by_cases hposts : s.shim.posts form.page c = true
  · simp [getControl, hposts, hc.type, hc.widget, get_assign, hnamed.proto c hc.control, hwidget]
  · simp [getControl, hposts, hget]

def Chooses (c : Control) (files : List File) (e : State V × Action V) : Prop :=
  e.2 = .handleChange c files

def Keeps (c : Control) (e : State V × Action V) : Prop :=
  (∀ files, ¬Chooses c files e) ∧ e.2 ≠ .replace c

def Uploads (c : Control) (e : State V × Action V) : Prop := e.2 = .upload c

def Unread (c : Control) (e : State V × Action V) : Prop :=
  e.2 ≠ .val c ∧ e.2 ≠ .replace c ∧ ∀ dom, e.2 ≠ .send dom

/-- A control with an upload is in the next post. -/
def Marked (c : Control) (s : State V) : Prop :=
  (s.widget c).readyToUpload = true → c.id ∈ s.shim.formObjsModified

theorem step_other (h : step form s (.other a) = some t) : ∃ shim, t = { s with shim } ∧
    s.shim.formObjsModified ⊆ shim.formObjsModified := by
  by_cases ha : ∃ dom, a = .send dom
  · obtain ⟨dom, rfl⟩ := ha
    cases h
  · have ha : ∀ dom, a ≠ .send dom := not_exists.mp ha
    have heq : step form s (.other a) =
        (FormChanges.step form.page s.shim a).map ({ s with shim := · }) := by
      cases a with
      | send dom => exact absurd rfl (ha dom)
      | _ => rfl
    rw [heq] at h
    obtain ⟨shim, hshim, rfl⟩ := Option.map_eq_some_iff.mp h
    exact ⟨shim, rfl, PostedValues.formObjsModified_step ha hshim⟩

theorem step_send (h : step form s (.send dom) = some t) :
    t.postData = (getAjaxData form s dom).1 ∧ t.widget = (getAjaxData form s dom).2 ∧
      t.shim.formObjsModified = ∅ := by
  obtain ⟨shim, hshim, rfl⟩ := Option.map_eq_some_iff.mp h
  obtain ⟨queue, -, rfl⟩ := Option.map_eq_some_iff.mp hshim
  exact ⟨rfl, rfl, rfl⟩

def widgetAfter (form : Form) (s : State V) (c : Control) : Action V → FileSelect
  | .handleChange c' files => if c' = c then (s.widget c).handleChange files else s.widget c
  | .upload c' => if c' = c then (s.widget c).upload else s.widget c
  | .val c' => if c' = c then (s.widget c).val.2 else s.widget c
  | .replace c' => if c' = c then .new else s.widget c
  | .send _ => if s.shim.posts form.page c then (s.widget c).val.2 else s.widget c
  | .other _ => s.widget c

theorem widget_step {a : Action V} (hc : Selects form c) (h : step form s a = some t) :
    t.widget c = widgetAfter form s c a := by
  have hupdate : ∀ (c' : Control) (f : FileSelect → FileSelect),
      Function.update s.widget c' (f (s.widget c')) c =
        if c' = c then f (s.widget c) else s.widget c := by
    intro c' f
    split_ifs with hcc
    · subst hcc
      exact Function.update_self ..
    · exact Function.update_of_ne (Ne.symm hcc) ..
  cases a with
  | handleChange c' files =>
    obtain ⟨-, heq⟩ := Option.ite_none_right_eq_some.mp h
    cases heq
    exact hupdate c' (·.handleChange files)
  | upload c' =>
    obtain ⟨-, heq⟩ := Option.ite_none_right_eq_some.mp h
    cases heq
    exact hupdate c' (·.upload)
  | val c' =>
    cases h
    exact hupdate c' (·.val.2)
  | replace c' =>
    cases h
    exact hupdate c' fun _ => .new
  | send dom =>
    rw [(step_send h).2.1, getAjaxData, widget_getControls hc]
    simp [widgetAfter, hc.control]
  | other a =>
    obtain ⟨shim, rfl, -⟩ := step_other h
    rfl

theorem files_step {a : Action V} (hc : Selects form c) (h : step form s a = some t) :
    (t.widget c).files = some files ↔
      Chooses c files (s, a) ∨ Keeps c (s, a) ∧ (s.widget c).files = some files := by
  rw [widget_step hc h]
  unfold widgetAfter Keeps Chooses
  cases a with
  | handleChange c' files' => by_cases hcc : c' = c <;> simp [hcc, FileSelect.handleChange]
  | upload c' => by_cases hcc : c' = c <;> simp [hcc, FileSelect.upload]
  | val c' => by_cases hcc : c' = c <;> simp [hcc, FileSelect.snd_val]
  | replace c' => by_cases hcc : c' = c <;> simp [hcc, FileSelect.new]
  | send dom => by_cases hposts : s.shim.posts form.page c <;> simp [hposts, FileSelect.snd_val]
  | other a => simp

theorem ready_step {a : Action V} (hc : Selects form c) (hs : Marked c s)
    (h : step form s a = some t) : (t.widget c).readyToUpload = true ↔
      Uploads c (s, a) ∨ Unread c (s, a) ∧ (s.widget c).readyToUpload = true := by
  rw [widget_step hc h]
  unfold widgetAfter Uploads Unread
  cases a with
  | handleChange c' files' => by_cases hcc : c' = c <;> simp [hcc, FileSelect.handleChange]
  | upload c' => by_cases hcc : c' = c <;> simp [hcc, FileSelect.upload]
  | val c' => by_cases hcc : c' = c <;> simp [hcc, FileSelect.snd_val]
  | replace c' => by_cases hcc : c' = c <;> simp [hcc, FileSelect.new]
  | send dom =>
    by_cases hposts : s.shim.posts form.page c
    · simp [hposts, FileSelect.snd_val]
    · -- an upload would have made the control one that is posted
      have hready : (s.widget c).readyToUpload ≠ true := fun hready =>
        hposts (posts_of_pending hc.id (hs hready))
      simp [hposts, hready]
  | other a => simp

theorem Marked.step {a : Action V} (hc : Selects form c) (hs : Marked c s)
    (h : step form s a = some t) : Marked c t := by
  intro hready
  rcases (ready_step hc hs h).mp hready with hupload | ⟨hunread, hbefore⟩
  · obtain rfl : a = .upload c := hupload
    obtain ⟨-, heq⟩ := Option.ite_none_right_eq_some.mp h
    cases heq
    exact Finset.mem_insert_self _ _
  · cases a with
    | handleChange c' files' =>
      obtain ⟨-, heq⟩ := Option.ite_none_right_eq_some.mp h
      cases heq
      exact Finset.mem_insert_of_mem (hs hbefore)
    | upload c' =>
      obtain ⟨-, heq⟩ := Option.ite_none_right_eq_some.mp h
      cases heq
      exact Finset.mem_insert_of_mem (hs hbefore)
    | val c' =>
      cases h
      exact hs hbefore
    | replace c' =>
      cases h
      exact hs hbefore
    | send dom => exact absurd rfl (hunread.2.2 dom)
    | other a =>
      obtain ⟨shim, rfl, hmodified⟩ := step_other h
      exact hmodified (hs hbefore)

theorem marked_run (hc : Selects form c) (run : Run (step form) init hist s) : Marked c s := by
  refine run.invariant (I := Marked c) (fun _ _ _ hs h => hs.step hc h) ?_
  intro hready
  cases hready

theorem files_run (hc : Selects form c) (run : Run (step form) init hist s) :
    (s.widget c).files = some files ↔ Since (Chooses c files) (Keeps c) hist := by
  induction run with
  | start => simp [init, FileSelect.new, not_since_nil]
  | @next hist t u a run taken ih => rw [since_append, ← ih, files_step hc taken]

theorem ready_run (hc : Selects form c) (run : Run (step form) init hist s) :
    (s.widget c).readyToUpload = true ↔ Since (Uploads c) (Unread c) hist := by
  induction run with
  | start => simp [init, FileSelect.new, not_since_nil]
  | @next hist t u a run taken ih =>
    rw [since_append, ← ih, ready_step hc (marked_run hc run) taken]

theorem mem_entries_val (w : FileSelect) (f : File) :
    .file f ∈ (PostData.fileSelect w.val.1).entries ↔
      w.readyToUpload = true ∧ ∃ files, w.files = some files ∧ f ∈ files := by
  unfold FileSelect.val
  cases hready : w.readyToUpload with
  | false => simp [PostData.entries]
  | true =>
    cases hfiles : w.files with
    | none => simp [PostData.entries]
    | some files => simp [PostData.entries]

/-- A post has a file if and only if an upload was asked for, the widget has not been read since, by
a post or by other code, or replaced, and the file is one of those that were chosen last. -/
theorem uploaded_iff (hnamed : PostedValues.WellNamed form.page)
    (hnodup : form.page.controls.Nodup) (hc : Selects form c)
    (run : Run (step form) init hist s) (h : step form s (.send dom) = some t) (f : File) :
    .file f ∈ t.formData c.id ↔ Since (Uploads c) (Unread c) hist ∧
      ∃ files, Since (Chooses c files) (Keeps c) hist ∧ f ∈ files := by
  have hkey : c.key = c.id := by simp [Control.key, hc.type]
  have hmarked := marked_run hc run
  rw [← ready_run hc run, State.formData, (step_send h).1, ← hkey,
    get_getAjaxData hnamed hnodup hc]
  simp only [← files_run hc run]
  rw [← mem_entries_val]
  split_ifs with hposts
  · rfl
  · rw [mem_entries_val]
    refine iff_of_false (List.not_mem_nil) fun hready => ?_
    exact hposts (posts_of_pending hc.id (hmarked hready.1))

def photo : Control := ⟨"photo", .other, "", false⟩

def letter : Form := ⟨⟨[⟨"subject", .other, "", false⟩, photo], true, false⟩, [photo]⟩

def jpeg : File := ⟨⟨1000, "me.jpg", 3, "image/jpeg"⟩, [255, 216, 255]⟩

/-- The photo is chosen and uploaded, and a post is built. -/
theorem uploaded_iff_photo : ∃ (s t : State String) (dom : Dom),
    exec (step letter) init [.handleChange photo [jpeg], .upload photo, .other (.postAjax false)] =
      some s ∧
      step letter s (.send dom) = some t ∧ .file jpeg ∈ t.formData "photo" := by
  obtain ⟨s, hs⟩ : ∃ s : State String, exec (step letter) init
      [.handleChange photo [jpeg], .upload photo, .other (.postAjax false)] = some s := ⟨_, rfl⟩
  obtain ⟨t, ht⟩ : ∃ t, step letter s (.send ⟨Control.id, fun _ => false⟩) = some t := by
    cases hs
    exact ⟨_, rfl⟩
  have hc : Selects letter photo := ⟨by decide, by decide, by decide, rfl, by decide⟩
  refine ⟨s, t, _, hs, ht, ?_⟩
  refine (uploaded_iff (by decide) (by decide) hc (run_history hs) ht jpeg).mpr ?_
  refine ⟨⟨[_], _, [_], rfl, rfl, fun e he => ?_⟩, [jpeg], ⟨[], _, [_, _], rfl, rfl, ?_⟩, by simp⟩
  · obtain rfl := List.mem_singleton.mp he
    simp [Unread]
  · intro e he
    simp only [List.mem_cons, List.not_mem_nil, or_false] at he
    rcases he with rfl | rfl
    · simp [Keeps, Chooses]
    · simp [Keeps, Chooses]

end GoraddServe.FileSelects
