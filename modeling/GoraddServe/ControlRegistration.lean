import GoraddServe.ControlUpdates
import GoraddServe.WatchedControls

/-!
# Controls that are registered

When a response has put its html on the page, `_registerControls` goes through the controls of the
page: those that were there before, and those that are new. It listens to what changes them, and
notes which channels they watch.
-/
namespace GoraddServe.ControlRegistration
open GoMaps LabelledRuns Forests Forest ControlUpdates
open RefreshList (Shim addWatcher)
open WatchedControls (Watches watches_addWatcher)

/-- `_formObjChanged` is added to an event by `addEventListener`, or by jQuery. -/
inductive Listener where
  | event (name : String)
  | jQuery (name : String)
  deriving DecidableEq

/-- The page, whether it has jQuery, the elements that are marked with `gr-reg`, the calls that add
`_formObjChanged` to the listeners of an element and the variables of the script. -/
structure Window where
  page : Page
  jQuery : Bool
  registered : List Element
  listeners : List (ℕ × Listener)
  shim : Shim

/-- The page before `initForm`. -/
def init (p : Page) (jQuery : Bool) : Window := ⟨p, jQuery, [], [], RefreshList.init⟩

/-- The channels that `data-gr-watch` names. -/
def channels (watch : String) : List String :=
  (watch.toList.splitOn ';').map fun piece => String.ofList (piece.takeWhile (· ≠ '='))

/-- The channels of a control, unless the attribute reads as `true`, which has no `split`. -/
def watching (e : Element) : Option (List String) :=
  match e.watch with
  | none => some []
  | some watch =>
    if watch = "" ∨ watch = "true" then none
    else if watch = "false" then some []
    else some (channels watch)

def changes (jQuery : Bool) (e : Element) : List Listener :=
  (if e.type = "checkbox" ∨ e.type = "radio" then [.event "click"] else []) ++
    [.event "change", .event "input"] ++ (if jQuery then [.jQuery "change"] else [])

/-- `none` stands for an exception. -/
def registerControl (w : Window) (e : Element) : Option Window := do
  let watched ← watching e
  let shim ← watched.foldlM (fun s channel => addWatcher s e.id channel) w.shim
  let w := { w with shim }
  if w.registered.any (·.is e) ∨ e.tagName = "FORM" then return w
  return { w with
    registered := w.registered ++ [e]
    listeners := w.listeners ++ (changes w.jQuery e).map (e.key, ·) }

def registerControls (w : Window) : Option Window := do
  let w ← (w.page.forest.labels.filter (·.grctlhigh)).foldlM registerControl w
  (w.page.forest.labels.filter (·.grctl.isSome)).foldlM registerControl w

inductive Action where
  /-- one of the controls of a response -/
  | control (u : Update)
  | registerControls

def step (w : Window) : Action → Option Window
  | .control u => (update w.page u).map fun page => { w with page }
  | .registerControls => registerControls w

variable {w v : Window} {e a : Element} {id c : String}

/-- `_registerControls` finds the element. -/
def IsControl (e : Element) : Prop := e.grctlhigh = true ∨ e.grctl.isSome = true

instance (e : Element) : Decidable (IsControl e) := inferInstanceAs (Decidable (_ ∨ _))

theorem watches_foldlM {watched : List String} {s t : Shim} {id' : String}
    (h : watched.foldlM (fun s channel => addWatcher s id' channel) s = some t) :
    Watches t id c ↔ Watches s id c ∨ id = id' ∧ c ∈ watched := by
  induction watched generalizing s with
  | nil =>
    cases h
    simp
  | cons channel watched ih =>
    rw [List.foldlM_cons] at h
    obtain ⟨u, hu, h⟩ := Option.bind_eq_some_iff.mp h
    rw [ih h, watches_addWatcher hu, or_assoc, List.mem_cons]
    refine or_congr_right ?_
    rw [← and_or_left]

/-- The element is marked already, or it is never marked. -/
def Passed (w : Window) (e : Element) : Prop :=
  w.registered.any (·.is e) = true ∨ e.tagName = "FORM"

instance (w : Window) (e : Element) : Decidable (Passed w e) :=
  inferInstanceAs (Decidable (_ ∨ _))

theorem registerControl_eq_some (h : registerControl w e = some v) :
    ∃ watched, watching e = some watched ∧
      v.page = w.page ∧ v.jQuery = w.jQuery ∧
        watched.foldlM (fun s channel => addWatcher s e.id channel) w.shim = some v.shim ∧
          (Passed w e ∧ v.registered = w.registered ∧ v.listeners = w.listeners ∨
            ¬Passed w e ∧ v.registered = w.registered ++ [e] ∧
              v.listeners = w.listeners ++ (changes w.jQuery e).map (e.key, ·)) := by
  obtain ⟨watched, hwatched, h⟩ := Option.bind_eq_some_iff.mp h
  obtain ⟨shim, hshim, h⟩ := Option.bind_eq_some_iff.mp h
  refine ⟨watched, hwatched, ?_⟩
  dsimp only at h
  split at h
  · rename_i hpassed
    cases h
    exact ⟨rfl, rfl, hshim, .inl ⟨hpassed, rfl, rfl⟩⟩
  · rename_i hpassed
    cases h
    exact ⟨rfl, rfl, hshim, .inr ⟨hpassed, rfl, rfl⟩⟩

/-- Each element that is marked is listened to, and no other. -/
structure Listening (w : Window) : Prop where
  nodup : (w.registered.map Element.key).Nodup
  listeners : w.listeners = w.registered.flatMap fun e => (changes w.jQuery e).map (e.key, ·)
  control : ∀ e ∈ w.registered, IsControl e ∧ e.tagName ≠ "FORM"
  /-- an element on the page with the key of one that is marked is that element -/
  same : ∀ e ∈ w.registered, e.key < w.page.made ∧
    ∀ a ∈ w.page.forest.labels, a.key = e.key → a = e

theorem Listening.marked (hw : Listening w) (hfresh : Fresh w.page)
    (he : e ∈ w.page.forest.labels) (hcontrol : IsControl e) (h : registerControl w e = some v) :
    Listening v ∧ v.page = w.page ∧ v.jQuery = w.jQuery ∧ w.registered ⊆ v.registered ∧
      (e.tagName ≠ "FORM" → e ∈ v.registered) := by
  obtain ⟨-, -, hpage, hjQuery, -, hcases⟩ := registerControl_eq_some h
  obtain ⟨hpassed, hregistered, hlisteners⟩ | ⟨hpassed, hregistered, hlisteners⟩ := hcases
  · refine ⟨⟨?_, ?_, ?_, ?_⟩, hpage, hjQuery, ?_, fun hform => ?_⟩
    · exact hregistered ▸ hw.nodup
    · rw [hregistered, hlisteners, hjQuery]
      exact hw.listeners
    · exact hregistered ▸ hw.control
    · rw [hregistered, hpage]
      exact hw.same
    · rw [hregistered]
      exact List.Subset.refl _
    · obtain ⟨r, hr, heq⟩ := List.any_eq_true.mp (hpassed.resolve_right hform)
      have hsame := (hw.same r hr).2 e he (eq_of_beq heq)
      rw [hregistered, hsame]
      exact hr
  · have hnew : ¬w.registered.any (·.is e) = true ∧ e.tagName ≠ "FORM" := not_or.mp hpassed
    refine ⟨⟨?_, ?_, ?_, ?_⟩, hpage, hjQuery, ?_, fun _ => ?_⟩
    · rw [hregistered, List.map_append, List.nodup_append]
      refine ⟨hw.nodup, List.nodup_singleton _, fun k hk k' hk' heq => hnew.1 ?_⟩
      obtain ⟨r, hr, rfl⟩ := List.mem_map.mp hk
      obtain rfl := List.mem_singleton.mp hk'
      exact List.any_eq_true.mpr ⟨r, hr, beq_iff_eq.mpr heq.symm⟩
    · rw [hregistered, hlisteners, hjQuery, hw.listeners, List.flatMap_append,
        List.flatMap_singleton]
    · intro r hr
      rw [hregistered] at hr
      rcases List.mem_append.mp hr with hr | hr
      · exact hw.control r hr
      · obtain rfl := List.mem_singleton.mp hr
        exact ⟨hcontrol, hnew.2⟩
    · intro r hr
      rw [hpage]
      rw [hregistered] at hr
      rcases List.mem_append.mp hr with hr | hr
      · exact hw.same r hr
      · obtain rfl := List.mem_singleton.mp hr
        exact ⟨hfresh.made r he, fun a ha heq =>
          List.inj_on_of_nodup_map hfresh.nodup ha he heq⟩
    · rw [hregistered]
      exact List.subset_append_left _ _
    · rw [hregistered]
      exact List.mem_append_right _ (List.mem_singleton_self e)

def Names (e : Element) (c : String) : Prop := ∃ watched, watching e = some watched ∧ c ∈ watched

theorem watches_registerControl (h : registerControl w e = some v) :
    Watches v.shim id c ↔ Watches w.shim id c ∨ e.id = id ∧ Names e c := by
  obtain ⟨watched, hwatched, -, -, hshim, -⟩ := registerControl_eq_some h
  rw [watches_foldlM hshim, Names, hwatched]
  simp [eq_comm]

/-- What a loop over controls does. -/
structure Registers (w : Window) (l : List Element) (v : Window) : Prop where
  listening : Listening v
  page : v.page = w.page
  jQuery : v.jQuery = w.jQuery
  kept : w.registered ⊆ v.registered
  added : ∀ e ∈ l, e.tagName ≠ "FORM" → e ∈ v.registered
  watches : ∀ id c, Watches v.shim id c ↔
    Watches w.shim id c ∨ ∃ e ∈ l, e.id = id ∧ Names e c

theorem Listening.loop {l : List Element} (hw : Listening w) (hfresh : Fresh w.page)
    (hl : ∀ e ∈ l, e ∈ w.page.forest.labels ∧ IsControl e)
    (h : l.foldlM registerControl w = some v) : Registers w l v := by
  induction l generalizing w with
  | nil =>
    cases h
    exact ⟨hw, rfl, rfl, List.Subset.refl _, fun _ he => absurd he List.not_mem_nil, by simp⟩
  | cons e l ih =>
    rw [List.foldlM_cons] at h
    obtain ⟨u, hu, h⟩ := Option.bind_eq_some_iff.mp h
    obtain ⟨he, hcontrol⟩ := hl e List.mem_cons_self
    obtain ⟨hlistening, hpage, hjQuery, hkept, hadded⟩ := hw.marked hfresh he hcontrol hu
    have hrest := ih hlistening (hpage ▸ hfresh)
      (fun a ha => hpage ▸ hl a (List.mem_cons_of_mem e ha)) h
    refine ⟨hrest.listening, hrest.page.trans hpage, hrest.jQuery.trans hjQuery,
      List.Subset.trans hkept hrest.kept, fun a ha hform => ?_, fun id c => ?_⟩
    · rcases List.mem_cons.mp ha with rfl | ha
      · exact hrest.kept (hadded hform)
      · exact hrest.added a ha hform
    · rw [hrest.watches, watches_registerControl hu, or_assoc]
      simp

/-- Both loops together go through the controls of the page. -/
theorem Listening.loops (hw : Listening w) (hfresh : Fresh w.page)
    (h : registerControls w = some v) :
    Registers w (w.page.forest.labels.filter (decide <| IsControl ·)) v := by
  obtain ⟨u, hu, hv⟩ := Option.bind_eq_some_iff.mp h
  have hfirst := hw.loop hfresh (fun e he => by
    obtain ⟨hmem, hhigh⟩ := List.mem_filter.mp he
    exact ⟨hmem, .inl hhigh⟩) hu
  have hsecond := hfirst.listening.loop (hfirst.page ▸ hfresh) (fun e he => by
    obtain ⟨hmem, hctl⟩ := List.mem_filter.mp he
    exact ⟨hmem, .inr hctl⟩) hv
  have hmem : ∀ e, e ∈ w.page.forest.labels.filter (decide <| IsControl ·) ↔
      e ∈ w.page.forest.labels.filter (·.grctlhigh) ∨
        e ∈ u.page.forest.labels.filter (·.grctl.isSome) := by
    intro e
    rw [hfirst.page]
    simp only [List.mem_filter, decide_eq_true_eq]
    exact and_or_left
  refine ⟨hsecond.listening, hsecond.page.trans hfirst.page, hsecond.jQuery.trans hfirst.jQuery,
    List.Subset.trans hfirst.kept hsecond.kept, fun e he hform => ?_, fun id c => ?_⟩
  · rcases (hmem e).mp he with he | he
    · exact hsecond.kept (hfirst.added e he hform)
    · exact hsecond.added e he hform
  · rw [hsecond.watches, hfirst.watches, or_assoc]
    simp only [hmem, or_and_right, exists_or]

theorem Listening.update (hw : Listening w) (hfresh : Fresh w.page) {u : Update} {q : Page}
    (h : ControlUpdates.update w.page u = some q) : Listening { w with page := q } := by
  refine ⟨hw.nodup, hw.listeners, hw.control, fun e he => ?_⟩
  obtain ⟨hlt, hsame⟩ := hw.same e he
  rcases update_eq_some h with ⟨-, rfl⟩ | ⟨html, -, hnumbered, hmade, hreplace⟩
  · exact ⟨hlt, hsame⟩
  obtain ⟨before, after, hlabels, hprune⟩ :=
    labels_replaceHtml (hfresh.distinct hnumbered) hreplace
  have hstay : ∀ a ∈ before ++ after, a ∈ w.page.forest.labels := fun a ha =>
    (labels_prune_sublist _ _).subset (hprune ▸ ha)
  refine ⟨by dsimp only; omega, fun a ha heq => ?_⟩
  dsimp only at ha
  rw [hlabels, List.append_assoc] at ha
  rcases List.mem_append.mp ha with ha | ha
  · exact hsame a (hstay a (List.mem_append_left _ ha)) heq
  rcases List.mem_append.mp ha with ha | ha
  · -- an element of the html is newer than every one that is marked
    have hkey := List.mem_map_of_mem (f := Element.key) ha
    rw [hnumbered] at hkey
    have hle := (List.mem_range'_1.mp hkey).1
    omega
  · exact hsame a (hstay a (List.mem_append_right _ ha)) heq

section Runs

variable {p : Page} {jQuery : Bool} {hist : List (Window × Action)}

theorem listening_init (p : Page) (jQuery : Bool) : Listening (init p jQuery) :=
  ⟨List.nodup_nil, rfl, fun _ he => absurd he List.not_mem_nil,
    fun _ he => absurd he List.not_mem_nil⟩

theorem listening_run (hp : Fresh p) (run : Run step (init p jQuery) hist w) :
    Listening w ∧ Fresh w.page ∧ w.jQuery = jQuery := by
  refine run.invariant (I := fun w => Listening w ∧ Fresh w.page ∧ w.jQuery = jQuery)
    (fun w a v hw h => ?_) ⟨listening_init p jQuery, hp, rfl⟩
  obtain ⟨hlistening, hfresh, hjQuery⟩ := hw
  cases a with
  | control u =>
    obtain ⟨q, hq, rfl⟩ := Option.map_eq_some_iff.mp h
    exact ⟨hlistening.update hfresh hq, fresh_update hfresh hq, hjQuery⟩
  | registerControls =>
    have hregisters := hlistening.loops hfresh h
    exact ⟨hregisters.listening, hregisters.page ▸ hfresh, hregisters.jQuery.trans hjQuery⟩

theorem nodup_changes (jQuery : Bool) (e : Element) : (changes jQuery e).Nodup := by
  unfold changes
  cases jQuery <;> split <;> decide

/-- Each element that is marked has each of its listeners once. -/
theorem Listening.count (hw : Listening w) (ha : a ∈ w.page.forest.labels) (l : Listener) :
    w.listeners.count (a.key, l) =
      if a ∈ w.registered ∧ l ∈ changes w.jQuery a then 1 else 0 := by
  have hone : ∀ e, ((changes w.jQuery e).map (e.key, ·)).count (a.key, l) =
      if e.key = a.key ∧ l ∈ changes w.jQuery e then 1 else 0 := by
    intro e
    have hnodup : ((changes w.jQuery e).map (e.key, ·)).Nodup :=
      (nodup_changes w.jQuery e).map fun _ _ h => (Prod.mk.inj h).2
    rw [hnodup.count]
    refine if_congr ?_ rfl rfl
    simp only [List.mem_map, Prod.mk.injEq]
    constructor
    · rintro ⟨l', hl', hkey, rfl⟩
      exact ⟨hkey, hl'⟩
    · rintro ⟨hkey, hl⟩
      exact ⟨l, hl, hkey, rfl⟩
  have hsame := fun e he => (hw.same e he).2 a ha
  have hnodup := hw.nodup
  rw [hw.listeners]
  revert hsame hnodup
  generalize w.registered = registered
  intro hsame hnodup
  induction registered with
  | nil => simp
  | cons e registered ih =>
    rw [List.map_cons, List.nodup_cons] at hnodup
    rw [List.flatMap_cons, List.count_append, hone,
      ih (fun e he => hsame e (List.mem_cons_of_mem _ he)) hnodup.2]
    by_cases hkey : e.key = a.key
    · obtain rfl := hsame e List.mem_cons_self hkey.symm
      have hnot : a ∉ registered := fun h => hnodup.1 (List.mem_map_of_mem h)
      simp [hnot]
    · have hne : a ≠ e := fun h => hkey (h ▸ rfl)
      simp [hkey, hne]

/-- A control watches a channel if and only if, at some time when controls were registered, there
was a control with its id on the page that named the channel: that a control is gone, or drawn
without the channel, ends nothing. -/
theorem watches_iff (hp : Fresh p) (run : Run step (init p jQuery) hist w) (id c : String) :
    Watches w.shim id c ↔ ∃ e ∈ hist, e.2 = .registerControls ∧
      ∃ a ∈ e.1.page.forest.labels, IsControl a ∧ a.id = id ∧ Names a c := by
  induction run with
  | start => simp [Watches, init, RefreshList.init]
  | @next hist t v a run taken ih =>
    simp only [List.mem_append, List.mem_singleton, or_and_right, exists_or, exists_eq_left]
    rw [← ih]
    cases a with
    | control u =>
      obtain ⟨q, -, rfl⟩ := Option.map_eq_some_iff.mp taken
      simp
    | registerControls =>
      obtain ⟨ht, hfresh, -⟩ := listening_run hp run
      rw [(ht.loops hfresh taken).watches]
      simp only [List.mem_filter, decide_eq_true_eq, true_and, and_assoc]

end Runs

/-- A form with a list that watches the channel `news`. -/
def newsPage : Page where
  forest := .node { tagged 0 "FORM" "form" with grctl := some "form" }
    (.node { tagged 1 "DIV" "list" with watch := some "news=1" } .nil .nil) .nil
  made := 2

/-- The list is drawn again without the channel. -/
theorem watches_iff_news : ∃ w, exec step (init newsPage false)
    [.registerControls, .control ⟨"list", some (.node (tagged 2 "DIV" "list") .nil .nil)⟩,
      .registerControls] = some w ∧ Watches w.shim "list" "news" := by
  obtain ⟨w, hw⟩ : ∃ w, exec step (init newsPage false)
      [.registerControls, .control ⟨"list", some (.node (tagged 2 "DIV" "list") .nil .nil)⟩,
        .registerControls] = some w := Option.isSome_iff_exists.mp (by decide)
  refine ⟨w, hw, (watches_iff ⟨by decide, by decide⟩ (run_history hw) "list" "news").mpr ?_⟩
  refine ⟨(init newsPage false, .registerControls), List.mem_cons_self, rfl,
    { tagged 1 "DIV" "list" with watch := some "news=1" }, by decide, by decide, rfl,
    ["news"], by decide, by decide⟩

end GoraddServe.ControlRegistration
