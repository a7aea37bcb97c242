import GoraddServe.HubDelivery
import GoraddServe.PageMessages

/-!
# From the hub to the page

The hub with the goroutines of its clients, and the page at the end of one connection. The
page's requests for channels reach the `readPump` of the connection in the order in which they
were sent, and what its `writePump` has written reaches the page frame by frame.
-/
namespace GoraddServe.PageDelivery
open BufferedChannels GoMaps MessageHub LabelledRuns HubLoop HubIndex ClientPumps HubDelivery
  PageMessages

/-- `taken` counts the frames that the page has got. -/
structure World (F : Type) where
  system : System
  page : Page F
  taken : ℕ

inductive Action (F : Type) where
  | server (a : ClientPumps.Action)
  | page (a : PageMessages.Action F)

/-- The longest message that `readPump` reads, in bytes. -/
def maxMessageSize : ℕ := 512

variable {F : Type} {x : ClientPtr} {size : List String → ℕ}

/-- A frame that the page gets is the next one of its connection. -/
def Incoming (x : ClientPtr) (w : World F) (b : PageMessages.Action F) : Prop :=
  ∀ frame ∈ frameOf b, (w.system.written x)[w.taken]? = some frame

instance (x : ClientPtr) (w : World F) (b : PageMessages.Action F) : Decidable (Incoming x w b) :=
  inferInstanceAs (Decidable (∀ frame ∈ frameOf b, _))

/-- What the page has left to send when the `readPump` of `x` reads, if it can read the message;
`size` is the length of a request for channels. -/
def outgoing (size : List String → ℕ) (x : ClientPtr) (w : World F) :
    ClientPumps.Action → Option (List (List String))
  | .read p msg =>
    if p = x then
      match w.page.outgoing with
      | [] => none
      | names :: rest =>
        if msg.subscribe = names ∧ msg.channel = "" ∧ size names ≤ maxMessageSize then some rest
        else none
    else some w.page.outgoing
  | _ => some w.page.outgoing

def step (size : List String → ℕ) (x : ClientPtr) (w : World F) : Action F → Option (World F)
  | .server a =>
    (outgoing size x w a).bind fun rest => (ClientPumps.step w.system a).map fun system =>
      { w with system, page := { w.page with outgoing := rest } }
  | .page a =>
    if Incoming x w a then
      (PageMessages.step w.page a).map fun page =>
        { w with page, taken := w.taken + (frameOf a).length }
    else none

def init (ids : ClientPtr → String) : World F := ⟨ClientPumps.init ids, Page.init, 0⟩

/-- The action of the server that a label has. -/
def serverAction : World F → Action F → Option ClientPumps.Action
  | _, .server a => some a
  | _, .page _ => none

def served (hist : List (World F × Action F)) : List (System × ClientPumps.Action) :=
  hist.filterMap fun e => (serverAction e.1 e.2).map (e.1.system, ·)

variable {w v : World F} {a : ClientPumps.Action} {b : PageMessages.Action F}

theorem step_server : step size x w (.server a) = some v ↔
    ∃ rest system, outgoing size x w a = some rest ∧ ClientPumps.step w.system a = some system ∧
      v = { w with system, page := { w.page with outgoing := rest } } := by
  simp only [step, Option.bind_eq_some_iff, Option.map_eq_some_iff]
  constructor
  · rintro ⟨rest, hrest, system, hsystem, rfl⟩
    exact ⟨rest, system, hrest, hsystem, rfl⟩
  · rintro ⟨rest, system, hrest, hsystem, rfl⟩
    exact ⟨rest, hrest, system, hsystem, rfl⟩

theorem step_page : step size x w (.page b) = some v ↔
    Incoming x w b ∧ ∃ page, PageMessages.step w.page b = some page ∧
      v = { w with page, taken := w.taken + (frameOf b).length } := by
  simp [step, eq_comm (a := v)]

theorem system_run {ids : ClientPtr → String} {hist : List (World F × Action F)}
    (run : Run (step size x) (init ids) hist w) :
    Run ClientPumps.step (ClientPumps.init ids) (served hist) w.system := by
  refine run.project World.system serverAction fun w a v h => ?_
  cases a with
  | server a =>
    obtain ⟨_, _, -, hstep, rfl⟩ := step_server.mp h
    exact hstep
  | page b =>
    obtain ⟨-, _, -, rfl⟩ := step_page.mp h
    rfl

/-- The channels that `readPump` still has to ask the hub for. -/
def pending : ReadPump → List String
  | .subscribing channel rest _ => channel :: rest
  | _ => []

/-- Every channel that the hub has for the connection, and every one on the way there, is known. -/
structure Asked (x : ClientPtr) (known : String → Prop) (w : World F) : Prop where
  hub : ∀ c ∈ (w.system.loop.hub.client x).channels, known c
  reader : ∀ c ∈ pending (w.system.reader x), known c
  outgoing : ∀ c ∈ w.page.outgoing.flatten, known c

/-- No other connection has the client ID of `x`. -/
def Alone (x : ClientPtr) (s : System) : Prop := ∀ q, s.clientID q = s.clientID x → q = x

theorem alone_step {s t : System} (hs : Alone x s) (h : ClientPumps.step s a = some t) :
    Alone x t := by
  intro q hq
  rw [ClientPumps.step_clientID h, ClientPumps.step_clientID h] at hq
  exact hs q hq

/-- A connection that is alone with its ID gets a channel only by its own `readPump`. -/
theorem channels_step {s t : System} (hi : Indexed s.loop.hub) (hs : Alone x s)
    (h : ClientPumps.step s a = some t) {c : String}
    (hc : c ∈ (t.loop.hub.client x).channels) :
    c ∈ (s.loop.hub.client x).channels ∨ c ∈ pending (s.reader x) := by
  have hloop := step_loop h
  cases a with
  | register p order =>
    obtain ⟨-, horder, ht⟩ := step_register.mp hloop
    rw [ht, WebSocketHub.register_eq, WebSocketHub.unregisterClient_client horder] at hc
    left
    dsimp only at hc
    split at hc
    · cases hc
    · exact hc
  | unregister p order =>
    obtain ⟨-, horder, ht⟩ := step_unregister.mp hloop
    rw [ht, WebSocketHub.unregisterClient_client horder] at hc
    left
    dsimp only at hc
    split at hc
    · cases hc
    · exact hc
  | subscribe p channel =>
    obtain ⟨-, ht⟩ := step_subscribe.mp hloop
    rw [ht, WebSocketHub.subscribeChannel_client] at hc
    dsimp only at hc
    split at hc
    · rename_i hentry
      rcases Finset.mem_insert.mp hc with rfl | hc
      · -- the entry of the ID of `p` is `x`, so `p` is `x`
        obtain rfl : p = x := hs p (hi.entry _ _ hentry).symm
        obtain ⟨rest, out, hreader, -⟩ := pump_subscribe.mp (step_eq_some.mp h).1
        rw [hreader]
        exact .inr List.mem_cons_self
      · exact .inl hc
    · exact .inl hc
  | send | forward | visit | deliver | leave | take | drain =>
    left
    rwa [(step_registry hloop (by simp) (by simp) (by simp)).2 x] at hc
  | read | readError | count | write | writeError | ping | pingError =>
    rw [show t.loop = s.loop from hloop] at hc
    exact .inl hc

theorem pending_handle (channels : List String) (out : Option ClientMessage) :
    pending (.handle channels out) = channels := by
  cases channels with
  | nil => cases out <;> rfl
  | cons channel rest => rfl

private theorem pending_update {s : System} {p : ClientPtr} {r : ReadPump}
    (hr : ∀ c ∈ pending r, c ∈ pending (s.reader p)) {c : String}
    (hc : c ∈ pending (Function.update s.reader p r x)) : c ∈ pending (s.reader x) := by
  by_cases hx : x = p
  · subst hx
    rw [Function.update_self] at hc
    exact hr c hc
  · rwa [Function.update_of_ne hx] at hc

private theorem pending_pump {s t : System} (h : pump s a = some t) {c : String}
    (hc : c ∈ pending (t.reader x)) :
    c ∈ pending (s.reader x) ∨ ∃ msg, a = .read x msg ∧ c ∈ msg.subscribe := by
  have hidle : ∀ {p r}, pending r = [] → c ∈ pending (Function.update s.reader p r x) →
      c ∈ pending (s.reader x) := fun hr => pending_update (by simp [hr])
  cases a with
  | register p order =>
    obtain ⟨-, rfl⟩ := pump_register.mp h
    exact .inl (hidle rfl hc)
  | unregister p order =>
    obtain ⟨-, rfl⟩ := pump_unregister.mp h
    exact .inl (hidle rfl hc)
  | forward p msg =>
    obtain ⟨-, rfl⟩ := pump_forward.mp h
    exact .inl (hidle rfl hc)
  | readError p =>
    obtain ⟨-, rfl⟩ := pump_readError.mp h
    exact .inl (hidle rfl hc)
  | subscribe p channel =>
    obtain ⟨rest, out, hp, rfl⟩ := pump_subscribe.mp h
    refine .inl (pending_update (fun c hc => ?_) hc)
    rw [pending_handle] at hc
    rw [hp]
    exact List.mem_cons_of_mem _ hc
  | read p msg =>
    obtain ⟨-, rfl⟩ := pump_read.mp h
    rw [setReader_reader] at hc
    by_cases hx : x = p
    · subst hx
      rw [Function.update_self, handleMessage, pending_handle] at hc
      exact .inr ⟨msg, rfl, hc⟩
    · rw [Function.update_of_ne hx] at hc
      exact .inl hc
  | send | visit | deliver | leave =>
    obtain rfl : s = t := Option.some.inj h
    exact .inl hc
  | take p =>
    obtain ⟨-, _, _, -, rfl⟩ := pump_take.mp h
    exact .inl hc
  | count p =>
    obtain ⟨_, -, rfl⟩ := pump_count.mp h
    exact .inl hc
  | drain p =>
    obtain ⟨_, _, _, _, -, -, rfl⟩ := pump_drain.mp h
    exact .inl hc
  | write p =>
    obtain ⟨_, -, rfl⟩ := pump_write.mp h
    exact .inl hc
  | writeError p =>
    obtain ⟨_, -, rfl⟩ := pump_writeError.mp h
    exact .inl hc
  | ping p =>
    obtain ⟨-, rfl⟩ := pump_ping.mp h
    exact .inl hc
  | pingError p =>
    obtain ⟨-, rfl⟩ := pump_pingError.mp h
    exact .inl hc

theorem pending_step {s t : System} (h : ClientPumps.step s a = some t) {c : String}
    (hc : c ∈ pending (t.reader x)) :
    c ∈ pending (s.reader x) ∨ ∃ msg, a = .read x msg ∧ c ∈ msg.subscribe :=
  pending_pump (step_eq_some.mp h).1 hc

/-- What the server reads is what the page has sent, if that is not too long; whatever else it
does leaves alone what is on its way. -/
theorem outgoing_eq_some {rest : List (List String)} (h : outgoing size x w a = some rest) :
    (∃ msg, a = .read x msg ∧ msg.subscribe :: rest = w.page.outgoing ∧
        size msg.subscribe ≤ maxMessageSize) ∨
      (∀ msg, a ≠ .read x msg) ∧ rest = w.page.outgoing := by
  unfold outgoing at h
  split at h
  · rename_i p msg
    split at h
    · rename_i hp
      subst hp
      split at h
      · cases h
      · rename_i names rest' heq
        obtain ⟨⟨hnames, -, hsize⟩, hrest⟩ := Option.ite_none_right_eq_some.mp h
        cases hrest
        exact .inl ⟨msg, rfl, by rw [heq, hnames], hnames.symm ▸ hsize⟩
    · rename_i hp
      cases h
      refine .inr ⟨fun msg' hmsg' => ?_, rfl⟩
      cases hmsg'
      exact hp rfl
  · rename_i hread
    cases h
    exact .inr ⟨fun msg => hread x msg, rfl⟩

variable {known known' : String → Prop}

theorem Asked.server (hw : Asked x known w) (hi : Indexed w.system.loop.hub)
    (hs : Alone x w.system) (h : step size x w (.server a) = some v) : Asked x known v := by
  obtain ⟨rest, system, hrest, hstep, rfl⟩ := step_server.mp h
  have hsent := outgoing_eq_some hrest
  refine ⟨fun c hc => ?_, fun c hc => ?_, fun c hc => hw.outgoing c ?_⟩
  · rcases channels_step hi hs hstep hc with hc | hc
    · exact hw.hub c hc
    · exact hw.reader c hc
  · rcases pending_step hstep hc with hc | ⟨msg, rfl, hc⟩
    · exact hw.reader c hc
    · rcases hsent with ⟨msg', ha, hread, -⟩ | ⟨hread, -⟩
      · cases ha
        refine hw.outgoing c ?_
        rw [← hread, List.flatten_cons]
        exact List.mem_append_left _ hc
      · exact absurd rfl (hread msg)
  · rcases hsent with ⟨msg, -, hread, -⟩ | ⟨-, rfl⟩
    · rw [← hread, List.flatten_cons]
      exact List.mem_append_right _ hc
    · exact hc

theorem Asked.page (hw : Asked x known w) (h : step size x w (.page b) = some v)
    (hkeep : ∀ c, known c → known' c) (hnew : ∀ c ∈ (requested w.page b).flatten, known' c) :
    Asked x known' v := by
  obtain ⟨-, page, hstep, rfl⟩ := step_page.mp h
  refine ⟨fun c hc => hkeep c (hw.hub c hc), fun c hc => hkeep c (hw.reader c hc), fun c hc => ?_⟩
  dsimp only at hc
  rw [outgoing_step hstep, List.flatten_append] at hc
  rcases List.mem_append.mp hc with hc | hc
  · exact hkeep c (hw.outgoing c hc)
  · exact hnew c hc

theorem asked_init (ids : ClientPtr → String) : Asked x known (init ids : World F) :=
  ⟨fun _ hc => absurd hc (Finset.notMem_empty _), fun _ hc => absurd hc List.not_mem_nil,
    fun _ hc => absurd hc List.not_mem_nil⟩

theorem channel_of_accepted (hi : Indexed w.system.loop.hub) {e : Event} {msg : ClientMessage}
    (hmsg : msg ∈ accepted w.system.loop.hub x e) :
    msg.channel ∈ (w.system.loop.hub.client x).channels := by
  cases e with
  | send sent =>
    change msg ∈ (if Entitled w.system.loop.hub x sent.channel then [sent] else []) at hmsg
    split at hmsg
    · rename_i hentitled
      obtain rfl := List.mem_singleton.mp hmsg
      obtain ⟨p, hp, hc⟩ := (hi.listed _ _).mp hentitled.2
      rw [hentitled.1] at hp
      cases hp
      exact hc
    · cases hmsg
  | _ => cases hmsg

/-- The page gives the function for the channel in some step of the run. -/
def Given (hist : List (World F × Action F)) (c : String) (f : Callback F) : Prop :=
  ∃ e ∈ hist, ∃ b names, e.2 = .page b ∧ assigned b = some (names, f) ∧ c ∈ names

/-- The page asks for the channel in some step of the run. -/
def AskedFor (hist : List (World F × Action F)) (c : String) : Prop := ∃ f, Given hist c f

theorem Given.concat {hist : List (World F × Action F)} {c : String} {f : Callback F}
    (h : Given hist c f) (e : World F × Action F) : Given (hist ++ [e]) c f := by
  obtain ⟨e', he', h⟩ := h
  exact ⟨e', List.mem_append_left _ he', h⟩

theorem AskedFor.concat {hist : List (World F × Action F)} {c : String} (h : AskedFor hist c)
    (e : World F × Action F) : AskedFor (hist ++ [e]) c := by
  obtain ⟨f, hf⟩ := h
  exact ⟨f, hf.concat e⟩

theorem askedFor_requested {hist : List (World F × Action F)} {c : String} (w : World F)
    (hc : c ∈ (requested w.page b).flatten) : AskedFor (hist ++ [(w, .page b)]) c := by
  unfold requested at hc
  cases hb : assigned b with
  | none => simp [hb] at hc
  | some s =>
    refine ⟨s.2, _, List.mem_append_right _ (List.mem_singleton_self _), b, s.1, rfl, hb, ?_⟩
    rw [hb] at hc
    dsimp only at hc
    split at hc
    · simp at hc
    · simpa using hc

section Runs

variable {ids : ClientPtr → String} {hist : List (World F × Action F)}

theorem alone_run (hids : ∀ q, ids q = ids x → q = x) (run : Run (step size x) (init ids) hist w) :
    Alone x w.system :=
  (system_run run).invariant (I := Alone x) (fun _ _ _ hs h => alone_step hs h) hids

theorem asked_run (hids : ∀ q, ids q = ids x → q = x) (run : Run (step size x) (init ids) hist w) :
    Asked x (AskedFor hist) w := by
  refine run.history_of (C := fun _ _ => True) (J := fun hist w => Asked x (AskedFor hist) w)
    (fun hist w a v run hw _ h => ?_) (fun _ _ => trivial) (asked_init ids)
  cases a with
  | server a =>
    have hv := hw.server (indexed_system (system_run run)) (alone_run hids run) h
    exact ⟨fun c hc => (hv.hub c hc).concat _, fun c hc => (hv.reader c hc).concat _,
      fun c hc => (hv.outgoing c hc).concat _⟩
  | page b => exact hw.page h (fun c hc => hc.concat _) fun c hc => askedFor_requested w hc

theorem served_server (w : World F) (a : ClientPumps.Action) :
    served (hist ++ [(w, .server a)]) = served hist ++ [(w.system, a)] := by
  simp [served, serverAction]

theorem served_page (w : World F) (b : PageMessages.Action F) :
    served (hist ++ [(w, .page b)]) = served hist := by
  simp [served, serverAction]

/-- A connection that is alone with its ID is only sent what its page has asked for. -/
theorem due_askedFor (hids : ∀ q, ids q = ids x → q = x) (run : Run (step size x) (init ids) hist w)
    {msg : ClientMessage} (hmsg : msg ∈ due x (served hist)) : AskedFor hist msg.channel := by
  revert hmsg
  refine run.history_of (C := fun _ _ => True)
    (J := fun hist _ => msg ∈ due x (served hist) → AskedFor hist msg.channel)
    (fun hist w a v run ih _ h hmsg => ?_) (fun _ _ => trivial)
    (fun hmsg => absurd hmsg List.not_mem_nil)
  cases a with
  | server a =>
    rw [served_server, due_concat] at hmsg
    rcases List.mem_append.mp hmsg with hmsg | hmsg
    · exact (ih hmsg).concat _
    · cases he : hubEvent w.system a with
      | none => simp [he] at hmsg
      | some e =>
        rw [he] at hmsg
        have hc := channel_of_accepted (indexed_system (system_run run)) hmsg
        exact ((asked_run hids run).hub _ hc).concat _
  | page b =>
    rw [served_page] at hmsg
    exact (ih hmsg).concat _

/-- What a connection is sent was watched on its page when it opened, or a script has asked for
it: a control that begins to watch a channel later hears of nothing that is not asked for. -/
theorem due_watched (hids : ∀ q, ids q = ids x → q = x) (run : Run (step size x) (init ids) hist w)
    {msg : ClientMessage} (hmsg : msg ∈ due x (served hist)) :
    (∃ e ∈ hist, ∃ order, e.2 = .page (.opened order) ∧
        e.1.page.shim.watchers.has msg.channel = true) ∨
      ∃ e ∈ hist, ∃ names f, e.2 = .page (.subscribe names f) ∧ msg.channel ∈ names := by
  obtain ⟨f, ⟨w', a⟩, he, b, names, rfl, hassigned, hmem⟩ := due_askedFor hids run hmsg
  cases b with
  | opened order =>
    cases hassigned
    refine .inl ⟨_, he, names, rfl, ?_⟩
    obtain ⟨_, _, -, -, hstep⟩ := run.at_mem he
    obtain ⟨-, _, hpage, -⟩ := step_page.mp hstep
    obtain ⟨⟨-, -, horder⟩, -⟩ := Option.ite_none_right_eq_some.mp hpage
    exact GoMap.mem_keys_iff.mp ((horder.mem_iff _).mp hmem)
  | subscribe names' f' =>
    cases hassigned
    exact .inr ⟨_, he, names, f', rfl, hmem⟩
  | _ => cases hassigned

end Runs

/-- The oldest request of an open page is too long to be read, and nothing was read before. -/
structure Unread (size : List String → ℕ) (x : ClientPtr) (w : World F) : Prop where
  hub : (w.system.loop.hub.client x).channels = ∅
  reader : pending (w.system.reader x) = []
  first : ∀ names rest, w.page.outgoing = names :: rest → maxMessageSize < size names
  opened : w.page.socket = .opened → w.page.outgoing ≠ []

/-- What the page asks for when its connection opens is too long. -/
def Oversized (size : List String → ℕ) : Action F → Prop
  | .page (.opened order) => maxMessageSize < size order
  | _ => True

theorem Unread.server (hw : Unread size x w) (hi : Indexed w.system.loop.hub)
    (hs : Alone x w.system) (h : step size x w (.server a) = some v) : Unread size x v := by
  obtain ⟨rest, system, hrest, hstep, rfl⟩ := step_server.mp h
  rcases outgoing_eq_some hrest with ⟨msg, -, hread, hsize⟩ | ⟨hread, rfl⟩
  · exact absurd (hw.first _ _ hread.symm) (Nat.not_lt.mpr hsize)
  refine ⟨Finset.eq_empty_of_forall_notMem fun c hc => ?_,
    List.eq_nil_iff_forall_not_mem.mpr fun c hc => ?_, hw.first, hw.opened⟩
  · rcases channels_step hi hs hstep hc with hc | hc
    · rw [hw.hub] at hc
      exact Finset.notMem_empty c hc
    · rw [hw.reader] at hc
      exact List.not_mem_nil hc
  · rcases pending_step hstep hc with hc | ⟨msg, ha, -⟩
    · rw [hw.reader] at hc
      exact List.not_mem_nil hc
    · exact hread msg ha

theorem Unread.page (hw : Unread size x w) (h : step size x w (.page b) = some v)
    (hsize : Oversized size (.page b)) : Unread size x v := by
  obtain ⟨-, page, hstep, rfl⟩ := step_page.mp h
  have houtgoing := outgoing_step hstep
  have hrequested : ∀ names rest, w.page.outgoing = [] → requested w.page b = names :: rest →
      maxMessageSize < size names := by
    intro names rest hnil hrest
    cases requested_cases hstep hrest with
    | inl hopened => exact absurd hnil (hw.opened hopened)
    | inr hb =>
      subst hb
      exact hsize
  refine ⟨hw.hub, hw.reader, fun names rest hrest => ?_, fun hopened => ?_⟩
  · rw [show page.outgoing = _ from houtgoing] at hrest
    cases hold : w.page.outgoing with
    | nil =>
      rw [hold] at hrest
      exact hrequested names rest hold hrest
    | cons names' rest' =>
      rw [hold] at hrest
      cases hrest
      exact hw.first names rest' hold
  · rw [show page.outgoing = _ from houtgoing]
    rcases opened_step hstep hopened with hold | ⟨order, rfl⟩
    · exact List.append_ne_nil_of_left_ne_nil (hw.opened hold) _
    · rw [requested_opened hstep]
      simp

theorem unread_init (ids : ClientPtr → String) : Unread size x (init ids : World F) :=
  ⟨rfl, rfl, fun _ _ h => absurd h (by simp [init, Page.init]),
    fun h => absurd h (by simp [init, Page.init])⟩

section Runs

variable {ids : ClientPtr → String} {hist : List (World F × Action F)}

/-- A page whose first request is too long hears of nothing at all. -/
theorem oversized_unheard (hids : ∀ q, ids q = ids x → q = x)
    (run : Run (step size x) (init ids) hist w) (hsize : ∀ e ∈ hist, Oversized size e.2) :
    due x (served hist) = [] := by
  refine (run.history_of (C := fun _ a => Oversized size a)
    (J := fun hist w => Unread size x w ∧ due x (served hist) = [])
    (fun hist w a v run hw ha h => ?_) hsize ⟨unread_init ids, rfl⟩).2
  obtain ⟨hw, hdue⟩ := hw
  have hi := indexed_system (system_run run)
  cases a with
  | server a =>
    refine ⟨hw.server hi (alone_run hids run) h, ?_⟩
    rw [served_server, due_concat, hdue, List.nil_append]
    cases he : hubEvent w.system a with
    | none => rfl
    | some e =>
      refine List.eq_nil_iff_forall_not_mem.mpr fun msg hmsg => ?_
      have hc := channel_of_accepted hi hmsg
      rw [hw.hub] at hc
      exact Finset.notMem_empty _ hc
  | page b => exact ⟨hw.page h ha, by rw [served_page, hdue]⟩

end Runs

private theorem written_pump {s t : System} (h : pump s a = some t) :
    s.written x <+: t.written x := by
  cases a with
  | register p order =>
    obtain ⟨-, rfl⟩ := pump_register.mp h
    exact List.prefix_rfl
  | unregister | subscribe | forward | read | readError | ping | send | visit | deliver | leave =>
    obtain ⟨reader, rfl⟩ := pump_readsOnly h rfl
    exact List.prefix_rfl
  | take p =>
    obtain ⟨-, _, _, -, rfl⟩ := pump_take.mp h
    exact List.prefix_rfl
  | count p =>
    obtain ⟨_, -, rfl⟩ := pump_count.mp h
    exact List.prefix_rfl
  | drain p =>
    obtain ⟨_, _, _, _, -, -, rfl⟩ := pump_drain.mp h
    exact List.prefix_rfl
  | write p =>
    obtain ⟨messages, -, rfl⟩ := pump_write.mp h
    by_cases hx : x = p
    · subst hx
      simp
    · simp [hx]
  | writeError p =>
    obtain ⟨_, -, rfl⟩ := pump_writeError.mp h
    exact List.prefix_rfl
  | pingError p =>
    obtain ⟨-, rfl⟩ := pump_pingError.mp h
    exact List.prefix_rfl

theorem written_step {s t : System} (h : ClientPumps.step s a = some t) :
    s.written x <+: t.written x := by
  have hwritten := written_pump (x := x) (step_eq_some.mp h).1
  exact hwritten

/-- The frames that are on their way to the page. -/
def inTransit (x : ClientPtr) (w : World F) : List (List ClientMessage) :=
  (w.system.written x).drop w.taken

/-- Every message for the connection, wherever it is, has a function on the page, and the page has
seen the messages of the frames that it has got. -/
structure Heard (x : ClientPtr) (w : World F) : Prop where
  asked : Asked x (fun c => w.page.channels.has c = true) w
  heard : ∀ msg ∈ sentOut w.system x ++ (queued w.system.loop x ++ owed w.system.loop x),
    w.page.channels.has msg.channel = true
  seen : w.page.seen = ((w.system.written x).take w.taken).flatten
  taken : w.taken ≤ (w.system.written x).length

/-- The connection works, it is not closed, and no function of the page throws. -/
def Works (x : ClientPtr) (a : Action F) : Prop :=
  a ≠ .server (.writeError x) ∧ a ≠ .page .thrown ∧ a ≠ .page .closed

theorem Heard.rest (hw : Heard x w) {msg : ClientMessage} (hmsg : msg ∈ w.page.turn.rest) :
    w.page.channels.has msg.channel = true := by
  refine hw.heard msg (List.mem_append_left _ (List.mem_append_left _ ?_))
  have hseen : msg ∈ w.page.seen := List.mem_append_right _ hmsg
  rw [hw.seen] at hseen
  obtain ⟨frame, hframe, hmsg⟩ := List.mem_flatten.mp hseen
  exact List.mem_flatten.mpr ⟨frame, List.mem_of_mem_take hframe, hmsg⟩

theorem Heard.server {ids : ClientPtr → String} {hist : List (System × ClientPumps.Action)}
    (hw : Heard x w) (run : Run ClientPumps.step (ClientPumps.init ids) hist w.system)
    (hs : Alone x w.system) (h : step size x w (.server a) = some v) (hok : a ≠ .writeError x) :
    Heard x v := by
  have hi := indexed_system run
  have hasked := hw.asked.server hi hs h
  obtain ⟨rest, system, -, hstep, rfl⟩ := step_server.mp h
  obtain ⟨later, hlater⟩ := written_step (x := x) hstep
  have haccounts := system_accounts hi (sendsToEntry_run (run_loop run)) (unstarted_run run) hstep
    hok
  refine ⟨hasked, fun msg hmsg => ?_, ?_, ?_⟩
  · rw [haccounts] at hmsg
    rcases List.mem_append.mp hmsg with hmsg | hmsg
    · exact hw.heard msg hmsg
    · cases he : hubEvent w.system a with
      | none => simp [he] at hmsg
      | some e =>
        rw [he] at hmsg
        exact hw.asked.hub _ (channel_of_accepted hi hmsg)
  · dsimp only
    rw [← hlater, List.take_append_of_le_length hw.taken]
    exact hw.seen
  · dsimp only
    rw [← hlater, List.length_append]
    exact Nat.le_add_right_of_le hw.taken

theorem Heard.page (hw : Heard x w) (h : step size x w (.page b) = some v) (hthrown : b ≠ .thrown)
    (hclosed : b ≠ .closed) : Heard x v := by
  obtain ⟨hincoming, page, hstep, rfl⟩ := step_page.mp h
  have hkeep : ∀ c, w.page.channels.has c = true → page.channels.has c = true :=
    fun c hc => has_step hstep hclosed hc
  refine ⟨hw.asked.page h hkeep fun c hc => has_requested hstep hclosed hc,
    fun msg hmsg => hkeep _ (hw.heard msg hmsg), ?_, ?_⟩
  · dsimp only
    rw [seen_step hstep hthrown fun msg hmsg => hw.rest hmsg, hw.seen]
    cases b with
    | message frame =>
      have hframe := hincoming frame (List.mem_singleton_self _)
      rw [frameOf, List.length_singleton, List.take_add_one, hframe]
      simp
    | _ => simp [frameOf]
  · cases b with
    | message frame =>
      obtain ⟨hlt, -⟩ := List.getElem?_eq_some_iff.mp (hincoming frame (List.mem_singleton_self _))
      exact hlt
    | _ => exact hw.taken

theorem heard_init (ids : ClientPtr → String) : Heard x (init ids : World F) :=
  ⟨asked_init ids, fun _ hmsg => absurd hmsg List.not_mem_nil, rfl, Nat.zero_le _⟩

section Delivery

variable {ids : ClientPtr → String} {hist : List (World F × Action F)}

theorem heard_run (hids : ∀ q, ids q = ids x → q = x) (run : Run (step size x) (init ids) hist w)
    (hworks : ∀ e ∈ hist, Works x e.2) : Heard x w := by
  refine run.history_of (C := fun _ a => Works x a) (J := fun _ w => Heard x w)
    (fun hist w a v run hw ha h => ?_) hworks (heard_init ids)
  cases a with
  | server a => exact hw.server (system_run run) (alone_run hids run) h fun ha' => ha.1 (ha' ▸ rfl)
  | page b => exact hw.page h (fun hb => ha.2.1 (hb ▸ rfl)) fun hb => ha.2.2 (hb ▸ rfl)

/-- The messages of the frame that the page is in, of the frames that are on their way, of the
array that `writePump` builds and of the queue. -/
def underWay (x : ClientPtr) (w : World F) : List ClientMessage :=
  w.page.turn.rest ++ (inTransit x w).flatten ++ (w.system.writer x).batch ++ w.system.queue x

theorem due_eq (hids : ∀ q, ids q = ids x → q = x)
    (run : Run (step size x) (init ids) hist w) (hworks : ∀ e ∈ hist, Works x e.2)
    (hselect : w.system.loop.phase = .select) :
    due x (served hist) = w.page.called.map Prod.snd ++ underWay x w := by
  have hok : ∀ e ∈ served hist, e.2 ≠ .writeError x := by
    intro e he
    obtain ⟨⟨w', a⟩, hmem, heq⟩ := List.mem_filterMap.mp he
    cases a with
    | server a =>
      obtain rfl := Option.some.inj heq
      exact fun ha => (hworks _ hmem).1 (congrArg Action.server ha)
    | page b => cases heq
  have haccounts := accounts_run (system_run run) hok
  have howed : owed w.system.loop x = [] := by rw [owed, hselect]
  rw [howed, List.append_nil] at haccounts
  rw [← haccounts, sentOut, ← List.take_append_drop w.taken (w.system.written x),
    List.flatten_append, ← (heard_run hids run hworks).seen]
  simp [underWay, Page.seen, inTransit, queued, System.queue]

/-- The functions of the page that are called for a message were given for its channel. -/
theorem given_of_called (run : Run (step size x) (init ids) hist w) {e : Callback F × ClientMessage}
    (he : e ∈ w.page.called) : Given hist e.2.channel e.1 := by
  have hgiven : (∀ c f, w.page.channels.get c = some f → Given hist c f) ∧
      ∀ e ∈ w.page.called, Given hist e.2.channel e.1 := by
    refine run.history_of (C := fun _ _ => True) (J := fun hist w =>
      (∀ c f, w.page.channels.get c = some f → Given hist c f) ∧
        ∀ e ∈ w.page.called, Given hist e.2.channel e.1) ?_ (fun _ _ => trivial) ?_
    · intro hist w a v _ ⟨hchannels, hcalled⟩ _ h
      cases a with
      | server a =>
        obtain ⟨_, _, -, -, rfl⟩ := step_server.mp h
        exact ⟨fun c f hf => (hchannels c f hf).concat _, fun e he => (hcalled e he).concat _⟩
      | page b =>
        obtain ⟨-, page, hstep, rfl⟩ := step_page.mp h
        refine ⟨fun c f hf => ?_, fun e he => ?_⟩
        · rcases get_step hstep hf with hf | ⟨names, hassigned, hc⟩
          · exact (hchannels c f hf).concat _
          · exact ⟨_, List.mem_append_right _ (List.mem_singleton_self _), b, names, rfl,
              hassigned, hc⟩
        · rcases called_step hstep he with he | hget
          · exact (hcalled e he).concat _
          · exact (hchannels _ _ hget).concat _
    · exact ⟨fun c f hf => absurd hf (by simp [init, Page.init]),
        fun e he => absurd he List.not_mem_nil⟩
  exact hgiven.2 e he

/-- Whenever the hub is at its `select`, the messages for which the page has called a function,
and then those under way, are the messages due to the connection, in the order of the hub; and
each was handed to a function that the page gave for its channel. -/
theorem called_in_order (hids : ∀ q, ids q = ids x → q = x)
    (run : Run (step size x) (init ids) hist w) (hworks : ∀ e ∈ hist, Works x e.2)
    (hselect : w.system.loop.phase = .select) :
    w.page.called.map Prod.snd ++ underWay x w = due x (served hist) ∧
      ∀ e ∈ w.page.called, Given hist e.2.channel e.1 :=
  ⟨(due_eq hids run hworks hselect).symm, fun _ he => given_of_called run he⟩

end Delivery

/-- Two controls watch channels, one of them when the connection is open already. A message comes
on either channel. -/
def newsForList : List (Action ℕ) :=
  [.page (.shim (.addWatcher "list" "news")), .page .initMessagingClient, .server (.register 0 []),
    .page (.opened ["news"]), .server (.read 0 ⟨["news"], "", ""⟩), .server (.subscribe 0 "news"),
    .page (.shim (.addWatcher "late" "sports")),
    .server (.send ⟨"news", "*"⟩), .server (.visit "id"), .server .deliver, .server .leave,
    .server (.send ⟨"sports", "*"⟩), .server (.take 0), .server (.count 0), .server (.write 0),
    .page (.message [⟨"news", "*"⟩]), .page (.dispatch ["list", "late"]), .page .handled]

/-- `{"subscribe":[...]}` with names that need no escapes. -/
def requestSize (names : List String) : ℕ :=
  16 + (names.length - 1) + names.foldl (fun size name => size + name.utf8ByteSize + 2) 0

def oneId (p : ClientPtr) : String := if p = 0 then "id" else "other"

theorem oneId_alone : ∀ q, oneId q = oneId 0 → q = 0 := by
  intro q hq
  unfold oneId at hq
  split at hq
  · assumption
  · simp at hq

theorem newsForList_runs :
    (exec (step requestSize 0) (init oneId) newsForList).isSome = true := by
  decide

/-- What happens in `newsForList`. -/
abbrev newsHistory : List (World ℕ × Action ℕ) :=
  history (step requestSize 0) (init oneId) newsForList

/-- Where `newsForList` ends. -/
abbrev newsEnd : World ℕ := final (step requestSize 0) (init oneId) newsForList newsForList_runs

theorem newsHistory_run : Run (step requestSize 0) (init oneId) newsHistory newsEnd :=
  run_history (Option.some_get newsForList_runs).symm

theorem newsHistory_mem {e : World ℕ × Action ℕ} (he : e ∈ newsHistory) :
    e.2 ∈ newsForList := by
  have hlabels := map_history (Option.some_get newsForList_runs).symm
  exact hlabels ▸ List.mem_map_of_mem he

theorem newsHistory_works : ∀ e ∈ newsHistory, Works 0 e.2 := by
  intro e he
  have hmem := newsHistory_mem he
  refine ⟨?_, ?_, ?_⟩ <;> rintro heq <;> simp [heq, newsForList] at hmem

theorem called_in_order_news : due 0 (served newsHistory) = [⟨"news", "*"⟩] := by
  have hdue := (called_in_order oneId_alone newsHistory_run newsHistory_works (by decide)).1
  exact hdue.symm.trans (by decide)

theorem due_watched_news : ∃ e ∈ newsHistory, ∃ order, e.2 = .page (.opened order) ∧
    e.1.page.shim.watchers.has "news" = true := by
  have hmsg : ⟨"news", "*"⟩ ∈ due 0 (served newsHistory) := by decide
  rcases due_watched oneId_alone newsHistory_run hmsg with hopened | ⟨e, he, names, f, heq, -⟩
  · exact hopened
  · have hmem := newsHistory_mem he
    simp [heq, newsForList] at hmem

/-- The name of a channel that is too long for the request. -/
def longName : String := String.ofList (List.replicate 500 'a')

/-- A control watches `longName` when the connection opens, and a script asks for another one. -/
def newsForNobody : List (Action ℕ) :=
  [.page (.shim (.addWatcher "list" longName)), .page .initMessagingClient,
    .server (.register 0 []), .page (.opened [longName]), .page (.subscribe ["news"] 0),
    .server (.readError 0), .server (.send ⟨"news", "*"⟩), .server (.send ⟨longName, "*"⟩)]

theorem newsForNobody_runs :
    (exec (step requestSize 0) (init oneId) newsForNobody).isSome = true := by
  decide +kernel

theorem oversized_unheard_longName :
    due 0 (served (history (step requestSize 0) (init oneId) newsForNobody)) = [] := by
  refine oversized_unheard oneId_alone
    (run_history (Option.some_get newsForNobody_runs).symm) fun e he => ?_
  have hmem : e.2 ∈ newsForNobody :=
    map_history (Option.some_get newsForNobody_runs).symm ▸ List.mem_map_of_mem he
  cases heq : e.2 with
  | server a => trivial
  | page b =>
    cases b with
    | opened order =>
      obtain rfl : order = [longName] := by simpa [heq, newsForNobody] using hmem
      have hsize : maxMessageSize < requestSize [longName] := by decide +kernel
      exact hsize
    | _ => trivial

end GoraddServe.PageDelivery
