import GoraddServe.LabelledRuns
import GoraddServe.SessionPersistence

/-!
# Requests of one session side by side

Each request loads its own copy of the session, and what it commits takes the place of all
that is stored. Between requests that overlap the last one to end wins. A request that no
overlapping one outlives keeps what it has done: those that load later start from it.
-/
namespace GoraddServe.SessionInterleaving
open GoMaps Panics LabelledRuns ResponseWriters SessionData SessionManager MemoryStore
open SessionPersistence

variable {World Ctx Expiry : Type} {mgr : ScsSessionManager World Ctx Expiry}
  {held : World → String → Option SessionMap} {token : Ctx → Option String}
  {Issued : World → String → Prop} {t : String}

inductive Phase (Ctx : Type) where
  | waiting
  | running (sess : Session Ctx)
  | completed

structure State (World Ctx : Type) where
  world : World
  request : ℕ → Phase Ctx

/-- What request `i` does next; `header` is what its handler has made of the header map. -/
inductive Action where
  | load (i : ℕ)
  | operate (i : ℕ) (op : SessionOp)
  | finish (i : ℕ) (header : Header)

namespace State

def setRequest (s : State World Ctx) (i : ℕ) (phase : Phase Ctx) : State World Ctx :=
  { s with request := Function.update s.request i phase }

@[simp] theorem setRequest_request (s : State World Ctx) (i j : ℕ) (phase : Phase Ctx) :
    (s.setRequest i phase).request j = if j = i then phase else s.request j :=
  Function.update_apply ..

/-- The session of a request whose handler has returned. -/
def closing (s : State World Ctx) (sess : Session Ctx) (header : Header) : Closing World Ctx :=
  ⟨s.world, sess.ctx, sess.data, header⟩

end State

/-- Requests under `Use` that all carry the token `t`. -/
def step (mgr : ScsSessionManager World Ctx Expiry) (t : String) (s : State World Ctx) :
    Action → Option (State World Ctx)
  | .load i =>
    match s.request i, openSession mgr s.world t with
    | .waiting, .ok sess => some (s.setRequest i (.running sess))
    | _, _ => none
  | .operate i op =>
    match s.request i with
    | .running sess => some (s.setRequest i (.running { sess with data := op.apply sess.data }))
    | _ => none
  | .finish i header =>
    match s.request i with
    | .running sess =>
      let c := (outcome (closeSession mgr) (s.closing sess header)).2
      some { s.setRequest i .completed with world := c.world }
    | _ => none

def Fresh (s : State World Ctx) : Prop := ∀ i, s.request i = .waiting

theorem load_spec (law : Lawful mgr held token Issued) {s u : State World Ctx} {i : ℕ}
    (h : step mgr t s (.load i) = some u) :
    s.request i = .waiting ∧ ∃ ctx,
      token ctx = (if (held s.world t).isSome then some t else none) ∧
        u = s.setRequest i (.running ⟨ctx, (held s.world t).getD ∅⟩) := by
  obtain ⟨ctx, hopen, htoken⟩ := open_spec law s.world t
  rw [step, hopen] at h
  cases hi : s.request i with
  | waiting =>
    rw [hi] at h
    exact ⟨rfl, ctx, htoken, (Option.some.inj h).symm⟩
  | running sess => simp [hi] at h
  | completed => simp [hi] at h

theorem operate_spec {s u : State World Ctx} {i : ℕ} {op : SessionOp}
    (h : step mgr t s (.operate i op) = some u) :
    ∃ sess, s.request i = .running sess ∧
      u = s.setRequest i (.running { sess with data := op.apply sess.data }) := by
  rw [step] at h
  cases hi : s.request i with
  | running sess =>
    rw [hi] at h
    exact ⟨sess, rfl, (Option.some.inj h).symm⟩
  | waiting => simp [hi] at h
  | completed => simp [hi] at h

theorem finish_spec (law : Lawful mgr held token Issued) {s u : State World Ctx} {i : ℕ}
    {header : Header} (h : step mgr t s (.finish i header) = some u) :
    ∃ sess c, s.request i = .running sess ∧
      outcome (closeSession mgr) (s.closing sess header) = (.ok ⟨⟩, c) ∧
        Closed mgr held token Issued (s.closing sess header) c ∧
          u = { s.setRequest i .completed with world := c.world } := by
  rw [step] at h
  cases hi : s.request i with
  | running sess =>
    obtain ⟨c, hclose, hclosed⟩ := close_spec law (s.closing sess header)
    rw [hi] at h
    simp only [hclose, Option.some.injEq] at h
    exact ⟨sess, c, rfl, hclose, hclosed, h.symm⟩
  | waiting => simp [hi] at h
  | completed => simp [hi] at h

variable {s s' : State World Ctx} {a : Action}

theorem world_step (law : Lawful mgr held token Issued) (h : step mgr t s a = some s') :
    s'.world = s.world ∨ ∃ i header sess c, a = .finish i header ∧ s.request i = .running sess ∧
      Closed mgr held token Issued (s.closing sess header) c ∧ s'.world = c.world := by
  cases a with
  | load i =>
    obtain ⟨-, ctx, -, rfl⟩ := load_spec law h
    exact .inl rfl
  | operate i op =>
    obtain ⟨sess, -, rfl⟩ := operate_spec h
    exact .inl rfl
  | finish i header =>
    obtain ⟨sess, c, hrun, -, hclosed, rfl⟩ := finish_spec law h
    exact .inr ⟨i, header, sess, c, rfl, hrun, hclosed, rfl⟩

/-- A request that is running has been running, has just loaded, or has just done an operation. -/
theorem running_step (law : Lawful mgr held token Issued) (h : step mgr t s a = some s') {j : ℕ}
    {sess' : Session Ctx} (hrun : s'.request j = .running sess') :
    s.request j = .running sess' ∨
      (sess'.data = (held s.world t).getD ∅ ∧
        token sess'.ctx = if (held s.world t).isSome then some t else none) ∨
      ∃ op sess, a = .operate j op ∧ s.request j = .running sess ∧
        sess' = { sess with data := op.apply sess.data } := by
  cases a with
  | load i =>
    obtain ⟨-, ctx, htoken, rfl⟩ := load_spec law h
    rw [State.setRequest_request] at hrun
    split at hrun
    · obtain rfl := Phase.running.inj hrun
      exact .inr (.inl ⟨rfl, htoken⟩)
    · exact .inl hrun
  | operate i op =>
    obtain ⟨sess, hsess, rfl⟩ := operate_spec h
    rw [State.setRequest_request] at hrun
    split at hrun
    · rename_i hij
      subst hij
      exact .inr (.inr ⟨op, sess, rfl, hsess, (Phase.running.inj hrun).symm⟩)
    · exact .inl hrun
  | finish i header =>
    obtain ⟨sess, c, -, -, -, rfl⟩ := finish_spec law h
    rw [State.setRequest_request] at hrun
    split at hrun
    · cases hrun
    · exact .inl hrun

theorem loaded_token {k : String}
    (h : (if (held s.world t).isSome then some t else none) = some k) :
    ∃ m, held s.world k = some m ∧ t = k := by
  split at h
  · rename_i hheld
    obtain rfl := Option.some.inj h
    obtain ⟨m, hm⟩ := Option.isSome_iff_exists.mp hheld
    exact ⟨m, hm, rfl⟩
  · cases h

variable (mgr t) in
theorem operates_run (ops : List SessionOp) {i : ℕ} {s : State World Ctx} {sess : Session Ctx}
    (hrun : s.request i = .running sess) :
    ∃ hist v, Run (step mgr t) s hist v ∧ hist.map Prod.snd = ops.map (.operate i) ∧
      v.world = s.world ∧
        v.request i = .running { sess with data := SessionOp.run ops sess.data } := by
  induction ops generalizing s sess with
  | nil => exact ⟨[], s, .start, rfl, rfl, hrun⟩
  | cons op ops ih =>
    have hstep : step mgr t s (.operate i op) =
        some (s.setRequest i (.running { sess with data := op.apply sess.data })) := by
      rw [step, hrun]
    have hnext : (s.setRequest i (.running { sess with data := op.apply sess.data })).request i =
        .running { sess with data := op.apply sess.data } := by simp
    obtain ⟨hist, v, hops, hlabels, hworld, hv⟩ := ih hnext
    exact ⟨(s, .operate i op) :: hist, v, (Run.one hstep).trans hops, by simp [hlabels], hworld, hv⟩

/-- What `Use` makes of a request that nothing interrupts is what its steps make of it. -/
theorem use_run (law : Lawful mgr held token Issued) {x : Exchange (SessionEnv World Ctx)}
    {w : Writer} {r : Request} {i : ℕ} {s : State World Ctx} (hworld : s.world = x.env.world)
    (hwait : s.request i = .waiting) (ht : (r.cookie mgr.cookieName).getD "" = t)
    {h : Handler (SessionEnv World Ctx)} {ops : List SessionOp} (hdoes : Does mgr h ops w r x) :
    ∃ y hist v header, outcome (use mgr h w r) x = (.ok ⟨⟩, y) ∧
      Run (step mgr t) s hist v ∧
      hist.map Prod.snd = .load i :: ops.map (.operate i) ++ [.finish i header] ∧
        v.world = y.env.world := by
  obtain ⟨y, ctx, header, c, huse, hopen, -, hclose, hy, -⟩ :=
    request_spec law hdoes ht
  have hload : step mgr t s (.load i) =
      some (s.setRequest i (.running ⟨ctx, (held x.env.world t).getD ∅⟩)) := by
    rw [step, hworld, hopen, hwait]
  have hloaded : (s.setRequest i (.running ⟨ctx, (held x.env.world t).getD ∅⟩)).request i =
      .running ⟨ctx, (held x.env.world t).getD ∅⟩ := by simp
  obtain ⟨hist, v, hops, hlabels, hv, hrun⟩ := operates_run mgr t ops hloaded
  have hclosing : v.closing ⟨ctx, SessionOp.run ops ((held x.env.world t).getD ∅)⟩ header =
      ⟨x.env.world, ctx, SessionOp.run ops ((held x.env.world t).getD ∅), header⟩ := by
    rw [State.closing, hv, ← hworld]
    rfl
  have hfinish : step mgr t v (.finish i header) =
      some { v.setRequest i .completed with world := c.world } := by
    rw [step, hrun]
    simp only [hclosing, hclose]
  refine ⟨y, _, _, header, huse, (Run.one hload).trans (hops.next hfinish), ?_, hy.symm⟩
  simp [hlabels]

variable {u : State World Ctx} {c : String} {P : SessionMap → Prop}

/-- Whatever is stored under the token `c` has the property `P`, and so has what the requests
make of it that had not loaded at `u`. -/
structure Carries (held : World → String → Option SessionMap) (token : Ctx → Option String)
    (Issued : World → String → Prop) (u : State World Ctx) (c : String) (P : SessionMap → Prop)
    (s : State World Ctx) : Prop where
  issued : Issued s.world c
  stored : ∀ m, held s.world c = some m → P m
  running : ∀ i sess, u.request i = .waiting → s.request i = .running sess →
    token sess.ctx = some c → P sess.data

/-- A request that ends here had not loaded at `u`. -/
def EndsLater (u : State World Ctx) (a : Action) : Prop :=
  ∀ i header, a = .finish i header → u.request i = .waiting

/-- The operations of the requests that had not loaded at `u` keep `P`. -/
def Respects (u : State World Ctx) (P : SessionMap → Prop) (a : Action) : Prop :=
  ∀ i op, a = .operate i op → u.request i = .waiting → ∀ m, P m → P (op.apply m)

theorem Carries.step (law : Lawful mgr held token Issued)
    (hP : ∀ m, P m → P (m.delete sessionResetKey)) (h : Carries held token Issued u c P s)
    (hends : EndsLater u a) (hops : Respects u P a) (hstep : step mgr t s a = some s') :
    Carries held token Issued u c P s' := by
  have hrunning : ∀ j sess', u.request j = .waiting → s'.request j = .running sess' →
      token sess'.ctx = some c → P sess'.data := by
    intro j sess' hj hrun htoken
    rcases running_step law hstep hrun with hbefore | ⟨hdata, hloaded⟩ | ⟨op, sess, rfl, hsess, rfl⟩
    · exact h.running j sess' hj hbefore htoken
    · obtain ⟨m, hm, rfl⟩ := loaded_token (hloaded.symm.trans htoken)
      simpa [hdata, hm] using h.stored m hm
    · exact hops j op rfl hj _ (h.running j sess hj hsess htoken)
  rcases world_step law hstep with hworld | ⟨i, header, sess, d, rfl, hsess, hclosed, hworld⟩
  · exact ⟨hworld ▸ h.issued, hworld ▸ h.stored, hrunning⟩
  · refine ⟨hworld ▸ hclosed.issued c h.issued, fun m hm => ?_, hrunning⟩
    rw [hworld] at hm
    rcases hclosed.held_cases c with hreset | ⟨hleft, ⟨htoken, -⟩ | hfresh⟩
    · rcases heldAfterReset_cases held token (s.closing sess header) c with ⟨hnone, -⟩ | hsame
      · cases hnone.symm.trans (hreset.symm.trans hm)
      · exact h.stored m (hsame.symm.trans (hreset.symm.trans hm))
    · obtain rfl := Option.some.inj (hleft.symm.trans hm)
      exact hP _ (h.running i sess (hends i header rfl) hsess htoken)
    · exact absurd h.issued hfresh

theorem Carries.finished (R : ℕ) {world : World} (hissued : Issued world c)
    (hstored : ∀ m, held world c = some m → P m) :
    Carries held token Issued u c P { u.setRequest R .completed with world } := by
  refine ⟨hissued, hstored, fun i sess' hi hrun _ => ?_⟩
  rw [State.setRequest_request, hi] at hrun
  split at hrun <;> cases hrun

theorem Carries.run (law : Lawful mgr held token Issued)
    (hP : ∀ m, P m → P (m.delete sessionResetKey)) {hist : List (State World Ctx × Action)}
    (hrun : Run (SessionInterleaving.step mgr t) s hist s') (hends : ∀ e ∈ hist, EndsLater u e.2)
    (hops : ∀ e ∈ hist, Respects u P e.2) (h : Carries held token Issued u c P s) :
    Carries held token Issued u c P s' :=
  hrun.invariant_of (C := fun _ a => EndsLater u a ∧ Respects u P a)
    (fun _ _ _ h hC hstep => h.step law hP hC.1 hC.2 hstep)
    (fun e he => ⟨hends e he, hops e he⟩) h

def TokensIssued (token : Ctx → Option String) (Issued : World → String → Prop)
    (s : State World Ctx) : Prop :=
  ∀ i sess k, s.request i = .running sess → token sess.ctx = some k → Issued s.world k

theorem TokensIssued.step (law : Lawful mgr held token Issued) (h : TokensIssued token Issued s)
    (hstep : step mgr t s a = some s') : TokensIssued token Issued s' := by
  have hissued : ∀ k, Issued s.world k → Issued s'.world k := by
    intro k hk
    rcases world_step law hstep with hworld | ⟨i, header, sess, d, rfl, -, hclosed, hworld⟩
    · rwa [hworld]
    · exact hworld ▸ hclosed.issued k hk
  intro j sess' k hrun htoken
  refine hissued k ?_
  rcases running_step law hstep hrun with hbefore | ⟨-, hloaded⟩ | ⟨op, sess, rfl, hsess, rfl⟩
  · exact h j sess' k hbefore htoken
  · obtain ⟨m, hm, -⟩ := loaded_token (hloaded.symm.trans htoken)
    exact law.issued s.world k (by simp [hm])
  · exact h j sess k hsess htoken

theorem clean_step (law : Lawful mgr held token Issued) (h : Clean held s.world)
    (hstep : step mgr t s a = some s') : Clean held s'.world := by
  rcases world_step law hstep with hworld | ⟨i, header, sess, d, rfl, -, hclosed, hworld⟩
  · rwa [hworld]
  · exact hworld ▸ hclosed.clean h

theorem clean_run (law : Lawful mgr held token Issued) {hist : List (State World Ctx × Action)}
    (hrun : Run (step mgr t) s hist s') (h : Clean held s.world) : Clean held s'.world :=
  hrun.invariant (I := fun s => Clean held s.world) (fun _ _ _ h hstep => clean_step law h hstep) h

/-- A request of the session `c` that ends here asks for no new token and leaves something. -/
def KeepsToken (token : Ctx → Option String) (c : String) (s : State World Ctx) (a : Action) :
    Prop :=
  ∀ i header sess, a = .finish i header → s.request i = .running sess → token sess.ctx = some c →
    sess.data.has sessionResetKey ≠ true ∧ sess.data.delete sessionResetKey ≠ ∅

theorem held_step (law : Lawful mgr held token Issued) (hkeeps : KeepsToken token c s a)
    (h : held s.world c ≠ none) (hstep : step mgr t s a = some s') : held s'.world c ≠ none := by
  rcases world_step law hstep with hworld | ⟨i, header, sess, d, rfl, hsess, hclosed, hworld⟩
  · rwa [hworld]
  · rw [hworld]
    exact hclosed.keeps (fun hflag htoken => (hkeeps i header sess rfl hsess htoken).1 hflag) h

/-- What a request has made of a key is kept, in the session of the token `c`, by the steps
`post` that come after it and lead to `v`. -/
structure Kept (held : World → String → Option SessionMap) (token : Ctx → Option String)
    (post : List (State World Ctx × Action)) (v : State World Ctx) (c k : String)
    (value : Option Value) : Prop where
  stored : ∀ m, held v.world c = some m → m.get k = value
  present : (∀ e ∈ post, KeepsToken token c e.1 e.2) → held v.world c ≠ none
  /-- a request that ends later has the value too, whatever token it gives the session -/
  passed : ∀ e ∈ post, ∀ i header sess, e.2 = .finish i header → e.1.request i = .running sess →
    token sess.ctx = some c → sess.data.get k = value

theorem delete_keeps_get {k : String} {value : Option Value} (hk : k ≠ sessionResetKey)
    (m : SessionMap) (hm : m.get k = value) : (m.delete sessionResetKey).get k = value := by
  rw [GoMap.get_delete, if_neg hk, hm]

/-- A value that is stored is kept by later requests that do not touch its key. -/
theorem Carries.kept (law : Lawful mgr held token Issued) {post : List (State World Ctx × Action)}
    {v : State World Ctx} {k : String} {value : Option Value} (hk : k ≠ sessionResetKey)
    (h : Carries held token Issued u c (fun m => m.get k = value) s)
    (hheld : held s.world c ≠ none) (hpost : Run (SessionInterleaving.step mgr t) s post v)
    (hends : ∀ e ∈ post, EndsLater u e.2)
    (honly : ∀ e ∈ post, ∀ i op, e.2 = .operate i op → u.request i = .waiting → ¬op.Touches k) :
    Kept held token post v c k value := by
  have hops : ∀ e ∈ post, Respects u (fun m => m.get k = value) e.2 := by
    intro e he i op hop hi m hm
    rw [SessionOp.get_apply, SessionOp.effect_of_not_touches (honly e he i op hop hi), hm]
  refine ⟨(h.run law (delete_keeps_get hk) hpost hends hops).stored, fun hkeeps => ?_, ?_⟩
  · exact hpost.invariant_of (I := fun s => held s.world c ≠ none)
      (fun _ _ _ h hkeeps hstep => held_step law hkeeps h hstep) hkeeps hheld
  · intro e he i header sess hfin hrun htoken
    obtain ⟨head, s', hpre, hrun', -⟩ := hpost.at_mem he
    have hmem : ∀ e' ∈ head, e' ∈ post := fun e' he' => hpre.subset (List.mem_append_left _ he')
    have hhead := h.run law (delete_keeps_get hk) hrun' (fun e' he' => hends e' (hmem e' he'))
      fun e' he' => hops e' (hmem e' he')
    exact hhead.running i sess (hends e he i header hfin) hrun htoken

section Finished

variable {R : ℕ} {world : World} {sess : Session Ctx} {k : String} {v : State World Ctx}
  {post : List (State World Ctx × Action)}

theorem kept_of_finished (law : Lawful mgr held token Issued) (hk : k ≠ sessionResetKey)
    (hR : u.request R = .running sess)
    (hstored : held world c = some (sess.data.delete sessionResetKey))
    (hpost : Run (step mgr t) { u.setRequest R .completed with world } post v)
    (hends : ∀ e ∈ post, EndsLater u e.2)
    (honly : ∀ e ∈ post, ∀ i op, e.2 = .operate i op → op.Touches k → i = R) :
    Kept held token post v c k (sess.data.get k) := by
  have hcarries : Carries held token Issued u c (fun m => m.get k = sess.data.get k)
      { u.setRequest R .completed with world } := by
    refine .finished R (law.issued _ _ (by simp [hstored])) fun m hm => ?_
    obtain rfl := Option.some.inj (hstored.symm.trans hm)
    exact delete_keeps_get hk sess.data rfl
  refine hcarries.kept law hk (by simp [hstored]) hpost hends fun e he i op hop hi htouch => ?_
  rw [honly e he i op hop htouch, hR] at hi
  cases hi

theorem gone_of_finished (law : Lawful mgr held token Issued) (hissued : Issued world c)
    (hgone : held world c = none)
    (hpost : Run (step mgr t) { u.setRequest R .completed with world } post v)
    (hends : ∀ e ∈ post, EndsLater u e.2) : held v.world c = none := by
  have hcarries : Carries held token Issued u c (fun _ => False)
      { u.setRequest R .completed with world } :=
    .finished R hissued fun m hm => by cases hgone.symm.trans hm
  have hend := hcarries.run law (fun _ => id) hpost hends fun e he i op hop hi m => id
  exact Option.eq_none_iff_forall_ne_some.mpr hend.stored

theorem issued_of_running (law : Lawful mgr held token Issued)
    {pre : List (State World Ctx × Action)} (hs : Fresh s) (hpre : Run (step mgr t) s pre u)
    (hR : u.request R = .running sess) (htoken : token sess.ctx = some c) : Issued u.world c := by
  refine hpre.invariant (I := TokensIssued token Issued) (fun _ _ _ h hstep => h.step law hstep) ?_
    R sess c hR htoken
  intro i sess' k hrun
  rw [hs i] at hrun
  cases hrun

end Finished

/-- If no request that overlaps the request `R` ends after it, then what `R` leaves under a key
that no other request touches is kept in the session that `R` answers with, and a token that
`R` retires stays retired. -/
theorem not_undone (law : Lawful mgr held token Issued) {pre post : List (State World Ctx × Action)}
    {s u u' v : State World Ctx} {R : ℕ} {header : Header} {sess : Session Ctx} (hs : Fresh s)
    (hpre : Run (step mgr t) s pre u) (hR : u.request R = .running sess)
    (hfinish : step mgr t u (.finish R header) = some u') (hpost : Run (step mgr t) u' post v)
    (hends : ∀ e ∈ post, EndsLater u e.2) :
    (sess.data.delete sessionResetKey ≠ ∅ →
      ∃ c expiry, (outcome (closeSession mgr) (u.closing sess header)).2.header =
          mgr.writeSessionCookie header c expiry ∧
        (token sess.ctx = some t → sess.data.has sessionResetKey ≠ true → c = t) ∧
        ∀ k, k ≠ sessionResetKey →
          (∀ e ∈ pre ++ (u, .finish R header) :: post, ∀ i op, e.2 = .operate i op →
            op.Touches k → i = R) →
          Kept held token post v c k (sess.data.get k)) ∧
    (sess.data.has sessionResetKey = true → token sess.ctx = some t → held v.world t = none) := by
  obtain ⟨sess', d, hR', hclose, hclosed, rfl⟩ := finish_spec law hfinish
  obtain rfl := Phase.running.inj (hR.symm.trans hR')
  constructor
  · intro hleft
    obtain ⟨c, expiry, hcommitted, hheld, hheader⟩ := hclosed.committed hleft
    have hsame : token sess.ctx = some t → sess.data.has sessionResetKey ≠ true → c = t := by
      intro htoken hflag
      rcases hcommitted with ⟨hc, -⟩ | ⟨hnone | hflagged, -⟩
      · exact Option.some.inj (hc.symm.trans htoken)
      · cases hnone.symm.trans htoken
      · exact absurd hflagged hflag
    refine ⟨c, expiry, by rw [hclose, hheader]; rfl, hsame, fun k hk honly => ?_⟩
    have hstored : held d.world c = some (sess.data.delete sessionResetKey) := by
      rw [hheld, if_pos rfl]
      rfl
    exact kept_of_finished law hk hR hstored hpost hends fun e he =>
      honly e (List.mem_append_right pre (List.mem_cons_of_mem (u, .finish R header) he))
  · intro hflag htoken
    have hissued := issued_of_running law hs hpre hR htoken
    exact gone_of_finished law (hclosed.issued t hissued) (hclosed.retired hissued hflag htoken)
      hpost hends

def idle : State Store Context := ⟨storedExchange.env.world, fun _ => .waiting⟩

/-- The second request loads before the first one ends, and ends after it. -/
def overlapping (op : SessionOp) : List Action :=
  [.load 0, .load 1, .operate 0 op, .finish 0 ∅, .finish 1 ∅]

/-- What one request sets is lost, and the token that one retires comes back, when another
that has done nothing ends later. -/
theorem overlapping_undoes :
    (∃ v, exec (step memoryManager "tok") idle (overlapping (.setInt "n" 1)) = some v ∧
      v.world.entries.get "tok" = some userStored ∧ userStored.get "n" = none) ∧
    (∃ u v, exec (step memoryManager "tok") idle ((overlapping .reset).take 4) = some u ∧
      u.world.entries.get "tok" = none ∧
        exec (step memoryManager "tok") idle (overlapping .reset) = some v ∧
          v.world.entries.get "tok" = some userStored) := by
  refine ⟨⟨_, rfl, ?_, ?_⟩, ⟨_, _, rfl, ?_, rfl, ?_⟩⟩
  all_goals decide

def resetting : List Action := [.load 0, .operate 0 .reset, .operate 0 (.setInt "n" 1)]

def following : List Action := [.load 1, .operate 1 (.setInt "m" 2), .finish 1 ∅]

theorem resetting_runs : (exec (step memoryManager "tok") idle resetting).isSome = true := rfl

theorem resetting_ends : (step memoryManager "tok" (final _ idle resetting resetting_runs)
    (.finish 0 ∅)).isSome = true := rfl

theorem following_runs : (exec (step memoryManager "tok")
    ((step _ _ (final _ idle resetting resetting_runs) _).get resetting_ends) following).isSome =
      true := rfl

/-- One request resets the session and sets a key, and the next one loads after it. -/
theorem not_undone_reset :
    (final _ _ following following_runs).world.entries.get "tok" = none ∧
      ∃ c, ∀ m, (final _ _ following following_runs).world.entries.get c = some m →
        m.get "n" = some (.int 1) := by
  obtain ⟨pre, before, hlabels⟩ := run_final resetting_runs
  obtain ⟨post, after, hlabels'⟩ := run_final following_runs
  have hpre : ∀ e ∈ pre, e.2 ∈ resetting := fun e he => hlabels ▸ List.mem_map_of_mem he
  have hpost : ∀ e ∈ post, e.2 ∈ following := fun e he => hlabels' ▸ List.mem_map_of_mem he
  simp only [resetting, following, List.mem_cons, List.not_mem_nil, or_false] at hpre hpost
  obtain ⟨sess, hR, hflag, htoken, hleft, hvalue⟩ :
      ∃ sess, (final _ idle resetting resetting_runs).request 0 = .running sess ∧
        sess.data.has sessionResetKey = true ∧ sess.ctx.token = some "tok" ∧
          sess.data.delete sessionResetKey ≠ ∅ ∧ sess.data.get "n" = some (.int 1) :=
    ⟨_, rfl, by decide, rfl, by decide, by decide⟩
  obtain ⟨hkept, hretired⟩ := not_undone lawful_memoryManager (fun _ => rfl) before hR
    (Option.some_get resetting_ends).symm after fun e he i header hfin => by
      rcases hpost e he with h | h | h
      all_goals rw [hfin] at h
      all_goals cases h
      rfl
  obtain ⟨c, expiry, -, -, hkey⟩ := hkept hleft
  refine ⟨hretired hflag htoken, c, fun m hm => ?_⟩
  rw [← hvalue]
  refine (hkey "n" (by decide) fun e he i op hop htouch => ?_).stored m hm
  rcases List.mem_append.mp he with he | he
  · rcases hpre e he with h | h | h
    all_goals rw [hop] at h
    all_goals cases h
    all_goals rfl
  · rcases List.mem_cons.mp he with rfl | he
    · cases hop
    · rcases hpost e he with h | h | h
      all_goals rw [hop] at h
      all_goals cases h
      simp [SessionOp.setInt, SessionOp.Touches] at htouch

end GoraddServe.SessionInterleaving
