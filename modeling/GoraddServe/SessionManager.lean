import GoraddServe.ResponseWriters
import GoraddServe.SessionData

/-!
# The session manager

`ScsManager` keeps the data of a session under one key of a session manager of scs. A
request gets its own copy of the data, and when the handler returns this copy is either
committed or, if nothing is left in it, cleared. What scs does is given by its laws: the
store holds at most one copy for each token, and only a commit and the retirement of a
token change it.
-/
namespace GoraddServe.SessionManager
open GoMaps Panics ResponseWriters SessionData

def scsSessionDataKey : String := "goradd.data"

/-- `*scs.SessionManager`. `World` is what all requests share, the store above all, and `Ctx`
is what a request holds of its session in its context. -/
structure ScsSessionManager (World Ctx Expiry : Type) where
  cookieName : String
  load : World → String → Except String Ctx
  get : Ctx → String → Option SessionMap
  put : Ctx → String → SessionMap → Ctx
  renewToken : World → Ctx → World × Except String Ctx
  commit : World → Ctx → World × Except String (String × Expiry)
  clear : Ctx → Except String Ctx
  writeSessionCookie : Header → String → Expiry → Header

variable {World Ctx Expiry : Type}

/-- What `Use` keeps for a request: the context of scs, and `sess.data`. -/
structure Session (Ctx : Type) where
  ctx : Ctx
  data : SessionMap

/-- What `Use` does before the handler. -/
def openSession (mgr : ScsSessionManager World Ctx Expiry) (world : World) (token : String) :
    Except PanicValue (Session Ctx) :=
  match mgr.load world token with
  | .error err => .error (.text ("error loading or unpacking session: " ++ err))
  | .ok ctx =>
    match mgr.get ctx scsSessionDataKey with
    | some data => .ok ⟨ctx, data⟩
    | none => .ok ⟨ctx, ∅⟩

/-- What `Use` works on after the handler. -/
structure Closing (World Ctx : Type) where
  world : World
  ctx : Ctx
  data : SessionMap
  header : Header

def renewSession (mgr : ScsSessionManager World Ctx Expiry) :
    GoM PanicValue (Closing World Ctx) Unit := do
  modify fun c => { c with data := c.data.delete sessionResetKey }
  let c ← get
  match mgr.renewToken c.world c.ctx with
  | (world, .ok ctx) => modify fun c => { c with world, ctx }
  | (world, .error err) =>
    modify fun c => { c with world }
    throw (.text ("Error renewing session token: %s" ++ err))

/-- The data that is left is committed, and the cookie written. -/
def storeSession (mgr : ScsSessionManager World Ctx Expiry) :
    GoM PanicValue (Closing World Ctx) Unit := do
  if 0 < (← get).data.len then
    modify fun c => { c with ctx := mgr.put c.ctx scsSessionDataKey c.data }
    let c ← get
    match mgr.commit c.world c.ctx with
    | (world, .ok (token2, expiry)) =>
      modify fun c =>
        { c with world, header := mgr.writeSessionCookie c.header token2 expiry }
    | (world, .error err) =>
      modify fun c => { c with world }
      throw (.text ("Error marshalling session data: " ++ err))
  else
    match mgr.clear (← get).ctx with
    | .ok ctx => modify fun c => { c with ctx }
    | .error err => throw (.text ("Error clearing session: " ++ err))

/-- What `Use` does after the handler. -/
def closeSession (mgr : ScsSessionManager World Ctx Expiry) :
    GoM PanicValue (Closing World Ctx) Unit := do
  if (← get).data.has sessionResetKey then
    renewSession mgr
  storeSession mgr

/-- The world, and the sessions of the requests in the order in which they were opened. -/
structure SessionEnv (World Ctx : Type) where
  world : World
  session : ℕ → Session Ctx
  sessions : ℕ

def Exchange.open (x : Exchange (SessionEnv World Ctx)) (sess : Session Ctx) :
    Exchange (SessionEnv World Ctx) :=
  { x with
    env.session := Function.update x.env.session x.env.sessions sess
    env.sessions := x.env.sessions + 1 }

/-- The session `q` when the handler has returned. -/
def Exchange.closing (x : Exchange (SessionEnv World Ctx)) (q : ℕ) : Closing World Ctx :=
  ⟨x.env.world, (x.env.session q).ctx, (x.env.session q).data, x.server.header⟩

/-- What `closeSession` makes of the session `q`. -/
def Exchange.close (x : Exchange (SessionEnv World Ctx)) (q : ℕ) (c : Closing World Ctx) :
    Exchange (SessionEnv World Ctx) :=
  { x with
    server.header := c.header
    env.world := c.world
    env.session := Function.update x.env.session q ⟨c.ctx, c.data⟩ }

def closeUse (mgr : ScsSessionManager World Ctx Expiry) (q : ℕ) :
    HandlerM (SessionEnv World Ctx) Unit := do
  let (result, c) := outcome (closeSession mgr) (Exchange.closing (← get) q)
  modify fun x => Exchange.close x q c
  match result with
  | .error p => throw p
  | .ok _ => return

def use (mgr : ScsSessionManager World Ctx Expiry) (next : Handler (SessionEnv World Ctx)) :
    Handler (SessionEnv World Ctx) := fun w r => do
  let token := (r.cookie mgr.cookieName).getD ""
  let x ← get
  match openSession mgr x.env.world token with
  | .error p => throw p
  | .ok sess => do
    modify fun x => Exchange.open x sess
    next w { r with session := some x.env.sessions }
    closeUse mgr x.env.sessions

/-- A handler's call of one of the session operations. -/
def perform (op : SessionOp) (r : Request) : HandlerM (SessionEnv World Ctx) Unit :=
  match r.session with
  | none => throw (.error "interface conversion: interface {} is nil, not *session.Session")
  | some q => modify fun x =>
    let sess := x.env.session q
    let sess := { sess with data := op.apply sess.data }
    { x with env.session := Function.update x.env.session q sess }

/-- The laws of scs. For a world, `held` is the data that the store holds for each token, decoded,
and `Issued` says which tokens have been given out; `token` is the token of a session, which
has none until it is first committed or renewed. -/
structure Lawful (mgr : ScsSessionManager World Ctx Expiry)
    (held : World → String → Option SessionMap) (token : Ctx → Option String)
    (Issued : World → String → Prop) : Prop where
  issued : ∀ w t, held w t ≠ none → Issued w t
  load : ∀ w t, ∃ c, mgr.load w t = .ok c ∧ mgr.get c scsSessionDataKey = held w t ∧
    token c = if (held w t).isSome then some t else none
  get_put : ∀ c data, mgr.get (mgr.put c scsSessionDataKey data) scsSessionDataKey = some data
  token_put : ∀ c data, token (mgr.put c scsSessionDataKey data) = token c
  /-- the current token is deleted from the store, and the session gets a new one -/
  renewToken : ∀ w c, ∃ w' c' t, mgr.renewToken w c = (w', .ok c') ∧ token c' = some t ∧
    ¬Issued w t ∧ (∀ k, Issued w k → Issued w' k) ∧
      ∀ k, held w' k = if token c = some k then none else held w k
  /-- the data is stored under the current token of the session, or a new one if it has none -/
  commit : ∀ w c, ∃ w' t expiry, mgr.commit w c = (w', .ok (t, expiry)) ∧
    (token c = some t ∨ token c = none ∧ ¬Issued w t) ∧ (∀ k, Issued w k → Issued w' k) ∧
      ∀ k, held w' k = if k = t then mgr.get c scsSessionDataKey else held w k
  clear : ∀ c, ∃ c', mgr.clear c = .ok c'
  cookie : ∀ header t expiry,
    (mgr.writeSessionCookie header t expiry).get "Set-Cookie" ≠ header.get "Set-Cookie"

variable {mgr : ScsSessionManager World Ctx Expiry} {held : World → String → Option SessionMap}
  {token : Ctx → Option String} {Issued : World → String → Prop} {t : String}

theorem open_spec (law : Lawful mgr held token Issued) (w : World) (t : String) :
    ∃ ctx, openSession mgr w t = .ok ⟨ctx, (held w t).getD ∅⟩ ∧
      token ctx = if (held w t).isSome then some t else none := by
  obtain ⟨c, hload, hget, htoken⟩ := law.load w t
  refine ⟨c, ?_, htoken⟩
  rw [openSession, hload]
  dsimp only
  rw [hget]
  cases held w t <;> rfl

def Flagged (c : Closing World Ctx) : Prop := c.data.has sessionResetKey = true

instance (c : Closing World Ctx) : Decidable (Flagged c) := inferInstanceAs (Decidable (_ = true))

def leftover (c : Closing World Ctx) : SessionMap := c.data.delete sessionResetKey

/-- What the store holds once the token of a session that asks for a new one is retired. -/
def heldAfterReset (held : World → String → Option SessionMap) (token : Ctx → Option String)
    (c : Closing World Ctx) (k : String) : Option SessionMap :=
  if c.data.has sessionResetKey = true ∧ token c.ctx = some k then none else held c.world k

theorem not_flagged {c : Closing World Ctx} (h : c.data.get sessionResetKey = none) :
    ¬Flagged c := by simp [Flagged, GoMap.has, h]

theorem leftover_of_not_flagged {c : Closing World Ctx} (h : ¬Flagged c) : leftover c = c.data :=
  GoMap.delete_of_not_has h

theorem heldAfterReset_of_not_flagged {c : Closing World Ctx} (h : ¬Flagged c) (k : String) :
    heldAfterReset held token c k = held c.world k := if_neg fun hk => h hk.1

/-- What `closeSession` makes of `c`. -/
structure Closed (mgr : ScsSessionManager World Ctx Expiry)
    (held : World → String → Option SessionMap) (token : Ctx → Option String)
    (Issued : World → String → Prop) (c c' : Closing World Ctx) : Prop where
  issued : ∀ k, Issued c.world k → Issued c'.world k
  /-- with nothing left the store gets nothing -/
  cleared : leftover c = ∅ →
    (∀ k, held c'.world k = heldAfterReset held token c k) ∧ c'.header = c.header
  /-- what is left is stored under the token of the session, or a new one after a reset -/
  committed : leftover c ≠ ∅ → ∃ t expiry,
    (token c.ctx = some t ∧ ¬Flagged c ∨ (token c.ctx = none ∨ Flagged c) ∧ ¬Issued c.world t) ∧
      (∀ k, held c'.world k = if k = t then some (leftover c) else heldAfterReset held token c k) ∧
        c'.header = mgr.writeSessionCookie c.header t expiry

/-- No session is stored with a request for a new token in it. -/
def Clean (held : World → String → Option SessionMap) (world : World) : Prop :=
  ∀ t m, held world t = some m → m.get sessionResetKey = none

variable {c c' : Closing World Ctx}

theorem Closed.held_cases (h : Closed mgr held token Issued c c') (k : String) :
    held c'.world k = heldAfterReset held token c k ∨
      held c'.world k = some (leftover c) ∧
        (token c.ctx = some k ∧ ¬Flagged c ∨ ¬Issued c.world k) := by
  by_cases hleft : leftover c = ∅
  · exact .inl ((h.cleared hleft).1 k)
  · obtain ⟨t, expiry, htoken, hheld, -⟩ := h.committed hleft
    by_cases hk : k = t
    · subst hk
      refine .inr ⟨by rw [hheld, if_pos rfl], ?_⟩
      rcases htoken with htoken | ⟨-, hfresh⟩
      · exact .inl htoken
      · exact .inr hfresh
    · exact .inl (by rw [hheld, if_neg hk])

variable (held token) in
theorem heldAfterReset_cases (c : Closing World Ctx) (k : String) :
    heldAfterReset held token c k = none ∧ Flagged c ∧ token c.ctx = some k ∨
      heldAfterReset held token c k = held c.world k := by
  by_cases hk : Flagged c ∧ token c.ctx = some k
  · exact .inl ⟨if_pos hk, hk⟩
  · exact .inr (if_neg hk)

theorem Closed.clean (h : Closed mgr held token Issued c c') (hclean : Clean held c.world) :
    Clean held c'.world := by
  intro k m hm
  rcases h.held_cases k with hreset | ⟨hleft, -⟩
  · rw [hreset] at hm
    rcases heldAfterReset_cases held token c k with ⟨hnone, -⟩ | hsame
    · cases hnone.symm.trans hm
    · exact hclean k m (hsame.symm.trans hm)
  · obtain rfl := Option.some.inj (hleft.symm.trans hm)
    rw [leftover, GoMap.get_delete, if_pos rfl]

theorem Closed.keeps (h : Closed mgr held token Issued c c') {k : String}
    (hflag : Flagged c → token c.ctx ≠ some k) (hheld : held c.world k ≠ none) :
    held c'.world k ≠ none := by
  rcases h.held_cases k with hreset | ⟨hleft, -⟩
  · rw [hreset]
    rcases heldAfterReset_cases held token c k with ⟨-, hk⟩ | hsame
    · exact absurd hk.2 (hflag hk.1)
    · rwa [hsame]
  · simp [hleft]

theorem Closed.retired (h : Closed mgr held token Issued c c') {k : String}
    (hissued : Issued c.world k) (hflag : Flagged c) (htoken : token c.ctx = some k) :
    held c'.world k = none := by
  rcases h.held_cases k with hreset | ⟨-, ⟨-, hnot⟩ | hfresh⟩
  · rw [hreset]
    exact if_pos ⟨hflag, htoken⟩
  · exact absurd hflag hnot
  · exact absurd hissued hfresh

theorem Closed.retires_iff (law : Lawful mgr held token Issued)
    (h : Closed mgr held token Issued c c') (htoken : token c.ctx = some t)
    (hheld : held c.world t ≠ none) : held c'.world t = none ↔ Flagged c := by
  constructor
  · intro hnone
    by_contra hflag
    exact h.keeps (fun hc => absurd hc hflag) hheld hnone
  · exact fun hflag => h.retired (law.issued _ _ hheld) hflag htoken

/-- The end of a session cannot be seen in the store and the cookies if and only if nothing is
left in it, and no token of a stored session is retired. -/
theorem Closed.unseen_iff (law : Lawful mgr held token Issued)
    (h : Closed mgr held token Issued c c') :
    (∀ k, held c'.world k = held c.world k) ∧
        c'.header.get "Set-Cookie" = c.header.get "Set-Cookie" ↔
      leftover c = ∅ ∧ (Flagged c → ∀ k, token c.ctx = some k → held c.world k = none) := by
  constructor
  · rintro ⟨hheld, hcookie⟩
    have hleft : leftover c = ∅ := by
      by_contra hleft
      obtain ⟨t, expiry, -, -, hheader⟩ := h.committed hleft
      rw [hheader] at hcookie
      exact law.cookie c.header t expiry hcookie
    refine ⟨hleft, fun hflag k htoken => ?_⟩
    rw [← hheld, (h.cleared hleft).1]
    exact if_pos ⟨hflag, htoken⟩
  · rintro ⟨hleft, hretired⟩
    obtain ⟨hheld, hheader⟩ := h.cleared hleft
    refine ⟨fun k => ?_, by rw [hheader]⟩
    rw [hheld]
    rcases heldAfterReset_cases held token c k with ⟨hnone, hk⟩ | hsame
    · rw [hnone, hretired hk.1 k hk.2]
    · exact hsame

theorem renew_spec (law : Lawful mgr held token Issued) (c : Closing World Ctx) :
    ∃ world ctx t, outcome (renewSession mgr) c = (.ok ⟨⟩, ⟨world, ctx, leftover c, c.header⟩) ∧
      token ctx = some t ∧ ¬Issued c.world t ∧ (∀ k, Issued c.world k → Issued world k) ∧
        ∀ k, held world k = if token c.ctx = some k then none else held c.world k := by
  obtain ⟨world, ctx, t, hrenew, hspec⟩ := law.renewToken c.world c.ctx
  refine ⟨world, ctx, t, ?_, hspec⟩
  simp [renewSession, outcome_bind, hrenew, leftover]

theorem store_empty (law : Lawful mgr held token Issued) {c : Closing World Ctx}
    (hdata : c.data = ∅) :
    ∃ ctx, outcome (storeSession mgr) c = (.ok ⟨⟩, { c with ctx }) := by
  obtain ⟨ctx, hclear⟩ := law.clear c.ctx
  have hlen : ¬0 < c.data.len := fun h => GoMap.len_pos_iff.mp h hdata
  exact ⟨ctx, by simp [storeSession, outcome_bind, hlen, hclear]⟩

theorem store_nonempty (law : Lawful mgr held token Issued) {c : Closing World Ctx}
    (hdata : c.data ≠ ∅) :
    ∃ world ctx t expiry, outcome (storeSession mgr) c =
        (.ok ⟨⟩, ⟨world, ctx, c.data, mgr.writeSessionCookie c.header t expiry⟩) ∧
      (token c.ctx = some t ∨ token c.ctx = none ∧ ¬Issued c.world t) ∧
        (∀ k, Issued c.world k → Issued world k) ∧
          ∀ k, held world k = if k = t then some c.data else held c.world k := by
  obtain ⟨world, t, expiry, hcommit, htoken, hissued, hheld⟩ :=
    law.commit c.world (mgr.put c.ctx scsSessionDataKey c.data)
  rw [law.token_put] at htoken
  simp only [law.get_put] at hheld
  have hlen : 0 < c.data.len := GoMap.len_pos_iff.mpr hdata
  refine ⟨world, mgr.put c.ctx scsSessionDataKey c.data, t, expiry, ?_, htoken, hissued, hheld⟩
  simp [storeSession, outcome_bind, hlen, hcommit]

theorem close_spec (law : Lawful mgr held token Issued) (c : Closing World Ctx) :
    ∃ c', outcome (closeSession mgr) c = (.ok ⟨⟩, c') ∧ Closed mgr held token Issued c c' := by
  by_cases hflag : c.data.has sessionResetKey = true
  · obtain ⟨world, ctx, t, hrenew, htoken, hfresh, hissued, hheld⟩ := renew_spec law c
    have hclose : outcome (closeSession mgr) c =
        outcome (storeSession mgr) ⟨world, ctx, leftover c, c.header⟩ := by
      simp [closeSession, outcome_bind, hflag, hrenew]
    have hreset : ∀ k, held world k = heldAfterReset held token c k := by
      intro k
      simp [hheld, heldAfterReset, hflag]
    by_cases hdata : leftover c = ∅
    · obtain ⟨ctx', hstore⟩ := store_empty law (c := ⟨world, ctx, leftover c, c.header⟩) hdata
      refine ⟨_, hclose.trans hstore, hissued, fun _ => ⟨hreset, rfl⟩, fun h => absurd hdata h⟩
    · obtain ⟨world', ctx', t', expiry, hstore, htoken', hissued', hheld'⟩ :=
        store_nonempty law (c := ⟨world, ctx, leftover c, c.header⟩) hdata
      obtain rfl : t = t' := by simpa [htoken] using htoken'
      refine ⟨_, hclose.trans hstore, fun k hk => hissued' k (hissued k hk),
        fun h => absurd h hdata, fun _ => ⟨t, expiry, .inr ⟨.inr hflag, hfresh⟩, fun k => ?_, rfl⟩⟩
      rw [hheld', hreset]
  · have hclose : outcome (closeSession mgr) c = outcome (storeSession mgr) c := by
      simp [closeSession, outcome_bind, hflag]
    have hleft : leftover c = c.data := leftover_of_not_flagged hflag
    have hsame : ∀ k, heldAfterReset held token c k = held c.world k :=
      heldAfterReset_of_not_flagged hflag
    by_cases hdata : c.data = ∅
    · obtain ⟨ctx', hstore⟩ := store_empty law hdata
      exact ⟨_, hclose.trans hstore, fun _ => id, fun _ => ⟨fun k => (hsame k).symm, rfl⟩,
        fun h => absurd (hleft.trans hdata) h⟩
    · obtain ⟨world', ctx', t', expiry, hstore, htoken, hissued, hheld⟩ := store_nonempty law hdata
      refine ⟨_, hclose.trans hstore, hissued, fun h => absurd (hleft.symm.trans h) hdata,
        fun _ => ⟨t', expiry, ?_, fun k => ?_, rfl⟩⟩
      · rcases htoken with htoken | ⟨hnone, hfresh⟩
        · exact .inl ⟨htoken, hflag⟩
        · exact .inr ⟨.inl hnone, hfresh⟩
      · rw [hheld, hsame, hleft]

theorem closeUse_spec (law : Lawful mgr held token Issued) (x : Exchange (SessionEnv World Ctx))
    (q : ℕ) : ∃ c, outcome (closeSession mgr) (Exchange.closing x q) = (.ok ⟨⟩, c) ∧
      Closed mgr held token Issued (Exchange.closing x q) c ∧
        outcome (closeUse mgr q) x = (.ok ⟨⟩, Exchange.close x q c) := by
  obtain ⟨c, hclose, hclosed⟩ := close_spec law (Exchange.closing x q)
  exact ⟨c, hclose, hclosed, by simp [closeUse, outcome_bind, hclose]⟩

theorem use_spec (law : Lawful mgr held token Issued) (next : Handler (SessionEnv World Ctx))
    (w : Writer) (r : Request) (x : Exchange (SessionEnv World Ctx))
    (ht : (r.cookie mgr.cookieName).getD "" = t) :
    ∃ ctx, openSession mgr x.env.world t = .ok ⟨ctx, (held x.env.world t).getD ∅⟩ ∧
      token ctx = (if (held x.env.world t).isSome then some t else none) ∧
        outcome (use mgr next w r) x =
          outcome (next w { r with session := some x.env.sessions } >>= fun _ =>
            closeUse mgr x.env.sessions)
            (Exchange.open x ⟨ctx, (held x.env.world t).getD ∅⟩) := by
  obtain ⟨ctx, hopen, htoken⟩ := open_spec law x.env.world t
  refine ⟨ctx, hopen, htoken, ?_⟩
  simp [use, outcome_bind, ht, hopen]

end GoraddServe.SessionManager
