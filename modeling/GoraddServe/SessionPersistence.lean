import GoraddServe.MemoryStore

/-!
# What a request leaves of its session

A handler leaves the data that its session operations make of the stored data. `Use` commits
it when something is left, so a session that has been emptied stays in the store as it was. A
reset is one of the entries that `Clear` empties, so it takes effect only if its entry is
still there at the end.
-/
namespace GoraddServe.SessionPersistence
open GoMaps Panics ResponseWriters SessionData SessionManager MemoryStore

variable {World Ctx Expiry : Type} {mgr : ScsSessionManager World Ctx Expiry}
  {held : World → String → Option SessionMap} {token : Ctx → Option String}
  {Issued : World → String → Prop} {x : Exchange (SessionEnv World Ctx)} {w : Writer}
  {r : Request} {t : String} {m : SessionMap} {ops : List SessionOp}
  {h : Handler (SessionEnv World Ctx)}

/-- Under `Use` the handler returns, after these operations on its session, and has not changed
what all requests share. -/
def Does (mgr : ScsSessionManager World Ctx Expiry) (h : Handler (SessionEnv World Ctx))
    (ops : List SessionOp) (w : Writer) (r : Request) (x : Exchange (SessionEnv World Ctx)) :
    Prop :=
  ∀ sess, openSession mgr x.env.world ((r.cookie mgr.cookieName).getD "") = .ok sess →
    ∃ y, outcome (h w { r with session := some x.env.sessions }) (Exchange.open x sess) =
        (.ok ⟨⟩, y) ∧ y.env.world = x.env.world ∧
      y.env.session x.env.sessions = ⟨sess.ctx, SessionOp.run ops sess.data⟩

def performing (ops : List SessionOp) : Handler (SessionEnv World Ctx) := fun _ r =>
  ops.forM fun op => perform op r

theorem perform_spec (op : SessionOp) {q : ℕ} (hq : r.session = some q)
    (x : Exchange (SessionEnv World Ctx)) :
    ∃ y, outcome (perform op r) x = (.ok ⟨⟩, y) ∧ y.env.world = x.env.world ∧
      y.env.session q = ⟨(x.env.session q).ctx, op.apply (x.env.session q).data⟩ := by
  rw [perform, hq]
  exact ⟨_, outcome_modify _, rfl, Function.update_self ..⟩

theorem performing_spec (ops : List SessionOp) {q : ℕ} (hq : r.session = some q)
    (x : Exchange (SessionEnv World Ctx)) :
    ∃ y, outcome (performing ops w r) x = (.ok ⟨⟩, y) ∧ y.env.world = x.env.world ∧
      y.env.session q = ⟨(x.env.session q).ctx, SessionOp.run ops (x.env.session q).data⟩ := by
  induction ops generalizing x with
  | nil => exact ⟨x, rfl, rfl, rfl⟩
  | cons op ops ih =>
    obtain ⟨y, hop, hworld, hsession⟩ := perform_spec op hq x
    obtain ⟨z, hops, hworld', hsession'⟩ := ih y
    refine ⟨z, ?_, hworld'.trans hworld, ?_⟩
    · exact (outcome_bind_ok (f := fun _ => performing ops w r) hop).trans hops
    · rw [hsession', hsession]
      rfl

theorem performing_does (ops : List SessionOp) : Does mgr (performing ops) ops w r x := by
  intro sess _
  obtain ⟨y, hops, hworld, hsession⟩ := performing_spec (w := w) ops
    (r := { r with session := some x.env.sessions }) rfl (Exchange.open x sess)
  exact ⟨y, hops, hworld, hsession.trans (by simp [Exchange.open])⟩

/-- A request closes what its operations make of the stored data. -/
theorem request_spec (law : Lawful mgr held token Issued) (hdoes : Does mgr h ops w r x)
    (ht : (r.cookie mgr.cookieName).getD "" = t) :
    ∃ y ctx header c, outcome (use mgr h w r) x = (.ok ⟨⟩, y) ∧
      openSession mgr x.env.world t = .ok ⟨ctx, (held x.env.world t).getD ∅⟩ ∧
      token ctx = (if (held x.env.world t).isSome then some t else none) ∧
      outcome (closeSession mgr)
          ⟨x.env.world, ctx, SessionOp.run ops ((held x.env.world t).getD ∅), header⟩ =
        (.ok ⟨⟩, c) ∧ y.env.world = c.world ∧ Closed mgr held token Issued
          ⟨x.env.world, ctx, SessionOp.run ops ((held x.env.world t).getD ∅), header⟩ c := by
  obtain ⟨ctx, hopen, htoken, huse⟩ := use_spec law h w r x ht
  rw [Does, ht] at hdoes
  obtain ⟨y, hops, hworld, hsession⟩ := hdoes _ hopen
  obtain ⟨c, houtcome, hclosed, hclose⟩ := closeUse_spec law y x.env.sessions
  have hbefore : Exchange.closing y x.env.sessions =
      ⟨x.env.world, ctx, SessionOp.run ops ((held x.env.world t).getD ∅), y.server.header⟩ := by
    rw [Exchange.closing, hsession, hworld]
  rw [hbefore] at houtcome hclosed
  refine ⟨Exchange.close y x.env.sessions c, ctx, y.server.header, c, ?_, hopen, htoken, houtcome,
    rfl, hclosed⟩
  rw [huse]
  exact (outcome_bind_ok hops).trans hclose

theorem request_clean (law : Lawful mgr held token Issued) (hclean : Clean held x.env.world)
    (hdoes : Does mgr h ops w r x) {y : Exchange (SessionEnv World Ctx)}
    (huse : outcome (use mgr h w r) x = (.ok ⟨⟩, y)) : Clean held y.env.world := by
  obtain ⟨y', ctx, header, c, huse', -, -, -, hworld, hclosed⟩ := request_spec law hdoes rfl
  have hy : y = y' := congrArg Prod.snd (huse.symm.trans huse')
  rw [hy, hworld]
  exact hclosed.clean hclean

/-- An operation on any key but the reserved one, or `Clear`. -/
def Ordinary (op : SessionOp) : Prop := op = .clear ∨ ¬op.Touches sessionResetKey

theorem get_run_ordinary (hops : ∀ op ∈ ops, Ordinary op) (hclean : m.get sessionResetKey = none) :
    (SessionOp.run ops m).get sessionResetKey = none := by
  rw [SessionOp.get_run, hclean]
  induction ops with
  | nil => rfl
  | cons op ops ih =>
    have hop : op.effect sessionResetKey none = none := by
      rcases hops op List.mem_cons_self with rfl | hop
      · rfl
      · exact SessionOp.effect_of_not_touches hop none
    rw [List.foldl_cons, hop]
    exact ih fun op hop => hops op (List.mem_cons_of_mem _ hop)

/-- The next request with the token of a session finds what the handler left if and only if the
handler left something, or there was nothing before. -/
theorem persists_iff (law : Lawful mgr held token Issued) (hstored : held x.env.world t = some m)
    (hclean : Clean held x.env.world) (hcookie : r.cookie mgr.cookieName = some t)
    (hdoes : Does mgr h ops w r x) (hops : ∀ op ∈ ops, Ordinary op) :
    (∃ y, outcome (use mgr h w r) x = (.ok ⟨⟩, y) ∧
      ∃ sess, openSession mgr y.env.world t = .ok sess ∧ sess.data = SessionOp.run ops m) ↔
    SessionOp.run ops m ≠ ∅ ∨ m = ∅ := by
  obtain ⟨y, ctx, header, c, huse, -, htoken, -, hworld, hclosed⟩ :=
    request_spec (t := t) law hdoes (by simp [hcookie])
  simp only [hstored, Option.isSome_some, if_true, Option.getD_some] at htoken hclosed
  have hfound : (∃ y, outcome (use mgr h w r) x = (.ok ⟨⟩, y) ∧
      ∃ sess, openSession mgr y.env.world t = .ok sess ∧ sess.data = SessionOp.run ops m) ↔
      (held c.world t).getD ∅ = SessionOp.run ops m := by
    obtain ⟨ctx', hopen, -⟩ := open_spec law c.world t
    simp [huse, hworld, hopen]
  have hflag := not_flagged (c := (⟨x.env.world, ctx, SessionOp.run ops m, header⟩ :
    Closing World Ctx)) (get_run_ordinary hops (hclean t m hstored))
  have hleft := leftover_of_not_flagged hflag
  rw [hfound]
  by_cases hempty : SessionOp.run ops m = ∅
  · have hheld : held c.world t = some m := by
      rw [(hclosed.cleared (hleft.trans hempty)).1, heldAfterReset_of_not_flagged hflag, hstored]
    simp [hheld, hempty]
  · obtain ⟨t', expiry, htoken', hheld, -⟩ := hclosed.committed fun h => hempty (hleft.symm.trans h)
    have ht : t' = t := by
      rcases htoken' with ⟨ht, -⟩ | ⟨hnone | hflagged, -⟩
      · exact Option.some.inj (ht.symm.trans htoken)
      · exact absurd (htoken.symm.trans hnone) (by simp)
      · exact absurd hflagged hflag
    rw [hheld, if_pos ht.symm, hleft]
    simp [hempty]

def userStored : SessionMap := (∅ : SessionMap).set "user" (.string "ann")

/-- An exchange in which the session is stored under the token `tok`. -/
def storedExchange : Exchange (SessionEnv Store Context) where
  server := ⟨∅, none, none, [], []⟩
  writer := fun _ => ⟨[], 0, false, 0⟩
  writers := 0
  logger := none
  env := ⟨⟨(∅ : GoMap String SessionMap).set "tok" userStored, ["tok"], fun t ht => by
    by_cases h : t = "tok"
    · simp [h]
    · simp [GoMap.get_set, h] at ht⟩, fun _ => ⟨⟨none, none⟩, ∅⟩, 0⟩

def tokRequest : Request := ⟨fun _ => some "tok", none, none⟩

theorem clean_storedExchange :
    Clean (fun store t => store.entries.get t) storedExchange.env.world := by
  intro t m hm
  obtain ⟨-, rfl⟩ : t = "tok" ∧ userStored = m := by
    simpa [storedExchange, GoMap.get_set] using hm
  decide

/-- A key is added to the session, and the next request finds both. -/
theorem persists_iff_added :
    ∃ y, outcome (use memoryManager (performing [.setInt "n" 1]) .server tokRequest)
        storedExchange = (.ok ⟨⟩, y) ∧
      ∃ sess, openSession memoryManager y.env.world "tok" = .ok sess ∧
        sess.data = SessionOp.run [.setInt "n" 1] userStored := by
  refine (persists_iff lawful_memoryManager (m := userStored) (by decide) clean_storedExchange
    rfl (performing_does _) ?_).mpr (.inl (by decide))
  intro op hop
  obtain rfl := List.mem_singleton.mp hop
  exact .inr (by simp [SessionOp.setInt, SessionOp.Touches, sessionResetKey])

/-- A session that the handler clears is found again by the next request. -/
theorem cleared_found_again :
    ∃ y, outcome (use memoryManager (performing [.clear]) .server tokRequest) storedExchange =
        (.ok ⟨⟩, y) ∧
      ∃ sess, openSession memoryManager y.env.world "tok" = .ok sess ∧
        sess.data = userStored ∧ SessionOp.run [.clear] userStored = ∅ := by
  refine ⟨_, rfl, _, rfl, ?_, ?_⟩
  · decide
  · decide

/-- The operations leave the entry that asks for a new token in a session that had none. -/
def RequestsReset (ops : List SessionOp) : Prop :=
  (ops.foldl (fun v op => op.effect sessionResetKey v) none).isSome = true

instance (ops : List SessionOp) : Decidable (RequestsReset ops) :=
  inferInstanceAs (Decidable (_ = _))

/-- There is a `Reset` with no `Clear` after it. -/
def LastIsReset (ops : List SessionOp) : Prop :=
  ∃ pre post, ops = pre ++ .reset :: post ∧ .clear ∉ post

theorem lastIsReset_append (ops : List SessionOp) (op : SessionOp) :
    LastIsReset (ops ++ [op]) ↔ op = .reset ∨ op ≠ .clear ∧ LastIsReset ops := by
  constructor
  · rintro ⟨pre, post, heq, hpost⟩
    obtain rfl | ⟨post, last, rfl⟩ := post.eq_nil_or_concat
    · exact .inl (List.singleton_inj.mp (List.append_inj' heq rfl).2)
    · rw [List.concat_eq_append] at heq hpost
      rw [← List.cons_append, ← List.append_assoc] at heq
      obtain ⟨rfl, hlast⟩ := List.append_inj' heq rfl
      obtain rfl := List.singleton_inj.mp hlast
      rw [List.mem_append, List.mem_singleton, not_or] at hpost
      exact .inr ⟨fun h => hpost.2 h.symm, pre, post, rfl, hpost.1⟩
  · rintro (rfl | ⟨hop, pre, post, rfl, hpost⟩)
    · exact ⟨ops, [], rfl, List.not_mem_nil⟩
    · refine ⟨pre, post ++ [op], by simp, ?_⟩
      rw [List.mem_append, List.mem_singleton, not_or]
      exact ⟨hpost, fun h => hop h.symm⟩

/-- With all other operations kept off the reserved key, the entry is left if the last of the
`Reset`s and `Clear`s is a `Reset`. -/
theorem requestsReset_iff (hops : ∀ op ∈ ops, op = .reset ∨ Ordinary op) :
    RequestsReset ops ↔ LastIsReset ops := by
  induction ops using List.reverseRecOn with
  | nil => simp [RequestsReset, LastIsReset]
  | append_singleton ops op ih =>
    have ih := ih fun op hop => hops op (List.mem_append_left _ hop)
    have hstep : RequestsReset (ops ++ [op]) ↔ (op.effect sessionResetKey
        (ops.foldl (fun v op => op.effect sessionResetKey v) none)).isSome = true := by
      rw [RequestsReset, List.foldl_append]
      rfl
    rw [hstep, lastIsReset_append]
    rcases hops op (List.mem_append_right _ List.mem_cons_self) with rfl | rfl | hop
    · exact iff_of_true rfl (.inl rfl)
    · exact iff_of_false (by simp [SessionOp.effect]) (by simp)
    · rw [SessionOp.effect_of_not_touches hop, ← ih, RequestsReset]
      have hne : op ≠ .reset ∧ op ≠ .clear := by
        constructor <;> rintro rfl <;> simp [SessionOp.Touches] at hop
      simp [hne]

/-- A request retires the token it came with if and only if its operations leave the entry
that asks for a new one. -/
theorem retired_iff (law : Lawful mgr held token Issued) (hstored : held x.env.world t = some m)
    (hclean : Clean held x.env.world) (hcookie : r.cookie mgr.cookieName = some t)
    (hdoes : Does mgr h ops w r x) :
    (∃ y, outcome (use mgr h w r) x = (.ok ⟨⟩, y) ∧ held y.env.world t = none) ↔
      RequestsReset ops := by
  obtain ⟨y, ctx, header, c, huse, -, htoken, -, hworld, hclosed⟩ :=
    request_spec (t := t) law hdoes (by simp [hcookie])
  simp only [hstored, Option.isSome_some, if_true, Option.getD_some] at htoken hclosed
  have hheld : (∃ y, outcome (use mgr h w r) x = (.ok ⟨⟩, y) ∧
      held y.env.world t = none) ↔ held c.world t = none := by
    simp [huse, hworld]
  have hflag : Flagged (⟨x.env.world, ctx, SessionOp.run ops m, header⟩ : Closing World Ctx) ↔
      RequestsReset ops := by
    rw [Flagged, GoMap.has, SessionOp.get_run, hclean t m hstored]
    rfl
  rw [hheld, ← hflag]
  exact hclosed.retires_iff law htoken (by simp [hstored])

theorem retired_iff_reset :
    ∃ y, outcome (use memoryManager (performing [.clear, .reset, .setInt "n" 1]) .server tokRequest)
        storedExchange = (.ok ⟨⟩, y) ∧ y.env.world.entries.get "tok" = none :=
  (retired_iff lawful_memoryManager (m := userStored) (by decide) clean_storedExchange rfl
    (performing_does _)).mpr (by decide)

/-- `Clear` after `Reset` forgets the reset, and the old token goes on giving access. -/
theorem reset_forgotten :
    ∃ y, outcome (use memoryManager (performing [.reset, .clear]) .server tokRequest)
        storedExchange = (.ok ⟨⟩, y) ∧ y.env.world.entries.get "tok" = some userStored :=
  ⟨_, rfl, by decide⟩

end GoraddServe.SessionPersistence
