import GoraddServe.OutputLength

/-!
# Headers that are not sent

`WithBufferedOutput` has a status of its own for a header that is not all ASCII. It looks at the
header where the handler has given no status, or 200, and at no other time.
-/
namespace GoraddServe.InvalidHeaders
open GoMaps Panics ResponseWriters BufferedOutput BufferedCalls OutputLength

variable {ε : Type}

/-- The status that a writer has got, if it has: the one that the server has sent, or the one
that a buffered writer keeps until it sends it. -/
def givenStatus : Writer → Exchange ε → Option Int
  | .server, x => x.server.sent.map Prod.fst
  | .buffered inner p, x =>
    if (x.writer p).disabled then givenStatus inner x
    else if (x.writer p).code = 0 then none else some (x.writer p).code

/-- A status that is given to the writer now is not too late. -/
def Unsent : Writer → Exchange ε → Prop
  | .server, x => x.server.sent = none
  | .buffered inner p, x => (x.writer p).disabled = true → Unsent inner x

section Outer

variable {w : Writer} {p : ℕ} {x y : Exchange ε} {code : Int} {P : PanicValue → Prop}

def buffering (x : Exchange ε) (p : ℕ) : Bool := (x.writer p).disabled

def settings (x : Exchange ε) (p : ℕ) : Bool × Int := ((x.writer p).disabled, (x.writer p).code)

theorem buffering_setWriter {bw : BufferedResponseWriter}
    (hdisabled : bw.disabled = (x.writer p).disabled) :
    buffering (x.setWriter p bw) = buffering x := by
  funext q
  by_cases hq : q = p
  · subst hq
    rw [buffering, buffering, Exchange.setWriter_self, hdisabled]
  · rw [buffering, buffering, x.setWriter_of_ne bw hq]

theorem settings_setWriter {bw : BufferedResponseWriter}
    (hdisabled : bw.disabled = (x.writer p).disabled) (hcode : bw.code = (x.writer p).code) :
    settings (x.setWriter p bw) = settings x := by
  funext q
  by_cases hq : q = p
  · subst hq
    rw [settings, settings, Exchange.setWriter_self, hdisabled, hcode]
  · rw [settings, settings, x.setWriter_of_ne bw hq]

theorem givenStatus_congr (hsent : y.server.sent = x.server.sent)
    (hsettings : settings y = settings x) : givenStatus w y = givenStatus w x := by
  induction w with
  | server => rw [givenStatus, givenStatus, hsent]
  | buffered inner p ih =>
    obtain ⟨hdisabled, hcode⟩ := Prod.mk.inj (congrFun hsettings p)
    rw [givenStatus, givenStatus, hdisabled, hcode, ih]

theorem keeps_write (w : Writer) (b : Bytes) :
    Keeps settings P (w.write b : HandlerM ε (ℕ × Option String)) :=
  ResponseWriters.keeps_write (fun _ _ _ _ _ => rfl) (fun _ _ _ _ => settings_setWriter rfl rfl) w b

theorem buffering_writeHeader (w : Writer) (code : Int) (x : Exchange ε) :
    buffering (outcome (w.writeHeader code) x).2 = buffering x :=
  (keeps_writeHeader (P := fun _ => True) (fun _ _ _ _ _ => rfl)
    (fun _ _ => buffering_setWriter rfl)
    (.inr fun _ => trivial) w x).1

/-- A writer without a status takes the next one, unless it is none of a response. -/
theorem givenStatus_writeHeader (hunsent : Unsent w x) :
    givenStatus w (outcome (w.writeHeader code) x).2 = some 500 ↔ code = 500 := by
  induction w with
  | server =>
    have hsent : x.server.sent = none := hunsent
    rw [outcome_server_writeHeader, outcome_sendStatus, if_neg (by simp [Exchange.record, hsent])]
    split
    · next hinvalid =>
      refine iff_of_false ?_ (by omega)
      simp [givenStatus, Exchange.record, hsent]
    split
    · next hearly =>
      refine iff_of_false ?_ (by omega)
      simp [givenStatus, Exchange.record, hsent]
    · simp [givenStatus]
  | buffered inner p ih =>
    have hbuffering := congrFun (buffering_writeHeader (.buffered inner p) code x) p
    rw [buffering, buffering] at hbuffering
    rw [givenStatus, hbuffering, Writer.writeHeader, outcome_bind_ok outcome_get]
    by_cases hdisabled : (x.writer p).disabled = true
    · rw [if_pos hdisabled, if_pos hdisabled]
      exact ih (hunsent hdisabled)
    · rw [if_neg hdisabled, if_neg hdisabled, outcome_modify, Exchange.setWriter_self]
      split
      · next hzero =>
        have hcode : code = 0 := hzero
        exact iff_of_false (by simp) (by omega)
      · simp

/-- The status of a write is 200, when there is none. -/
theorem givenStatus_write (w : Writer) (b : Bytes) (x : Exchange ε) :
    givenStatus w (outcome (w.write b) x).2 = some 500 ↔ givenStatus w x = some 500 := by
  induction w with
  | server =>
    obtain ⟨result, y, hwrite, -, hsent, -⟩ := server_write x b
    rw [hwrite, givenStatus, givenStatus, hsent, status]
    cases x.server.sent <;> simp
  | buffered inner p ih =>
    have hsettings := congrFun (keeps_write (P := fun _ => True) (.buffered inner p) b x).1 p
    obtain ⟨hdisabled, hcode⟩ := Prod.mk.inj hsettings
    rw [givenStatus, givenStatus, hdisabled, hcode]
    by_cases hpassed : (x.writer p).disabled = true
    · rw [if_pos hpassed, if_pos hpassed, ← ih]
      obtain ⟨result, y, hwrite, -⟩ := (keeps_write (P := fun _ => False) inner b).ok x
      rw [hwrite, Writer.write, outcome_bind_ok outcome_get]
      dsimp only
      rw [if_pos hpassed, outcome_bind_ok hwrite, outcome_bind_ok (outcome_modify _)]
      exact Eq.congr_left (givenStatus_congr rfl (settings_setWriter rfl rfl))
    · rw [if_neg hpassed, if_neg hpassed]

theorem givenStatus_bind {α β : Type} {m : HandlerM ε α} {f : α → HandlerM ε β}
    (hf : ∀ a y, givenStatus w (outcome (f a) y).2 = some 500 ↔ givenStatus w y = some 500) :
    givenStatus w (outcome (m >>= f) x).2 = some 500 ↔
      givenStatus w (outcome m x).2 = some 500 := by
  rw [outcome_bind]
  obtain ⟨result, y⟩ := outcome m x
  cases result with
  | ok a => exact hf a y
  | error panic => exact Iff.rfl

theorem givenStatus_logError (msg : String) (args : List LogValue) :
    givenStatus w (outcome (logError msg args) x).2 = givenStatus w x := by
  rw [outcome_logError]
  cases x.logger with
  | none => rfl
  | some records => exact givenStatus_congr rfl rfl

theorem givenStatus_writeBuffer (b : Bytes) :
    givenStatus w (outcome (writeBuffer w b) x).2 = some 500 ↔ givenStatus w x = some 500 := by
  rw [writeBuffer, ← givenStatus_write w b x]
  refine givenStatus_bind fun result y => ?_
  obtain ⟨l, e⟩ := result
  cases e with
  | none => exact Iff.rfl
  | some e => exact Eq.congr_left (givenStatus_logError ..)

theorem givenStatus_sendBuffered (hunsent : Unsent w x)
    (hinvalid : Header.valid x.server.header = false) :
    givenStatus w (outcome (sendBuffered w p) x).2 = some 500 ↔
      (x.writer p).code = 0 ∨ (x.writer p).code = 200 ∨ (x.writer p).code = 500 := by
  rw [sendBuffered, outcome_bind_ok outcome_get]
  dsimp only
  by_cases hcode : (x.writer p).code ≠ 0 ∧ (x.writer p).code ≠ 200
  · rw [if_pos hcode, givenStatus_bind fun _ _ => givenStatus_writeBuffer _,
      givenStatus_writeHeader hunsent, or_iff_right hcode.1, or_iff_right hcode.2]
  · rw [if_neg hcode, outcome_bind_ok outcome_get, if_pos (by rw [hinvalid]; rfl),
      givenStatus_bind fun _ y => ?_, givenStatus_writeHeader hunsent]
    · exact iff_of_true rfl (by omega)
    · rw [outcome_bind_ok outcome_get, givenStatus_bind fun _ _ => givenStatus_writeBuffer _]
      exact Eq.congr_left (givenStatus_logError ..)

theorem unsent_of_untouched (hw : MadeBefore w x.writers) (h : Untouched x y)
    (hunsent : Unsent w x) : Unsent w y := by
  have hwriter := h.writer
  generalize x.writers = n at hw hwriter
  induction w generalizing n with
  | server => exact h.sent.trans hunsent
  | buffered inner p ih =>
    obtain ⟨hp, hinner⟩ := hw
    intro hdisabled
    rw [hwriter p hp] at hdisabled
    exact ih (hunsent hdisabled) p hinner fun q hq => hwriter q (Nat.lt_trans hq hp)

end Outer

section Returns

variable {h : Handler ε} {w : Writer} {r : Request} {x y : Exchange ε} {cs : List Call}

/-- A header that is not valid makes the status 500 if and only if the last code that the handler
gave is none, 200, or 500 itself. -/
theorem invalid_header_500_iff (hw : MadeBefore w x.writers) (hunsent : Unsent w x)
    (hreturns : outcome (h (innerWriter w x) (innerRequest r x)) (Exchange.buffer x) = (.ok ⟨⟩, y))
    (hmakes : Makes (innerWriter w x) (innerRequest r x) (Exchange.buffer x) cs y)
    (hcs : .disable ∉ cs) (hinvalid : Header.valid y.server.header = false) :
    givenStatus w (outcome (withBufferedOutput h w r) x).2 = some 500 ↔
      lastCode cs = 0 ∨ lastCode cs = 200 ∨ lastCode cs = 500 := by
  have hy := buffering_of_makes rfl hmakes hcs
  rw [withBufferedOutput_ok hreturns,
    givenStatus_sendBuffered (unsent_of_untouched hw hy.outer hunsent) hinvalid, hy.code]

end Returns

/-- The location of a redirect comes from the user. -/
def redirecting (location : String) (code : Int) : Handler Unit := fun w _ => do
  w.setHeader "Location" location
  w.writeHeader code

theorem makes_redirecting (location : String) (code : Int) (r : Request) (x : Exchange Unit) :
    ∃ y, outcome (redirecting location code (innerWriter .server x) (innerRequest r x))
        (Exchange.buffer x) = (.ok ⟨⟩, y) ∧
      Makes (innerWriter .server x) (innerRequest r x) (Exchange.buffer x) [.writeHeader code] y ∧
      y.server.header = setHeader x.server.header "Location" location := by
  let u : Exchange Unit :=
    { Exchange.buffer x with server.header := setHeader x.server.header "Location" location }
  have hu : Untouched (Exchange.buffer x) u := ⟨rfl, rfl, rfl, rfl, Nat.le_refl _, fun _ _ => rfl⟩
  have hcall := perform_buffered (w := .server) (r := innerRequest r x) (p := x.writers) (y := u)
    (c := .writeHeader code) rfl (by rw [show u.writer x.writers = _ from buffer_writer x])
  exact ⟨_, (outcome_bind_ok (outcome_modify _)).trans hcall,
    (Makes.start.other hu).call hcall, rfl⟩

theorem invalid_header_500_iff_location : givenStatus .server
    (outcome (withBufferedOutput (redirecting "/café" 200) .server plainRequest)
      freshExchange).2 = some 500 := by
  obtain ⟨y, hreturns, hmakes, hheader⟩ :=
    makes_redirecting "/café" 200 plainRequest freshExchange
  have hinvalid : Header.valid y.server.header = false := by
    rw [hheader]
    decide
  have hunsent : Unsent .server freshExchange := rfl
  have hmade : MadeBefore .server freshExchange.writers := trivial
  exact (invalid_header_500_iff hmade hunsent hreturns hmakes (by decide) hinvalid).mpr
    (.inr (.inl rfl))

/-- The redirect is sent, with the header that is not valid. -/
theorem redirect_sent : Header.valid (outcome (redirecting "/café" 302
      (innerWriter .server freshExchange) (innerRequest plainRequest freshExchange))
        (Exchange.buffer freshExchange)).2.server.header = false ∧
    givenStatus .server
      (outcome (withBufferedOutput (redirecting "/café" 302) .server plainRequest)
        freshExchange).2 ≠ some 500 := by
  decide

end GoraddServe.InvalidHeaders
