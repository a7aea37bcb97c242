import GoraddServe.BufferedCalls

/-!
# Buffering that is disabled

After `DisableOutputBuffering` the calls of a handler go to the outer writer. What it has
written before stays in the buffer, and `WithBufferedOutput` sends the buffer in any case, so
these bytes come last.
-/
namespace GoraddServe.DisabledOutput
open GoMaps Panics ResponseWriters BufferedOutput BufferedCalls

variable {ε : Type}

/-- The bytes of the calls of `Write`. -/
def written (calls : List WriterCall) : Bytes :=
  calls.flatMap fun
    | .write b => b
    | .writeHeader _ => []

/-- What the calls of a handler have put into the buffer and what they have sent. -/
structure Output where
  buffered : Bytes
  direct : Bytes
  disabled : Bool

def Output.after (o : Output) : Call → Output
  | .disable => { o with disabled := true }
  | .reset => { o with buffered := [] }
  | c => if o.disabled then { o with direct := o.direct ++ c.bytes }
    else { o with buffered := o.buffered ++ c.bytes }

def output (cs : List Call) : Output := cs.foldl Output.after ⟨[], [], false⟩

section Calls

variable {r : Request} {p : ℕ} {x y z : Exchange ε} {cs : List Call} {c : Call} {o : Output}

/-- The buffered writer `p` in front of the server's holds what was put into the buffer, and the
server has got what was sent. -/
structure Holds (p : ℕ) (x : Exchange ε) (o : Output) (y : Exchange ε) : Prop where
  buf : (y.writer p).buf = o.buffered
  disabled : (y.writer p).disabled = o.disabled
  sent : written y.server.calls = written x.server.calls ++ o.direct
  writers : p < y.writers

theorem Holds.buffer (h : Holds p x o y)
    (hc : o.disabled = false ∨ c = .reset ∨ c = .disable) :
    Holds p x (o.after c) (y.setWriter p (c.buffer (y.writer p))) := by
  have hself := y.setWriter_self p (c.buffer (y.writer p))
  refine ⟨?_, ?_, ?_, h.writers⟩
  · rw [hself, buffer_buf, h.buf]
    rcases hc with hc | rfl | rfl
    · cases c <;> simp [Output.after, Call.pending, Call.bytes, hc]
    · rfl
    · exact List.append_nil _
  · rw [hself]
    have hdisabled := h.disabled
    cases c with
    | reset | disable => simp [Call.buffer, Output.after, hdisabled]
    | write | writeString | writeHeader =>
      have henabled : o.disabled = false := by simpa using hc
      simp [Call.buffer, Output.after, hdisabled, henabled]
  · refine h.sent.trans ?_
    rcases hc with hc | rfl | rfl
    · cases c <;> simp [Output.after, hc]
    · rfl
    · rfl

theorem Holds.write (h : Holds p x o y) (hdisabled : o.disabled = true) {b : Bytes}
    {result : ℕ × Option String}
    (hwrite : outcome ((Writer.buffered .server p).write b) y = (.ok result, z)) :
    Holds p x { o with direct := o.direct ++ b } z := by
  obtain ⟨t, hpassed, rfl⟩ := write_passed_on (h.disabled.trans hdisabled) hwrite
  obtain ⟨result', t', hserver, hcalls, -, -, hwriter, hwriters⟩ := server_write y b
  rw [hserver] at hpassed
  cases hpassed
  have hself := t.setWriter_self p { t.writer p with len := (t.writer p).len + result.1 }
  refine ⟨?_, ?_, ?_, hwriters ▸ h.writers⟩
  · rw [hself, hwriter, h.buf]
  · rw [hself, hwriter, h.disabled]
  · refine (congrArg written hcalls).trans ?_
    rw [written, List.flatMap_append, ← written, h.sent]
    simp

theorem Holds.writeHeader (h : Holds p x o y) {code : Int}
    (hheader : outcome (Writer.server.writeHeader code) y = (.ok ⟨⟩, z)) : Holds p x o z := by
  rw [outcome_server_writeHeader] at hheader
  have hz := congrArg Prod.snd hheader
  rw [sendStatus_frame] at hz
  subst hz
  refine ⟨h.buf, h.disabled, ?_, h.writers⟩
  simpa [Exchange.record, written] using h.sent

theorem Holds.perform (h : Holds p x o y) (hr : r.bufferedOutput = some p)
    (hc : outcome (c.perform (.buffered .server p) r) y = (.ok ⟨⟩, z)) :
    Holds p x (o.after c) z := by
  cases hdisabled : o.disabled with
  | false =>
    rw [perform_buffered hr (h.disabled.trans hdisabled)] at hc
    cases hc
    exact h.buffer (.inl hdisabled)
  | true =>
    obtain ⟨hwrites, result, hwrite⟩ | ⟨code, rfl, hheader⟩ | ⟨hcontrol, rfl⟩ :=
      perform_disabled hr (h.disabled.trans hdisabled) hc
    · have hafter : o.after c = { o with direct := o.direct ++ c.bytes } := by
        rcases hwrites with ⟨b, rfl⟩ | ⟨s, rfl⟩ <;> simp [Output.after, hdisabled]
      exact hafter ▸ h.write hdisabled hwrite
    · have hafter : o.after (.writeHeader code) = o := by
        simp only [Output.after, hdisabled, Call.bytes, if_true, List.append_nil]
        rw [← hdisabled]
      rw [hafter]
      exact h.writeHeader hheader
    · exact h.buffer (.inr hcontrol)

theorem holds_of_makes (hr : r.bufferedOutput = some x.writers)
    (h : Makes (.buffered .server x.writers) r (Exchange.buffer x) cs y) :
    Holds x.writers x (output cs) y := by
  induction h with
  | start =>
    have hwriter := buffer_writer x
    exact ⟨by rw [hwriter]; rfl, by rw [hwriter]; rfl, (List.append_nil _).symm,
      Nat.lt_succ_self _⟩
  | @call cs y z c h hc ih =>
    rw [output, List.foldl_append]
    exact ih.perform hr hc
  | @other cs y z h hz ih =>
    have hp := hz.writer x.writers ih.writers
    exact ⟨hp ▸ ih.buf, hp ▸ ih.disabled, hz.calls ▸ ih.sent,
      Nat.lt_of_lt_of_le ih.writers hz.writers⟩

/-- What is in the buffer is written last, when nothing panics. -/
theorem written_sendBuffered (h : outcome (sendBuffered .server p) z = (.ok ⟨⟩, y)) :
    written y.server.calls = written z.server.calls ++ (z.writer p).buf := by
  have hbuffer : ∀ t : Exchange ε, written t.server.calls = written z.server.calls →
      outcome (writeBuffer .server (z.writer p).buf) t = (.ok ⟨⟩, y) →
      written y.server.calls = written z.server.calls ++ (z.writer p).buf := by
    intro t ht hwrite
    have hcalls := calls_writeBuffer (x := t) (b := (z.writer p).buf)
    rw [hwrite] at hcalls
    change y.server.calls = t.server.calls ++ _ at hcalls
    rw [hcalls, written, List.flatMap_append, ← written, ht]
    simp
  have hheader : ∀ (t u : Exchange ε) (code : Int), t.server.calls = z.server.calls →
      outcome (Writer.server.writeHeader code) t = (.ok ⟨⟩, u) →
      written u.server.calls = written z.server.calls := by
    intro t u code ht hwrite
    have hcalls : _ = t.server.calls ++ [.writeHeader code] := calls_writeHeader
    rw [hwrite] at hcalls
    change u.server.calls = t.server.calls ++ _ at hcalls
    rw [hcalls, ht]
    simp [written]
  rw [sendBuffered, outcome_bind_ok outcome_get] at h
  dsimp only at h
  split at h
  · obtain ⟨⟨⟩, t, hwrite, hrest⟩ := outcome_bind_eq_ok.mp h
    exact hbuffer t (hheader z t _ rfl hwrite) hrest
  rw [outcome_bind_ok outcome_get] at h
  split at h
  · obtain ⟨⟨⟩, t, hwrite, hrest⟩ := outcome_bind_eq_ok.mp h
    rw [outcome_bind_ok outcome_get] at hrest
    obtain ⟨⟨⟩, u, hlog, hrest⟩ := outcome_bind_eq_ok.mp hrest
    have hu : u.server.calls = t.server.calls :=
      (congrArg (·.2.server.calls) hlog).symm.trans (calls_logError ..)
    exact hbuffer u (hu ▸ hheader z t _ rfl hwrite) hrest
  · exact hbuffer z rfl h

theorem written_withBufferedOutput {h : Handler ε}
    (hreturns : outcome (h (innerWriter .server x) (innerRequest r x)) (Exchange.buffer x) =
      (.ok ⟨⟩, z))
    (hmakes : Makes (innerWriter .server x) (innerRequest r x) (Exchange.buffer x) cs z)
    (hnormal : outcome (withBufferedOutput h .server r) x = (.ok ⟨⟩, y)) :
    written y.server.calls =
      written x.server.calls ++ ((output cs).direct ++ (output cs).buffered) := by
  have hz := holds_of_makes rfl hmakes
  rw [withBufferedOutput_ok hreturns] at hnormal
  rw [written_sendBuffered hnormal, hz.sent, hz.buf, List.append_assoc]

end Calls

theorem output_enabled {cs : List Call} (hdisable : .disable ∉ cs) (hreset : .reset ∉ cs)
    (b : Bytes) :
    cs.foldl Output.after ⟨b, [], false⟩ = ⟨b ++ cs.flatMap Call.bytes, [], false⟩ := by
  induction cs generalizing b with
  | nil => simp
  | cons c cs ih =>
    simp only [List.mem_cons, not_or] at hdisable hreset
    have hc : Output.after ⟨b, [], false⟩ c = ⟨b ++ c.bytes, [], false⟩ := by
      cases c with
      | disable => exact absurd rfl hdisable.1
      | reset => exact absurd rfl hreset.1
      | _ => rfl
    rw [List.foldl_cons, hc, ih hdisable.2 hreset.2, List.flatMap_cons, List.append_assoc]

theorem output_disabled {cs : List Call} (hreset : .reset ∉ cs) (b d : Bytes) :
    cs.foldl Output.after ⟨b, d, true⟩ = ⟨b, d ++ cs.flatMap Call.bytes, true⟩ := by
  induction cs generalizing d with
  | nil => simp
  | cons c cs ih =>
    simp only [List.mem_cons, not_or] at hreset
    have hc : Output.after ⟨b, d, true⟩ c = ⟨b, d ++ c.bytes, true⟩ := by
      cases c with
      | reset => exact absurd rfl hreset.1
      | disable => simp [Output.after, Call.bytes]
      | _ => rfl
    rw [List.foldl_cons, hc, ih hreset.2, List.flatMap_cons, List.append_assoc]

/-- What reaches the outer writer is what was written after the buffering was disabled, if and
only if nothing was written before. -/
theorem disabled_drops_iff {h : Handler ε} {r : Request} {x y z : Exchange ε}
    {before after : List Call}
    (hreturns : outcome (h (innerWriter .server x) (innerRequest r x)) (Exchange.buffer x) =
      (.ok ⟨⟩, z))
    (hmakes : Makes (innerWriter .server x) (innerRequest r x) (Exchange.buffer x)
      (before ++ .disable :: after) z)
    (hbefore : .disable ∉ before) (hreset : .reset ∉ before ++ after)
    (hnormal : outcome (withBufferedOutput h .server r) x = (.ok ⟨⟩, y)) :
    written y.server.calls = written x.server.calls ++ after.flatMap Call.bytes ↔
      before.flatMap Call.bytes = [] := by
  obtain ⟨hreset, hreset'⟩ := not_or.mp (fun h => hreset (List.mem_append.mpr h))
  have houtput : output (before ++ .disable :: after) =
      ⟨before.flatMap Call.bytes, after.flatMap Call.bytes, true⟩ := by
    rw [output, List.foldl_append, output_enabled hbefore hreset, List.foldl_cons]
    exact output_disabled hreset' _ _
  rw [written_withBufferedOutput hreturns hmakes hnormal, houtput, ← List.append_assoc,
    List.append_right_eq_self]

/-- A status is set, and then a file is streamed. -/
def streaming : List Call := [.writeHeader 201] ++ .disable :: [.write [1, 2]]

theorem disabled_drops_iff_streaming :
    written (outcome (withBufferedOutput (making streaming) .server plainRequest)
      freshExchange).2.server.calls = [1, 2] := by
  have hreturns : outcome (making streaming (innerWriter .server freshExchange)
      (innerRequest plainRequest freshExchange)) (Exchange.buffer freshExchange) =
        (.ok ⟨⟩, (outcome (making streaming (innerWriter .server freshExchange)
          (innerRequest plainRequest freshExchange)) (Exchange.buffer freshExchange)).2) :=
    Prod.ext (by rfl) rfl
  exact (disabled_drops_iff hreturns (makes_making hreturns) (by decide) (by decide)
    (Prod.ext (by rfl) rfl)).mpr (by decide)

/-- A page is begun before a file is streamed. -/
def begun : List Call := [.writeString "<p>", .disable, .writeString "file"]

/-- The page comes after the file. -/
theorem begun_last : (outcome (withBufferedOutput (making begun) .server plainRequest)
    freshExchange).2.server.calls = [.write (bytes "file"), .write (bytes "<p>")] := by
  decide

end GoraddServe.DisabledOutput
