import GoraddServe.BufferedOutput

/-!
# The calls of a handler on its buffered writer

What a handler does to the writer that `WithBufferedOutput` gives it is a list of calls, with
other work between them. As long as it does not disable the buffering, the calls are a fold on
the buffer and the status, and the outer writer gets the outcome when the handler has
returned. Once it has, calls go to the outer writer, and what is in the buffer by then still
follows at the end.
-/
namespace GoraddServe.BufferedCalls
open GoMaps Panics ResponseWriters BufferedOutput

variable {ε : Type}

inductive Call where
  | write (b : Bytes)
  | writeString (s : String)
  | writeHeader (code : Int)
  | reset
  | disable
  deriving DecidableEq

namespace Call

def perform (w : Writer) (r : Request) : Call → HandlerM ε Unit
  | write b => do let _ ← w.write b
  | writeString s => do let _ ← w.writeString s
  | writeHeader code => w.writeHeader code
  | reset => do let _ ← resetOutputBuffer r
  | disable => disableOutputBuffering r

def bytes : Call → Bytes
  | write b => b
  | writeString s => ResponseWriters.bytes s
  | _ => []

def pending (b : Bytes) : Call → Bytes
  | reset => []
  | c => b ++ c.bytes

def lastCode (code : Int) : Call → Int
  | writeHeader code => code
  | _ => code

end Call

/-- Nothing is done to the writers there are, nor has the server's got anything. -/
structure Untouched (x y : Exchange ε) : Prop where
  sent : y.server.sent = x.server.sent
  room : y.server.room = x.server.room
  body : y.server.body = x.server.body
  calls : y.server.calls = x.server.calls
  writers : x.writers ≤ y.writers
  writer : ∀ q < x.writers, y.writer q = x.writer q

theorem Untouched.refl (x : Exchange ε) : Untouched x x :=
  ⟨rfl, rfl, rfl, rfl, Nat.le_refl _, fun _ _ => rfl⟩

theorem Untouched.trans {x y z : Exchange ε} (h : Untouched x y) (h' : Untouched y z) :
    Untouched x z where
  sent := h'.sent.trans h.sent
  room := h'.room.trans h.room
  body := h'.body.trans h.body
  calls := h'.calls.trans h.calls
  writers := h.writers.trans h'.writers
  writer q hq := (h'.writer q (Nat.lt_of_lt_of_le hq h.writers)).trans (h.writer q hq)

/-- From `x` on a handler makes the calls of a list, with other work between them. -/
inductive Makes (w : Writer) (r : Request) (x : Exchange ε) : List Call → Exchange ε → Prop where
  | start : Makes w r x [] x
  | call {cs : List Call} {y z : Exchange ε} {c : Call} (h : Makes w r x cs y)
      (hc : outcome (c.perform w r) y = (.ok ⟨⟩, z)) : Makes w r x (cs ++ [c]) z
  | other {cs : List Call} {y z : Exchange ε} (h : Makes w r x cs y) (hz : Untouched y z) :
      Makes w r x cs z

theorem Makes.trans {w : Writer} {r : Request} {x y z : Exchange ε} {cs cs' : List Call}
    (h : Makes w r x cs y) (h' : Makes w r y cs' z) : Makes w r x (cs ++ cs') z := by
  induction h' with
  | start => rwa [List.append_nil]
  | @call cs' y z c h' hc ih =>
    rw [← List.append_assoc]
    exact ih.call hc
  | other h' hz ih => exact ih.other hz

/-- A handler that makes the calls and nothing else. -/
def making : List Call → Handler ε
  | [], _, _ => pure ()
  | c :: cs, w, r => do
    c.perform w r
    making cs w r

theorem makes_making {w : Writer} {r : Request} {x z : Exchange ε} {cs : List Call}
    (h : outcome (making cs w r) x = (.ok ⟨⟩, z)) : Makes w r x cs z := by
  induction cs generalizing x with
  | nil =>
    cases h
    exact .start
  | cons c cs ih =>
    obtain ⟨⟨⟩, y, hc, hrest⟩ := outcome_bind_eq_ok.mp h
    exact (Makes.start.call hc).trans (ih hrest)

def pending (cs : List Call) : Bytes := cs.foldl Call.pending []

def lastCode (cs : List Call) : Int := cs.foldl Call.lastCode 0

section Buffering

variable {w : Writer} {r : Request} {p : ℕ} {x y z : Exchange ε} {cs : List Call} {c : Call}

def Call.buffer (bw : BufferedResponseWriter) : Call → BufferedResponseWriter
  | write b => { bw with buf := bw.buf ++ b, len := bw.len + b.length }
  | writeString s =>
    let b := ResponseWriters.bytes s
    { bw with buf := bw.buf ++ b, len := bw.len + b.length }
  | writeHeader code => { bw with code }
  | reset => { bw with buf := [] }
  | disable => { bw with disabled := true }

theorem write_enabled (henabled : (y.writer p).disabled = false) (b : Bytes) :
    outcome ((Writer.buffered w p).write b) y =
      (.ok (b.length, none), y.setWriter p ((Call.write b).buffer (y.writer p))) := by
  rw [Writer.write, outcome_bind_ok outcome_get]
  dsimp only
  rw [if_neg (ne_true_of_eq_false henabled)]
  rfl

theorem perform_control (hr : r.bufferedOutput = some p) (hc : c = .reset ∨ c = .disable) :
    outcome (c.perform w r) y = (.ok ⟨⟩, y.setWriter p (c.buffer (y.writer p))) := by
  rcases hc with rfl | rfl
  · rw [Call.perform, resetOutputBuffer, hr]
    rfl
  · rw [Call.perform, disableOutputBuffering, modifyBuffered, hr]
    rfl

theorem perform_buffered (hr : r.bufferedOutput = some p)
    (henabled : (y.writer p).disabled = false) :
    outcome (c.perform (.buffered w p) r) y =
      (.ok ⟨⟩, y.setWriter p (c.buffer (y.writer p))) := by
  cases c with
  | write b => exact outcome_bind_ok (write_enabled henabled b)
  | writeString s =>
    rw [Call.perform, writeString_eq]
    exact outcome_bind_ok (write_enabled henabled (bytes s))
  | writeHeader code =>
    rw [Call.perform, Writer.writeHeader, outcome_bind_ok outcome_get]
    dsimp only
    rw [if_neg (ne_true_of_eq_false henabled)]
    rfl
  | reset => exact perform_control hr (.inl rfl)
  | disable => exact perform_control hr (.inr rfl)

theorem write_passed_on {b : Bytes} {result : ℕ × Option String}
    (hdisabled : (y.writer p).disabled = true)
    (hwrite : outcome ((Writer.buffered w p).write b) y = (.ok result, z)) :
    ∃ t, outcome (w.write b) y = (.ok result, t) ∧
      z = t.setWriter p { t.writer p with len := (t.writer p).len + result.1 } := by
  rw [Writer.write, outcome_bind_ok outcome_get] at hwrite
  dsimp only at hwrite
  rw [if_pos hdisabled] at hwrite
  obtain ⟨⟨l, err⟩, t, hpassed, hrest⟩ := outcome_bind_eq_ok.mp hwrite
  cases hrest
  exact ⟨t, hpassed, rfl⟩

/-- Without buffering a call is a write, a status for the outer writer or an act on the buffered
writer. -/
theorem perform_disabled (hr : r.bufferedOutput = some p)
    (hdisabled : (y.writer p).disabled = true)
    (hc : outcome (c.perform (.buffered w p) r) y = (.ok ⟨⟩, z)) :
    (((∃ b, c = .write b) ∨ ∃ s, c = .writeString s) ∧
      ∃ result, outcome ((Writer.buffered w p).write c.bytes) y = (.ok result, z)) ∨
    (∃ code, c = .writeHeader code ∧ outcome (w.writeHeader code) y = (.ok ⟨⟩, z)) ∨
    (c = .reset ∨ c = .disable) ∧ z = y.setWriter p (c.buffer (y.writer p)) := by
  cases c with
  | write b =>
    obtain ⟨result, t, hwrite, hrest⟩ := outcome_bind_eq_ok.mp hc
    cases hrest
    exact .inl ⟨.inl ⟨b, rfl⟩, result, hwrite⟩
  | writeString s =>
    obtain ⟨result, t, hwrite, hrest⟩ := outcome_bind_eq_ok.mp hc
    cases hrest
    rw [writeString_eq] at hwrite
    exact .inl ⟨.inr ⟨s, rfl⟩, result, hwrite⟩
  | writeHeader code =>
    rw [Call.perform, Writer.writeHeader, outcome_bind_ok outcome_get] at hc
    dsimp only at hc
    rw [if_pos hdisabled] at hc
    exact .inr (.inl ⟨code, rfl, hc⟩)
  | reset =>
    rw [perform_control hr (.inl rfl)] at hc
    cases hc
    exact .inr (.inr ⟨.inl rfl, rfl⟩)
  | disable =>
    rw [perform_control hr (.inr rfl)] at hc
    cases hc
    exact .inr (.inr ⟨.inr rfl, rfl⟩)

theorem buffer_buf (bw : BufferedResponseWriter) (c : Call) :
    (c.buffer bw).buf = c.pending bw.buf := by
  cases c <;> simp [Call.buffer, Call.pending, Call.bytes]

theorem buffer_code (bw : BufferedResponseWriter) (c : Call) :
    (c.buffer bw).code = c.lastCode bw.code := by
  cases c <;> rfl

theorem buffer_disabled (bw : BufferedResponseWriter) (hc : c ≠ .disable) :
    (c.buffer bw).disabled = bw.disabled := by
  cases c with
  | disable => exact absurd rfl hc
  | _ => rfl

theorem making_buffered (hr : r.bufferedOutput = some p) (henabled : (y.writer p).disabled = false)
    (hcs : .disable ∉ cs) : ∃ z, outcome (making cs (.buffered w p) r) y = (.ok ⟨⟩, z) ∧
      z.server = y.server := by
  induction cs generalizing y with
  | nil => exact ⟨y, rfl, rfl⟩
  | cons c cs ih =>
    simp only [List.mem_cons, not_or] at hcs
    obtain ⟨z, hz, hserver⟩ := ih (y := y.setWriter p (c.buffer (y.writer p)))
      (by rw [Exchange.setWriter_self, buffer_disabled _ (Ne.symm hcs.1), henabled]) hcs.2
    exact ⟨z, (outcome_bind_ok (perform_buffered hr henabled)).trans hz, hserver⟩

/-- The calls so far are in the new buffered writer, and nothing has reached the others. -/
structure Buffering (x : Exchange ε) (cs : List Call) (y : Exchange ε) : Prop where
  buf : (y.writer x.writers).buf = pending cs
  code : (y.writer x.writers).code = lastCode cs
  disabled : (y.writer x.writers).disabled = false
  writers : x.writers < y.writers
  outer : Untouched x y

theorem Buffering.call (h : Buffering x cs y) (hc : c ≠ .disable) :
    Buffering x (cs ++ [c]) (y.setWriter x.writers (c.buffer (y.writer x.writers))) := by
  have hwriter := y.setWriter_self x.writers (c.buffer (y.writer x.writers))
  refine ⟨?_, ?_, ?_, h.writers, h.outer.sent, h.outer.room, h.outer.body, h.outer.calls,
    h.outer.writers, fun q hq => ?_⟩
  · rw [hwriter, buffer_buf, h.buf, pending, pending, List.foldl_append]
    rfl
  · rw [hwriter, buffer_code, h.code, lastCode, lastCode, List.foldl_append]
    rfl
  · rw [hwriter, buffer_disabled _ hc, h.disabled]
  · exact (y.setWriter_of_ne _ (Nat.ne_of_lt hq)).trans (h.outer.writer q hq)

theorem Buffering.other (h : Buffering x cs y) (hz : Untouched y z) : Buffering x cs z := by
  have hp := hz.writer x.writers h.writers
  exact ⟨hp ▸ h.buf, hp ▸ h.code, hp ▸ h.disabled, Nat.lt_of_lt_of_le h.writers hz.writers,
    h.outer.trans hz⟩

theorem buffering_start (x : Exchange ε) : Buffering x [] (Exchange.buffer x) := by
  have hwriter := buffer_writer x
  refine ⟨by rw [hwriter]; rfl, by rw [hwriter]; rfl, by rw [hwriter], Nat.lt_succ_self _, rfl, rfl,
    rfl, rfl, Nat.le_succ _, fun q hq => x.setWriter_of_ne _ (Nat.ne_of_lt hq)⟩

theorem buffering_of_makes (hr : r.bufferedOutput = some x.writers)
    (h : Makes (.buffered w x.writers) r (Exchange.buffer x) cs y) (hcs : .disable ∉ cs) :
    Buffering x cs y := by
  induction h with
  | start => exact buffering_start x
  | @call cs y z c h hc ih =>
    simp only [List.mem_append, List.mem_singleton, not_or] at hcs
    have hy := ih hcs.1
    rw [perform_buffered hr hy.disabled] at hc
    cases hc
    exact hy.call (Ne.symm hcs.2)
  | other h hz ih => exact (ih hcs).other hz

end Buffering

/-- What the outer writer gets when the handler has returned: a status, if there is one other
than 200, and the buffer. -/
def sends (w : Writer) (code : Int) (b : Bytes) : HandlerM ε Unit := do
  if code ≠ 0 ∧ code ≠ 200 then w.writeHeader code
  writeBuffer w b

def sendCalls (code : Int) (b : Bytes) : List WriterCall :=
  (if code ≠ 0 ∧ code ≠ 200 then [.writeHeader code] else []) ++ [.write b]

section After

variable {w : Writer} {r : Request} {p : ℕ} {x y z : Exchange ε} {code : Int} {b : Bytes}

theorem sendBuffered_eq (hvalid : Header.valid y.server.header = true) :
    outcome (sendBuffered w p) y =
      outcome (sends w (y.writer p).code (y.writer p).buf) y := by
  rw [sendBuffered, outcome_bind_ok outcome_get, sends]
  by_cases hcode : (y.writer p).code ≠ 0 ∧ (y.writer p).code ≠ 200
  · rw [if_pos hcode, if_pos hcode]
  · rw [if_neg hcode, if_neg hcode, outcome_bind_ok outcome_get, if_neg (by simp [hvalid])]

theorem sendStatus_frame : (outcome (sendStatus code) x).2 =
    { x with
      server.sent := (outcome (sendStatus code) x).2.server.sent
      server.room := (outcome (sendStatus code) x).2.server.room } := by
  rw [outcome_sendStatus]
  split
  · rfl
  · split
    · rfl
    · split
      · rfl
      · rfl

theorem calls_writeHeader : (outcome (Writer.server.writeHeader code) x).2.server.calls =
    x.server.calls ++ [.writeHeader code] := by
  rw [outcome_server_writeHeader, sendStatus_frame]
  rfl

theorem calls_logError (msg : String) (args : List LogValue) :
    (outcome (logError msg args) x).2.server.calls = x.server.calls := by
  rw [outcome_logError]
  cases x.logger with
  | none => rfl
  | some records => rfl

theorem server_write (x : Exchange ε) (b : Bytes) : ∃ result t,
    outcome (Writer.server.write b) x = (.ok result, t) ∧
      t.server.calls = x.server.calls ++ [.write b] ∧ t.server.sent = some (status x) ∧
        t.server.body = x.server.body ++ taken (status x).1 (room x) b ∧
          t.writer = x.writer ∧ t.writers = x.writers :=
  ⟨_, _, outcome_server_write, rfl, rfl, rfl, rfl, rfl⟩

theorem calls_writeBuffer : (outcome (writeBuffer .server b) x).2.server.calls =
    x.server.calls ++ [.write b] := by
  obtain ⟨⟨l, e⟩, t, hwrite, hcalls, -⟩ := server_write x b
  rw [writeBuffer, outcome_bind_ok hwrite]
  cases e with
  | none => exact hcalls
  | some e => exact (calls_logError ..).trans hcalls

/-- net/http does not panic for the status, which may also come too late. -/
def Taken (x : Exchange ε) (code : Int) : Prop :=
  code = 0 ∨ 100 ≤ code ∧ code ≤ 999 ∨ x.server.sent.isSome = true

instance (x : Exchange ε) (code : Int) : Decidable (Taken x code) :=
  inferInstanceAs (Decidable (_ ∨ _))

theorem server_writeHeader (x : Exchange ε)
    (hcode : 100 ≤ code ∧ code ≤ 999 ∨ x.server.sent.isSome = true) :
    ∃ t, outcome (Writer.server.writeHeader code) x = (.ok ⟨⟩, t) ∧
      t.server.calls = x.server.calls ++ [.writeHeader code] := by
  have hcalls : (outcome (Writer.server.writeHeader code) x).2.server.calls =
    x.server.calls ++ [.writeHeader code] := calls_writeHeader
  rw [outcome_server_writeHeader, outcome_sendStatus] at hcalls ⊢
  by_cases hsent : (x.record (.writeHeader code)).server.sent.isSome = true
  · rw [if_pos hsent]
    exact ⟨_, rfl, rfl⟩
  have hvalid := hcode.resolve_right hsent
  rw [if_neg hsent, if_neg (show ¬(code < 100 ∨ 999 < code) by omega)]
  split
  · exact ⟨_, rfl, rfl⟩
  · exact ⟨_, rfl, rfl⟩

/-- All the calls are made, unless net/http panics for the status. -/
theorem calls_sends : (outcome (sends .server code b) x).2.server.calls =
    x.server.calls ++ if Taken x code then sendCalls code b else [.writeHeader code] := by
  rw [sends, sendCalls]
  by_cases hheader : code ≠ 0 ∧ code ≠ 200
  · rw [if_pos hheader, if_pos hheader]
    by_cases htaken : Taken x code
    · obtain ⟨t, hwrite, hcalls⟩ := server_writeHeader x (htaken.resolve_left hheader.1)
      rw [if_pos htaken, outcome_bind_ok hwrite, calls_writeBuffer, hcalls, List.append_assoc]
    · obtain ⟨-, hcode, hsent⟩ := not_or.mp htaken |>.imp_right not_or.mp
      have hpanics : outcome (Writer.server.writeHeader code) x =
          (.error (.text s!"invalid WriteHeader code {code}"), x.record (.writeHeader code)) := by
        rw [outcome_server_writeHeader, outcome_sendStatus]
        exact (if_neg hsent).trans (if_pos (by omega))
      rw [if_neg htaken, outcome_bind_error hpanics]
      rfl
  · have htaken : Taken x code := by
      unfold Taken
      omega
    rw [if_neg hheader, if_neg hheader, if_pos htaken]
    exact calls_writeBuffer

end After

section Returns

variable {h : Handler ε} {w : Writer} {r : Request} {x y z : Exchange ε} {cs : List Call}

/-- The writer and the request that the handler is called with. -/
def innerWriter (w : Writer) (x : Exchange ε) : Writer := .buffered w x.writers

def innerRequest (r : Request) (x : Exchange ε) : Request :=
  { r with bufferedOutput := some x.writers }

theorem withBufferedOutput_ok
    (hreturns : outcome (h (innerWriter w x) (innerRequest r x)) (Exchange.buffer x) =
      (.ok ⟨⟩, z)) :
    outcome (withBufferedOutput h w r) x = outcome (sendBuffered w x.writers) z := by
  rw [withBufferedOutput, outcome_bind_ok outcome_get, outcome_bind_ok (outcome_modify _)]
  exact outcome_bind_ok hreturns

theorem withBufferedOutput_error {p : PanicValue}
    (hpanics : outcome (h (innerWriter w x) (innerRequest r x)) (Exchange.buffer x) =
      (.error p, z)) :
    outcome (withBufferedOutput h w r) x = (.error p, z) := by
  rw [withBufferedOutput, outcome_bind_ok outcome_get, outcome_bind_ok (outcome_modify _)]
  exact outcome_bind_error hpanics

theorem withBufferedOutput_sends
    (hreturns : outcome (h (innerWriter w x) (innerRequest r x)) (Exchange.buffer x) = (.ok ⟨⟩, z))
    (hmakes : Makes (innerWriter w x) (innerRequest r x) (Exchange.buffer x) cs z)
    (hcs : .disable ∉ cs) (hvalid : Header.valid z.server.header = true) :
    outcome (withBufferedOutput h w r) x = outcome (sends w (lastCode cs) (pending cs)) z := by
  have hz := buffering_of_makes rfl hmakes hcs
  rw [withBufferedOutput_ok hreturns, sendBuffered_eq hvalid, hz.code, hz.buf]

/-- While the handler makes its calls nothing reaches the outer writer, and `OutputLen` is the
number of bytes that wait. After it the outer writer gets the last status, unless it is 0 or
200, and then the bytes that wait, in one write, unless it has panicked for the status. -/
theorem buffered_output
    (hreturns : outcome (h (innerWriter w x) (innerRequest r x)) (Exchange.buffer x) = (.ok ⟨⟩, z))
    (hmakes : Makes (innerWriter w x) (innerRequest r x) (Exchange.buffer x) cs z)
    (hcs : .disable ∉ cs) (hvalid : Header.valid z.server.header = true) :
    (∀ cs' y, .disable ∉ cs' →
      Makes (innerWriter w x) (innerRequest r x) (Exchange.buffer x) cs' y →
        Untouched x y ∧
          outcome (outputLen (innerRequest r x)) y = (.ok (pending cs').length, y)) ∧
      outcome (withBufferedOutput h w r) x = outcome (sends w (lastCode cs) (pending cs)) z ∧
      (w = .server → (outcome (withBufferedOutput h w r) x).2.server.calls =
        x.server.calls ++ if Taken x (lastCode cs) then sendCalls (lastCode cs) (pending cs)
          else [.writeHeader (lastCode cs)]) := by
  have hz := buffering_of_makes rfl hmakes hcs
  have hsends := withBufferedOutput_sends hreturns hmakes hcs hvalid
  refine ⟨fun cs' y hcs' hy => ?_, hsends, fun hw => ?_⟩
  · have hy := buffering_of_makes rfl hy hcs'
    refine ⟨hy.outer, ?_⟩
    have hlen : bufferedLen (y.writer x.writers) = (pending cs').length := by
      rw [bufferedLen, if_neg (ne_true_of_eq_false hy.disabled), hy.buf]
    rw [← hlen]
    rfl
  · have htaken : Taken z (lastCode cs) ↔ Taken x (lastCode cs) := by
      rw [Taken, Taken, hz.outer.sent]
    rw [hsends, hw, calls_sends, hz.outer.calls]
    simp only [htaken]

end Returns

def plainRequest : Request := ⟨fun _ => none, none, none⟩

def freshExchange : Exchange Unit :=
  ⟨⟨∅, none, none, [], []⟩, fun _ => ⟨[], 0, false, 0⟩, 0, some [], ()⟩

/-- A page that is given up for a message. -/
def givingUp : List Call := [.write [60, 62], .writeHeader 404, .reset, .writeString "gone"]

theorem buffered_output_givingUp :
    (outcome (withBufferedOutput (making givingUp) .server plainRequest)
      freshExchange).2.server.calls = [.writeHeader 404, .write (bytes "gone")] := by
  obtain ⟨z, hz, hserver⟩ : ∃ z, outcome (making givingUp (innerWriter .server freshExchange)
      (innerRequest plainRequest freshExchange)) (Exchange.buffer freshExchange) = (.ok ⟨⟩, z) ∧
        z.server = freshExchange.server := making_buffered rfl rfl (by decide)
  have hvalid : Header.valid z.server.header = true := by
    rw [hserver]
    decide
  exact ((buffered_output hz (makes_making hz) (by decide) hvalid).2.2 rfl).trans (by decide)

/-- A handler that gives a status which net/http panics for. -/
def overlarge : List Call := [.write [60], .writeHeader 1000]

/-- It returns, and what it has written is not sent. -/
theorem overlarge_unwritten :
    (outcome (making overlarge (innerWriter .server freshExchange)
      (innerRequest plainRequest freshExchange)) (Exchange.buffer freshExchange)).1 = .ok ⟨⟩ ∧
    (outcome (withBufferedOutput (making overlarge) .server plainRequest)
      freshExchange).2.server.calls = [.writeHeader 1000] ∧
    sendCalls (lastCode overlarge) (pending overlarge) = [.writeHeader 1000, .write [60]] :=
  ⟨by rfl, by rfl, by decide⟩

end GoraddServe.BufferedCalls
