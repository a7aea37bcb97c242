import GoraddServe.BufferedCalls
import Mathlib.Data.List.TakeWhile

/-!
# The length of the output

A buffered writer counts what its writes take, whether they go into the buffer or to the outer
writer. While it buffers, `OutputLen` does not read that count. Once it does not, the count is
that of the outer writer and of all that was written before.
-/
namespace GoraddServe.OutputLength
open Panics ResponseWriters BufferedOutput BufferedCalls

variable {ε : Type}

/-- A writer around buffered writers that were made before the writer `p`, each of them around
those that were made before it. -/
def MadeBefore : Writer → ℕ → Prop
  | .server, _ => True
  | .buffered inner q, p => q < p ∧ MadeBefore inner q

/-- The bytes that have been written to the writer and are in the body, or in the buffer that they
wait in. -/
def received : Writer → Exchange ε → Bytes
  | .server, y => y.server.body
  | .buffered inner q, y => if (y.writer q).disabled then received inner y else (y.writer q).buf

/-- The bytes that the calls write before buffering is disabled. -/
def before (cs : List Call) : Bytes := (cs.takeWhile fun c => c ≠ .disable).flatMap Call.bytes

/-- After the calls: the number of bytes that wait, and without buffering the number of those that
have been written to the outer writer. -/
def outputCount (w : Writer) (x : Exchange ε) (cs : List Call) (y : Exchange ε) : ℕ :=
  if .disable ∈ cs then (received w y).length - (received w x).length else (pending cs).length

section Outer

variable {w : Writer} {p : ℕ} {x y z : Exchange ε}

theorem received_congr (hw : MadeBefore w p) (hserver : z.server.body = y.server.body)
    (hwriter : ∀ q < p, z.writer q = y.writer q) : received w z = received w y := by
  induction w generalizing p with
  | server => exact hserver
  | buffered inner q ih =>
    obtain ⟨hq, hinner⟩ := hw
    rw [received, received, hwriter q hq,
      ih hinner fun q' hq' => hwriter q' (Nat.lt_trans hq' hq)]

theorem received_setWriter (hw : MadeBefore w p) (bw : BufferedResponseWriter) :
    received w (y.setWriter p bw) = received w y :=
  received_congr hw rfl fun _ hq => y.setWriter_of_ne bw (Nat.ne_of_lt hq)

/-- A writer changes itself and those inside, and no others. -/
structure Frame (p : ℕ) (y z : Exchange ε) : Prop where
  writer : ∀ q, p ≤ q → z.writer q = y.writer q
  writers : z.writers = y.writers

theorem write_received (hw : MadeBefore w p) {b : Bytes} {l : ℕ} {err : Option String}
    (hwrite : outcome (w.write b) y = (.ok (l, err), z)) :
    (received w z).length = (received w y).length + l ∧ Frame p y z := by
  induction w generalizing p y z l err with
  | server =>
    rw [outcome_server_write] at hwrite
    obtain ⟨hresult, rfl⟩ := Prod.mk.inj hwrite
    have hl : (writeResult y b).1 = l := congrArg Prod.fst (Except.ok.inj hresult)
    refine ⟨?_, fun _ _ => rfl, rfl⟩
    rw [← hl, length_writeResult]
    exact List.length_append
  | buffered inner q ih =>
    obtain ⟨hq, hinner⟩ := hw
    cases hdisabled : (y.writer q).disabled with
    | false =>
      rw [write_enabled hdisabled] at hwrite
      cases hwrite
      refine ⟨?_, fun q' hq' => y.setWriter_of_ne _ (by omega), rfl⟩
      rw [received, received, Exchange.setWriter_self, Call.buffer]
      simp [hdisabled]
    | true =>
      obtain ⟨t, hpassed, rfl⟩ := write_passed_on hdisabled hwrite
      obtain ⟨hlength, hframe⟩ := ih hinner hpassed
      have hsame := hframe.writer q (Nat.le_refl q)
      refine ⟨?_, fun q' hq' => ?_, hframe.writers⟩
      · rw [received, received, Exchange.setWriter_self, hsame, if_pos hdisabled, if_pos hdisabled,
          ← hlength, received_setWriter hinner]
      · exact (t.setWriter_of_ne _ (by omega)).trans (hframe.writer q' (by omega))

theorem writeHeader_received (hw : MadeBefore w p) {code : Int}
    (hwrite : outcome (w.writeHeader code) y = (.ok ⟨⟩, z)) :
    received w z = received w y ∧ Frame p y z := by
  induction w generalizing p y z with
  | server =>
    rw [outcome_server_writeHeader] at hwrite
    have hz := congrArg Prod.snd hwrite
    rw [sendStatus_frame] at hz
    subst hz
    exact ⟨rfl, fun _ _ => rfl, rfl⟩
  | buffered inner q ih =>
    obtain ⟨hq, hinner⟩ := hw
    rw [Writer.writeHeader, outcome_bind_ok outcome_get] at hwrite
    dsimp only at hwrite
    cases hdisabled : (y.writer q).disabled with
    | false =>
      rw [if_neg (ne_true_of_eq_false hdisabled)] at hwrite
      cases hwrite
      refine ⟨?_, fun q' hq' => y.setWriter_of_ne _ (by omega), rfl⟩
      rw [received, received, Exchange.setWriter_self]
      simp [hdisabled]
    | true =>
      rw [if_pos hdisabled] at hwrite
      obtain ⟨hsame, hframe⟩ := ih hinner hwrite
      refine ⟨?_, fun q' hq' => hframe.writer q' (by omega), hframe.writers⟩
      rw [received, received, hframe.writer q (Nat.le_refl q), hsame]

end Outer

theorem buffer_len (bw : BufferedResponseWriter) (c : Call) :
    (c.buffer bw).len = bw.len + c.bytes.length := by
  cases c <;> rfl

theorem before_concat {cs : List Call} {c : Call} :
    before (cs ++ [c]) = if .disable ∈ cs then before cs else before cs ++ c.bytes := by
  have htake : (cs.takeWhile fun c => c ≠ .disable) = cs ↔ .disable ∉ cs := by
    rw [List.takeWhile_eq_self_iff]
    exact ⟨fun h hmem => by simpa using h _ hmem, fun h c hc => decide_eq_true fun heq =>
      h (heq ▸ hc)⟩
  rw [before, before]
  split
  · next hmem =>
    have hshort : (cs.takeWhile fun c => c ≠ .disable).length ≠ cs.length := fun hlength =>
      htake.mp ((List.takeWhile_sublist _).eq_of_length hlength) hmem
    rw [List.takeWhile_append, if_neg hshort]
  · next hmem =>
    rw [List.takeWhile_append, htake.mpr hmem, if_pos rfl, List.flatMap_append]
    cases c <;> simp [Call.bytes]

section Run

variable {w : Writer} {r : Request} {x y z : Exchange ε} {cs : List Call} {c : Call}

/-- The count is that of all that was written while the output was buffered, and of what the
outer writer has received. -/
structure Counts (w : Writer) (x : Exchange ε) (cs : List Call) (y : Exchange ε) : Prop where
  disabled : (y.writer x.writers).disabled = true ↔ .disable ∈ cs
  len : (y.writer x.writers).len + (received w x).length =
    (before cs).length + (received w y).length
  received : (received w x).length ≤ (received w y).length
  writers : x.writers < y.writers

/-- A call that only changes the buffered writer, and writes only when it buffers. -/
theorem Counts.buffer (hw : MadeBefore w x.writers) (h : Counts w x cs y)
    (hc : .disable ∉ cs ∨ c = .reset ∨ c = .disable) :
    Counts w x (cs ++ [c]) (y.setWriter x.writers (c.buffer (y.writer x.writers))) := by
  have hself := y.setWriter_self x.writers (c.buffer (y.writer x.writers))
  have hreceived := received_setWriter (y := y) hw (c.buffer (y.writer x.writers))
  have hlen := h.len
  refine ⟨?_, ?_, hreceived ▸ h.received, h.writers⟩
  · rw [hself, List.mem_append, ← h.disabled]
    cases c <;> simp [Call.buffer]
  · rw [hself, buffer_len, before_concat, hreceived]
    split
    · next hmem =>
      have hempty : c.bytes.length = 0 := by
        rcases hc.resolve_left (not_not_intro hmem) with rfl | rfl <;> rfl
      omega
    · rw [List.length_append]
      omega

/-- A write that is passed on is counted like what the outer writer receives. -/
theorem Counts.write (hw : MadeBefore w x.writers) (h : Counts w x cs y) (hmem : .disable ∈ cs)
    {b : Bytes} {result : ℕ × Option String}
    (hwrite : outcome ((Writer.buffered w x.writers).write b) y = (.ok result, z)) :
    Counts w x (cs ++ [c]) z := by
  have hdisabled := h.disabled.mpr hmem
  obtain ⟨t, hpassed, rfl⟩ := write_passed_on hdisabled hwrite
  obtain ⟨hreceived, hframe⟩ := write_received hw hpassed
  have hself := t.setWriter_self x.writers
    { t.writer x.writers with len := (t.writer x.writers).len + result.1 }
  have hsame := hframe.writer x.writers (Nat.le_refl _)
  have hlen := h.len
  refine ⟨?_, ?_, ?_, hframe.writers ▸ h.writers⟩
  · rw [hself, hsame]
    exact iff_of_true hdisabled (List.mem_append_left _ hmem)
  · rw [hself, received_setWriter hw, before_concat, if_pos hmem, hsame]
    dsimp only
    omega
  · rw [received_setWriter hw, hreceived]
    exact Nat.le_add_right_of_le h.received

theorem Counts.writeHeader (hw : MadeBefore w x.writers) (h : Counts w x cs y)
    (hmem : .disable ∈ cs) {code : Int} (hheader : outcome (w.writeHeader code) y = (.ok ⟨⟩, z)) :
    Counts w x (cs ++ [c]) z := by
  obtain ⟨hreceived, hframe⟩ := writeHeader_received hw hheader
  have hsame := hframe.writer x.writers (Nat.le_refl _)
  refine ⟨?_, ?_, hreceived ▸ h.received, hframe.writers ▸ h.writers⟩
  · rw [hsame]
    exact iff_of_true (h.disabled.mpr hmem) (List.mem_append_left _ hmem)
  · rw [hsame, hreceived, before_concat, if_pos hmem, h.len]

theorem Counts.perform (hw : MadeBefore w x.writers) (h : Counts w x cs y)
    (hr : r.bufferedOutput = some x.writers)
    (hc : outcome (c.perform (.buffered w x.writers) r) y = (.ok ⟨⟩, z)) :
    Counts w x (cs ++ [c]) z := by
  by_cases hmem : .disable ∈ cs
  · obtain ⟨-, result, hwrite⟩ | ⟨code, -, hheader⟩ | ⟨hcontrol, rfl⟩ :=
      perform_disabled hr (h.disabled.mpr hmem) hc
    · exact h.write hw hmem hwrite
    · exact h.writeHeader hw hmem hheader
    · exact h.buffer hw (.inr hcontrol)
  · have henabled : (y.writer x.writers).disabled = false :=
      Bool.not_eq_true _ ▸ mt h.disabled.mp hmem
    rw [perform_buffered hr henabled] at hc
    cases hc
    exact h.buffer hw (.inl hmem)

theorem counts_of_makes (hw : MadeBefore w x.writers) (hr : r.bufferedOutput = some x.writers)
    (h : Makes (.buffered w x.writers) r (Exchange.buffer x) cs y) : Counts w x cs y := by
  induction h with
  | start =>
    have hwriter := buffer_writer x
    have hreceived : received w (Exchange.buffer x) = received w x :=
      received_congr hw rfl fun q hq => x.setWriter_of_ne _ (Nat.ne_of_lt hq)
    exact ⟨by simp [hwriter], by rw [hwriter, hreceived]; rfl, hreceived ▸ Nat.le_refl _,
      Nat.lt_succ_self _⟩
  | @call cs y z c h hc ih => exact ih.perform hw hr hc
  | @other cs y z h hz ih =>
    have hp := hz.writer x.writers ih.writers
    have hreceived : received w z = received w y := received_congr hw hz.body fun q hq =>
      hz.writer q (Nat.lt_trans hq ih.writers)
    exact ⟨hp ▸ ih.disabled, by rw [hp, hreceived, ih.len], hreceived ▸ ih.received,
      Nat.lt_of_lt_of_le ih.writers hz.writers⟩

/-- `OutputLen` is right as long as the output is buffered, and after that if and only if nothing
was written before. -/
theorem outputLen_iff (hw : MadeBefore w x.writers)
    (h : Makes (innerWriter w x) (innerRequest r x) (Exchange.buffer x) cs y) :
    outcome (outputLen (innerRequest r x)) y = (.ok (outputCount w x cs y), y) ↔
      (.disable ∈ cs → before cs = []) := by
  have hy := counts_of_makes hw rfl h
  have hlen : outcome (outputLen (innerRequest r x)) y =
    (.ok (bufferedLen (y.writer x.writers)), y) := rfl
  have hright : outcome (outputLen (innerRequest r x)) y = (.ok (outputCount w x cs y), y) ↔
      bufferedLen (y.writer x.writers) = outputCount w x cs y := by
    rw [hlen]
    simp
  rw [hright, outputCount, bufferedLen]
  by_cases hmem : .disable ∈ cs
  · have hcount := hy.len
    have hreceived := hy.received
    rw [if_pos hmem, if_pos (hy.disabled.mpr hmem), forall_prop_of_true hmem,
      ← List.length_eq_zero_iff]
    omega
  · have hbuffering := buffering_of_makes rfl h hmem
    rw [if_neg hmem, if_neg (mt hy.disabled.mp hmem), hbuffering.buf]
    exact iff_of_true rfl fun hdisable => absurd hdisable hmem

end Run

/-- What a handler of a fresh request leaves that makes the calls. -/
def afterCalls (cs : List Call) : Exchange Unit :=
  (outcome (making cs (innerWriter .server freshExchange) (innerRequest plainRequest freshExchange))
    (Exchange.buffer freshExchange)).2

def streamed : List Call := [.disable, .writeString "Hey", .write [89, 111, 117]]

theorem outputLen_iff_streamed :
    outcome (outputLen (innerRequest plainRequest freshExchange)) (afterCalls streamed) =
      (.ok (outputCount .server freshExchange streamed (afterCalls streamed)),
        afterCalls streamed) :=
  (outputLen_iff (w := .server) trivial (makes_making (Prod.ext (by rfl) rfl))).mpr
    fun _ => by decide

/-- A greeting is written before the rest is streamed. -/
def greeted : List Call := [.writeString "Hey", .disable, .write [89, 111, 117]]

/-- Three bytes have been written to the outer writer, and six are counted. -/
theorem outputLen_greeted :
    outcome (outputLen (innerRequest plainRequest freshExchange)) (afterCalls greeted) ≠
      (.ok (outputCount .server freshExchange greeted (afterCalls greeted)),
        afterCalls greeted) := by
  intro h
  have hcount := Except.ok.inj (congrArg Prod.fst h)
  revert hcount
  decide

end GoraddServe.OutputLength
