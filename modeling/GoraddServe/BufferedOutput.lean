import GoraddServe.ResponseWriters

/-!
# Buffered output

`WithBufferedOutput` puts a buffered writer between a handler and the writer it was given,
and sends on the status and the buffer once the handler has returned. A panic of the handler
leaves the buffer behind.
-/
namespace GoraddServe.BufferedOutput
open GoMaps Panics ResponseWriters

variable {ε : Type}

/-- The calls that change the buffered writer in the context of a request. -/
def modifyBuffered (r : Request) (f : BufferedResponseWriter → BufferedResponseWriter) :
    HandlerM ε Unit :=
  match r.bufferedOutput with
  | none => throw (.error "interface conversion: interface {} is nil")
  | some p => modify fun x => x.setWriter p (f (x.writer p))

def disableOutputBuffering (r : Request) : HandlerM ε Unit :=
  modifyBuffered r fun bw => { bw with disabled := true }

def resetOutputBuffer (r : Request) : HandlerM ε Bytes :=
  match r.bufferedOutput with
  | none => return []
  | some p => do
    let ret := ((← get).writer p).buf
    modify fun x => x.setWriter p { x.writer p with buf := [] }
    return ret

theorem outcome_resetOutputBuffer {r : Request} {x : Exchange ε} :
    ∃ buf y, outcome (resetOutputBuffer r) x = (.ok buf, y) ∧
      y.server = x.server ∧ y.logger = x.logger := by
  rw [resetOutputBuffer]
  split
  · exact ⟨_, _, rfl, rfl, rfl⟩
  · exact ⟨_, _, rfl, rfl, rfl⟩

/-- `bw.Len()` -/
def bufferedLen (bw : BufferedResponseWriter) : ℕ := if bw.disabled then bw.len else bw.buf.length

def outputLen (r : Request) : HandlerM ε ℕ :=
  match r.bufferedOutput with
  | none => throw (.error "interface conversion: interface {} is nil")
  | some p => do return bufferedLen ((← get).writer p)

def writeBuffer (w : Writer) (buf : Bytes) : HandlerM ε Unit := do
  let (_, e) ← w.write buf
  match e with
  | none => return
  | some e => logError "Buffered write error" [.attr "error" (.text e)]

/-- What `WithBufferedOutput` does with the buffered writer `p` when the handler has returned. -/
def sendBuffered (w : Writer) (p : ℕ) : HandlerM ε Unit := do
  let bwriter := (← get).writer p
  if bwriter.code ≠ 0 ∧ bwriter.code ≠ 200 then
    w.writeHeader bwriter.code
  else if !Header.valid (← get).server.header then
    w.writeHeader 500
    logError "Application is attempting to send invalid header"
      [.attr "header" (.header (← get).server.header)]
  writeBuffer w bwriter.buf

/-- A buffered writer is put in front of the handler. -/
def Exchange.buffer (x : Exchange ε) : Exchange ε :=
  { x.setWriter x.writers ⟨[], 0, false, 0⟩ with writers := x.writers + 1 }

theorem buffer_writer (x : Exchange ε) :
    (Exchange.buffer x).writer x.writers = ⟨[], 0, false, 0⟩ := x.setWriter_self ..

/-- `pool.GetBuffer` hands out an empty buffer, and the deferred `pool.PutBuffer` takes it back
when nothing reads it any more. -/
def withBufferedOutput (next : Handler ε) : Handler ε := fun w r => do
  let p := (← get).writers
  modify Exchange.buffer
  next (.buffered w p) { r with bufferedOutput := some p }
  sendBuffered w p

end GoraddServe.BufferedOutput
