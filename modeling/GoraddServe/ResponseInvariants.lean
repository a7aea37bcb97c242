import GoraddServe.ErrorHandler
import GoraddServe.StaticFiles

/-!
# Invariants of an exchange

What the writers and the middleware do to an exchange on their own account is to send the status
and the body, to log, to number the buffered writers and to set a few headers. An invariant that
survives these survives every handler that is built from them.
-/
namespace GoraddServe.ResponseInvariants
open GoMaps Panics ResponseWriters BufferedOutput ErrorHandler

variable {ε : Type}

/-- The invariant survives what the server, the buffered writers and the log do, and any change of
headers that `ok` allows. -/
structure Lasting (ok : String → Prop) (I : Exchange ε → Prop) : Prop where
  sends : ∀ x code, I x → I { x with server.sent := some (code, x.server.header) }
  server : ∀ x room body calls, I x →
    I { x with server.room := room, server.body := body, server.calls := calls }
  writers : ∀ x writer writers, I x → I { x with writer, writers }
  logs : ∀ x logger, I x → I { x with logger }
  header : ∀ x (header : Header), (∀ key, ¬ok key → header.get key = x.server.header.get key) →
    I x → I { x with server.header := header }

/-- The answer to this panic sets no header other than those that `ok` allows. -/
def SetsOnly (ok : String → Prop) : PanicValue → Prop
  | .httpError e => ∀ k v, (e.Headers.getD ∅).get k = some v → ok (canonicalHeaderKey k)
  | _ => True

section Lasting

variable {ok : String → Prop} {I : Exchange ε → Prop} {P : PanicValue → Prop} {p : PanicValue}
  (hI : Lasting ok I)
include hI

theorem Lasting.record {x : Exchange ε} (hx : I x) (call : WriterCall) : I (x.record call) :=
  hI.server x x.server.room x.server.body _ hx

theorem maintains_setHeader (w : Writer) {key : String} (value : String)
    (hkey : ok (canonicalHeaderKey key)) : Maintains I P (w.setHeader key value) := by
  refine maintains_modify fun x hx => hI.header x _ (fun key' hkey' => ?_) hx
  exact get_setHeader_of_ne fun heq => hkey' (heq ▸ hkey)

theorem maintains_sendStatus (code : Int) :
    Maintains I (SetsOnly ok) (sendStatus code) := by
  intro x hx
  rw [outcome_sendStatus]
  split
  · exact ⟨hx, fun p hp => by cases hp⟩
  split
  · exact ⟨hx, fun p hp => by cases hp; trivial⟩
  split
  · exact ⟨hx, fun p hp => by cases hp⟩
  · exact ⟨hI.server _ _ _ _ (hI.sends x code hx), fun p hp => by cases hp⟩

theorem maintains_writeHeader (w : Writer) (code : Int) :
    Maintains I (SetsOnly ok) (w.writeHeader code) := by
  induction w with
  | server =>
    rw [Writer.writeHeader]
    exact maintains_bind (maintains_modify fun x hx => hI.record hx _) fun _ =>
      maintains_sendStatus hI code
  | buffered inner p ih =>
    rw [Writer.writeHeader]
    refine maintains_get_bind fun x hx => ?_
    dsimp only
    split
    · exact ih
    · exact maintains_modify fun y hy => hI.writers y _ _ hy

theorem maintains_server_write (b : Bytes) :
    Maintains I (SetsOnly ok) (Writer.server.write b) := by
  rw [Writer.write]
  refine maintains_bind (maintains_modify fun x hx => hI.record hx _) fun _ => ?_
  refine maintains_bind (maintains_sendStatus hI 200) fun _ => ?_
  refine maintains_get_bind fun x hx => ?_
  dsimp only
  split
  · exact maintains_pure
  split
  · exact maintains_pure
  refine maintains_bind (maintains_modify fun y hy => hI.server y _ _ _ hy) fun _ => ?_
  split
  · exact maintains_pure
  · exact maintains_bind (maintains_modify fun y hy => hI.server y _ _ _ hy) fun _ =>
      maintains_pure

theorem maintains_write (w : Writer) (b : Bytes) : Maintains I (SetsOnly ok) (w.write b) := by
  induction w with
  | server => exact maintains_server_write hI b
  | buffered inner p ih =>
    rw [Writer.write]
    refine maintains_get_bind fun x hx => ?_
    dsimp only
    split
    · exact maintains_bind ih fun _ =>
        maintains_bind (maintains_modify fun y hy => hI.writers y _ _ hy) fun _ => maintains_pure
    · exact maintains_bind (maintains_modify fun y hy => hI.writers y _ _ hy) fun _ =>
        maintains_pure

theorem maintains_logError (msg : String) (args : List LogValue) :
    Maintains I (SetsOnly ok) (logError msg args) := by
  refine maintains_get_bind fun x hx => ?_
  split
  · exact maintains_throw trivial
  · exact maintains_modify fun y hy => hI.logs y _ hy

theorem maintains_resetOutputBuffer (r : Request) :
    Maintains I P (resetOutputBuffer r) := by
  unfold resetOutputBuffer
  split
  · exact maintains_pure
  · exact maintains_get_bind fun x hx =>
      maintains_bind (maintains_modify fun y hy => hI.writers y _ _ hy) fun _ => maintains_pure

theorem maintains_respondServerError (w : Writer) (r : Request) (newResponse err : String) :
    Maintains I (SetsOnly ok) (respondServerError w r newResponse err) := by
  refine maintains_bind (maintains_writeHeader hI w 500) fun _ => ?_
  refine maintains_bind (maintains_resetOutputBuffer hI r) fun _ => ?_
  refine maintains_bind (maintains_logError hI _ _) fun _ => ?_
  exact maintains_bind (maintains_write hI w _) fun _ => maintains_pure

theorem maintains_respond (rt : Runtime) (w : Writer) (r : Request) (hp : SetsOnly ok p) :
    Maintains I (SetsOnly ok) (respond rt w r p) := by
  cases p with
  | httpError e =>
    rw [respond]
    refine maintains_bind (maintains_forIn _ (fun k _ _ => ?_) _) fun _ => ?_
    · split
      · rename_i value hvalue
        exact maintains_bind (maintains_setHeader hI w value (hp k value hvalue)) fun _ =>
          maintains_pure
      · exact maintains_pure
    refine maintains_bind (maintains_writeHeader hI w e.ErrCode) fun _ => ?_
    split
    · exact maintains_bind (maintains_write hI w _) fun _ => maintains_pure
    · exact maintains_pure
  | code code => exact maintains_writeHeader hI w code
  | serverError e => exact maintains_respondServerError hI w r _ _
  | nilServerError => exact maintains_throw trivial
  | error err => exact maintains_respondServerError hI w r _ _
  | text s => exact maintains_respondServerError hI w r _ _
  | other s => exact maintains_respondServerError hI w r _ _

theorem maintains_withErrorHandler (rt : Runtime) {h : Handler ε} (w : Writer) (r : Request)
    (hh : Maintains I (SetsOnly ok) (h w r)) :
    Maintains I (SetsOnly ok) (withErrorHandler rt h w r) :=
  maintains_tryCatch hh fun _ hp => maintains_respond hI rt w r hp

theorem maintains_sendBuffered (w : Writer) (q : ℕ) :
    Maintains I (SetsOnly ok) (sendBuffered w q) := by
  have hbuffer : ∀ buf, Maintains I (SetsOnly ok) (writeBuffer w buf) := by
    refine fun buf => maintains_bind (maintains_write hI w buf) fun result => ?_
    obtain ⟨l, e⟩ := result
    cases e with
    | none => exact maintains_pure
    | some e => exact maintains_logError hI _ _
  refine maintains_get_bind fun x hx => ?_
  dsimp only
  split
  · exact maintains_bind (maintains_writeHeader hI w _) fun _ => hbuffer _
  refine maintains_get_bind fun y hy => ?_
  split
  · refine maintains_bind (maintains_writeHeader hI w 500) fun _ => ?_
    refine maintains_get_bind fun z hz => ?_
    exact maintains_bind (maintains_logError hI _ _) fun _ => hbuffer _
  · exact hbuffer _

theorem maintains_withBufferedOutput {h : Handler ε} (w : Writer) (r : Request)
    (hh : ∀ v r, Maintains I (SetsOnly ok) (h v r)) :
    Maintains I (SetsOnly ok) (withBufferedOutput h w r) := by
  refine maintains_get_bind fun x hx => ?_
  refine maintains_bind (maintains_modify fun y hy => hI.writers y _ _ hy) fun _ => ?_
  exact maintains_bind (hh _ _) fun _ => maintains_sendBuffered hI w _

theorem maintains_notFound (w : Writer) (hlength : ok "Content-Length")
    (htype : ok "Content-Type") (hoptions : ok "X-Content-Type-Options") :
    Maintains I (SetsOnly ok) (StaticFiles.notFound w) := by
  refine maintains_bind (maintains_modify fun x hx => ?_) fun _ => ?_
  · refine hI.header x _ (fun key hkey => ?_) hx
    rw [GoMap.get_delete, if_neg]
    rintro rfl
    exact hkey hlength
  refine maintains_bind (maintains_setHeader hI w _ htype) fun _ => ?_
  refine maintains_bind (maintains_setHeader hI w _ hoptions) fun _ => ?_
  refine maintains_bind (maintains_writeHeader hI w 404) fun _ => ?_
  exact maintains_bind (maintains_write hI w _) fun _ => maintains_pure

end Lasting

end GoraddServe.ResponseInvariants
