import GoraddServe.HeaderValues

/-!
# JSON in the body of a request

The body is read up to a limit and decoded, and a second value is decoded to see that nothing comes
after the first one. Every exit with an error answers the request. The decoder is a parameter with
what its package documents.
-/
namespace GoraddServe.JsonBody
open GoMaps ResponseWriters HeaderValues

/-- An `error`, with what `errors.As` and `errors.Is` find in it. -/
structure GoError where
  text : String
  /-- the offset of a `*json.SyntaxError` -/
  syntaxError : Option Int := none
  /-- the field and the offset of a `*json.UnmarshalTypeError` -/
  unmarshalTypeError : Option (String × Int) := none
  isUnexpectedEOF : Bool := false
  isEOF : Bool := false
  deriving DecidableEq

/-- `io.EOF` -/
def eof : GoError := { text := "EOF", isEOF := true }

/-- A body ends when all is read, or with an error. -/
structure Body where
  content : Bytes
  err : Option GoError

structure JsonRequest where
  header : Header
  body : Body

/-- `io.ReadAll(http.MaxBytesReader(w, body, maxBytes))` -/
def readAll (body : Body) (maxBytes : Int) : Bytes × Option GoError :=
  if body.content.length ≤ max maxBytes 0 then (body.content, body.err)
  else (body.content.take maxBytes.toNat, some { text := "http: request body too large" })

def isBlank (input : Bytes) : Bool := input.all fun b => b == 32 || b == 9 || b == 10 || b == 13

/-- What is used of encoding/json and fmt. A destination is given by the values that can be decoded
into it. -/
structure Env where
  /-- the next JSON value of an input, and what comes after it -/
  next : Bytes → Option (Bytes × Bytes)
  /-- `dec.Decode(dest)`, which leaves the rest of the input -/
  decode : ∀ {Dest : Type}, (Bytes → Option Dest) → Bytes → Except GoError (Dest × Bytes)
  emptyStruct : Bytes → Option Unit
  /-- `%q` -/
  quote : String → String

/-- `Decode` reads the next value. It returns `io.EOF` when only white space is left, and another
error when there is no value or it cannot be decoded. -/
structure Env.Lawful (env : Env) : Prop where
  value : ∀ {Dest : Type} (into : Bytes → Option Dest) input v rest d,
    env.next input = some (v, rest) → into v = some d → env.decode into input = .ok (d, rest)
  blank : ∀ {Dest : Type} (into : Bytes → Option Dest) input,
    isBlank input = true → env.decode into input = .error eof
  malformed : ∀ {Dest : Type} (into : Bytes → Option Dest) input,
    isBlank input = false → env.next input = none →
      ∃ err, env.decode into input = .error err ∧ err ≠ eof
  mistyped : ∀ {Dest : Type} (into : Bytes → Option Dest) input v rest,
    env.next input = some (v, rest) → into v = none →
      ∃ err, env.decode into input = .error err ∧ err ≠ eof

/-- The calls of the methods of `w`, the records that are logged, and the destination. -/
structure State (Dest : Type) where
  calls : List WriterCall
  logged : List LogRecord
  dest : Dest

abbrev JsonM (Dest α : Type) := StateM (State Dest) α

variable {Dest : Type}

/-- `w.WriteHeader(status)` and `io.WriteString(w, msg)` -/
def answer (status : Int) (msg : String) : JsonM Dest Unit :=
  modify fun s => { s with calls := s.calls ++ [.writeHeader status, .write (bytes msg)] }

/-- `log.Info(ctx, logModule, msg, args...)` -/
def logInfo (msg : String) (args : List LogValue) : JsonM Dest Unit :=
  modify fun s => { s with logged := s.logged ++ [logRecord logModule msg args] }

/-- The cases of an error in reading or decoding. -/
def answerError (env : Env) (maxBytes : Int) (err : GoError) : JsonM Dest Unit :=
  match err.syntaxError, err.isUnexpectedEOF, err.unmarshalTypeError with
  | some offset, _, _ => do
    answer 400 s!"request body contains badly-formed JSON (at position {offset})"
    logInfo "Request body contains badly-formed JSON" [.attr "error" (.text err.text)]
  | none, true, _ => do
    answer 400 "request body contains badly-formed JSON"
    logInfo "Request body contains badly-formed JSON. Unexpected EOF."
      [.attr "error" (.text err.text)]
  | none, false, some (field, offset) => do
    answer 400 (s!"request body contains an invalid value for the {env.quote field} field " ++
      s!"(at position {offset})")
    logInfo "Request body contains an invalid value type"
      [.attr "field" (.text field), .attr "error" (.text err.text)]
  | none, false, none =>
    if err.text.startsWith "json: unknown field " then do
      let fieldName := (err.text.drop "json: unknown field ".length).toString
      answer 400 s!"Request body contains unknown field {fieldName}"
      logInfo "Unknown field: %s" [.text fieldName, .attr "error" (.text err.text)]
    else if err.isEOF then do
      answer 400 "request body must not be empty"
      logInfo "Request body was empty" [.attr "error" (.text err.text)]
    else if err.text = "http: request body too large" then do
      answer 413 s!"request body must not be larger than {maxBytes} bytes"
      logInfo "Request body was too large" [.attr "error" (.text err.text)]
    else do
      logInfo "Error parsing json body" [.attr "error" (.text err.text)]
      answer 500 "Internal Server Error"

def errorOf {α : Type} : Except GoError α → Option GoError
  | .ok _ => none
  | .error err => some err

/-- `ParseJsonBody(w, r, maxBytes, dest)`; the result is nil or an error. -/
def parseJsonBody (env : Env) (into : Bytes → Option Dest) (r : JsonRequest) (maxBytes : Int) :
    JsonM Dest (Option GoError) := do
  let v := (parseValueAndParams (getHeader r.header "Content-Type")).1
  if v ≠ "application/json" then
    answer 400 "Content-Type must be application/json"
    return some { text := "content-type must be application/json" }
  let (body, err) := readAll r.body maxBytes
  match err.elim (env.decode into body) .error with
  | .error err =>
    answerError env maxBytes err
    return some err
  | .ok (d, rest) =>
    modify fun s => { s with dest := d }
    let err := errorOf (env.decode env.emptyStruct rest)
    if err ≠ some eof then
      answer 500 "request body must only contain a single JSON object"
      return err
    return none

/-- The request is for JSON and its body can be read and is not too long. -/
structure Readable (r : JsonRequest) (maxBytes : Int) : Prop where
  mediaType : (parseValueAndParams (getHeader r.header "Content-Type")).1 = "application/json"
  length : r.body.content.length ≤ maxBytes
  read : r.body.err = none

/-- The body is one JSON value for the destination, with white space around it. -/
def Accepts (env : Env) (into : Bytes → Option Dest) (r : JsonRequest) (maxBytes : Int) : Prop :=
  Readable r maxBytes ∧ ∃ v rest, env.next r.body.content = some (v, rest) ∧
    (into v).isSome = true ∧ isBlank rest = true

/-- After the value for the destination comes one that an empty struct takes. -/
def SecondValue (env : Env) (into : Bytes → Option Dest) (r : JsonRequest) (maxBytes : Int) :
    Prop :=
  Readable r maxBytes ∧ ∃ v rest v' rest', env.next r.body.content = some (v, rest) ∧
    (into v).isSome = true ∧ env.next rest = some (v', rest') ∧ (env.emptyStruct v').isSome = true

/-- The result is nil exactly when nothing has been written, and exactly when the body is
accepted. -/
def Meets (env : Env) (into : Bytes → Option Dest) (r : JsonRequest) (maxBytes : Int) : Prop :=
  ∀ s, (((parseJsonBody env into r maxBytes).run s).1 = none ↔
      ((parseJsonBody env into r maxBytes).run s).2.calls = s.calls) ∧
    (((parseJsonBody env into r maxBytes).run s).1 = none ↔ Accepts env into r maxBytes)

section Spec

variable {env : Env} {into : Bytes → Option Dest} {r : JsonRequest} {maxBytes : Int}
  {s : State Dest} {input : Bytes}

theorem calls_answerError (env : Env) (maxBytes : Int) (err : GoError) (s : State Dest) :
    ∃ status msg, ((answerError env maxBytes err).run s).2.calls =
      s.calls ++ [.writeHeader status, .write (bytes msg)] := by
  unfold answerError
  split
  · exact ⟨_, _, rfl⟩
  · exact ⟨_, _, rfl⟩
  · exact ⟨_, _, rfl⟩
  split
  · exact ⟨_, _, rfl⟩
  split
  · exact ⟨_, _, rfl⟩
  split
  · exact ⟨_, _, rfl⟩
  · exact ⟨_, _, rfl⟩

/-- What becomes of an input when it is decoded. -/
inductive Decoded (env : Env) (into : Bytes → Option Dest) (input : Bytes) : Prop where
  | value (v rest : Bytes) (d : Dest) (next : env.next input = some (v, rest))
      (takes : into v = some d) (ok : env.decode into input = .ok (d, rest))
  | blank (blank : isBlank input = true) (error : env.decode into input = .error eof)
  | error (err : GoError) (none : ∀ v rest, env.next input = some (v, rest) → into v = none)
      (blank : isBlank input = false) (error : env.decode into input = .error err) (ne : err ≠ eof)

theorem Env.Lawful.decoded (law : env.Lawful) (into : Bytes → Option Dest) (input : Bytes) :
    Decoded env into input := by
  cases hblank : isBlank input with
  | true => exact .blank hblank (law.blank into input hblank)
  | false =>
    cases hnext : env.next input with
    | none =>
      obtain ⟨err, herr, hne⟩ := law.malformed into input hblank hnext
      exact .error err (fun v rest h => by cases hnext.symm.trans h) hblank herr hne
    | some found =>
      obtain ⟨v, rest⟩ := found
      cases hinto : into v with
      | some d => exact .value v rest d hnext hinto (law.value into input v rest d hnext hinto)
      | none =>
        obtain ⟨err, herr, hne⟩ := law.mistyped into input v rest hnext hinto
        refine .error err (fun v' rest' h => ?_) hblank herr hne
        cases hnext.symm.trans h
        exact hinto

def answered (s : State Dest) (status : Int) (msg : String) : State Dest :=
  { s with calls := s.calls ++ [.writeHeader status, .write (bytes msg)] }

theorem run_of_mediaType
    (h : (parseValueAndParams (getHeader r.header "Content-Type")).1 ≠ "application/json") :
    (parseJsonBody env into r maxBytes).run s =
      (some { text := "content-type must be application/json" },
        answered s 400 "Content-Type must be application/json") := by
  unfold parseJsonBody
  dsimp only
  rw [if_pos h]
  rfl

theorem run_of_unreadable
    (h : (parseValueAndParams (getHeader r.header "Content-Type")).1 = "application/json")
    {body : Bytes} {err : GoError} (hread : readAll r.body maxBytes = (body, some err)) :
    (parseJsonBody env into r maxBytes).run s =
      (some err, ((answerError env maxBytes err).run s).2) := by
  unfold parseJsonBody
  dsimp only
  rw [if_neg (not_not.mpr h), hread]
  rfl

theorem run_of_undecodable
    (h : (parseValueAndParams (getHeader r.header "Content-Type")).1 = "application/json")
    {body : Bytes} {err : GoError} (hread : readAll r.body maxBytes = (body, none))
    (hdecode : env.decode into body = .error err) :
    (parseJsonBody env into r maxBytes).run s =
      (some err, ((answerError env maxBytes err).run s).2) := by
  unfold parseJsonBody
  dsimp only
  rw [if_neg (not_not.mpr h), hread]
  dsimp only
  rw [Option.elim_none, hdecode]
  rfl

theorem run_of_decoded
    (h : (parseValueAndParams (getHeader r.header "Content-Type")).1 = "application/json")
    {body rest : Bytes} {d : Dest} (hread : readAll r.body maxBytes = (body, none))
    (hdecode : env.decode into body = .ok (d, rest)) :
    (parseJsonBody env into r maxBytes).run s =
      if errorOf (env.decode env.emptyStruct rest) ≠ some eof then
        (errorOf (env.decode env.emptyStruct rest), answered { s with dest := d } 500
          "request body must only contain a single JSON object")
      else (none, { s with dest := d }) := by
  unfold parseJsonBody
  dsimp only
  rw [if_neg (not_not.mpr h), hread]
  dsimp only
  rw [Option.elim_none, hdecode]
  dsimp only
  by_cases heof : errorOf (env.decode env.emptyStruct rest) ≠ some eof
  · rw [if_pos heof, if_pos heof]
    rfl
  · rw [if_neg heof, if_neg heof]
    rfl

theorem calls_ne {status : Int} {msg : String} {calls : List WriterCall} :
    calls ++ [.writeHeader status, .write (bytes msg)] ≠ calls := by
  intro h
  exact absurd (List.append_right_eq_self.mp h) (List.cons_ne_nil _ _)

theorem meets_of_error (haccept : ¬Accepts env into r maxBytes)
    (hrun : ∀ s, ∃ err status msg, ((parseJsonBody env into r maxBytes).run s).1 = some err ∧
      ((parseJsonBody env into r maxBytes).run s).2.calls =
        s.calls ++ [.writeHeader status, .write (bytes msg)]) :
    Meets env into r maxBytes := by
  intro s
  obtain ⟨err, status, msg, hresult, hcalls⟩ := hrun s
  have herr : ((parseJsonBody env into r maxBytes).run s).1 ≠ none := by
    rw [hresult]
    exact Option.some_ne_none err
  have hanswered : ((parseJsonBody env into r maxBytes).run s).2.calls ≠ s.calls := by
    rw [hcalls]
    exact calls_ne
  exact ⟨iff_of_false herr hanswered, iff_of_false herr haccept⟩

/-- The body is read, or the request cannot be read. -/
theorem readAll_cases (r : JsonRequest) (maxBytes : Int) :
    (readAll r.body maxBytes = (r.body.content, none) ∧
      r.body.content.length ≤ max maxBytes 0 ∧ r.body.err = none) ∨
    ∃ body err, readAll r.body maxBytes = (body, some err) ∧ ¬Readable r maxBytes := by
  by_cases hlength : (r.body.content.length : Int) ≤ max maxBytes 0
  · cases herr : r.body.err with
    | none =>
      refine .inl ⟨?_, hlength, rfl⟩
      rw [readAll, if_pos hlength, herr]
    | some err =>
      refine .inr ⟨r.body.content, err, ?_, fun h => ?_⟩
      · rw [readAll, if_pos hlength, herr]
      · cases herr.symm.trans h.read
  · refine .inr ⟨r.body.content.take maxBytes.toNat, { text := "http: request body too large" }, ?_,
      fun h => hlength (h.length.trans (le_max_left _ _))⟩
    rw [readAll, if_neg hlength]

theorem Env.Lawful.not_error (law : env.Lawful) {err : GoError}
    (herr : env.decode into input = .error err) {v rest : Bytes}
    (hnext : env.next input = some (v, rest)) : (into v).isSome ≠ true := by
  intro h
  obtain ⟨d, hd⟩ := Option.isSome_iff_exists.mp h
  cases herr.symm.trans (law.value into input v rest d hnext hd)

theorem meets_of_undecodable (law : env.Lawful)
    (h : (parseValueAndParams (getHeader r.header "Content-Type")).1 = "application/json")
    (hread : readAll r.body maxBytes = (r.body.content, none)) {err : GoError}
    (hdecode : env.decode into r.body.content = .error err) :
    Meets env into r maxBytes ∧ ¬SecondValue env into r maxBytes := by
  refine ⟨meets_of_error ?_ fun s => ?_, ?_⟩
  · rintro ⟨-, v, rest, hnext, hinto, -⟩
    exact law.not_error hdecode hnext hinto
  · obtain ⟨status, msg, hcalls⟩ := calls_answerError env maxBytes err s
    rw [run_of_undecodable h hread hdecode]
    exact ⟨err, status, msg, rfl, hcalls⟩
  · rintro ⟨-, v, rest, v', rest', hnext, hinto, -⟩
    exact law.not_error hdecode hnext hinto

theorem meets_iff_of_decoded (law : env.Lawful) (hreadable : Readable r maxBytes)
    {v rest : Bytes} {d : Dest} (hnext : env.next r.body.content = some (v, rest))
    (hinto : into v = some d) :
    Meets env into r maxBytes ↔ ¬SecondValue env into r maxBytes := by
  have hread : readAll r.body maxBytes = (r.body.content, none) := by
    rw [readAll, if_pos (hreadable.length.trans (le_max_left _ _)), hreadable.read]
  have hdecode := law.value into _ v rest d hnext hinto
  have hrun := fun s => run_of_decoded (s := s) hreadable.mediaType hread hdecode
  have hsome : (into v).isSome = true := Option.isSome_of_mem hinto
  cases law.decoded env.emptyStruct rest with
  | blank hblank herror =>
    rw [herror, errorOf] at hrun
    refine iff_of_true (fun s => ?_) ?_
    · rw [hrun s, if_neg (not_not.mpr rfl)]
      exact ⟨iff_of_true rfl rfl, iff_of_true rfl ⟨hreadable, v, rest, hnext, hsome, hblank⟩⟩
    · rintro ⟨-, v₁, rest₁, v', rest', hnext₁, -, hnext', htakes⟩
      cases hnext.symm.trans hnext₁
      exact law.not_error herror hnext' htakes
  | error err hnone hblank herror hne =>
    rw [herror, errorOf] at hrun
    refine iff_of_true (meets_of_error ?_ fun s => ?_) ?_
    · rintro ⟨-, v₁, rest₁, hnext₁, -, hblank₁⟩
      cases hnext.symm.trans hnext₁
      rw [hblank] at hblank₁
      cases hblank₁
    · rw [hrun s, if_pos fun h => hne (Option.some.inj h)]
      exact ⟨err, _, _, rfl, rfl⟩
    · rintro ⟨-, v₁, rest₁, v', rest', hnext₁, -, hnext', htakes⟩
      cases hnext.symm.trans hnext₁
      exact law.not_error herror hnext' htakes
  | value v' rest' d' hnext' htakes hok =>
    rw [hok, errorOf] at hrun
    refine iff_of_false (fun hmeets => ?_) (not_not.mpr ?_)
    · have hanswer := (hmeets ⟨[], [], d⟩).1
      rw [hrun, if_pos (Option.some_ne_none _).symm] at hanswer
      exact calls_ne (hanswer.mp rfl)
    · exact ⟨hreadable, v, rest, v', rest', hnext, hsome, hnext', Option.isSome_of_mem htakes⟩

/-- The result is nil exactly for the bodies that are accepted and without an answer, unless the
body goes on with a value that an empty struct takes. -/
theorem meets_iff (law : env.Lawful) :
    Meets env into r maxBytes ↔ ¬SecondValue env into r maxBytes := by
  by_cases hmedia : (parseValueAndParams (getHeader r.header "Content-Type")).1 = "application/json"
  · rcases readAll_cases r maxBytes with ⟨hread, hlength, herr⟩ | ⟨body, err, hread, hunreadable⟩
    · cases law.decoded into r.body.content with
      | blank hblank herror =>
        obtain ⟨hmeets, hsecond⟩ := meets_of_undecodable law hmedia hread herror
        exact iff_of_true hmeets hsecond
      | error err hnone hblank herror hne =>
        obtain ⟨hmeets, hsecond⟩ := meets_of_undecodable law hmedia hread herror
        exact iff_of_true hmeets hsecond
      | value v rest d hnext hinto hok =>
        refine meets_iff_of_decoded law ⟨hmedia, ?_, herr⟩ hnext hinto
        -- there is a value, so the limit is not below zero
        have hne : r.body.content ≠ [] := by
          intro hnil
          have hblank := law.blank into r.body.content (by rw [hnil]; rfl)
          cases hblank.symm.trans hok
        have hpos := List.length_pos_iff.mpr hne
        omega
    · refine iff_of_true (meets_of_error (fun h => hunreadable h.1) fun s => ?_)
        fun h => hunreadable h.1
      obtain ⟨status, msg, hcalls⟩ := calls_answerError env maxBytes err s
      rw [run_of_unreadable hmedia hread]
      exact ⟨err, status, msg, rfl, hcalls⟩
  · refine iff_of_true (meets_of_error (fun h => hmedia h.1.mediaType) fun s => ?_)
      fun h => hmedia h.1.mediaType
    rw [run_of_mediaType hmedia]
    exact ⟨_, _, _, rfl, rfl⟩

end Spec

/-- The next value, when it is an empty object. -/
def nextObject (input : Bytes) : Option (Bytes × Bytes) :=
  match input.dropWhile fun b => b == 32 || b == 9 || b == 10 || b == 13 with
  | 123 :: 125 :: rest => some (bytes "\x7b\x7d", rest)
  | _ => none

/-- A decoder for the values of `nextObject`. -/
def objectEnv : Env where
  next := nextObject
  decode into input :=
    if isBlank input then .error eof
    else match nextObject input with
      | none => .error { text := "invalid character", syntaxError := some 1 }
      | some (v, rest) => match into v with
        | some d => .ok (d, rest)
        | none => .error { text := "cannot unmarshal", unmarshalTypeError := some ("", 1) }
  emptyStruct v := if v = bytes "\x7b\x7d" then some () else none
  quote s := s

theorem nextObject_of_blank {input : Bytes} (h : isBlank input = true) :
    nextObject input = none := by
  have hdrop : (input.dropWhile fun b => b == 32 || b == 9 || b == 10 || b == 13) = [] := by
    rw [List.dropWhile_eq_nil_iff]
    exact List.all_eq_true.mp h
  rw [nextObject, hdrop]

theorem lawful_objectEnv : objectEnv.Lawful where
  value into input v rest d hnext hinto := by
    have hblank : isBlank input ≠ true := by
      intro h
      cases (nextObject_of_blank h).symm.trans hnext
    have hnext' : nextObject input = some (v, rest) := hnext
    simp only [objectEnv, if_neg hblank, hnext', hinto]
  blank into input hblank := by simp only [objectEnv, if_pos hblank]
  malformed into input hblank hnext := by
    have hnext' : nextObject input = none := hnext
    simp only [objectEnv, hblank, Bool.false_eq_true, if_false, hnext']
    exact ⟨_, rfl, by decide⟩
  mistyped into input v rest hnext hinto := by
    have hblank : isBlank input ≠ true := by
      intro h
      cases (nextObject_of_blank h).symm.trans hnext
    have hnext' : nextObject input = some (v, rest) := hnext
    simp only [objectEnv, if_neg hblank, hnext', hinto]
    exact ⟨_, rfl, by decide⟩

def jsonRequest (content : String) : JsonRequest :=
  ⟨setHeader ∅ "Content-Type" "application/json", ⟨bytes content, none⟩⟩

theorem meets_iff_object : Meets objectEnv objectEnv.emptyStruct (jsonRequest " \x7b\x7d ") 100 ↔
    ¬SecondValue objectEnv objectEnv.emptyStruct (jsonRequest " \x7b\x7d ") 100 :=
  meets_iff lawful_objectEnv

/-- Two objects are answered with an error, and the result is nil. -/
theorem two_objects :
    ¬Meets objectEnv objectEnv.emptyStruct (jsonRequest "\x7b\x7d \x7b\x7d") 100 := by
  intro h
  have hanswer := (h ⟨[], [], ()⟩).1.mp rfl
  exact absurd hanswer (by decide)

end GoraddServe.JsonBody
