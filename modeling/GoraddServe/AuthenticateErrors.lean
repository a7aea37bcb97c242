import GoraddServe.AbandonedHeaders
import GoraddServe.HeaderValues
import Mathlib.Data.Finset.Sort
import Mathlib.Data.String.Basic

/-!
# Authentication challenges

`SetAuthenticateError` gets a copy of the error, and puts the challenge into the map of headers
that the copy shares with it. An error without headers shares none, so the challenge of
`SendJsonAuthenticateError`, which starts from such an error, is lost.
-/
namespace GoraddServe.AuthenticateErrors
open GoMaps Panics ResponseWriters BufferedCalls ErrorHandler ErrorResponses AbandonedHeaders
open HeaderValues
open SessionRedirect (plainRuntime)

variable {ε : Type}

def parseAuthorizationHeader (auth : String) : String × String :=
  let before := auth.toList.takeWhile (· ≠ ' ')
  match auth.toList.dropWhile (· ≠ ' ') with
  | [] => (String.ofList before, "")
  | _ :: after => (String.ofList before, String.ofList (trimSpace after))

example : parseAuthorizationHeader "abc def" = ("abc", "def") := by decide

/-- The key and the quoted value of an entry. -/
def item (rt : Runtime) (values : GoMap String String) (k : String) : String :=
  k ++ "=" ++ rt.quote ((values.get k).getD "")

/-- The text is split into the scheme and one item for each entry of the values. -/
def Challenge (rt : Runtime) (authScheme : String) (values : GoMap String String)
    (auth : String) : Prop :=
  ∃ order, Enumerates order values.keys ∧
    parseAuthorizationHeader auth = (authScheme, " ".intercalate (order.map (item rt values)))

section Text

variable {rt : Runtime} {authScheme : String} {values : GoMap String String}

theorem parse_intercalate (hscheme : ' ' ∉ authScheme.toList) (items : List String) :
    parseAuthorizationHeader (" ".intercalate (authScheme :: items)) =
      (authScheme, String.ofList (trimSpace (" ".intercalate items).toList)) := by
  have hplain : ∀ c ∈ authScheme.toList, decide (c ≠ ' ') = true := fun c hc =>
    decide_eq_true fun h => hscheme (h ▸ hc)
  cases items with
  | nil =>
    rw [String.intercalate_singleton, parseAuthorizationHeader,
      List.dropWhile_eq_nil_iff.mpr hplain, List.takeWhile_eq_self_iff.mpr hplain]
    simp [trimSpace]
  | cons i items =>
    have htext : (" ".intercalate (authScheme :: i :: items)).toList =
        authScheme.toList ++ ' ' :: (" ".intercalate (i :: items)).toList := by
      rw [String.intercalate_cons_of_ne_nil (List.cons_ne_nil i items)]
      simp
    rw [parseAuthorizationHeader, htext, List.dropWhile_append_of_pos hplain,
      List.takeWhile_append_of_pos hplain, List.dropWhile_cons_of_neg (by simp),
      List.takeWhile_cons_of_neg (by simp)]
    simp

/-- The length of the items does not depend on their order. -/
theorem length_intercalate_perm {items items' : List String} (h : items.Perm items') :
    (" ".intercalate items).toList.length = (" ".intercalate items').toList.length := by
  have hlength : ∀ l : List String, (" ".intercalate l).toList.length =
      (l.map fun i => i.toList.length).sum + (l.length - 1) := by
    intro l
    induction l with
    | nil => rfl
    | cons i l ih =>
      cases l with
      | nil => simp
      | cons j l =>
        rw [String.intercalate_cons_cons, String.toList_append, String.toList_append,
          List.length_append, List.length_append, ih]
        simp
        omega
  rw [hlength, hlength, (h.map fun i => i.toList.length).sum_eq, h.length_eq]

/-- The first item begins the text, and the last one ends it. -/
theorem intercalate_ends (items : List String) (hitems : items ≠ []) :
    (∃ i rest, items.head? = some i ∧ " ".intercalate items = i ++ rest) ∧
      ∃ i ∈ items, ∃ rest, " ".intercalate items = rest ++ i := by
  constructor
  · cases items with
    | nil => exact absurd rfl hitems
    | cons i items =>
      cases items with
      | nil => exact ⟨i, "", rfl, by simp⟩
      | cons j items => exact ⟨i, _, rfl, by rw [String.intercalate_cons_cons, String.append_assoc]⟩
  · obtain ⟨items, i, rfl⟩ := (List.eq_nil_or_concat items).resolve_left hitems
    rw [List.concat_eq_append]
    refine ⟨i, by simp, ?_⟩
    by_cases hempty : items = []
    · exact ⟨"", by simp [hempty]⟩
    · exact ⟨_, by rw [String.intercalate_append_of_ne_nil hempty (List.cons_ne_nil i []),
        String.intercalate_singleton]⟩

/-- An item ends with the quotation mark of its value, so white space can only be in front. -/
theorem trimmed_items_iff (hquote : ∀ v, ∃ s, rt.quote v = "\"" ++ s ++ "\"")
    (order : List String) :
    Trimmed (" ".intercalate (order.map (item rt values))).toList ↔
      ∀ k ∈ order.head?, ∀ c ∈ k.toList.head?, isSpace c = false := by
  cases order with
  | nil => simp [Trimmed]
  | cons k order =>
    obtain ⟨⟨i, rest, hfirst, hhead⟩, j, hj, rest', hlast⟩ :=
      intercalate_ends ((k :: order).map (item rt values)) (by simp)
    obtain rfl : item rt values k = i := by simpa using hfirst
    obtain ⟨k', -, rfl⟩ := List.mem_map.mp hj
    obtain ⟨s, hs⟩ := hquote ((values.get k').getD "")
    have hend : ∀ c ∈ (" ".intercalate ((k :: order).map (item rt values))).toList.getLast?,
        isSpace c = false := by
      rw [hlast, item, hs, ← String.append_assoc, ← String.append_assoc, ← String.append_assoc,
        String.toList_append, show ("\"" : String).toList = ['"'] from rfl, List.getLast?_concat]
      simp
      decide
    rw [Trimmed, and_iff_left hend, hhead, item]
    cases hk : k.toList with
    | nil =>
      simp [hk]
      decide
    | cons c cs => simp [hk]

/-- The text that the code makes is a challenge unless white space is cut off its items. -/
theorem challenge_iff (hrange : ∀ m, Enumerates (rt.range m) m.keys)
    (hquote : ∀ v, ∃ s, rt.quote v = "\"" ++ s ++ "\"") (hscheme : ' ' ∉ authScheme.toList) :
    Challenge rt authScheme values
        (" ".intercalate (authScheme :: (rt.range values).map (item rt values))) ↔
      ∀ k ∈ (rt.range values).head?, ∀ c ∈ k.toList.head?, isSpace c = false := by
  rw [Challenge, parse_intercalate hscheme, ← trimmed_items_iff hquote]
  constructor
  · rintro ⟨order, horder, hparse⟩
    have htrim := congrArg String.toList (congrArg Prod.snd hparse)
    rw [String.toList_ofList] at htrim
    have hperm : (rt.range values).Perm order := List.perm_of_nodup_nodup_toFinset_eq
      (hrange values).1 horder.1 ((hrange values).2.trans horder.2.symm)
    refine trimmed_of_length ?_
    rw [htrim, length_intercalate_perm (hperm.map (item rt values))]
  · intro htrimmed
    refine ⟨rt.range values, hrange values, ?_⟩
    rw [trimSpace_eq_self_iff.mpr htrimmed, String.ofList_toList]

end Text

/-- After the call the error has a challenge, and its other headers are as before. -/
def CarriesChallenge (rt : Runtime) (e : Error) (authScheme : String)
    (values : GoMap String String) : Prop :=
  let headers := (Error.setAuthenticateError rt e authScheme values).Headers.getD ∅
  (∃ auth, headers.get "WWW-Authenticate" = some auth ∧ Challenge rt authScheme values auth) ∧
    ∀ key, key ≠ "WWW-Authenticate" → headers.get key = (e.Headers.getD ∅).get key

theorem carriesChallenge_iff {rt : Runtime} {e : Error} {authScheme : String}
    {values : GoMap String String} :
    CarriesChallenge rt e authScheme values ↔ e.Headers.isSome = true ∧
      Challenge rt authScheme values
        (" ".intercalate (authScheme :: (rt.range values).map (item rt values))) := by
  rw [CarriesChallenge, Error.setAuthenticateError]
  cases hheaders : e.Headers with
  | none => simp [hheaders]
  | some headers =>
    rw [and_iff_right (Option.isSome_some)]
    dsimp only
    rw [Error.setResponseHeader, hheaders]
    dsimp only [Option.getD_some]
    rw [GoMap.get_set, if_pos rfl]
    constructor
    · rintro ⟨⟨auth, hauth, hchallenge⟩, -⟩
      cases hauth
      exact hchallenge
    · intro hchallenge
      exact ⟨⟨_, rfl, hchallenge⟩, fun key hkey => by rw [GoMap.get_set, if_neg hkey]⟩

/-- The response goes out with a challenge, and the JSON form of the values is its body. -/
structure SendsChallenge (rt : Runtime) (authScheme : String) (values : GoMap String String)
    (z : Exchange ε) (result : Except PanicValue Unit × Exchange ε) : Prop where
  returns : result.1 = .ok ⟨⟩
  header : ∃ auth, (status result.2).2.get "Www-Authenticate" = some [auth] ∧
    Challenge rt authScheme values auth
  body : result.2.server.body = z.server.body ++ bytes (rt.marshal values)

/-- net/http takes the code, and the response has a body. -/
def TakesBody (code : Int) : Prop :=
  100 ≤ code ∧ code ≤ 999 ∧ code ≠ 101 ∧ code ≠ 204 ∧ code ≠ 304

instance (code : Int) : Decidable (TakesBody code) := inferInstanceAs (Decidable (_ ∧ _))

section Response

variable {rt : Runtime} {authScheme : String} {values : GoMap String String} {e : Error}
  {z : Exchange ε} {code : Int}

/-- The message is the body, unless the code is one of a response without a body or the
`Content-Length` is too short. -/
theorem body_sendError_iff (hsent : z.server.sent = none) (hmessage : e.Message ≠ "")
    (hcode : 100 ≤ e.ErrCode ∧ e.ErrCode ≤ 999) :
    (outcome (sendError e) z).2.server.body = z.server.body ++ bytes e.Message ↔
      TakesBody e.ErrCode ∧ Fits (contentLength z.server.header) (bytes e.Message) := by
  have hbytes : bytes e.Message ≠ [] := fun h => hmessage (bytes_eq_nil.mp h)
  by_cases hfinal : Final e.ErrCode
  · obtain ⟨y, hsend, hgot⟩ := got_sendError (z := z) (.inr hfinal)
    have hallowed : bodyAllowed e.ErrCode = true ↔ TakesBody e.ErrCode := by
      unfold Final at hfinal
      simp [bodyAllowed, TakesBody]
      omega
    have hroom : roomFor z z.server.header = contentLength z.server.header :=
      if_neg (by simp [hsent])
    rw [hsend, hgot.body, statusFor, hsent, hroom, errorWrites, if_pos hmessage,
      List.flatten_singleton, Option.elim_none, List.append_cancel_left_eq, taken_eq_self,
      or_iff_right hbytes, takes_iff, hallowed]
  · -- the write sends the status 200 after the early one
    have hearly : 100 ≤ e.ErrCode ∧ e.ErrCode < 200 ∧ e.ErrCode ≠ 101 := by
      unfold Final at hfinal
      omega
    have htakes : TakesBody e.ErrCode := ⟨hcode.1, hcode.2, hearly.2.2, by omega, by omega⟩
    obtain ⟨result, y, hwrite, -, -, hbody, -⟩ :=
      server_write (z.record (.writeHeader e.ErrCode)) (bytes e.Message)
    have hstatus : (status (z.record (.writeHeader e.ErrCode))).1 = 200 := by
      rw [status, Exchange.record, hsent]
      rfl
    have hroom : room (z.record (.writeHeader e.ErrCode)) = contentLength z.server.header :=
      if_neg (by simp [Exchange.record, hsent])
    have hsend : (outcome (sendError e) z).2.server.body = y.server.body := by
      rw [sendError, outcome_bind_ok (writeHeader_early (by simp [hsent]) hearly), if_pos hmessage,
        outcome_bind_ok hwrite]
      rfl
    rw [hsend, hbody, hstatus, hroom]
    refine List.append_cancel_left_eq .. |>.to_iff.trans ?_
    rw [taken_eq_self, or_iff_right hbytes, takes_iff, and_iff_right htakes]
    exact and_iff_right rfl

/-- What the function panics with has no challenge, whatever the scheme is. -/
def jsonError (rt : Runtime) (code : Int) (values : GoMap String String) : Error :=
  { ErrCode := code, Message := rt.marshal values,
    Headers := some ((∅ : GoMap String String).set "Content-Type" "application/json") }

theorem sendJsonAuthenticateError_eq : sendJsonAuthenticateError rt code authScheme values =
    .httpError (jsonError rt code values) := rfl

theorem get_override_jsonError (header : Header) {key : String} (hkey : key ≠ "Content-Type") :
    (override rt (jsonError rt code values) header).get key = header.get key := by
  refine get_foldl_of_notMem fun k _ => ?_
  rintro ⟨hk, rfl⟩
  rw [jsonError, Option.getD_some, GoMap.has_set] at hk
  obtain rfl : k = "Content-Type" := hk.resolve_right (by simp [GoMap.has])
  exact hkey (by decide)

/-- The challenge that the response has is the one that the header map has had before. -/
theorem sendsChallenge_iff (hmarshal : ∀ m, rt.marshal m ≠ "") {h : Handler ε} {r : Request}
    {x : Exchange ε} (hsent : z.server.sent = none) (hpanics : outcome (h .server r) x =
      (.error (sendJsonAuthenticateError rt code authScheme values), z)) :
    SendsChallenge rt authScheme values z (outcome (withErrorHandler rt h .server r) x) ↔
      (TakesBody code ∧ Fits (contentLength z.server.header) (bytes (rt.marshal values))) ∧
        ∃ auth, z.server.header.get "Www-Authenticate" = some [auth] ∧
          Challenge rt authScheme values auth := by
  rw [withErrorHandler, outcome_tryCatch_error hpanics, sendJsonAuthenticateError_eq,
    respond_override]
  generalize hheader : override rt (jsonError rt code values) z.server.header = header
  have hget : header.get "Www-Authenticate" = z.server.header.get "Www-Authenticate" :=
    hheader ▸ get_override_jsonError z.server.header (by decide)
  have hlength : contentLength header = contentLength z.server.header := by
    rw [contentLength, contentLength, ← hheader, get_override_jsonError _ (by decide)]
  have hsends : ∀ header', SendsHeader header' (outcome (sendError (jsonError rt code values))
      { z with server.header := header }) ↔ (100 ≤ code ∧ code ≤ 999) ∧ header = header' := by
    intro header'
    rw [sendsHeader_sendError_iff, status, hsent]
    simp [jsonError]
  have hbody : 100 ≤ code ∧ code ≤ 999 → ((outcome (sendError (jsonError rt code values))
      { z with server.header := header }).2.server.body =
        z.server.body ++ bytes (rt.marshal values) ↔ TakesBody code ∧
          Fits (contentLength header) (bytes (rt.marshal values))) :=
    body_sendError_iff (z := { z with server.header := header }) (e := jsonError rt code values)
      hsent (hmarshal values)
  rw [hlength] at hbody
  generalize outcome (sendError (jsonError rt code values))
    { z with server.header := header } = result at hsends hbody ⊢
  constructor
  · intro h
    obtain ⟨hcode, hheader⟩ := (hsends _).mp ⟨h.returns, rfl⟩
    obtain ⟨auth, hauth, hchallenge⟩ := h.header
    exact ⟨(hbody hcode).mp h.body, auth, hget ▸ hheader ▸ hauth, hchallenge⟩
  · rintro ⟨htakes, auth, hauth, hchallenge⟩
    have hcode : 100 ≤ code ∧ code ≤ 999 := ⟨htakes.1.1, htakes.1.2.1⟩
    obtain ⟨hreturns, hstatus⟩ := (hsends header).mpr ⟨hcode, rfl⟩
    exact ⟨hreturns, ⟨auth, by rw [hstatus, hget, hauth], hchallenge⟩, (hbody hcode).mpr htakes⟩

end Response

/-- `SetAuthenticateError` reaches an error that has headers, and the challenge of
`SendJsonAuthenticateError` reaches no response. -/
theorem challenge_reaches_iff {rt : Runtime} (hrange : ∀ m, Enumerates (rt.range m) m.keys)
    (hquote : ∀ v, ∃ s, rt.quote v = "\"" ++ s ++ "\"") (hmarshal : ∀ m, rt.marshal m ≠ "")
    {authScheme : String} (hscheme : ' ' ∉ authScheme.toList) (values : GoMap String String) :
    (∀ e : Error, CarriesChallenge rt e authScheme values ↔ e.Headers.isSome = true ∧
      ∀ k ∈ (rt.range values).head?, ∀ c ∈ k.toList.head?, isSpace c = false) ∧
    ∀ (code : Int) (h : Handler ε) (r : Request) (x z : Exchange ε), z.server.sent = none →
      outcome (h .server r) x =
        (.error (sendJsonAuthenticateError rt code authScheme values), z) →
      (SendsChallenge rt authScheme values z (outcome (withErrorHandler rt h .server r) x) ↔
        (TakesBody code ∧ Fits (contentLength z.server.header) (bytes (rt.marshal values))) ∧
          ∃ auth, z.server.header.get "Www-Authenticate" = some [auth] ∧
            Challenge rt authScheme values auth) := by
  constructor
  · intro e
    rw [carriesChallenge_iff, challenge_iff hrange hquote hscheme]
  · intro code h r x z hsent hpanics
    exact sendsChallenge_iff hmarshal hsent hpanics

/-- The choices of a run in which ranges are in the order of the keys, as JSON objects are. -/
def sortedRuntime : Runtime :=
  { plainRuntime with
    range := fun m => m.keys.sort
    marshal := fun m => "\x7b" ++ ",".intercalate (m.keys.sort.map fun k =>
      "\"" ++ k ++ "\":\"" ++ (m.get k).getD "" ++ "\"") ++ "\x7d" }

theorem enumerates_sortedRuntime (m : GoMap String String) :
    Enumerates (sortedRuntime.range m) m.keys :=
  ⟨Finset.sort_nodup .., Finset.sort_toFinset ..⟩

theorem sortedRuntime_marshal_ne (m : GoMap String String) : sortedRuntime.marshal m ≠ "" := by
  intro h
  simpa [sortedRuntime] using congrArg String.toList h

/-- The realm of a page that needs a user. -/
def realm : GoMap String String := (∅ : GoMap String String).set "realm" "shop"

theorem mem_range_realm {k : String} (hk : k ∈ (sortedRuntime.range realm).head?) :
    k = "realm" := by
  have hkeys := (enumerates_sortedRuntime realm).mem_iff k
  rw [GoMap.mem_keys_iff, realm, GoMap.has_set] at hkeys
  exact (hkeys.mp (List.mem_of_mem_head? hk)).resolve_right (by simp [GoMap.has])

/-- An error that has a header gets the challenge, and the answer to a request does not. -/
theorem challenge_reaches_iff_realm :
    CarriesChallenge sortedRuntime plainError "Basic" realm ∧
      ¬SendsChallenge sortedRuntime "Basic" realm freshExchange
        (outcome (withErrorHandler sortedRuntime (fun _ _ => throw
          (sendJsonAuthenticateError sortedRuntime 401 "Basic" realm)) .server plainRequest)
          freshExchange) := by
  have hboth := challenge_reaches_iff (ε := Unit) enumerates_sortedRuntime (fun v => ⟨v, rfl⟩)
    sortedRuntime_marshal_ne (show ' ' ∉ "Basic".toList by decide) realm
  constructor
  · refine (hboth.1 plainError).mpr ⟨rfl, fun k hk => ?_⟩
    obtain rfl := mem_range_realm hk
    intro c hc
    obtain rfl : 'r' = c := Option.some.inj hc
    decide
  · intro hsends
    obtain ⟨-, auth, hauth, -⟩ := (hboth.2 401 _ _ _ _ rfl rfl).mp hsends
    cases hauth

/-- The answer to a request without a user, of which the browser is to ask for one. -/
theorem challenge_lost :
    ¬CarriesChallenge sortedRuntime { ErrCode := 401 } "Basic" realm ∧
      ¬SendsChallenge sortedRuntime "Basic" realm freshExchange
        (outcome (withErrorHandler sortedRuntime (fun _ _ => throw
          (sendJsonAuthenticateError sortedRuntime 401 "Basic" realm)) .server plainRequest)
          freshExchange) := by
  constructor
  · intro hcarries
    cases (carriesChallenge_iff.mp hcarries).1
  · intro hsends
    obtain ⟨-, auth, hauth, -⟩ := (sendsChallenge_iff sortedRuntime_marshal_ne rfl rfl).mp hsends
    cases hauth

end GoraddServe.AuthenticateErrors
