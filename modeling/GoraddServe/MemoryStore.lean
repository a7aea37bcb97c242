import GoraddServe.SessionManager

/-!
# Sessions in memory

A manager of sessions in memory, whose new tokens are longer than all that it has issued. It
keeps the laws.
-/
namespace GoraddServe.MemoryStore
open GoMaps ResponseWriters SessionData SessionManager

structure Store where
  entries : GoMap String SessionMap
  issued : List String
  known : ∀ t, entries.get t ≠ none → t ∈ issued

structure Context where
  token : Option String
  data : Option SessionMap

namespace Store

def Issued (store : Store) (t : String) : Prop := t ∈ store.issued

def newToken (store : Store) : String :=
  String.ofList ((store.issued.map String.toList).flatten ++ ['a'])

theorem newToken_notMem (store : Store) : store.newToken ∉ store.issued := by
  intro hmem
  have hsub : List.Sublist store.newToken.toList (store.issued.map String.toList).flatten :=
    List.sublist_flatten_of_mem (List.mem_map_of_mem hmem)
  have hle := hsub.length_le
  rw [newToken, String.toList_ofList, List.length_append, List.length_singleton] at hle
  omega

def issue (store : Store) (t : String) : Store where
  entries := store.entries
  issued := t :: store.issued
  known k hk := List.mem_cons_of_mem _ (store.known k hk)

/-- Store data under a token, or delete what is there. -/
def write (store : Store) (t : String) (data : Option SessionMap) : Store where
  entries := match data with
    | some data => store.entries.set t data
    | none => store.entries.delete t
  issued := t :: store.issued
  known k hk := by
    rw [List.mem_cons]
    by_cases hkt : k = t
    · exact .inl hkt
    · cases data with
      | some data => exact .inr (store.known k (by simpa [GoMap.get_set, hkt] using hk))
      | none => exact .inr (store.known k (by simpa [GoMap.get_delete, hkt] using hk))

theorem write_get (store : Store) (t k : String) (data : Option SessionMap) :
    (store.write t data).entries.get k = if k = t then data else store.entries.get k := by
  cases data with
  | some data => exact GoMap.get_set store.entries t k data
  | none => exact GoMap.get_delete store.entries t k

end Store

def memoryManager : ScsSessionManager Store Context Unit where
  cookieName := "session"
  load store t := .ok (match store.entries.get t with
    | some data => ⟨some t, some data⟩
    | none => ⟨none, none⟩)
  get c key := if key = scsSessionDataKey then c.data else none
  put c key data := if key = scsSessionDataKey then { c with data := some data } else c
  renewToken store c :=
    let t := store.newToken
    let store := match c.token with
      | some old => store.write old none
      | none => store
    (store.issue t, .ok { c with token := some t })
  commit store c :=
    let t := c.token.getD store.newToken
    (store.write t c.data, .ok (t, ()))
  clear c := .ok { c with data := none }
  writeSessionCookie header t _ :=
    header.set "Set-Cookie" ((header.get "Set-Cookie").getD [] ++ ["session=" ++ t])

theorem lawful_memoryManager :
    Lawful memoryManager (fun store t => store.entries.get t) Context.token Store.Issued where
  issued store t := store.known t
  load store t := by
    refine ⟨_, rfl, ?_⟩
    cases store.entries.get t <;> simp [memoryManager]
  get_put c data := by simp [memoryManager]
  token_put c data := by simp [memoryManager]
  renewToken store c := by
    refine ⟨_, _, _, rfl, rfl, store.newToken_notMem, ?_, ?_⟩
    · intro k hk
      cases c.token with
      | none => exact List.mem_cons_of_mem _ hk
      | some old => exact List.mem_cons_of_mem _ (List.mem_cons_of_mem _ hk)
    · intro k
      cases c.token with
      | none => simp [Store.issue]
      | some old => simp [Store.issue, Store.write_get, eq_comm]
  commit store c := by
    refine ⟨_, _, _, rfl, ?_, ?_, ?_⟩
    · cases c.token with
      | none => exact .inr ⟨rfl, store.newToken_notMem⟩
      | some t => exact .inl rfl
    · exact fun k hk => List.mem_cons_of_mem _ hk
    · intro k
      simp [Store.write_get, memoryManager]
  clear c := ⟨_, rfl⟩
  cookie header t expiry := by
    intro h
    simp only [memoryManager, GoMap.get_set, if_true] at h
    cases hold : header.get "Set-Cookie" <;> simp [hold] at h

end GoraddServe.MemoryStore
