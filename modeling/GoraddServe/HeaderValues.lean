import GoraddServe.ResponseWriters
import Mathlib.Data.List.DropRight

/-!
# Values of header fields

A field has a value and parameters after it, which are set off by semicolons.
-/
namespace GoraddServe.HeaderValues
open GoMaps ResponseWriters

/-- `header.Get(key)` -/
def getHeader (header : Header) (key : String) : String :=
  ((header.get (canonicalHeaderKey key)).getD []).headD ""

/-- `unicode.IsSpace(r)` -/
def isSpace (c : Char) : Bool :=
  let n := c.toNat
  (9 ≤ n && n ≤ 13) || n == 32 || n == 0x85 || n == 0xA0 || n == 0x1680 ||
    (0x2000 ≤ n && n ≤ 0x200A) || n == 0x2028 || n == 0x2029 || n == 0x202F || n == 0x205F ||
    n == 0x3000

/-- `strings.TrimSpace(s)` -/
def trimSpace (s : List Char) : List Char := (s.dropWhile isSpace).rdropWhile isSpace

def Trimmed (s : List Char) : Prop :=
  (∀ c ∈ s.head?, isSpace c = false) ∧ ∀ c ∈ s.getLast?, isSpace c = false

theorem trimSpace_sublist (s : List Char) : (trimSpace s).Sublist s :=
  (List.rdropWhile_prefix isSpace _).sublist.trans (List.dropWhile_sublist isSpace)

theorem trimSpace_eq_self_iff {s : List Char} : trimSpace s = s ↔ Trimmed s := by
  have hhead : s.dropWhile isSpace = s ↔ ∀ c ∈ s.head?, isSpace c = false := by
    cases s with
    | nil => simp
    | cons c s => simp [List.dropWhile_eq_self_iff]
  have hlast : s.rdropWhile isSpace = s ↔ ∀ c ∈ s.getLast?, isSpace c = false := by
    rw [List.rdropWhile_eq_self_iff]
    cases s with
    | nil => simp
    | cons c s => simp [List.getLast?_eq_some_getLast]
  rw [Trimmed, ← hhead, ← hlast]
  constructor
  · intro h
    have hdrop : s.dropWhile isSpace = s := by
      refine (List.dropWhile_sublist isSpace).eq_of_length_le ?_
      exact (congrArg List.length h).ge.trans (List.rdropWhile_prefix isSpace _).length_le
    rw [trimSpace, hdrop] at h
    exact ⟨hdrop, h⟩
  · rintro ⟨hdrop, hrdrop⟩
    rw [trimSpace, hdrop, hrdrop]

theorem trimmed_of_length {s : List Char} (h : (trimSpace s).length = s.length) : Trimmed s :=
  trimSpace_eq_self_iff.mp ((trimSpace_sublist s).eq_of_length h)

/-- A parameter is put into the map, which is made for the first one. -/
def parseParam (params : Option (GoMap String String)) (part : List Char) :
    Option (GoMap String String) :=
  let p := trimSpace part
  if '=' ∈ p then
    some ((params.getD ∅).set (String.ofList (p.takeWhile (· ≠ '=')))
      (String.ofList ((p.dropWhile (· ≠ '=')).drop 1)))
  else params

/-- `ParseValueAndParams(in)`; the map may be nil. -/
def parseValueAndParams (s : String) : String × Option (GoMap String String) :=
  match s.toList.splitOn ';' with
  | [] => ("", none)
  | part :: parts => (String.ofList (trimSpace part), parts.foldl parseParam none)

example : (parseValueAndParams " application/json ; charset=utf-8").1 = "application/json" := by
  decide

end GoraddServe.HeaderValues
