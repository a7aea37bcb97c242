import GoraddServe.GoMaps

/-!
# Session data

The data of a session is a map from keys to values, and the operations of the package act on
one key each, except `Clear`. The request for a new token is itself an entry of this map.
-/
namespace GoraddServe.SessionData
open GoMaps

/-- What the operations of the package put into a session; floats are given by their bits, and
any other serializable value by its encoding. -/
inductive Value where
  | int (v : Int)
  | bool (v : Bool)
  | float64 (bits : UInt64)
  | float32 (bits : UInt32)
  | string (v : String)
  | strings (v : List String)
  | other (encoding : String)
  deriving DecidableEq

abbrev SessionMap := GoMap String Value

def sessionResetKey : String := "goradd.reset"

/-- `a, _ = v.([]string)`, and a nil slice when there is no value. -/
def strings : Option Value → List String
  | some (.strings a) => a
  | _ => []

namespace SessionMap

def pushStack (data : SessionMap) (stack value : String) : SessionMap :=
  data.set stack (.strings (strings (data.get stack) ++ [value]))

def popStack (data : SessionMap) (stack : String) : String × SessionMap :=
  let a := strings (data.get stack)
  let value := a.getLast?.getD ""
  let a := a.dropLast
  (value, if a.length = 0 then data.delete stack else data.set stack (.strings a))

def clearStack (data : SessionMap) (stack : String) : SessionMap := data.delete stack

def reset (data : SessionMap) : SessionMap := data.set sessionResetKey (.bool true)

end SessionMap

/-- The operations that change a session. -/
inductive SessionOp where
  | set (key : String) (v : Value)
  | remove (key : String)
  | clear
  | reset
  | pushStack (stack value : String)
  | popStack (stack : String)
  | clearStack (stack : String)

namespace SessionOp

def setInt (key : String) (v : Int) : SessionOp := .set key (.int v)

def setBool (key : String) (v : Bool) : SessionOp := .set key (.bool v)

def setFloat64 (key : String) (bits : UInt64) : SessionOp := .set key (.float64 bits)

def setFloat32 (key : String) (bits : UInt32) : SessionOp := .set key (.float32 bits)

def setString (key : String) (v : String) : SessionOp := .set key (.string v)

def apply : SessionOp → SessionMap → SessionMap
  | .set key v, data => data.set key v
  | .remove key, data => data.delete key
  | .clear, _ => ∅
  | .reset, data => data.reset
  | .pushStack stack value, data => data.pushStack stack value
  | .popStack stack, data => (data.popStack stack).2
  | .clearStack stack, data => data.clearStack stack

def Touches (k : String) : SessionOp → Prop
  | .set key _ | .remove key => key = k
  | .clear => True
  | .reset => sessionResetKey = k
  | .pushStack stack _ | .popStack stack | .clearStack stack => stack = k

/-- What the operation makes of the value at a key. -/
def effect (k : String) : SessionOp → Option Value → Option Value
  | .set key v, old => if k = key then some v else old
  | .remove key, old => if k = key then none else old
  | .clear, _ => none
  | .reset, old => if k = sessionResetKey then some (.bool true) else old
  | .pushStack stack value, old =>
    if k = stack then some (.strings (strings old ++ [value])) else old
  | .popStack stack, old =>
    if k = stack then
      if (strings old).dropLast.length = 0 then none else some (.strings (strings old).dropLast)
    else old
  | .clearStack stack, old => if k = stack then none else old

theorem get_apply (op : SessionOp) (data : SessionMap) (k : String) :
    (op.apply data).get k = op.effect k (data.get k) := by
  cases op with
  | set key v => exact GoMap.get_set data key k v
  | remove key => exact GoMap.get_delete data key k
  | clear => exact GoMap.get_empty k
  | reset => exact GoMap.get_set data sessionResetKey k (.bool true)
  | pushStack stack value =>
    rw [apply, SessionMap.pushStack, GoMap.get_set, effect]
    split
    · rename_i hk
      rw [hk]
    · rfl
  | popStack stack =>
    rw [apply, SessionMap.popStack, effect]
    by_cases hk : k = stack
    · subst hk
      dsimp only
      split
      · simp [GoMap.get_delete, *]
      · simp [GoMap.get_set, *]
    · dsimp only
      rw [if_neg hk]
      split
      · rw [GoMap.get_delete, if_neg hk]
      · rw [GoMap.get_set, if_neg hk]
  | clearStack stack => exact GoMap.get_delete data stack k

/-- What the operations make of a session, one after another. -/
def run (ops : List SessionOp) (data : SessionMap) : SessionMap :=
  ops.foldl (fun data op => op.apply data) data

theorem get_run (ops : List SessionOp) (data : SessionMap) (k : String) :
    (run ops data).get k = ops.foldl (fun v op => op.effect k v) (data.get k) := by
  induction ops generalizing data with
  | nil => rfl
  | cons op ops ih =>
    rw [List.foldl_cons, ← get_apply]
    exact ih (op.apply data)

theorem effect_of_not_touches {op : SessionOp} {k : String} (h : ¬op.Touches k)
    (v : Option Value) : op.effect k v = v := by
  cases op with
  | clear => exact absurd trivial h
  | _ => exact if_neg fun hk => h hk.symm

end SessionOp

end GoraddServe.SessionData
