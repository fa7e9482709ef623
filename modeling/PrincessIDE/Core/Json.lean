import Mathlib.Algebra.Group.Int.Defs
import PrincessIDE.Foundation.Utf8

namespace PrincessIDE
open Utf8

inductive Json where
  | null
  | bool (value : Bool)
  | int (value : Int)
  | float (text : Text)
  | str (value : Text)
  | arr (items : List Json)
  | obj (fields : List (Text × Json))

namespace Json

def get (key : String) : Json → Option Json
  | obj fields => fields.lookup key.toList
  | _ => none

def asStr : Json → Option Text
  | str value => some value
  | _ => none

def asBool : Json → Option Bool
  | bool value => some value
  | _ => none

def asI64 : Json → Option Int
  | int value => if -2^63 ≤ value ∧ value < 2^63 then some value else none
  | _ => none

def asU64 : Json → Option Nat
  | int value => if 0 ≤ value ∧ value < 2^64 then some value.toNat else none
  | _ => none

def asArray : Json → Option (List Json)
  | arr items => some items
  | _ => none

-- `Value::pointer` for paths of object keys.
def pointer (path : List String) (value : Json) : Option Json := path.foldlM (fun value key => value.get key) value

end Json
end PrincessIDE
