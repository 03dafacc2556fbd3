import Gust.Lib.Text

/-!
# JSON documents

A document as a reader holds it once it is parsed, and the accessors that pick values out of
it. An accessor asks for one kind of value and answers `none` for every other kind, so a chain
of them never fails, it only finds nothing.
-/

namespace Gust.Lib

/-- Integers keep their exact value; what is not an integer is the bits of a double. -/
inductive Json.Number
  | posInt (n : UInt64)
  | negInt (n : Int64)
  | float (bits : UInt64)
  deriving DecidableEq, Repr

/-- A document. An object is the list of its members, and no key occurs twice. -/
inductive Json
  | null
  | bool (b : Bool)
  | number (n : Json.Number)
  | string (s : Str)
  | array (items : List Json)
  | object (members : List (String × Json))

namespace Json

/-- The member of an object, if the value is one and has it. -/
def get (v : Json) (key : String) : Option Json :=
  match v with
  | .object members => members.lookup key
  | _ => none

def asArray : Json → Option (List Json)
  | .array items => some items
  | _ => none

def asStr : Json → Option Str
  | .string s => some s
  | _ => none

def asU64 : Json → Option UInt64
  | .number (.posInt n) => some n
  | _ => none

@[simp] theorem get_object (members : List (String × Json)) (key : String) :
    (object members).get key = members.lookup key := rfl

@[simp] theorem asU64_posInt (n : UInt64) : asU64 (.number (.posInt n)) = some n := rfl

@[simp] theorem asStr_string (s : Str) : asStr (.string s) = some s := rfl

@[simp] theorem asArray_array (items : List Json) : asArray (.array items) = some items := rfl

end Json

end Gust.Lib
