import Mathlib

set_option autoImplicit false

/-!
# JSON values

The alternatives of `nlohmann::json`, over the type `S` of strings and the type
`D` of floating-point numbers. An object lists its members in the order in which
they are visited.
-/
namespace CrowCore.JsonValue

inductive Json (S D : Type) where
  | null
  | boolean (b : Bool)
  | number_integer (n : Int64)
  | number_unsigned (n : UInt64)
  | number_float (x : D)
  | string (s : S)
  | array (elements : List (Json S D))
  | object (members : List (S × Json S D))
  | discarded
  | binary

inductive JsonError where
  | type_error
deriving DecidableEq, Repr

namespace Json
variable {S D : Type}

def isObject : Json S D → Bool
  | .object _ => true
  | _ => false

def isArray : Json S D → Bool
  | .array _ => true
  | _ => false

/-- `get_ptr<int64_t*>`, which reads unsigned numbers too. -/
def getInt64 : Json S D → Option Int64
  | .number_integer n => some n
  | .number_unsigned n => some n.toInt64
  | _ => none

def getUint64 : Json S D → Option UInt64
  | .number_unsigned n => some n
  | _ => none

def getBool : Json S D → Option Bool
  | .boolean b => some b
  | _ => none

def getString : Json S D → Option S
  | .string s => some s
  | _ => none

/-- `items()`: the keys of an array are its indices, the key of a scalar is empty. -/
def items : Json String D → List (String × Json String D)
  | .object members => members
  | .array elements => elements.zipIdx.map fun element => (toString element.2, element.1)
  | .null => []
  | j => [("", j)]

variable [BEq S]

def find (key : S) : Json S D → Option (Json S D)
  | .object members => members.lookup key
  | _ => none

/-- The members after `f` has changed the one with this key; a missing one is
inserted as null first. -/
def modifyMember (key : S) (f : Json S D → Except JsonError (Json S D)) :
    List (S × Json S D) → Except JsonError (List (S × Json S D))
  | [] => do
    let val ← f .null
    return [(key, val)]
  | (name, val) :: members =>
    if key == name then do
      let val ← f val
      return (name, val) :: members
    else do
      let members ← modifyMember key f members
      return (name, val) :: members

def modify (target : Json S D) (key : S) (f : Json S D → Except JsonError (Json S D)) :
    Except JsonError (Json S D) :=
  match target with
  | .null => do return .object (← modifyMember key f [])
  | .object members => do return .object (← modifyMember key f members)
  | _ => throw .type_error

def set (target : Json S D) (key : S) (val : Json S D) : Except JsonError (Json S D) :=
  target.modify key fun _ => return val

def pushBack (target val : Json S D) : Except JsonError (Json S D) :=
  match target with
  | .null => return .array [val]
  | .array elements => return .array (elements ++ [val])
  | _ => throw .type_error

def lookupPath : List S → Json S D → Option (Json S D)
  | [], j => some j
  | name :: path, j => (j.find name).bind (lookupPath path)

end Json

section Reread
variable {S D : Type}

mutual

/-- A value as it is parsed again: an integer that is not negative is unsigned. -/
def reread : Json S D → Json S D
  | .number_integer n => if 0 ≤ n then .number_unsigned n.toUInt64 else .number_integer n
  | .object members => .object (rereadMembers members)
  | .array elements => .array (rereadElements elements)
  | j => j

def rereadMembers : List (S × Json S D) → List (S × Json S D)
  | [] => []
  | (key, val) :: members => (key, reread val) :: rereadMembers members

def rereadElements : List (Json S D) → List (Json S D)
  | [] => []
  | val :: elements => reread val :: rereadElements elements

end

theorem rereadMembers_eq (members : List (S × Json S D)) :
    rereadMembers members = members.map fun member => (member.1, reread member.2) := by
  induction members with
  | nil => rfl
  | cons member members ih => rw [rereadMembers, ih, List.map_cons]

theorem rereadElements_eq (elements : List (Json S D)) :
    rereadElements elements = elements.map reread := by
  induction elements with
  | nil => rfl
  | cons val elements ih => rw [rereadElements, ih, List.map_cons]

theorem getInt64_reread (n : Int64) :
    (reread (.number_integer n : Json S D)).getInt64 = some n := by
  rw [reread]
  split_ifs <;> simp [Json.getInt64]

end Reread

section Unique
variable {S D : Type}

mutual

def Unique : Json S D → Prop
  | .object members => (members.map Prod.fst).Nodup ∧ UniqueMembers members
  | .array elements => UniqueElements elements
  | _ => True

def UniqueMembers : List (S × Json S D) → Prop
  | [] => True
  | (_, val) :: members => Unique val ∧ UniqueMembers members

def UniqueElements : List (Json S D) → Prop
  | [] => True
  | val :: elements => Unique val ∧ UniqueElements elements

end

end Unique

section Except
variable {ε α β : Type} {x : Except ε α} {f : α → Except ε β}

theorem bind_ok {b : β} : x >>= f = .ok b ↔ ∃ a, x = .ok a ∧ f a = .ok b := by
  cases x <;> simp [bind, Except.bind]

end Except

end CrowCore.JsonValue
