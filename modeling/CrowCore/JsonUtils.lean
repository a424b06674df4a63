import CrowCore.ErrorMessages

set_option autoImplicit false

/-!
# Reading a JSON body

`readJsonHelper` distributes the members of an object over a list of outputs. The
keys are paths: those that begin with the name of a member are passed on to a
call for its value. Each member is read once, so that what a move leaves of it
does not matter.
-/
namespace CrowCore.JsonUtils
open JsonValue ErrorMessages

inductive Scalar where
  | uint8
  | uint16
  | int16
  | uint32
  | int32
  | uint64
  | int64
  | bool
  | double
  | string
  | json
deriving DecidableEq, Repr

/-- `UnpackVariant`, which has no vector of `bool`. -/
inductive UnpackType where
  | one (t : Scalar)
  | vector (t : Scalar) (h : t ≠ .bool)
  | optional (t : Scalar)
  | optionalVector (t : Scalar) (h : t ≠ .bool)
deriving DecidableEq

def UnpackType.isOptional : UnpackType → Bool
  | .optional _ | .optionalVector _ _ => true
  | _ => false

inductive ScalarValue (D : Type) where
  | integer (n : ℤ)
  | bool (b : Bool)
  | double (x : D)
  | string (s : Text)
  | json (j : Json Text D)

inductive PlainValue (D : Type) where
  | one (value : ScalarValue D)
  | vector (values : List (ScalarValue D))

/-- What a pointer of `UnpackVariant` points to. -/
inductive Output (D : Type) where
  | plain (value : PlainValue D)
  | optional (value : Option (PlainValue D))

def Output.elements {D : Type} : Output D → List (ScalarValue D)
  | .plain (.vector values) => values
  | _ => []

inductive UnpackErrorCode where
  | invalidType
  | outOfRange
deriving DecidableEq, Repr

/-- `static_cast<double>`, `checkRange<double>` and 0.0. -/
structure Doubles (D : Type) where
  ofInt64 : Int64 → D
  inRange : D → Bool
  zero : D

section Unpack
variable {D : Type} (F : Doubles D) (R : Registry D)

def getDouble : Json Text D → Option D
  | .number_float x => some x
  | jsonValue => jsonValue.getInt64.map F.ofInt64

def checkRange (lowest max : ℤ) (n : ℤ) : Except UnpackErrorCode (ScalarValue D) :=
  if n > max ∨ n < lowest then throw .outOfRange else return .integer n

def unpackSigned (bits : ℕ) (jsonValue : Json Text D) : Except UnpackErrorCode (ScalarValue D) :=
  match jsonValue.getInt64 with
  | none => throw .invalidType
  | some n => checkRange (-2 ^ (bits - 1)) (2 ^ (bits - 1) - 1) n.toInt

def unpackUnsigned (bits : ℕ) (jsonValue : Json Text D) : Except UnpackErrorCode (ScalarValue D) :=
  match jsonValue.getUint64 with
  | none => throw .invalidType
  | some n => checkRange 0 (2 ^ bits - 1) n.toNat

def unpackValueWithErrorCode (t : Scalar) (jsonValue : Json Text D) :
    Except UnpackErrorCode (ScalarValue D) :=
  match t with
  | .double =>
    match getDouble F jsonValue with
    | none => throw .invalidType
    | some x => if F.inRange x then return .double x else throw .outOfRange
  | .int16 => unpackSigned 16 jsonValue
  | .int32 => unpackSigned 32 jsonValue
  | .int64 => unpackSigned 64 jsonValue
  | .uint8 => unpackUnsigned 8 jsonValue
  | .uint16 => unpackUnsigned 16 jsonValue
  | .uint32 => unpackUnsigned 32 jsonValue
  | .uint64 => unpackUnsigned 64 jsonValue
  | .json => return .json jsonValue
  | .bool =>
    match jsonValue with
    | .boolean b => return .bool b
    | _ => throw .invalidType
  | .string =>
    match jsonValue with
    | .string s => return .string s
    | _ => throw .invalidType

def Scalar.initial : Scalar → ScalarValue D
  | .bool => .bool false
  | .double => .double F.zero
  | .string => .string []
  | .json => .json .null
  | _ => .integer 0

/-- `unpackValue` for a scalar; on failure the value stays. -/
def unpackScalar (t : Scalar) (jsonValue : Json Text D) (key : Text) (res : Response D)
    (value : ScalarValue D) : Except JsonError (Bool × Response D × ScalarValue D) :=
  match unpackValueWithErrorCode F t jsonValue with
  | .ok value => return (true, res, value)
  | .error .invalidType => do
    let res ← propertyValueTypeError R res jsonValue key
    return (false, res, value)
  | .error .outOfRange => do
    let res ← propertyValueNotInList R res jsonValue key
    return (false, res, value)

def unpackElements (t : Scalar) (key : Text) : List (Json Text D) → Bool → Response D →
    List (ScalarValue D) → Except JsonError (Bool × Response D × List (ScalarValue D))
  | [], ret, res, values => return (ret, res, values)
  | val :: vals, ret, res, values => do
    let (ok, res, value) ← unpackScalar F R t val key res (t.initial F)
    unpackElements t key vals (ok && ret) res (values ++ [value])

def unpackVector (t : Scalar) (jsonValue : Json Text D) (key : Text) (res : Response D)
    (values : List (ScalarValue D)) :
    Except JsonError (Bool × Response D × List (ScalarValue D)) :=
  match jsonValue with
  | .array elements => unpackElements F R t key elements true res values
  | _ => do
    let res ← propertyValueTypeError R res res.jsonValue key
    return (false, res, values)

def unpackValue (type : UnpackType) (jsonValue : Json Text D) (key : Text) (res : Response D)
    (value : Output D) : Except JsonError (Bool × Response D × Output D) :=
  match type with
  | .one t => do
    let initial := match value with
      | .plain (.one value) => value
      | _ => t.initial F
    let (ret, res, value) ← unpackScalar F R t jsonValue key res initial
    return (ret, res, .plain (.one value))
  | .vector t _ => do
    let (ret, res, values) ← unpackVector F R t jsonValue key res value.elements
    return (ret, res, .plain (.vector values))
  | .optional t => do
    let (ret, res, value) ← unpackScalar F R t jsonValue key res (t.initial F)
    return (ret, res, .optional (some (.one value)))
  | .optionalVector t _ => do
    let (ret, res, values) ← unpackVector F R t jsonValue key res []
    return (ret, res, .optional (some (.vector values)))

end Unpack

/-- The value points to an output by its number. -/
structure PerUnpack where
  key : Text
  type : UnpackType
  pointer : ℕ
  complete : Bool := false

abbrev Outputs (D : Type) := ℕ → Output D

/-- The key up to its first '/', and what follows that. -/
def PerUnpack.first (unpackSpec : PerUnpack) : Text := unpackSpec.key.takeWhile (· ≠ '/')

def PerUnpack.leftover (unpackSpec : PerUnpack) : Text :=
  (unpackSpec.key.dropWhile (· ≠ '/')).drop 1

/-- The search for a member of this name, and the list with what it finds
completed. -/
def findSpec (name : Text) : List PerUnpack → Option (PerUnpack × List PerUnpack)
  | [] => none
  | unpackSpec :: toUnpack =>
    if unpackSpec.first = name ∧ unpackSpec.complete = false then
      some (unpackSpec, { unpackSpec with complete := true } :: toUnpack)
    else (findSpec name toUnpack).map fun found => (found.1, unpackSpec :: found.2)

/-- The keys below this one, which ends in '/'. -/
def nextLevel (key : Text) (toUnpack : List PerUnpack) : List PerUnpack :=
  (toUnpack.filter fun p => key.isPrefixOf p.key).map fun p =>
    { p with key := p.key.drop key.length, complete := false }

def completeLevel (key : Text) (toUnpack : List PerUnpack) : List PerUnpack :=
  toUnpack.map fun p => if key.isPrefixOf p.key then { p with complete := true } else p

/-- The locals of `readJsonHelper`; `returned` after a return from the loop. -/
structure Progress (D : Type) where
  result : Bool
  returned : Bool := false
  res : Response D
  outputs : Outputs D
  toUnpack : List PerUnpack

section Read
variable {D : Type} (F : Doubles D) (R : Registry D)

def checkMissing : List PerUnpack → Bool → Response D → Except JsonError (Bool × Response D)
  | [], result, res => return (result, res)
  | perUnpack :: toUnpack, result, res =>
    if perUnpack.complete = false ∧ perUnpack.type.isOptional = false then do
      let res ← propertyMissing R res perUnpack.key
      checkMissing toUnpack false res
    else checkMissing toUnpack result res

mutual

def readJsonHelper (res : Response D) (outputs : Outputs D) (toUnpack : List PerUnpack) :
    Json Text D → Except JsonError (Bool × Response D × Outputs D)
  | .object members => do
    let p ← readMembers { result := true, res, outputs, toUnpack } members
    if p.returned then return (p.result, p.res, p.outputs)
    else do
      let (result, res) ← checkMissing R p.toUnpack p.result p.res
      return (result, res, p.outputs)
  | _ => do
    let res ← unrecognizedRequestBody R res
    return (false, res, outputs)

def readMembers (p : Progress D) : List (Text × Json Text D) → Except JsonError (Progress D)
  | [] => return p
  | (name, val) :: members =>
    match findSpec name p.toUnpack with
    | none => do
      let res ← propertyUnknown R p.res name
      readMembers { p with result := false, res } members
    | some (unpackSpec, toUnpack) =>
      if unpackSpec.leftover ≠ [] then
        if p.result = false then return { p with returned := true }
        else do
          let key := unpackSpec.first ++ ['/']
          let (result, res, outputs) ←
            readJsonHelper p.res p.outputs (nextLevel key p.toUnpack) val
          readMembers { p with
            result := result && p.result, res, outputs
            toUnpack := completeLevel key p.toUnpack } members
      else do
        let (result, res, value) ← unpackValue F R unpackSpec.type val unpackSpec.key p.res
          (p.outputs unpackSpec.pointer)
        readMembers { p with
          result := result && p.result, res, toUnpack
          outputs := Function.update p.outputs unpackSpec.pointer value } members

end

end Read

end CrowCore.JsonUtils
