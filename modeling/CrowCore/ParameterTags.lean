import CrowCore.RoutingTrieCorrect

set_option autoImplicit false

/-!
# Parameter tags

`getParameterTag` packs the parameter types of a rule url into one number, a
base-6 digit each. `Arguments` unpacks it into the argument types of the
handler, and `Call` reads one value from `RoutingParams` for each of them.
-/
namespace CrowCore.ParameterTags
open RoutingTrie RoutingTrieBuild RoutingTrieCorrect

inductive TypeCode where
  | unspecified
  | integer
  | unsignedInteger
  | float
  | string
  | path
deriving DecidableEq, Repr

def TypeCode.toUnderlying : TypeCode → ℕ
  | .unspecified => 0
  | .integer => 1
  | .unsignedInteger => 2
  | .float => 3
  | .string => 4
  | .path => 5

/-- The code of one '<...>' of a url; any other text adds nothing to the tag. -/
def tagTypeCode (tag : Text) : TypeCode :=
  if tag = ['<', 'i', 'n', 't', '>'] then .integer
  else if tag = ['<', 'u', 'i', 'n', 't', '>'] then .unsignedInteger
  else if tag = ['<', 'f', 'l', 'o', 'a', 't', '>'] ∨
      tag = ['<', 'd', 'o', 'u', 'b', 'l', 'e', '>'] then .float
  else if tag = ['<', 's', 't', 'r', '>'] ∨
      tag = ['<', 's', 't', 'r', 'i', 'n', 'g', '>'] then .string
  else if tag = ['<', 'p', 'a', 't', 'h', '>'] then .path
  else .unspecified

/-- The loop of `getParameterTag`. `segment` is the text from `urlSegmentIndex`
on, while that index is set; the tag is computed in 64 bits. -/
def getParameterTagLoop : Text → Option Text → ℕ → ℕ → ℕ
  | [], none, _, tagValue => tagValue
  | [], some _, _, _ => 0
  | c :: url, segment, paramIndex, tagValue =>
    if c = '<' then
      match segment with
      | some _ => 0
      | none => getParameterTagLoop url (some [c]) paramIndex tagValue
    else if c = '>' then
      match segment with
      | none => 0
      | some text =>
        let insertIndex := 6 ^ paramIndex % 2 ^ 64
        getParameterTagLoop url none (paramIndex + 1)
          ((tagValue + insertIndex * (tagTypeCode (text ++ [c])).toUnderlying) % 2 ^ 64)
    else getParameterTagLoop url (segment.map (· ++ [c])) paramIndex tagValue

def getParameterTag (url : Text) : ℕ := getParameterTagLoop url none 0 0

/-- The types that `SingleTagToType` gives to handler arguments. -/
inductive ArgType where
  | int64
  | uint64
  | double
  | string
deriving DecidableEq, Repr

/-- There is no type for 0, nor any above 5: such a tag does not compile. -/
def singleTagToType : ℕ → Option ArgType
  | 1 => some .int64
  | 2 => some .uint64
  | 3 => some .double
  | 4 => some .string
  | 5 => some .string
  | _ => none

def arguments (tag : ℕ) : Option (List ArgType) :=
  if h : tag = 0 then some []
  else do
    let subarguments ← arguments (tag / 6)
    let type ← singleTagToType (tag % 6)
    return type :: subarguments
termination_by tag
decreasing_by omega

/-- `CallPair<T, Pos>`: the parameter that `RoutingParams::get<T>(Pos)` reads. -/
abbrev CallPair := ArgType × ℕ

/-- `Call<F, NInt, NUint, NDouble, NString, S<Args1...>, S<Args2...>>`. -/
def call (nInt nUint nDouble nString : ℕ) : List ArgType → List CallPair → List CallPair
  | [], pushed => pushed
  | .int64 :: args, pushed =>
    call (nInt + 1) nUint nDouble nString args (pushed ++ [(.int64, nInt)])
  | .uint64 :: args, pushed =>
    call nInt (nUint + 1) nDouble nString args (pushed ++ [(.uint64, nUint)])
  | .double :: args, pushed =>
    call nInt nUint (nDouble + 1) nString args (pushed ++ [(.double, nDouble)])
  | .string :: args, pushed =>
    call nInt nUint nDouble (nString + 1) args (pushed ++ [(.string, nString)])

section Get
variable {D : Type}

/-- `RoutingParams::get<T>`; `none` is an access past the end of the vector. -/
def get (params : RoutingParams D) : CallPair → Option (Value D)
  | (.int64, index) => params.intParams[index]?.map .int
  | (.uint64, index) => params.uintParams[index]?.map .uint
  | (.double, index) => params.doubleParams[index]?.map .double
  | (.string, index) => params.stringParams[index]?.map .string

/-- The arguments `TaggedRule<Args...>::handle` passes on, after request and response. -/
def handlerArguments (args : List ArgType) (params : RoutingParams D) : List (Option (Value D)) :=
  (call 0 0 0 0 args []).map (get params)

def argType : Value D → ArgType
  | .int _ => .int64
  | .uint _ => .uint64
  | .double _ => .double
  | .string _ => .string

theorem paramsOf_concat (values : List (Value D)) (v : Value D) :
    paramsOf (values ++ [v]) = (paramsOf values).push v := by
  rw [← pushAll_empty, ← pushAll_empty, RoutingParams.pushAll, List.foldl_append]
  rfl

theorem call_values (pre values : List (Value D)) (pushed : List CallPair) :
    (call (paramsOf pre).intParams.length (paramsOf pre).uintParams.length
      (paramsOf pre).doubleParams.length (paramsOf pre).stringParams.length
      (values.map argType) pushed).map (get (paramsOf (pre ++ values))) =
      pushed.map (get (paramsOf (pre ++ values))) ++ values.map some := by
  induction values generalizing pre pushed with
  | nil => rw [List.map_nil, List.map_nil, List.append_nil, List.append_nil, call]
  | cons v values ih =>
    have hget : ∀ pair, get (paramsOf (pre ++ v :: values)) pair = some v →
        (pushed ++ [pair]).map (get (paramsOf (pre ++ v :: values))) ++ values.map some =
          pushed.map (get (paramsOf (pre ++ v :: values))) ++ (v :: values).map some := by
      intro pair hpair
      rw [List.map_append, List.map_singleton, hpair, List.append_assoc]
      rfl
    have h := fun pair => ih (pre ++ [v]) (pushed ++ [pair])
    rw [List.append_assoc, List.singleton_append, paramsOf_concat] at h
    cases v with
    | int v =>
      rw [← hget (.int64, (paramsOf pre).intParams.length)
        (by simp [get, paramsOf, intValue?])]
      simp only [RoutingParams.push, List.length_append, List.length_singleton] at h
      exact h _
    | uint v =>
      rw [← hget (.uint64, (paramsOf pre).uintParams.length)
        (by simp [get, paramsOf, uintValue?])]
      simp only [RoutingParams.push, List.length_append, List.length_singleton] at h
      exact h _
    | double v =>
      rw [← hget (.double, (paramsOf pre).doubleParams.length)
        (by simp [get, paramsOf, doubleValue?])]
      simp only [RoutingParams.push, List.length_append, List.length_singleton] at h
      exact h _
    | string v =>
      rw [← hget (.string, (paramsOf pre).stringParams.length)
        (by simp [get, paramsOf, stringValue?])]
      simp only [RoutingParams.push, List.length_append, List.length_singleton] at h
      exact h _

theorem handlerArguments_values (values : List (Value D)) :
    handlerArguments (values.map argType) (paramsOf values) = values.map some :=
  call_values [] values []

end Get

def paramTypes : List Token → List ParamType
  | [] => []
  | .lit _ :: toks => paramTypes toks
  | .param p :: toks => p :: paramTypes toks

def paramTypeCode : ParamType → TypeCode
  | .int => .integer
  | .uint => .unsignedInteger
  | .double => .float
  | .string => .string
  | .path => .path

/-- A path parameter is a string for the handler. -/
def paramArgType : ParamType → ArgType
  | .int => .int64
  | .uint => .uint64
  | .double => .double
  | .string | .path => .string

def packTypes (types : List ParamType) : ℕ :=
  Nat.ofDigits 6 (types.map fun p => (paramTypeCode p).toUnderlying)

theorem paramTypes_append (toks toks' : List Token) :
    paramTypes (toks ++ toks') = paramTypes toks ++ paramTypes toks' := by
  induction toks with
  | nil => rfl
  | cons tok toks ih => cases tok <;> simp [paramTypes, ih]

theorem code_pos (p : ParamType) : 0 < (paramTypeCode p).toUnderlying := by
  cases p <;> decide

theorem code_lt (p : ParamType) : (paramTypeCode p).toUnderlying < 6 := by
  cases p <;> decide

theorem packTypes_cons (p : ParamType) (types : List ParamType) :
    packTypes (p :: types) = (paramTypeCode p).toUnderlying + 6 * packTypes types := by
  simp [packTypes, Nat.ofDigits_cons]

theorem arguments_packTypes (types : List ParamType) :
    arguments (packTypes types) = some (types.map paramArgType) := by
  induction types with
  | nil => simp [packTypes, arguments]
  | cons p types ih =>
    have hpos := code_pos p
    have hlt := code_lt p
    rw [packTypes_cons, arguments, dif_neg (by omega), Nat.add_mul_div_left _ _ (by decide),
      Nat.div_eq_of_lt hlt, zero_add, ih, Nat.add_mul_mod_self_left, Nat.mod_eq_of_lt hlt]
    cases p <;> rfl

theorem getParameterTagLoop_tag {x : ParamType × Text} (hx : x ∈ Trie.paramTraits) (url : Text)
    (k v : ℕ) : getParameterTagLoop (x.2 ++ url) none k v = getParameterTagLoop url none (k + 1)
      ((v + 6 ^ k % 2 ^ 64 * (paramTypeCode x.1).toUnderlying) % 2 ^ 64) := by
  simp only [Trie.paramTraits, List.mem_cons, List.not_mem_nil, or_false] at hx
  rcases hx with rfl | rfl | rfl | rfl | rfl | rfl | rfl <;>
    simp [getParameterTagLoop, tagTypeCode, paramTypeCode]

theorem getParameterTagLoop_pack {url : Text} {toks : List Token} (h : Pattern url toks)
    (hstray : Token.lit '>' ∉ toks) {k v : ℕ} (hk : k + (paramTypes toks).length ≤ 24)
    (hv : v < 6 ^ k) :
    getParameterTagLoop url none k v = v + 6 ^ k * packTypes (paramTypes toks) := by
  induction h generalizing k v with
  | nil => simp [getParameterTagLoop, paramTypes, packTypes]
  | @lit c url toks hc h ih =>
    have hc' : c ≠ '>' := fun heq => hstray (by simp [heq])
    rw [getParameterTagLoop, if_neg hc, if_neg hc', Option.map_none]
    exact ih (fun hm => hstray (List.mem_cons_of_mem _ hm)) hk hv
  | @param x url toks hx h ih =>
    have hlt := code_lt x.1
    simp only [paramTypes, List.length_cons] at hk
    have hpow : 6 ^ (k + 1) ≤ 6 ^ 24 := Nat.pow_le_pow_right (by decide) (by omega)
    have hk64 : 6 ^ k < 2 ^ 64 := by
      have : 6 ^ k ≤ 6 ^ (k + 1) := Nat.pow_le_pow_right (by decide) (Nat.le_succ k)
      omega
    have hsum : v + 6 ^ k * (paramTypeCode x.1).toUnderlying < 6 ^ (k + 1) := by
      have : 6 ^ k * (paramTypeCode x.1).toUnderlying ≤ 6 ^ k * 5 :=
        Nat.mul_le_mul_left _ (by omega)
      rw [Nat.pow_succ]
      omega
    rw [getParameterTagLoop_tag hx, Nat.mod_eq_of_lt hk64, Nat.mod_eq_of_lt (by omega),
      ih (fun hm => hstray (List.mem_cons_of_mem _ hm)) (by omega) hsum, paramTypes,
      packTypes_cons]
    ring

/-- A '>' outside of every parameter turns the tag into that of no parameters. -/
theorem getParameterTagLoop_stray {url : Text} {toks : List Token} (h : Pattern url toks)
    (hstray : Token.lit '>' ∈ toks) (k v : ℕ) : getParameterTagLoop url none k v = 0 := by
  induction h generalizing k v with
  | nil => cases hstray
  | @lit c url toks hc h ih =>
    rw [getParameterTagLoop, if_neg hc]
    split_ifs with hc'
    · rfl
    · rcases List.mem_cons.1 hstray with heq | hm
      · exact (hc' (Token.lit.inj heq).symm).elim
      · exact ih hm k v
  | param hx h ih =>
    rw [getParameterTagLoop_tag hx]
    exact ih ((List.mem_cons.1 hstray).resolve_left (by simp)) _ _

theorem getParameterTag_pattern {url : Text} {toks : List Token} (h : Pattern url toks)
    (hcount : (paramTypes toks).length ≤ 24) : getParameterTag url =
      if Token.lit '>' ∈ toks then 0 else packTypes (paramTypes toks) := by
  unfold getParameterTag
  split_ifs with hstray
  · exact getParameterTagLoop_stray h hstray 0 0
  · rw [getParameterTagLoop_pack h hstray (by omega) (by decide), pow_zero, one_mul, zero_add]

theorem argType_of_matches {D : Type} {P : NumberParsers D} {toks : List Token} {url : Text}
    {values : List (Value D)} (h : Matches P toks url values) :
    values.map argType = (paramTypes toks).map paramArgType := by
  induction h with
  | nil => rfl
  | lit h ih => exact ih
  | param htakes h ih =>
    rw [List.map_cons, ih, paramTypes, List.map_cons]
    cases htakes <;> rfl

theorem arguments_getParameterTag {url : Text} {toks : List Token} (h : Pattern url toks)
    (hcount : (paramTypes toks).length ≤ 24) : arguments (getParameterTag url) =
      some (if Token.lit '>' ∈ toks then [] else (paramTypes toks).map paramArgType) := by
  rw [getParameterTag_pattern h hcount]
  split_ifs
  · simp [arguments]
  · exact arguments_packTypes _

end CrowCore.ParameterTags
