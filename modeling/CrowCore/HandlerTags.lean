import CrowCore.ParameterTags

set_option autoImplicit false

/-!
# Tags of handlers

The argument types of a handler are packed from the last one to the first, those
of a rule url from the first one to the last. `routeDynamic` compares both tags
digit by digit.
-/
namespace CrowCore.HandlerTags
open RoutingTrie RoutingTrieBuild ParameterTags

/-- The argument types that `getParameterTag` tells apart, after `std::decay`.
Requests, responses and all others are `other`. -/
inductive HandlerArg where
  | int
  | char
  | short
  | long
  | longLong
  | unsignedInt
  | unsignedChar
  | unsignedShort
  | unsignedLong
  | unsignedLongLong
  | double
  | string
  | other
deriving DecidableEq, Repr

def HandlerArg.getParameterTag : HandlerArg → TypeCode
  | .int | .char | .short | .long | .longLong => .integer
  | .unsignedInt | .unsignedChar | .unsignedShort | .unsignedLong | .unsignedLongLong =>
    .unsignedInteger
  | .double => .float
  | .string => .string
  | .other => .unspecified

/-- The values are of type int. A product that has no room in it is no constant, and
the handler does not compile; the sum is unsigned and is converted. -/
def computeParameterTagFromArgsList : List HandlerArg → Option ℤ
  | [] => some 0
  | arg :: args => do
    let subValue ← computeParameterTagFromArgsList args
    if arg.getParameterTag = .unspecified then return subValue
    else if subValue * 6 < -2 ^ 31 ∨ 2 ^ 31 ≤ subValue * 6 then none
    else return (subValue * 6 + arg.getParameterTag.toUnderlying).bmod (2 ^ 32)

def pathAsString (s : ℕ) : ℕ :=
  if s = TypeCode.path.toUnderlying then TypeCode.string.toUnderlying else s

def isParameterTagCompatible (a b : ℕ) : Bool :=
  if a = 0 ∧ b = 0 then true
  else if h : a = 0 ∨ b = 0 then false
  else if pathAsString (a % 6) ≠ pathAsString (b % 6) then false
  else isParameterTagCompatible (a / 6) (b / 6)
termination_by a
decreasing_by omega

/-- `DynamicRule::wrap`; false stands for the exception that the handler type is
mismatched with the url parameters. -/
def wrap (rule : Text) (args : List HandlerArg) : Option Bool :=
  (computeParameterTagFromArgsList args).map fun value =>
    isParameterTagCompatible (ParameterTags.getParameterTag rule) (value % 2 ^ 64).toNat

def Digits (digits : List ℕ) : Prop := ∀ d ∈ digits, 0 < d ∧ d < 6

theorem Digits.tail {d : ℕ} {digits : List ℕ} (h : Digits (d :: digits)) : Digits digits :=
  fun e he => h e (List.mem_cons_of_mem _ he)

theorem ofDigits_cons_pos {d : ℕ} {digits : List ℕ} (h : Digits (d :: digits)) :
    Nat.ofDigits 6 (d :: digits) ≠ 0 := by
  have hd := h d List.mem_cons_self
  rw [Nat.ofDigits_cons]
  omega

theorem isParameterTagCompatible_cons {d e : ℕ} (hd : d < 6) (he : e < 6) {a b : ℕ}
    (ha : d + 6 * a ≠ 0) (hb : e + 6 * b ≠ 0) :
    isParameterTagCompatible (d + 6 * a) (e + 6 * b) =
      (decide (pathAsString d = pathAsString e) && isParameterTagCompatible a b) := by
  have hmod : ∀ c n : ℕ, c < 6 → (c + 6 * n) % 6 = c ∧ (c + 6 * n) / 6 = n := by
    intro c n hc
    omega
  rw [isParameterTagCompatible, if_neg fun h => ha h.1, dif_neg (not_or.2 ⟨ha, hb⟩),
    (hmod d a hd).1, (hmod d a hd).2, (hmod e b he).1, (hmod e b he).2]
  by_cases h : pathAsString d = pathAsString e <;> simp [h]

/-- Tags are compatible if and only if they have the same digits, with path for
string. The induction is on both lists: the loop ends with the shorter one. -/
theorem isParameterTagCompatible_ofDigits {xs ys : List ℕ} (hxs : Digits xs) (hys : Digits ys) :
    isParameterTagCompatible (Nat.ofDigits 6 xs) (Nat.ofDigits 6 ys) = true ↔
      xs.map pathAsString = ys.map pathAsString := by
  induction xs generalizing ys with
  | nil =>
    cases ys with
    | nil => simp [isParameterTagCompatible]
    | cons y ys =>
      have hy := ofDigits_cons_pos hys
      rw [isParameterTagCompatible]
      simp [hy]
  | cons x xs ih =>
    have hx := ofDigits_cons_pos hxs
    cases ys with
    | nil =>
      rw [isParameterTagCompatible]
      simp [hx]
    | cons y ys =>
      have hy := ofDigits_cons_pos hys
      rw [Nat.ofDigits_cons] at hx hy
      rw [Nat.ofDigits_cons, Nat.ofDigits_cons]
      have hcons := isParameterTagCompatible_cons (hxs x List.mem_cons_self).2
        (hys y List.mem_cons_self).2 hx hy
      rw [hcons, Bool.and_eq_true, decide_eq_true_iff, ih hxs.tail hys.tail, List.map_cons,
        List.map_cons, List.cons.injEq]

def typedArguments (args : List HandlerArg) : List TypeCode :=
  (args.map HandlerArg.getParameterTag).filter fun code => code ≠ .unspecified

def underlying (codes : List TypeCode) : List ℕ := codes.map TypeCode.toUnderlying

theorem ofDigits_underlying_cons (code : TypeCode) (codes : List TypeCode) :
    Nat.ofDigits 6 (underlying (code :: codes)) =
      code.toUnderlying + 6 * Nat.ofDigits 6 (underlying codes) := by
  rw [underlying, List.map_cons, Nat.ofDigits_cons]
  rfl

theorem underlying_lt (codes : List TypeCode) (hpath : .path ∉ codes) :
    5 * Nat.ofDigits 6 (underlying codes) + 4 ≤ 4 * 6 ^ codes.length := by
  induction codes with
  | nil => decide
  | cons code codes ih =>
    have hcode : code.toUnderlying ≤ 4 := by
      cases code <;> first | decide | exact (hpath List.mem_cons_self).elim
    have hcodes := ih fun h => hpath (List.mem_cons_of_mem _ h)
    rw [ofDigits_underlying_cons, List.length_cons, Nat.pow_succ]
    omega

theorem typedArguments_cons (arg : HandlerArg) (args : List HandlerArg) :
    typedArguments (arg :: args) = if arg.getParameterTag = .unspecified then typedArguments args
      else arg.getParameterTag :: typedArguments args := by
  rw [typedArguments, List.map_cons, List.filter_cons]
  by_cases h : arg.getParameterTag = .unspecified <;> simp [h, typedArguments]

theorem path_notMem_typedArguments (args : List HandlerArg) : .path ∉ typedArguments args := by
  intro h
  obtain ⟨arg, -, harg⟩ := List.mem_map.1 (List.mem_of_mem_filter h)
  cases arg <;> cases harg

theorem computeParameterTagFromArgsList_typed (args : List HandlerArg)
    (hcount : (typedArguments args).length ≤ 12) :
    computeParameterTagFromArgsList args =
      some ((Nat.ofDigits 6 (underlying (typedArguments args)) : ℕ) : ℤ) := by
  induction args with
  | nil => rfl
  | cons arg args ih =>
    rw [typedArguments_cons] at hcount ⊢
    rw [computeParameterTagFromArgsList]
    by_cases h : arg.getParameterTag = .unspecified
    · rw [if_pos h] at hcount ⊢
      rw [ih hcount, Option.bind_eq_bind, Option.bind_some, if_pos h]
      rfl
    · rw [if_neg h, List.length_cons] at hcount
      rw [if_neg h, ih (by omega), Option.bind_eq_bind, Option.bind_some, if_neg h]
      -- the bound on the digits before, then that on all of them
      have hlt := underlying_lt (typedArguments args) (path_notMem_typedArguments args)
      have hpow : 6 ^ (typedArguments args).length ≤ 6 ^ 11 :=
        Nat.pow_le_pow_right (by decide) (by omega)
      have hcode : arg.getParameterTag.toUnderlying ≤ 4 := by cases arg <;> decide
      rw [ofDigits_underlying_cons]
      generalize Nat.ofDigits 6 (underlying (typedArguments args)) = subValue at hlt
      rw [if_neg (by omega), Int.bmod_eq_of_le_mul_two (by omega) (by omega)]
      change some _ = some _
      congr 1
      push_cast
      ring

theorem digits_underlying {codes : List TypeCode} (h : .unspecified ∉ codes) :
    Digits (underlying codes) := by
  intro d hd
  obtain ⟨code, hcode, rfl⟩ := List.mem_map.1 hd
  cases code <;> first | decide | exact (h hcode).elim

/-- The code of the arguments that a parameter is for: a path is read as a string. -/
def handlerTypeCode (p : ParamType) : TypeCode :=
  match paramTypeCode p with
  | .path => .string
  | code => code

theorem pathAsString_paramTypeCode (p : ParamType) :
    pathAsString (paramTypeCode p).toUnderlying = (handlerTypeCode p).toUnderlying := by
  cases p <;> rfl

theorem pathAsString_toUnderlying {code : TypeCode} (h : code ≠ .path) :
    pathAsString code.toUnderlying = code.toUnderlying := by
  cases code <;> first | rfl | exact (h rfl).elim

theorem toUnderlying_injective : Function.Injective TypeCode.toUnderlying := by
  intro a b h
  cases a <;> cases b <;> first | rfl | cases h

theorem pathAsString_typed (args : List HandlerArg) :
    (underlying (typedArguments args)).map pathAsString = underlying (typedArguments args) := by
  rw [underlying, List.map_map]
  apply List.map_congr_left
  intro code hcode
  exact pathAsString_toUnderlying fun h => path_notMem_typedArguments args (h ▸ hcode)

theorem digits_paramTypes (types : List ParamType) :
    Digits (types.map fun p => (paramTypeCode p).toUnderlying) := by
  intro d hd
  obtain ⟨p, -, rfl⟩ := List.mem_map.1 hd
  exact ⟨code_pos p, code_lt p⟩

theorem pathAsString_paramTypes (types : List ParamType) :
    (types.map fun p => (paramTypeCode p).toUnderlying).map pathAsString =
      underlying (types.map handlerTypeCode) := by
  rw [underlying, List.map_map, List.map_map]
  exact List.map_congr_left fun p _ => pathAsString_paramTypeCode p

/-- `routeDynamic` takes a handler if and only if its typed arguments are the
parameters of the rule, in order. -/
theorem handler_accepted_iff {rule : Text} {toks : List Token} (h : Pattern rule toks)
    (hstray : Token.lit '>' ∉ toks) (hparams : (paramTypes toks).length ≤ 12)
    {args : List HandlerArg} (hargs : (typedArguments args).length ≤ 12) :
    wrap rule args =
      some (decide (typedArguments args = (paramTypes toks).map handlerTypeCode)) := by
  have htyped : Digits (underlying (typedArguments args)) :=
    digits_underlying fun hmem => by simpa using List.of_mem_filter hmem
  have hlt := underlying_lt (typedArguments args) (path_notMem_typedArguments args)
  have hpow : 6 ^ (typedArguments args).length ≤ 6 ^ 12 :=
    Nat.pow_le_pow_right (by decide) hargs
  have hcast : ((Nat.ofDigits 6 (underlying (typedArguments args)) : ℕ) : ℤ) % 2 ^ 64 =
      (Nat.ofDigits 6 (underlying (typedArguments args)) : ℕ) :=
    Int.emod_eq_of_lt (by omega) (by omega)
  rw [wrap, computeParameterTagFromArgsList_typed args hargs, Option.map_some, hcast,
    Int.toNat_natCast, getParameterTag_pattern h (by omega), if_neg hstray, packTypes]
  congr 1
  rw [Bool.eq_iff_iff, decide_eq_true_iff,
    isParameterTagCompatible_ofDigits (digits_paramTypes _) htyped, pathAsString_paramTypes,
    pathAsString_typed]
  constructor
  · intro heq
    exact (List.map_injective_iff.2 toUnderlying_injective heq).symm
  · intro heq
    rw [heq]

def sampleRule : Text := ['<', 'i', 'n', 't', '>', '/', '<', 'p', 'a', 't', 'h', '>']

theorem handler_accepted_iff_sample :
    wrap sampleRule [.other, .long, .other, .string] = some true := by
  have hpattern : Pattern sampleRule [.param .int, .lit '/', .param .path] :=
    .param (x := (.int, ['<', 'i', 'n', 't', '>'])) (by decide)
      (.lit (by decide)
        (.param (x := (.path, ['<', 'p', 'a', 't', 'h', '>'])) (by decide) .nil))
  exact handler_accepted_iff hpattern (by decide) (by decide) (by decide)

end CrowCore.HandlerTags
