import Mathlib

set_option autoImplicit false

/-!
# The routing trie

`Trie` keeps its nodes in one vector and links them by index. `add` inserts a
route url character by character, `optimizeNode` joins levels of single
characters into longer fragments, and `find` walks the trie along a request
url, backtracking over parameter and literal children.
-/
namespace CrowCore.RoutingTrie

abbrev Text := List Char

/-- `MAX` is only the size of the arrays these index. -/
inductive ParamType where
  | int
  | uint
  | double
  | string
  | path
deriving DecidableEq, Repr

/-- The order in which `find` tries the parameter children. -/
def ParamType.all : List ParamType := [.int, .uint, .double, .string, .path]

/-- One value pushed onto a vector of `RoutingParams`; `D` stands for `double`. -/
inductive Value (D : Type) where
  | int (v : Int64)
  | uint (v : UInt64)
  | double (v : D)
  | string (v : Text)
deriving DecidableEq, Repr

structure RoutingParams (D : Type) where
  intParams : List Int64 := []
  uintParams : List UInt64 := []
  doubleParams : List D := []
  stringParams : List Text := []
deriving DecidableEq, Repr

namespace RoutingParams
variable {D : Type}

def push (params : RoutingParams D) : Value D → RoutingParams D
  | .int v => { params with intParams := params.intParams ++ [v] }
  | .uint v => { params with uintParams := params.uintParams ++ [v] }
  | .double v => { params with doubleParams := params.doubleParams ++ [v] }
  | .string v => { params with stringParams := params.stringParams ++ [v] }

/-- `pop_back` on the vector that a parameter of this type was pushed onto. -/
def pop (params : RoutingParams D) : ParamType → RoutingParams D
  | .int => { params with intParams := params.intParams.dropLast }
  | .uint => { params with uintParams := params.uintParams.dropLast }
  | .double => { params with doubleParams := params.doubleParams.dropLast }
  | .string | .path => { params with stringParams := params.stringParams.dropLast }

def pushAll (params : RoutingParams D) (values : List (Value D)) : RoutingParams D :=
  values.foldl push params

@[simp] theorem pushAll_nil (params : RoutingParams D) : params.pushAll [] = params := rfl

@[simp] theorem pushAll_cons (params : RoutingParams D) (v : Value D) (vs : List (Value D)) :
    params.pushAll (v :: vs) = (params.push v).pushAll vs := rfl

end RoutingParams

/-- What one `strto*` call reports: its value, `eptr` as the number of
characters it consumed, and whether it set `errno` to `ERANGE`. -/
structure StrtoResult (α : Type) where
  value : α
  eptr : ℕ
  erange : Bool

/-- The C number parsers, as fixed functions of the text at the position. None
of them reads past the end of the url. -/
structure NumberParsers (D : Type) where
  strtoll : Text → StrtoResult Int64
  strtoull : Text → StrtoResult UInt64
  strtod : Text → StrtoResult D
  strtoll_le : ∀ url, (strtoll url).eptr ≤ url.length
  strtoull_le : ∀ url, (strtoull url).eptr ≤ url.length
  strtod_le : ∀ url, (strtod url).eptr ≤ url.length

def isDigit (c : Char) : Bool := '0' ≤ c && c ≤ '9'

section Capture
variable {D : Type}

/-- The part the three number branches of `find` share: the first character is
tested before the parser is called, its verdict afterwards. -/
def parseNumber {α : Type} (starts : Char → Bool) (strto : Text → StrtoResult α)
    (value : α → Value D) (url : Text) : Option (Value D × ℕ) :=
  match url with
  | [] => none
  | c :: _ =>
    if starts c then
      let r := strto url
      if !r.erange && r.eptr != 0 then some (value r.value, r.eptr) else none
    else none

def parseInt (P : NumberParsers D) : Text → Option (Value D × ℕ) :=
  parseNumber (fun c => isDigit c || c == '+' || c == '-') P.strtoll .int

def parseUint (P : NumberParsers D) : Text → Option (Value D × ℕ) :=
  parseNumber (fun c => isDigit c || c == '+') P.strtoull .uint

def parseDouble (P : NumberParsers D) : Text → Option (Value D × ℕ) :=
  parseNumber (fun c => isDigit c || c == '+' || c == '-' || c == '.') P.strtod .double

def parseString (url : Text) : Option (Value D × ℕ) :=
  let epos := (url.takeWhile (· ≠ '/')).length
  if epos ≠ 0 then some (.string (url.take epos), epos) else none

def parsePath (url : Text) : Option (Value D × ℕ) :=
  let epos := url.length
  if epos ≠ 0 then some (.string (url.take epos), epos) else none

/-- The value a parameter takes at the front of the url, with its length. -/
def capture (P : NumberParsers D) : ParamType → Text → Option (Value D × ℕ)
  | .int => parseInt P
  | .uint => parseUint P
  | .double => parseDouble P
  | .string => parseString
  | .path => parsePath

theorem parseNumber_some {α : Type} {starts : Char → Bool} {strto : Text → StrtoResult α}
    {value : α → Value D} {url : Text} {v : Value D} {n : ℕ}
    (h : parseNumber starts strto value url = some (v, n)) :
    (∃ c cs, url = c :: cs ∧ starts c) ∧ (strto url).erange = false ∧ n ≠ 0 ∧
      v = value (strto url).value ∧ n = (strto url).eptr := by
  cases url with
  | nil => simp [parseNumber] at h
  | cons c cs =>
    simp only [parseNumber] at h
    split_ifs at h with hc hr
    simp only [Option.some.injEq, Prod.mk.injEq] at h
    obtain ⟨rfl, rfl⟩ := h
    simp only [Bool.and_eq_true, Bool.not_eq_true', bne_iff_ne, ne_eq] at hr
    exact ⟨⟨c, cs, rfl, hc⟩, hr.1, hr.2, rfl, rfl⟩

theorem capture_pos {P : NumberParsers D} {p : ParamType} {url : Text} {v : Value D} {n : ℕ}
    (h : capture P p url = some (v, n)) : 0 < n := by
  apply Nat.pos_of_ne_zero
  cases p with
  | int | uint | double => exact (parseNumber_some h).2.2.1
  | string | path =>
    simp only [capture, parseString, parsePath] at h
    split_ifs at h with hn
    simp only [Option.some.injEq, Prod.mk.injEq] at h
    exact h.2 ▸ hn

@[simp] theorem capture_nil (P : NumberParsers D) (p : ParamType) : capture P p [] = none := by
  cases p <;> rfl

theorem push_pop {P : NumberParsers D} {p : ParamType} {url : Text} {v : Value D} {n : ℕ}
    (h : capture P p url = some (v, n)) (params : RoutingParams D) :
    (params.push v).pop p = params := by
  cases p with
  | int | uint | double =>
    obtain ⟨-, -, -, rfl, -⟩ := parseNumber_some h
    simp [RoutingParams.push, RoutingParams.pop]
  | string | path =>
    simp only [capture, parseString, parsePath] at h
    split_ifs at h
    simp only [Option.some.injEq, Prod.mk.injEq] at h
    obtain ⟨rfl, -⟩ := h
    simp [RoutingParams.push, RoutingParams.pop]

end Capture

/-- A key of `ChildMap`. None is empty: `add` inserts single characters and
`optimizeNode` concatenations of keys. -/
abbrev Fragment := { s : Text // s ≠ [] }

def Fragment.single (c : Char) : Fragment := ⟨[c], by simp⟩

def Fragment.append (a b : Fragment) : Fragment := ⟨a.val ++ b.val, by simp [a.property]⟩

/-- The flat map, sorted by key. -/
abbrev ChildMap := List (Fragment × ℕ)

namespace ChildMap

def lookup (m : ChildMap) (key : Fragment) : Option ℕ :=
  (m.find? (fun kv => kv.1 = key)).map Prod.snd

def set : ChildMap → Fragment → ℕ → ChildMap
  | [], key, child => [(key, child)]
  | kv :: m, key, child =>
    if key = kv.1 then (key, child) :: m
    else if key.val < kv.1.val then (key, child) :: kv :: m
    else kv :: set m key child

end ChildMap

structure Node where
  ruleIndex : ℕ := 0
  paramChildrens : ParamType → ℕ := fun _ => 0
  children : ChildMap := []

def Node.init : Node := { ruleIndex := 0 }

def Node.isSimpleNode (node : Node) : Bool :=
  node.ruleIndex == 0 && ParamType.all.all (fun p => node.paramChildrens p == 0)

structure Trie where
  nodes : List Node

namespace Trie

def fresh : Trie := ⟨[Node.init]⟩

def node (t : Trie) (idx : ℕ) : Node := t.nodes.getD idx Node.init

def modify (t : Trie) (idx : ℕ) (f : Node → Node) : Trie := ⟨t.nodes.modify idx f⟩

def newNode (t : Trie) : Trie := ⟨t.nodes ++ [Node.init]⟩

def paramTraits : List (ParamType × Text) :=
  [(.int, ['<', 'i', 'n', 't', '>']), (.uint, ['<', 'u', 'i', 'n', 't', '>']),
    (.double, ['<', 'f', 'l', 'o', 'a', 't', '>']),
    (.double, ['<', 'd', 'o', 'u', 'b', 'l', 'e', '>']),
    (.string, ['<', 's', 't', 'r', '>']),
    (.string, ['<', 's', 't', 'r', 'i', 'n', 'g', '>']), (.path, ['<', 'p', 'a', 't', 'h', '>'])]

def paramChild (t : Trie) (idx : ℕ) (p : ParamType) : Trie × ℕ :=
  if (t.node idx).paramChildrens p = 0 then
    let newNodeIdx := t.nodes.length
    (t.newNode.modify idx fun n =>
      { n with paramChildrens := Function.update n.paramChildrens p newNodeIdx }, newNodeIdx)
  else (t, (t.node idx).paramChildrens p)

def literalChild (t : Trie) (idx : ℕ) (piece : Fragment) : Trie × ℕ :=
  match (t.node idx).children.lookup piece with
  | none =>
    let newNodeIdx := t.nodes.length
    (t.newNode.modify idx fun n => { n with children := n.children.set piece newNodeIdx },
      newNodeIdx)
  | some child => (t, child)

/-- The loop of `add`, on the part of the url from `i` on. The fuel bounds the
iterations; `none` means that it did not suffice. -/
def addLoop : ℕ → Trie → ℕ → Text → Option (Trie × ℕ)
  | 0, _, _, _ => none
  | _ + 1, t, idx, [] => some (t, idx)
  | fuel + 1, t, idx, c :: url =>
    if c = '<' then
      match paramTraits.find? (fun x => x.2.isPrefixOf (c :: url)) with
      | some x =>
        let next := t.paramChild idx x.1
        addLoop fuel next.1 next.2 ((c :: url).drop x.2.length)
      -- `i--` takes back the `i++` of the loop: the same '<' is read again
      | none => addLoop fuel t idx (c :: url)
    else
      let next := t.literalChild idx (.single c)
      addLoop fuel next.1 next.2 url

/-- The trie after the call, and the exception if it throws. No run of the loop
that ends takes more iterations than the url has characters. -/
def add (t : Trie) (url : Text) (ruleIndex : ℕ) : Option (Trie × Except String Unit) :=
  match addLoop (url.length + 1) t 0 url with
  | none => none
  | some (t, idx) =>
    if (t.node idx).ruleIndex ≠ 0 then
      some (t, .error ("handler already exists for " ++ String.ofList url))
    else some (t.modify idx fun n => { n with ruleIndex := ruleIndex }, .ok ())

def addAll : Trie → List (Text × ℕ) → Option Trie
  | t, [] => some t
  | t, rule :: rules =>
    match t.add rule.1 rule.2 with
    | some (t, .ok ()) => addAll t rules
    | _ => none

end Trie

/-- The children that replace a node's own when all of these are simple. -/
def mergedChildren (t : Trie) (children : ChildMap) : ChildMap :=
  children.foldl (fun merged kv =>
    (t.node kv.2).children.foldl (fun merged childKv =>
      merged.set (kv.1.append childKv.1) childKv.2) merged) []

namespace Trie

/-- `optimizeNode` on `nodes[idx]`; the fuel bounds the depth of the recursion. -/
def optimizeNode : ℕ → Trie → ℕ → Option Trie
  | 0, _, _ => none
  | fuel + 1, t, idx => do
    let params := (ParamType.all.map (t.node idx).paramChildrens).filter (· ≠ 0)
    let t ← params.foldlM (fun t x => optimizeNode fuel t x) t
    let children := (t.node idx).children
    if children.isEmpty then
      return t
    else if children.all (fun kv => (t.node kv.2).isSimpleNode) then
      optimizeNode fuel
        (t.modify idx fun n => { n with children := mergedChildren t children }) idx
    else
      children.foldlM (fun t kv => optimizeNode fuel t kv.2) t

/-- `optimize`, which is also `validate`; the fuel is enough for every trie that
`add` builds. -/
def optimize (t : Trie) : Option Trie := optimizeNode ((t.nodes.length + 1) ^ 2) t 0

end Trie

section Find
variable {D : Type}

/-- The locals of one `find` call, with the parameters it shares with its caller. -/
structure FindState (D : Type) where
  found : ℕ := 0
  matchParams : RoutingParams D := {}
  params : RoutingParams D

def FindState.updateFound (s : FindState D) (ret : ℕ × RoutingParams D) : FindState D :=
  if ret.1 ≠ 0 ∧ (s.found = 0 ∨ s.found > ret.1) then
    { s with found := ret.1, matchParams := ret.2 }
  else s

/-- `find` on the part of the url from `pos` on. The second component is the
shared `RoutingParams` as the call leaves it. -/
def findFrom (P : NumberParsers D) (t : Trie) (reqUrl : Text) (node : Node)
    (params : RoutingParams D) : (ℕ × RoutingParams D) × RoutingParams D :=
  if _hurl : reqUrl = [] then ((node.ruleIndex, params), params)
  else
    let s : FindState D := { params := params }
    let s := ParamType.all.foldl (fun s p =>
      if node.paramChildrens p ≠ 0 then
        match _hcapture : capture P p reqUrl with
        | some (value, n) =>
          let ret := findFrom P t (reqUrl.drop n) (t.node (node.paramChildrens p))
            (s.params.push value)
          { s.updateFound ret.1 with params := ret.2.pop p }
        | none => s
      else s) s
    let s := node.children.foldl (fun s kv =>
      if kv.1.val.isPrefixOf reqUrl then
        let ret := findFrom P t (reqUrl.drop kv.1.val.length) (t.node kv.2) s.params
        { s.updateFound ret.1 with params := ret.2 }
      else s) s
    ((s.found, s.matchParams), s.params)
termination_by reqUrl.length
decreasing_by
  · have hn := capture_pos _hcapture
    have hl := List.length_pos_iff.2 _hurl
    simp only [List.length_drop]
    omega
  · have hk := List.length_pos_iff.2 kv.1.property
    have hl := List.length_pos_iff.2 _hurl
    simp only [List.length_drop]
    omega

def Trie.find (P : NumberParsers D) (t : Trie) (reqUrl : Text) : ℕ × RoutingParams D :=
  (findFrom P t reqUrl (t.node 0) {}).1

end Find

end CrowCore.RoutingTrie
