import CrowCore.HtmlView
import CrowCore.HumanSort

set_option autoImplicit false

/-!
# The order of resources

`odataObjectCmp` ranks JSON values by how far they have an "@odata.id" that is a
string, and compares the urls segment by segment.
-/
namespace CrowCore.ODataOrder
open HumanSort JsonValue ThreeWay
open HtmlView (bytes)

section Definitions
variable {D : Type}

def getObject : Json (List UInt8) D → Option (List (List UInt8 × Json (List UInt8) D))
  | .object members => some members
  | _ => none

/-- The returns where one of both sides has no value, `none` being an exception. -/
def absentFirst {α : Type} (a b : Option α) (both : α → α → Option ℤ) : Option ℤ :=
  match a, b with
  | none, none => some 0
  | none, some _ => some (-1)
  | some _, none => some 1
  | some a, some b => both a b

def compareSegments (signed : Bool) : List (List UInt8) → List (List UInt8) → ℤ
  | [], [] => 0
  | [], _ :: _ => -1
  | _ :: _, [] => 1
  | a :: as, b :: bs =>
    let res := alphanumComp signed a b
    if res ≠ 0 then res else compareSegments signed as bs

/-- `segments` are the decoded segments of a url, `none` where a `url_view` throws. -/
def odataObjectCmp (signed : Bool) (segments : List UInt8 → Option (List (List UInt8)))
    (a b : Json (List UInt8) D) : Option ℤ :=
  absentFirst (getObject a) (getObject b) fun aObj bObj =>
    absentFirst (aObj.lookup (bytes "@odata.id")) (bObj.lookup (bytes "@odata.id")) fun aVal bVal =>
      absentFirst aVal.getString bVal.getString fun nameA nameB => do
        let aUrl ← segments nameA
        let bUrl ← segments nameB
        return compareSegments signed aUrl bUrl

def odataId (j : Json (List UInt8) D) : Option (List UInt8) :=
  (j.find (bytes "@odata.id")).bind Json.getString

/-- A value whose "@odata.id" is a url if it is a string. -/
structure Sortable (D : Type) (segments : List UInt8 → Option (List (List UInt8))) where
  json : Json (List UInt8) D
  parses : ∀ name, odataId json = some name → (segments name).isSome

end Definitions

variable {D : Type} {signed : Bool} {segments : List UInt8 → Option (List (List UInt8))}

/-- The rank of a value, and the segments of a url. -/
abbrev SortKey := ℕ × List (List UInt8)

def nameKey (segments : List UInt8 → Option (List (List UInt8))) (name : List UInt8) : SortKey :=
  (3, (segments name).getD [])

def valueKey (segments : List UInt8 → Option (List (List UInt8))) (val : Json (List UInt8) D) :
    SortKey := val.getString.elim (2, []) (nameKey segments)

def objectKey (segments : List UInt8 → Option (List (List UInt8)))
    (members : List (List UInt8 × Json (List UInt8) D)) : SortKey :=
  (members.lookup (bytes "@odata.id")).elim (1, []) (valueKey segments)

def sortKey (segments : List UInt8 → Option (List (List UInt8))) (j : Json (List UInt8) D) :
    SortKey := (getObject j).elim (0, []) (objectKey segments)

def keyOrder (signed : Bool) : SortKey → SortKey → Ordering :=
  compareLex (compareOn Prod.fst) fun k k' => order (compareSegments signed) k.2 k'.2

theorem keyOrder_of_lt {k k' : SortKey} (h : k.1 < k'.1) :
    keyOrder signed k k' = .lt ∧ keyOrder signed k' k = .gt := by
  have hlt : compareOn Prod.fst k k' = .lt := compare_lt_iff_lt.2 h
  have hgt : compareOn Prod.fst k' k = .gt := compare_gt_iff_gt.2 h
  rw [keyOrder, compareLex, compareLex, hlt, hgt]
  exact ⟨rfl, rfl⟩

theorem order_compareSegments (as bs : List (List UInt8)) :
    order (compareSegments signed) as bs = List.compareLex (order (alphanumComp signed)) as bs := by
  change compare (compareSegments signed as bs) 0 = _
  fun_induction compareSegments signed as bs with
  | case1 => rw [List.compareLex_nil_nil]; rfl
  | case2 => rw [List.compareLex_nil_cons]; rfl
  | case3 => rw [List.compareLex_cons_nil]; rfl
  | case4 a as b bs res hres =>
    have hne : alphanumComp signed a b ≠ 0 := hres
    rw [compareLex_cons_of_ne hne]
    rfl
  | case5 a as b bs res hres ih =>
    have heq : alphanumComp signed a b = 0 := not_not.1 hres
    rw [compareLex_cons_of_eq heq, ih]

theorem transCmp_compareSegments (signed : Bool) :
    Std.TransCmp (order (compareSegments signed)) := by
  have := transCmp_alphanumComp signed
  exact transCmp_of_keys id order_compareSegments

theorem transCmp_keyOrder (signed : Bool) : Std.TransCmp (keyOrder signed) := by
  have := transCmp_compareSegments signed
  have hsnd : Std.TransCmp fun k k' : SortKey => order (compareSegments signed) k.2 k'.2 :=
    transCmp_of_keys Prod.snd fun _ _ => rfl
  exact inferInstanceAs (Std.TransCmp (compareLex (compareOn Prod.fst) _))

def Agrees (signed : Bool) (result : Option ℤ) (k k' : SortKey) : Prop :=
  ∃ r, result = some r ∧ compare r 0 = keyOrder signed k k'

theorem agrees_absentFirst {α : Type} {a b : Option α} {both : α → α → Option ℤ} {rank : ℕ}
    {key : α → SortKey} (hrank : ∀ x, rank < (key x).1)
    (hboth : ∀ x y, a = some x → b = some y → Agrees signed (both x y) (key x) (key y)) :
    Agrees signed (absentFirst a b both) (a.elim (rank, []) key) (b.elim (rank, []) key) := by
  have hrefl := transCmp_keyOrder signed
  cases a with
  | none =>
    cases b with
    | none =>
      have hself : keyOrder signed (rank, []) (rank, []) = .eq := Std.ReflCmp.compare_self
      exact ⟨0, rfl, hself.symm⟩
    | some y => exact ⟨-1, rfl, (keyOrder_of_lt (hrank y)).1.symm⟩
  | some x =>
    cases b with
    | none => exact ⟨1, rfl, (keyOrder_of_lt (hrank x)).2.symm⟩
    | some y => exact hboth x y rfl rfl

theorem odataId_eq {j : Json (List UInt8) D} {members : List (List UInt8 × Json (List UInt8) D)}
    {val : Json (List UInt8) D} (hmembers : getObject j = some members)
    (hval : members.lookup (bytes "@odata.id") = some val) : odataId j = val.getString := by
  cases j with
  | object m =>
    obtain rfl := Option.some.inj hmembers
    rw [odataId, Json.find, hval, Option.bind_some]
  | _ => cases hmembers

theorem agrees_odataObjectCmp (a b : Sortable D segments) :
    Agrees signed (odataObjectCmp signed segments a.json b.json) (sortKey segments a.json)
      (sortKey segments b.json) := by
  have hname : ∀ name, 2 < (nameKey segments name).1 := fun _ => Nat.lt_succ_self 2
  have hval : ∀ val : Json (List UInt8) D, 1 < (valueKey segments val).1 := fun val => by
    rw [valueKey]
    cases val.getString with
    | none => exact Nat.one_lt_two
    | some name => exact lt_trans Nat.one_lt_two (hname name)
  have hobject : ∀ members : List (List UInt8 × Json (List UInt8) D),
      0 < (objectKey segments members).1 := fun members => by
    rw [objectKey]
    cases members.lookup (bytes "@odata.id") with
    | none => exact Nat.one_pos
    | some val => exact lt_trans Nat.one_pos (hval val)
  refine agrees_absentFirst hobject fun aObj bObj haObj hbObj => ?_
  refine agrees_absentFirst hval fun aVal bVal haVal hbVal => ?_
  refine agrees_absentFirst hname fun nameA nameB hnameA hnameB => ?_
  have haId := (odataId_eq haObj haVal).trans hnameA
  have hbId := (odataId_eq hbObj hbVal).trans hnameB
  obtain ⟨aUrl, haUrl⟩ := Option.isSome_iff_exists.1 (a.parses nameA haId)
  obtain ⟨bUrl, hbUrl⟩ := Option.isSome_iff_exists.1 (b.parses nameB hbId)
  refine ⟨compareSegments signed aUrl bUrl, by rw [haUrl, hbUrl]; rfl, ?_⟩
  rw [nameKey, nameKey, haUrl, hbUrl]
  rfl

/-- On values whose "@odata.id" is a url if it is a string, the comparison returns and is
a strict weak order. -/
theorem odataObjectCmp_strictWeak (D : Type) (signed : Bool)
    (segments : List UInt8 → Option (List (List UInt8))) :
    ∃ cmp : Sortable D segments → Sortable D segments → ℤ,
      (∀ a b, odataObjectCmp signed segments a.json b.json = some (cmp a b)) ∧ StrictWeak cmp := by
  have hagrees : ∀ a b : Sortable D segments,
      Agrees signed (odataObjectCmp signed segments a.json b.json) (sortKey segments a.json)
        (sortKey segments b.json) := agrees_odataObjectCmp
  choose cmp hcmp hkeys using hagrees
  have htrans := transCmp_keyOrder signed
  refine ⟨cmp, hcmp, strictWeak_of_transCmp ?_⟩
  exact transCmp_of_keys (fun a : Sortable D segments => sortKey segments a.json) hkeys

end CrowCore.ODataOrder
