import CrowCore.JsonUnpacking

set_option autoImplicit false

/-!
# The schema of a list of keys

A list of keys with distinct paths describes the bodies that are accepted: which
members an object may have, of which types, and which of them it needs.
-/
namespace CrowCore.JsonSchema
open JsonValue ErrorMessages JsonUtils JsonUnpacking

/-- A key by its components. -/
structure Spec where
  path : List Text
  type : UnpackType
  pointer : ℕ

namespace Spec

def name (s : Spec) : Text := s.path.headD []

def perUnpack (complete : Bool) (s : Spec) : PerUnpack :=
  { key := ['/'].intercalate s.path, type := s.type, pointer := s.pointer, complete }

end Spec

def spec (p : PerUnpack) : Spec :=
  { path := p.key.splitOn '/', type := p.type, pointer := p.pointer }

def below (name : Text) (specs : List Spec) : List Spec :=
  (specs.filter fun s => s.name = name ∧ s.path.tail ≠ []).map fun s =>
    { s with path := s.path.tail }

def Components (path : List Text) : Prop := path ≠ [] ∧ ∀ c ∈ path, c ≠ [] ∧ '/' ∉ c

def Unrelated (s t : Spec) : Prop := ¬ s.path <+: t.path ∧ ¬ t.path <+: s.path

instance : Std.Symm Unrelated := ⟨fun _ _ h => h.symm⟩

structure Valid (specs : List Spec) : Prop where
  components : ∀ s ∈ specs, Components s.path
  prefixFree : specs.Pairwise Unrelated

section Schema
variable {D : Type} (F : Doubles D)

mutual

/-- An object of which every member is named by a key and is, if there are keys
below it, such an object again, and otherwise unpacks into the type of its key. -/
def Fits (specs : List Spec) : Json Text D → Prop
  | .object members => MembersFit specs members
  | _ => False

def MembersFit (specs : List Spec) : List (Text × Json Text D) → Prop
  | [] => True
  | (name, val) :: members =>
    ((∃ s ∈ specs, s.path = [name] ∧ (unpacked F s.type val).isSome) ∨
      (below name specs ≠ [] ∧ Fits (below name specs) val)) ∧ MembersFit specs members

end

/-- The full path of every key that is not optional is there. -/
def Required (specs : List Spec) (json : Json Text D) : Prop :=
  ∀ s ∈ specs, s.type.isOptional = false → (json.lookupPath s.path).isSome

/-- The outputs after a body was read: those of present keys hold the unpacked
value, the others are untouched. -/
structure Filled (specs : List Spec) (json : Json Text D) (outputs outputs' : Outputs D) :
    Prop where
  present : ∀ s ∈ specs, ∀ val, json.lookupPath s.path = some val →
    unpacked F s.type val = some (outputs' s.pointer)
  untouched : ∀ pointer, (∀ s ∈ specs, s.pointer = pointer → json.lookupPath s.path = none) →
    outputs' pointer = outputs pointer

def Distinct (specs : List Spec) : Prop := (specs.map Spec.pointer).Nodup

def EmptyVectors (specs : List Spec) (outputs : Outputs D) : Prop :=
  ∀ s ∈ specs, isVector s.type → (outputs s.pointer).elements = []

end Schema

variable {s : Spec}

theorem path_eq (h : Components s.path) : s.path = s.name :: s.path.tail := by
  obtain ⟨name, path, hpath⟩ := List.exists_cons_of_ne_nil h.1
  rw [Spec.name, hpath]
  rfl

theorem slash_notMem_name (h : Components s.path) : '/' ∉ s.name := by
  refine (h.2 s.name ?_).2
  rw [path_eq h]
  exact List.mem_cons_self

theorem components_tail (h : Components s.path) (htail : s.path.tail ≠ []) :
    Components s.path.tail := ⟨htail, fun c hc => h.2 c (List.mem_of_mem_tail hc)⟩

theorem intercalate_ne_nil {path : List Text} (h : Components path) :
    ['/'].intercalate path ≠ [] := by
  obtain ⟨name, rest, rfl⟩ := List.exists_cons_of_ne_nil h.1
  have hname := (h.2 name List.mem_cons_self).1
  cases rest <;> simp [List.intercalate_cons_cons, hname]

theorem key_eq (h : Components s.path) (complete : Bool) :
    (s.perUnpack complete).key = if s.path.tail = [] then s.name
      else s.name ++ '/' :: ['/'].intercalate s.path.tail := by
  rw [Spec.perUnpack]
  conv_lhs => rw [path_eq h]
  cases s.path.tail <;> simp [List.intercalate_cons_cons]

theorem ne_slash_of_notMem {name : Text} (h : '/' ∉ name) :
    ∀ c ∈ name, decide (c ≠ '/') = true := by
  intro c hc
  exact decide_eq_true fun hslash => h (hslash ▸ hc)

theorem first_perUnpack (h : Components s.path) (complete : Bool) :
    (s.perUnpack complete).first = s.name := by
  have hname := ne_slash_of_notMem (slash_notMem_name h)
  rw [PerUnpack.first, key_eq h]
  split
  · exact List.takeWhile_eq_self_iff.2 hname
  · rw [List.takeWhile_append_of_pos hname]
    simp

theorem leftover_perUnpack (h : Components s.path) (complete : Bool) :
    (s.perUnpack complete).leftover = ['/'].intercalate s.path.tail := by
  have hname := ne_slash_of_notMem (slash_notMem_name h)
  rw [PerUnpack.leftover, key_eq h]
  split
  next htail =>
    rw [List.dropWhile_eq_nil_iff.2 hname, htail]
    rfl
  next =>
    rw [List.dropWhile_append_of_pos hname]
    simp

theorem leftover_eq_nil (h : Components s.path) (complete : Bool) :
    (s.perUnpack complete).leftover = [] ↔ s.path.tail = [] := by
  rw [leftover_perUnpack h]
  refine ⟨fun hnil => ?_, fun hnil => by simp [hnil]⟩
  by_contra htail
  exact intercalate_ne_nil (components_tail h htail) hnil

theorem isPrefixOf_key (h : Components s.path) (complete : Bool) {name : Text}
    (hname : '/' ∉ name) : (name ++ ['/']).isPrefixOf (s.perUnpack complete).key ↔
      s.name = name ∧ s.path.tail ≠ [] := by
  rw [List.isPrefixOf_iff_prefix]
  constructor
  · rintro ⟨rest, hrest⟩
    have hfirst := first_perUnpack h complete
    rw [PerUnpack.first, ← hrest, List.append_assoc,
      List.takeWhile_append_of_pos (ne_slash_of_notMem hname)] at hfirst
    refine ⟨by simpa using hfirst.symm, fun htail => ?_⟩
    rw [key_eq h, if_pos htail] at hrest
    refine slash_notMem_name h ?_
    simp [← hrest]
  · rintro ⟨rfl, htail⟩
    rw [key_eq h, if_neg htail]
    exact ⟨['/'].intercalate s.path.tail, by simp⟩

theorem drop_key (h : Components s.path) (htail : s.path.tail ≠ []) (complete : Bool) :
    (s.perUnpack complete).key.drop (s.name ++ ['/']).length = ['/'].intercalate s.path.tail := by
  rw [key_eq h, if_neg htail, List.append_cons s.name '/' (['/'].intercalate _), List.drop_left]

theorem notMem_of_mem_splitOn {key c : Text} (h : c ∈ key.splitOn '/') : '/' ∉ c := by
  induction key generalizing c with
  | nil => simp_all
  | cons x key ih =>
    rw [List.splitOn_cons_eq_if_modifyHead] at h
    split at h
    · rcases List.mem_cons.1 h with rfl | h
      · exact List.not_mem_nil
      · exact ih h
    next hx =>
      rcases hsplit : key.splitOn '/' with _ | ⟨d, rest⟩
      · rw [hsplit] at h
        cases h
      · rw [hsplit, List.modifyHead_cons] at h
        rcases List.mem_cons.1 h with rfl | h
        · have hd := ih (hsplit ▸ List.mem_cons_self)
          rw [List.mem_cons, not_or]
          exact ⟨fun hslash => hx (beq_iff_eq.2 hslash.symm), hd⟩
        · exact ih (hsplit ▸ List.mem_cons_of_mem d h)

theorem components_spec {p : PerUnpack} (h : ∀ c ∈ (spec p).path, c ≠ []) :
    Components (spec p).path :=
  ⟨List.splitOn_ne_nil _ _, fun c hc => ⟨h c hc, notMem_of_mem_splitOn hc⟩⟩

theorem perUnpack_spec {p : PerUnpack} (h : p.complete = false) : (spec p).perUnpack false = p := by
  obtain ⟨key, type, pointer, complete⟩ := p
  obtain rfl : complete = false := h
  simp [spec, Spec.perUnpack]

/-- The list of the call, after the members of these names were read. -/
def marked (done : List Text) (specs : List Spec) : List PerUnpack :=
  specs.map fun s => s.perUnpack (s.name ∈ done)

theorem marked_append (done : List Text) (specs specs' : List Spec) :
    marked done (specs ++ specs') = marked done specs ++ marked done specs' := List.map_append

theorem marked_congr {done done' : List Text} {specs : List Spec}
    (h : ∀ s ∈ specs, s.name ∈ done ↔ s.name ∈ done') : marked done specs = marked done' specs :=
  List.map_congr_left fun s hs => by rw [decide_eq_decide.2 (h s hs)]

theorem findSpec_marked {specs : List Spec} (hcomponents : ∀ s ∈ specs, Components s.path)
    {done : List Text} {name : Text} (hname : name ∉ done) :
    ((∀ s ∈ specs, s.name ≠ name) ∧ findSpec name (marked done specs) = none) ∨
      ∃ before s after, specs = before ++ s :: after ∧ s.name = name ∧
        findSpec name (marked done specs) = some (s.perUnpack false,
          marked done before ++ s.perUnpack true :: marked done after) := by
  induction specs with
  | nil => exact .inl ⟨by simp, rfl⟩
  | cons s specs ih =>
    have hs := hcomponents s List.mem_cons_self
    have hfound : (s.perUnpack (s.name ∈ done)).first = name ∧
        (s.perUnpack (s.name ∈ done)).complete = false ↔ s.name = name := by
      rw [first_perUnpack hs]
      refine and_iff_left_of_imp fun hs => ?_
      exact decide_eq_false (hs ▸ hname)
    rw [marked, List.map_cons, findSpec]
    by_cases hfirst : s.name = name
    · refine .inr ⟨[], s, specs, rfl, hfirst, ?_⟩
      rw [if_pos (hfound.2 hfirst), decide_eq_false (hfirst ▸ hname)]
      rfl
    · rw [if_neg (mt hfound.1 hfirst)]
      rcases ih fun t ht => hcomponents t (List.mem_cons_of_mem s ht) with
        ⟨hnone, hfind⟩ | ⟨before, t, after, rfl, ht, hfind⟩
      · refine .inl ⟨by simpa [hfirst] using hnone, ?_⟩
        rw [← marked, hfind]
        rfl
      · refine .inr ⟨s :: before, t, after, rfl, ht, ?_⟩
        rw [← marked, hfind]
        rfl

theorem Valid.eq_of_prefix {specs : List Spec} (h : Valid specs) {s t : Spec} (hs : s ∈ specs)
    (ht : t ∈ specs) (hstart : s.path <+: t.path) : s = t := by
  by_contra hne
  exact (h.prefixFree.forall hs ht hne).1 hstart

theorem nextLevel_marked {specs : List Spec} (hcomponents : ∀ s ∈ specs, Components s.path)
    {name : Text} (hname : '/' ∉ name) (done : List Text) :
    nextLevel (name ++ ['/']) (marked done specs) = marked [] (below name specs) := by
  rw [nextLevel, marked, List.filter_map, List.map_map, marked, below, List.map_map]
  have hfilter : specs.filter ((fun p => (name ++ ['/']).isPrefixOf p.key) ∘
      fun s => s.perUnpack (s.name ∈ done)) =
      specs.filter fun s => s.name = name ∧ s.path.tail ≠ [] := by
    refine List.filter_congr fun s hs => ?_
    rw [Bool.eq_iff_iff, decide_eq_true_iff]
    exact isPrefixOf_key (hcomponents s hs) _ hname
  rw [hfilter]
  refine List.map_congr_left fun s hfiltered => ?_
  obtain ⟨hs, hbelow⟩ := List.mem_filter.1 hfiltered
  obtain ⟨rfl, htail⟩ := of_decide_eq_true hbelow
  have hkey := drop_key (hcomponents s hs) htail (s.name ∈ done)
  simp [Spec.perUnpack] at hkey ⊢
  exact hkey

theorem completeLevel_marked {specs : List Spec} (hcomponents : ∀ s ∈ specs, Components s.path)
    {name : Text} (hname : '/' ∉ name) (hleaf : ∀ s ∈ specs, s.path ≠ [name])
    (done : List Text) :
    completeLevel (name ++ ['/']) (marked done specs) = marked (name :: done) specs := by
  rw [completeLevel, marked, List.map_map]
  refine List.map_congr_left fun s hs => ?_
  have hstart := isPrefixOf_key (hcomponents s hs) (s.name ∈ done) hname
  have htail : s.name = name → s.path.tail ≠ [] := by
    rintro rfl htail
    exact hleaf s hs (htail ▸ path_eq (hcomponents s hs))
  rw [Function.comp_apply]
  by_cases hs' : s.name = name
  · rw [if_pos (hstart.2 ⟨hs', htail hs'⟩)]
    simp [Spec.perUnpack, hs']
  · rw [if_neg (mt hstart.1 fun h => hs' h.1)]
    simp [hs']

theorem mem_below {name : Text} {specs : List Spec} {t : Spec} : t ∈ below name specs ↔
    ∃ s ∈ specs, s.name = name ∧ s.path.tail ≠ [] ∧ { s with path := s.path.tail } = t := by
  simp [below, and_assoc]

theorem leaf_or_mem_below {specs : List Spec} (hs : s ∈ specs) (h : Components s.path) :
    s.path = [s.name] ∨ { s with path := s.path.tail } ∈ below s.name specs := by
  by_cases htail : s.path.tail = []
  · exact .inl (htail ▸ path_eq h)
  · exact .inr (mem_below.2 ⟨s, hs, rfl, htail, rfl⟩)

theorem Valid.below {specs : List Spec} (h : Valid specs) (name : Text) :
    Valid (below name specs) where
  components t ht := by
    obtain ⟨s, hs, -, htail, rfl⟩ := mem_below.1 ht
    exact components_tail (h.components s hs) htail
  prefixFree := by
    refine List.pairwise_map.2 ((h.prefixFree.filter _).imp_of_mem ?_)
    intro s t hs ht hunrelated
    obtain ⟨hs, hsname⟩ := List.mem_filter.1 hs
    obtain ⟨ht, htname⟩ := List.mem_filter.1 ht
    have hname : s.name = t.name :=
      (of_decide_eq_true hsname).1.trans (of_decide_eq_true htname).1.symm
    rw [Unrelated, path_eq (h.components s hs), path_eq (h.components t ht), hname,
      List.cons_prefix_cons, List.cons_prefix_cons] at hunrelated
    simpa [Unrelated] using hunrelated

theorem Valid.eq_leaf {specs : List Spec} (h : Valid specs) {name : Text} {s t : Spec}
    (hs : s ∈ specs) (ht : t ∈ specs) (hpath : s.path = [name]) (hname : t.name = name) :
    s = t := by
  refine h.eq_of_prefix hs ht ?_
  rw [hpath, path_eq (h.components t ht), hname]
  exact ⟨t.path.tail, rfl⟩

theorem Distinct.below {specs : List Spec} (h : Distinct specs) (name : Text) :
    Distinct (below name specs) := by
  rw [Distinct, JsonSchema.below, List.map_map]
  exact h.sublist (List.filter_sublist.map _)

theorem Distinct.eq {specs : List Spec} (h : Distinct specs) {s t : Spec} (hs : s ∈ specs)
    (ht : t ∈ specs) (hpointer : s.pointer = t.pointer) : s = t :=
  List.inj_on_of_nodup_map h hs ht hpointer

section Objects
variable {D : Type} {F : Doubles D} {specs : List Spec} {name : Text} {val : Json Text D}
  {members : List (Text × Json Text D)}

theorem lookup_eq_some (h : (members.map Prod.fst).Nodup) :
    members.lookup name = some val ↔ (name, val) ∈ members := by
  induction members with
  | nil => simp
  | cons member members ih =>
    obtain ⟨key, old⟩ := member
    rw [List.map_cons, List.nodup_cons] at h
    rw [List.lookup_cons, List.mem_cons, Prod.mk.injEq, ← ih h.2]
    by_cases hkey : name = key
    · subst hkey
      have hnot : members.lookup name ≠ some val := fun hsome =>
        h.1 (List.mem_map.2 ⟨(name, val), (ih h.2).1 hsome, rfl⟩)
      simp [hnot, eq_comm]
    · have hne : (name == key) = false := by simpa using hkey
      simp [hne, hkey]

theorem lookupPath_object (h : Components s.path) :
    Json.lookupPath s.path (.object members) =
      (members.lookup s.name).bind (Json.lookupPath s.path.tail) := by
  conv_lhs => rw [path_eq h]
  rfl

theorem lookupPath_cons (h : Components s.path) :
    Json.lookupPath s.path (.object ((name, val) :: members)) =
      if s.name = name then Json.lookupPath s.path.tail val
      else Json.lookupPath s.path (.object members) := by
  rw [lookupPath_object h, lookupPath_object h, List.lookup_cons]
  by_cases hname : s.name = name
  · simp [hname]
  · simp [hname, beq_eq_false_iff_ne.2 hname]

theorem lookupPath_eq_none (h : Components s.path) (hname : s.name ∉ members.map Prod.fst) :
    Json.lookupPath s.path (.object members) = none := by
  rw [lookupPath_object h, List.lookup_eq_none_iff.2, Option.bind_none]
  intro member hmember
  rw [bne_iff_ne]
  intro heq
  exact hname (List.mem_map.2 ⟨member, hmember, heq.symm⟩)

variable (F) in
def MemberAccepted (specs : List Spec) (name : Text) (val : Json Text D) : Prop :=
  (∃ s ∈ specs, s.path = [name] ∧ (unpacked F s.type val).isSome) ∨
    (below name specs ≠ [] ∧ Fits F (below name specs) val ∧ Required (below name specs) val)

theorem membersFit_iff : MembersFit F specs members ↔ ∀ name val, (name, val) ∈ members →
    (∃ s ∈ specs, s.path = [name] ∧ (unpacked F s.type val).isSome) ∨
      (below name specs ≠ [] ∧ Fits F (below name specs) val) := by
  induction members with
  | nil => simp [MembersFit]
  | cons member members ih =>
    obtain ⟨name, val⟩ := member
    rw [MembersFit, ih]
    constructor
    · rintro ⟨hmember, hmembers⟩ name' val' hmem
      rcases List.mem_cons.1 hmem with heq | hmem
      · obtain ⟨rfl, rfl⟩ := Prod.mk.inj heq
        exact hmember
      · exact hmembers name' val' hmem
    · intro hall
      exact ⟨hall name val List.mem_cons_self,
        fun name' val' hmem => hall name' val' (List.mem_cons_of_mem _ hmem)⟩

theorem accepted_object (hvalid : Valid specs) (hnodup : (members.map Prod.fst).Nodup) :
    ((∀ member ∈ members, MemberAccepted F specs member.1 member.2) ∧
      ∀ s ∈ specs, s.name ∉ members.map Prod.fst → s.type.isOptional) ↔
      Fits F specs (.object members) ∧ Required specs (.object members) := by
  rw [Fits, membersFit_iff]
  constructor
  · rintro ⟨hmembers, hmissing⟩
    refine ⟨fun name val hmem => ?_, fun s hs hrequired => ?_⟩
    · exact (hmembers (name, val) hmem).imp_right fun ⟨hne, hfits, _⟩ => ⟨hne, hfits⟩
    · have hcomponents := hvalid.components s hs
      have hname : s.name ∈ members.map Prod.fst := by
        by_contra hname
        simp [hmissing s hs hname] at hrequired
      obtain ⟨⟨_, val⟩, hmem, rfl⟩ := List.mem_map.1 hname
      rw [lookupPath_object hcomponents, (lookup_eq_some hnodup).2 hmem, Option.bind_some]
      rcases leaf_or_mem_below hs hcomponents with hleaf | hbelow
      · rw [hleaf]
        rfl
      · rcases hmembers (s.name, val) hmem with ⟨t, ht, hpath, -⟩ | ⟨-, -, hreq⟩
        · obtain rfl := hvalid.eq_leaf ht hs hpath rfl
          rw [hpath]
          rfl
        · exact hreq _ hbelow hrequired
  · rintro ⟨hfits, hrequired⟩
    refine ⟨fun (name, val) hmem => ?_, fun s hs hname => ?_⟩
    · refine (hfits name val hmem).imp_right fun ⟨hne, hfits⟩ => ⟨hne, hfits, fun t ht hreq => ?_⟩
      obtain ⟨s, hs, rfl, -, rfl⟩ := mem_below.1 ht
      have hsome := hrequired s hs hreq
      rwa [lookupPath_object (hvalid.components s hs), (lookup_eq_some hnodup).2 hmem,
        Option.bind_some] at hsome
    · by_contra hrequired'
      have hsome := hrequired s hs (by simpa using hrequired')
      rw [lookupPath_eq_none (hvalid.components s hs) hname] at hsome
      cases hsome

theorem accepted_leaf (hvalid : Valid specs) (hs : s ∈ specs) (hpath : s.path = [name]) :
    MemberAccepted F specs name val ↔ (unpacked F s.type val).isSome := by
  refine ⟨fun h => ?_, fun h => .inl ⟨s, hs, hpath, h⟩⟩
  rcases h with ⟨t, ht, htpath, hsome⟩ | ⟨hne, -⟩
  · obtain rfl := hvalid.eq_of_prefix hs ht (by rw [hpath, htpath])
    exact hsome
  · obtain ⟨u, hu⟩ := List.exists_mem_of_ne_nil _ hne
    obtain ⟨t, ht, htname, htail, -⟩ := mem_below.1 hu
    obtain rfl := hvalid.eq_leaf hs ht hpath htname
    exact (htail (by rw [hpath, List.tail_cons])).elim

theorem accepted_below (hleaf : ∀ s ∈ specs, s.path ≠ [name]) (hne : below name specs ≠ []) :
    MemberAccepted F specs name val ↔
      Fits F (below name specs) val ∧ Required (below name specs) val := by
  refine ⟨fun h => ?_, fun h => .inr ⟨hne, h⟩⟩
  rcases h with ⟨s, hs, hpath, -⟩ | ⟨-, h⟩
  · exact (hleaf s hs hpath).elim
  · exact h

theorem not_accepted (hnone : ∀ s ∈ specs, s.name ≠ name) :
    ¬ MemberAccepted F specs name val := by
  rintro (⟨s, hs, hpath, -⟩ | ⟨hne, -⟩)
  · refine hnone s hs ?_
    rw [Spec.name, hpath, List.headD_cons]
  · obtain ⟨u, hu⟩ := List.exists_mem_of_ne_nil _ hne
    obtain ⟨s, hs, hname, -⟩ := mem_below.1 hu
    exact hnone s hs hname

variable {outputs outputs₁ outputs' : Outputs D}

theorem lookupPath_singleton (h : Components s.path) :
    Json.lookupPath s.path (.object [(name, val)]) =
      if s.name = name then Json.lookupPath s.path.tail val else none := by
  rw [lookupPath_cons h, lookupPath_eq_none h List.not_mem_nil]

theorem Filled.cons (hvalid : Valid specs) (hdistinct : Distinct specs)
    (hname : name ∉ members.map Prod.fst)
    (hfirst : Filled F specs (.object [(name, val)]) outputs outputs₁)
    (hrest : Filled F specs (.object members) outputs₁ outputs') :
    Filled F specs (.object ((name, val) :: members)) outputs outputs' where
  present s hs found hfound := by
    have hcomponents := hvalid.components s hs
    rw [lookupPath_cons hcomponents] at hfound
    split_ifs at hfound with hsname
    · have hsame : outputs' s.pointer = outputs₁ s.pointer := by
        refine hrest.untouched s.pointer fun t ht hpointer => ?_
        obtain rfl := hdistinct.eq ht hs hpointer
        exact lookupPath_eq_none hcomponents (hsname ▸ hname)
      rw [hsame]
      exact hfirst.present s hs found (by rwa [lookupPath_singleton hcomponents, if_pos hsname])
    · exact hrest.present s hs found hfound
  untouched pointer h := by
    have hnone : ∀ s ∈ specs, s.pointer = pointer →
        Json.lookupPath s.path (.object members) = none ∧
          Json.lookupPath s.path (.object [(name, val)]) = none := by
      intro s hs hpointer
      have hcomponents := hvalid.components s hs
      have hcons := h s hs hpointer
      rw [lookupPath_cons hcomponents] at hcons
      rw [lookupPath_singleton hcomponents]
      split_ifs at hcons ⊢ with hsname
      · exact ⟨lookupPath_eq_none hcomponents (hsname ▸ hname), hcons⟩
      · exact ⟨hcons, rfl⟩
    calc outputs' pointer = outputs₁ pointer :=
          hrest.untouched pointer fun s hs hpointer => (hnone s hs hpointer).1
      _ = outputs pointer := hfirst.untouched pointer fun s hs hpointer => (hnone s hs hpointer).2

theorem filled_leaf (hvalid : Valid specs) (hs : s ∈ specs) (hpath : s.path = [name])
    {value : Output D} (hvalue : unpacked F s.type val = some value) :
    Filled F specs (.object [(name, val)]) outputs
      (Function.update outputs s.pointer value) where
  present t ht found hfound := by
    rw [lookupPath_singleton (hvalid.components t ht)] at hfound
    split_ifs at hfound with htname
    obtain rfl := hvalid.eq_leaf hs ht hpath htname
    rw [hpath] at hfound
    obtain rfl : val = found := Option.some.inj hfound
    rw [hvalue, Function.update_self]
  untouched pointer h := by
    refine Function.update_of_ne (fun hpointer => ?_) _ _
    have hnone := h s hs hpointer.symm
    rw [hpath] at hnone
    simp [Json.lookupPath, Json.find] at hnone

theorem filled_below (hvalid : Valid specs) (hleaf : ∀ s ∈ specs, s.path ≠ [name])
    (h : Filled F (below name specs) val outputs outputs') :
    Filled F specs (.object [(name, val)]) outputs outputs' where
  present s hs found hfound := by
    have hcomponents := hvalid.components s hs
    rw [lookupPath_singleton hcomponents] at hfound
    split_ifs at hfound with hsname
    subst hsname
    have hbelow := (leaf_or_mem_below hs hcomponents).resolve_left (hleaf s hs)
    exact h.present _ hbelow found hfound
  untouched pointer hnone := by
    refine h.untouched pointer fun t ht hpointer => ?_
    obtain ⟨s, hs, hsname, -, rfl⟩ := mem_below.1 ht
    have hs' := hnone s hs hpointer
    rwa [lookupPath_singleton (hvalid.components s hs), if_pos hsname] at hs'

theorem Filled.other (h : Filled F specs (.object [(name, val)]) outputs outputs₁)
    (hvalid : Valid specs) (hdistinct : Distinct specs) (hs : s ∈ specs) (hname : s.name ≠ name) :
    outputs₁ s.pointer = outputs s.pointer := by
  refine h.untouched s.pointer fun t ht hpointer => ?_
  obtain rfl := hdistinct.eq ht hs hpointer
  rw [lookupPath_singleton (hvalid.components t hs), if_neg hname]

end Objects

section Read
variable {D : Type} (F : Doubles D) (R : Registry D)

def verdict (p : Progress D) : Bool × Response D := (p.result, p.res)

theorem readMembers_fails (members : List (Text × Json Text D)) {p : Progress D}
    (hresult : p.result = false) (hbad : p.res.result = badRequest) :
    Fails (readMembers F R p members) verdict p.res := by
  induction members generalizing p with
  | nil =>
    rw [readMembers]
    exact @fails_pure _ _ verdict p hresult hbad
  | cons member members ih =>
    obtain ⟨name, val⟩ := member
    rw [readMembers]
    split
    · exact fails_report (reports_propertyUnknown R p.res name) fun res' hbad' => ih rfl hbad'
    · split_ifs
      · exact @fails_pure _ _ verdict { p with returned := true } hresult hbad
      · refine (unpackValue_decides F R _ val _ p.res _).bind_bad hbad ?_
        rintro ⟨ok, res', value⟩ hbad'
        exact ih (by simp [hresult]) hbad'

def HelperDecides (json : Json Text D) : Prop :=
  ∀ specs, Valid specs → ∀ (res : Response D) (outputs : Outputs D),
    Decides (readJsonHelper F R res outputs (marked [] specs) json) outcome res
      (Fits F specs json ∧ Required specs json)
      (fun a => Distinct specs → EmptyVectors specs outputs → Filled F specs json outputs a.2.2)

def EmptyBelow (specs : List Spec) (names : List Text) (outputs : Outputs D) : Prop :=
  ∀ s ∈ specs, s.name ∈ names → isVector s.type → (outputs s.pointer).elements = []

def LoopDecides (specs : List Spec) (members : List (Text × Json Text D)) : Prop :=
  ∀ (done : List Text) (res : Response D) (outputs : Outputs D),
    (∀ name ∈ members.map Prod.fst, name ∉ done) →
    Decides
      (readMembers F R { result := true, res, outputs, toUnpack := marked done specs } members)
      verdict res (∀ member ∈ members, MemberAccepted F specs member.1 member.2)
      (fun p => p.returned = false ∧
        (∃ done', p.toUnpack = marked done' specs ∧
          ∀ name, name ∈ done' ↔ name ∈ members.map Prod.fst ∨ name ∈ done) ∧
        (Distinct specs → EmptyBelow specs (members.map Prod.fst) outputs →
          Filled F specs (.object members) outputs p.outputs))

variable {F R} {specs : List Spec} {name : Text} {val : Json Text D}
  {members : List (Text × Json Text D)}

theorem loop_step (hvalid : Valid specs) (hloop : LoopDecides F R specs members)
    (hnodup : ((name, val) :: members |>.map Prod.fst).Nodup) {done : List Text}
    (hdone : ∀ name' ∈ ((name, val) :: members).map Prod.fst, name' ∉ done)
    (res : Response D) {outputs outputs₁ : Outputs D}
    (hfirst : Distinct specs → EmptyBelow specs [name] outputs →
      Filled F specs (.object [(name, val)]) outputs outputs₁) :
    Decides (readMembers F R
        { result := true, res, outputs := outputs₁
          toUnpack := marked (name :: done) specs } members)
      verdict res (∀ member ∈ members, MemberAccepted F specs member.1 member.2)
      (fun p => p.returned = false ∧
        (∃ done', p.toUnpack = marked done' specs ∧
          ∀ name', name' ∈ done' ↔ name' ∈ ((name, val) :: members).map Prod.fst ∨ name' ∈ done) ∧
        (Distinct specs → EmptyBelow specs (((name, val) :: members).map Prod.fst) outputs →
          Filled F specs (.object ((name, val) :: members)) outputs p.outputs)) := by
  rw [List.map_cons, List.nodup_cons] at hnodup
  rw [List.map_cons, List.forall_mem_cons] at hdone
  refine (hloop (name :: done) res outputs₁ fun name' hname' => ?_).weaken Iff.rfl ?_
  · rw [List.mem_cons, not_or]
    refine ⟨?_, hdone.2 name' hname'⟩
    rintro rfl
    exact hnodup.1 hname'
  · rintro p ⟨hreturned, ⟨done', hmarked, hdone'⟩, hrest⟩
    refine ⟨hreturned, ⟨done', hmarked, fun name' => ?_⟩, fun hdistinct hempty => ?_⟩
    · rw [hdone', List.map_cons, List.mem_cons, List.mem_cons]
      tauto
    · have hfilled := hfirst hdistinct fun s hs hsname =>
        hempty s hs (List.mem_cons.2 (.inl (List.mem_singleton.1 hsname)))
      refine hfilled.cons hvalid hdistinct hnodup.1 (hrest hdistinct fun s hs hsname hvector => ?_)
      have hne : s.name ≠ name := fun heq => hnodup.1 (heq ▸ hsname)
      rw [hfilled.other hvalid hdistinct hs hne]
      exact hempty s hs (List.mem_cons_of_mem name hsname) hvector

theorem marked_leaf {before after : List Spec} {s : Spec} {done : List Text}
    (hvalid : Valid (before ++ s :: after)) (hpath : s.path = [name]) :
    marked done before ++ s.perUnpack true :: marked done after =
      marked (name :: done) (before ++ s :: after) := by
  have hname : s.name = name := by rw [Spec.name, hpath, List.headD_cons]
  have hfree := hvalid.prefixFree
  rw [List.pairwise_append, List.pairwise_cons] at hfree
  have hother : ∀ t ∈ before ++ after, t.name ∈ done ↔ t.name ∈ name :: done := by
    intro t ht
    rw [List.mem_cons, or_iff_right]
    intro htname
    have ht' : t ∈ before ++ s :: after :=
      (List.Sublist.append_left (List.sublist_cons_self s after) before).subset ht
    obtain rfl := hvalid.eq_leaf (List.mem_append_right _ List.mem_cons_self) ht' hpath htname
    rcases List.mem_append.1 ht with ht | ht
    · exact (hfree.2.2 s ht s List.mem_cons_self).1 List.prefix_rfl
    · exact (hfree.2.1.1 s ht).1 List.prefix_rfl
  have hbefore := marked_congr fun t ht => hother t (List.mem_append_left after ht)
  have hafter := marked_congr fun t ht => hother t (List.mem_append_right before ht)
  rw [hbefore, hafter, marked_append]
  simp [marked, hname]

theorem loop_cons (hvalid : Valid specs) (hval : HelperDecides F R val)
    (hloop : LoopDecides F R specs members)
    (hnodup : ((name, val) :: members |>.map Prod.fst).Nodup) :
    LoopDecides F R specs ((name, val) :: members) := by
  intro done res outputs hdone
  rw [readMembers]
  simp only [List.forall_mem_cons]
  rcases findSpec_marked hvalid.components (hdone name List.mem_cons_self) with
    ⟨hnone, hfind⟩ | ⟨before, s, after, rfl, hname, hfind⟩
  · rw [hfind]
    refine Fails.decides ?_ fun h => not_accepted hnone h.1
    exact fails_report (reports_propertyUnknown R res name) fun res' hbad =>
      readMembers_fails F R members rfl hbad
  · rw [hfind]
    have hs : s ∈ before ++ s :: after := List.mem_append_right _ List.mem_cons_self
    have hcomponents := hvalid.components s hs
    simp only [ne_eq, leftover_eq_nil hcomponents, first_perUnpack hcomponents]
    by_cases htail : s.path.tail = []
    · have hpath : s.path = [name] := by rw [path_eq hcomponents, htail, hname]
      rw [if_neg (not_not.2 htail), marked_leaf hvalid hpath, accepted_leaf hvalid hs hpath]
      refine (unpackValue_decides F R s.type val _ res (outputs s.pointer)).bind ?_ ?_
      · rintro ⟨ok, res', value⟩ hview hvalue
        obtain ⟨rfl, rfl⟩ := Prod.mk.inj hview
        refine loop_step hvalid hloop hnodup hdone res' fun _ hempty => ?_
        exact filled_leaf hvalid hs hpath
          (hvalue fun hvector => hempty s hs (List.mem_singleton.2 hname) hvector)
      · rintro ⟨ok, res', value⟩ hverdict hbad
        obtain rfl : ok = false := hverdict
        exact readMembers_fails F R members rfl hbad
    · have hleaf : ∀ t ∈ before ++ s :: after, t.path ≠ [name] := by
        intro t ht hpath
        obtain rfl := hvalid.eq_leaf ht hs hpath hname
        exact htail (by rw [hpath, List.tail_cons])
      have hbelow : below name (before ++ s :: after) ≠ [] := List.ne_nil_of_mem
        (mem_below.2 ⟨s, hs, hname, htail, rfl⟩)
      have hslash : '/' ∉ name := hname ▸ slash_notMem_name hcomponents
      rw [if_pos htail, hname, nextLevel_marked hvalid.components hslash,
        completeLevel_marked hvalid.components hslash hleaf, accepted_below hleaf hbelow]
      refine (hval _ (hvalid.below name) res outputs).bind ?_ ?_
      · rintro ⟨ok, res', outputs₁⟩ hview hfilled
        obtain ⟨rfl, rfl⟩ := Prod.mk.inj hview
        refine loop_step hvalid hloop hnodup hdone res' fun hdistinct hempty => ?_
        refine filled_below hvalid hleaf (hfilled (hdistinct.below name) fun t ht hvector => ?_)
        obtain ⟨u, hu, huname, -, rfl⟩ := mem_below.1 ht
        exact hempty u hu (List.mem_singleton.2 huname) hvector
      · rintro ⟨ok, res', outputs₁⟩ hverdict hbad
        obtain rfl : ok = false := hverdict
        exact readMembers_fails F R members rfl hbad

theorem helper_object (hnodup : (members.map Prod.fst).Nodup)
    (hloop : ∀ specs, Valid specs → LoopDecides F R specs members) :
    HelperDecides F R (.object members) := by
  intro specs hvalid res outputs
  rw [readJsonHelper, ← accepted_object hvalid hnodup]
  refine (hloop specs hvalid [] res outputs fun _ _ => List.not_mem_nil).bind ?_ ?_
  · rintro p hview ⟨hreturned, ⟨done, hmarked, hdone⟩, hfilled⟩
    obtain ⟨hresult, rfl⟩ := Prod.mk.inj hview
    rw [if_neg (by simp [hreturned]), hresult, hmarked]
    have hmissing : (∀ q ∈ marked done specs, q.complete = false → q.type.isOptional) ↔
        ∀ s ∈ specs, s.name ∉ members.map Prod.fst → s.type.isOptional := by
      simp [marked, Spec.perUnpack, hdone]
    rw [← hmissing]
    refine Decides.weaken ((checkMissing_decides R (marked done specs) p.res).bind ?_ ?_)
      (and_iff_left trivial) fun _ => id
    · rintro ⟨result, res'⟩ hview -
      refine decides_pure trivial hview fun hdistinct hempty => ?_
      exact hfilled hdistinct fun s hs _ => hempty s hs
    · rintro ⟨result, res'⟩ hverdict hbad
      exact @fails_pure _ _ outcome (result, res', p.outputs) hverdict hbad
  · intro p hverdict hbad
    split_ifs
    · exact @fails_pure _ _ outcome (p.result, p.res, p.outputs) hverdict hbad
    · rw [show p.result = false from hverdict]
      refine (checkMissing_fails R p.toUnpack hbad).bind ?_
      rintro ⟨result, res'⟩ hverdict' hbad'
      exact @fails_pure _ _ outcome (result, res', p.outputs) hverdict' hbad'

theorem helper_not_object {json : Json Text D} (h : json.isObject = false) :
    HelperDecides F R json := by
  intro specs _ res outputs
  refine Fails.decides ?_ fun hgood => ?_
  · cases json with
    | object members => cases h
    | _ =>
      simp only [readJsonHelper]
      refine fails_report (reports_unrecognizedRequestBody R res) fun res' hbad => ?_
      exact @fails_pure _ _ outcome (false, res', outputs) rfl hbad
  · cases json with
    | object members => cases h
    | _ => exact hgood.1

theorem loop_nil (hvalid : Valid specs) : LoopDecides F R specs [] := by
  intro done res outputs _
  rw [readMembers]
  refine decides_pure (by simp) rfl ⟨rfl, ⟨done, rfl, by simp⟩, fun _ _ => ⟨?_, fun _ _ => rfl⟩⟩
  intro s hs found hfound
  rw [lookupPath_eq_none (hvalid.components s hs) List.not_mem_nil] at hfound
  cases hfound

mutual

theorem readJsonHelper_decides : ∀ json : Json Text D, Unique json → HelperDecides F R json
  | .object members, hunique =>
    helper_object hunique.1 fun _ hvalid =>
      readMembers_decides hvalid members hunique.1 hunique.2
  | .null, _ | .boolean _, _ | .number_integer _, _ | .number_unsigned _, _
  | .number_float _, _ | .string _, _ | .array _, _ | .discarded, _ | .binary, _ =>
    helper_not_object rfl

theorem readMembers_decides {specs : List Spec} (hvalid : Valid specs) :
    ∀ members : List (Text × Json Text D), (members.map Prod.fst).Nodup → UniqueMembers members →
      LoopDecides F R specs members
  | [], _, _ => loop_nil hvalid
  | (_, val) :: members, hnodup, hunique =>
    loop_cons hvalid (readJsonHelper_decides val hunique.1)
      (readMembers_decides hvalid members (List.nodup_cons.1 hnodup).2 hunique.2) hnodup

end

/-- Keys that split at '/' into nonempty components, none of them a prefix of another. -/
structure KeysApart (toUnpack : List PerUnpack) : Prop where
  component : ∀ p ∈ toUnpack, ∀ c ∈ p.key.splitOn '/', c ≠ []
  prefixFree : toUnpack.Pairwise fun p q =>
    ¬ p.key.splitOn '/' <+: q.key.splitOn '/' ∧ ¬ q.key.splitOn '/' <+: p.key.splitOn '/'

theorem KeysApart.valid {toUnpack : List PerUnpack} (h : KeysApart toUnpack) :
    Valid (toUnpack.map spec) where
  components s hs := by
    obtain ⟨p, hp, rfl⟩ := List.mem_map.1 hs
    exact components_spec (h.component p hp)
  prefixFree := List.pairwise_map.2 h.prefixFree

theorem marked_nil {toUnpack : List PerUnpack} (h : ∀ p ∈ toUnpack, p.complete = false) :
    marked [] (toUnpack.map spec) = toUnpack := by
  rw [marked, List.map_map]
  conv_rhs => rw [← List.map_id toUnpack]
  exact List.map_congr_left fun p hp => by simpa using perUnpack_spec (h p hp)

variable (F R) in
/-- The helper returns true if and only if the body fits the schema and has all it
needs. Then the outputs are filled; otherwise the request was bad. It throws
nothing if the response takes messages. -/
theorem readJsonHelper_decides_schema {toUnpack : List PerUnpack} (hkeys : KeysApart toUnpack)
    (hcomplete : ∀ p ∈ toUnpack, p.complete = false) {json : Json Text D} (hunique : Unique json)
    (res : Response D) (outputs : Outputs D) :
    ((∃ res' outputs', readJsonHelper F R res outputs toUnpack json = .ok (true, res', outputs')) ↔
      Fits F (toUnpack.map spec) json ∧ Required (toUnpack.map spec) json) ∧
    (∀ res' outputs', readJsonHelper F R res outputs toUnpack json = .ok (true, res', outputs') →
      Distinct (toUnpack.map spec) → EmptyVectors (toUnpack.map spec) outputs →
        Filled F (toUnpack.map spec) json outputs outputs') ∧
    (∀ res' outputs', readJsonHelper F R res outputs toUnpack json = .ok (false, res', outputs') →
      res'.result = badRequest) ∧
    (TakesMessages res.jsonValue → ∃ a, readJsonHelper F R res outputs toUnpack json = .ok a) := by
  have h := readJsonHelper_decides (F := F) (R := R) json hunique _ hkeys.valid res outputs
  rw [marked_nil hcomplete] at h
  have htrue : ∀ res' outputs',
      readJsonHelper F R res outputs toUnpack json = .ok (true, res', outputs') →
      Fits F (toUnpack.map spec) json ∧ Required (toUnpack.map spec) json := by
    intro res' outputs' hcall
    by_contra hgood
    cases (h.rejects hgood _ hcall).1
  refine ⟨⟨fun ⟨res', outputs', hcall⟩ => htrue res' outputs' hcall, fun hgood => ?_⟩,
    fun res' outputs' hcall => ?_, fun res' outputs' hcall => ?_, fun htakes => ?_⟩
  · obtain ⟨⟨ok, res', outputs'⟩, hcall, hview, -⟩ := h.accepts hgood
    obtain ⟨rfl, -⟩ := Prod.mk.inj hview
    exact ⟨res', outputs', hcall⟩
  · obtain ⟨a, ha, -, hfilled⟩ := h.accepts (htrue res' outputs' hcall)
    obtain rfl := Except.ok.inj (ha.symm.trans hcall)
    exact hfilled
  · refine (h.rejects (fun hgood => ?_) _ hcall).2
    obtain ⟨a, ha, hview, -⟩ := h.accepts hgood
    obtain rfl := Except.ok.inj (ha.symm.trans hcall)
    cases hview
  · obtain ⟨a, ha, -⟩ := h.returns htakes
    exact ⟨a, ha⟩

end Read

def sampleDoubles : Doubles Unit := { ofInt64 := fun _ => (), inRange := fun _ => true, zero := () }

def sampleRegistry : Registry Unit := { getLog := fun _ _ => .null, dump := fun _ _ => [] }

def sampleKeys : List PerUnpack :=
  [{ key := "a/b".toList, type := .one .int64, pointer := 0 },
    { key := "a/c".toList, type := .optional .string, pointer := 1 },
    { key := "d".toList, type := .vector .uint8 nofun, pointer := 2 }]

def sampleBody : Json Text Unit :=
  .object [("a".toList, .object [("b".toList, .number_unsigned 5)]),
    ("d".toList, .array [.number_unsigned 1, .number_unsigned 2])]

theorem sampleKeys_apart : KeysApart sampleKeys where
  component := by decide
  prefixFree := by decide

def sampleSpecs : List Spec :=
  [{ path := ["a".toList, "b".toList], type := .one .int64, pointer := 0 },
    { path := ["a".toList, "c".toList], type := .optional .string, pointer := 1 },
    { path := ["d".toList], type := .vector .uint8 nofun, pointer := 2 }]

theorem sampleBody_unique : JsonValue.Unique sampleBody := by
  simp [sampleBody, JsonValue.Unique, UniqueMembers, UniqueElements]

theorem spec_sampleKeys : sampleKeys.map spec = sampleSpecs := rfl

theorem sampleBody_fits : Fits sampleDoubles sampleSpecs sampleBody := by
  simp [Fits, MembersFit, sampleBody, sampleSpecs, below, Spec.name, unpacked, unpackedScalar,
    unpackedVector]
  exact ⟨rfl, rfl⟩

theorem sampleBody_required : Required sampleSpecs sampleBody := by
  unfold Required
  decide

def sampleOutputs : Outputs Unit := fun _ => .plain (.vector [])

theorem readJsonHelper_decides_schema_sample : ∃ res' outputs',
    readJsonHelper sampleDoubles sampleRegistry {} sampleOutputs sampleKeys sampleBody =
      .ok (true, res', outputs') ∧
        Filled sampleDoubles sampleSpecs sampleBody sampleOutputs outputs' := by
  have hcomplete : ∀ p ∈ sampleKeys, p.complete = false := by decide
  have h := readJsonHelper_decides_schema sampleDoubles sampleRegistry sampleKeys_apart hcomplete
    sampleBody_unique {} sampleOutputs
  rw [spec_sampleKeys] at h
  obtain ⟨res', outputs', hcall⟩ := h.1.2 ⟨sampleBody_fits, sampleBody_required⟩
  have hdistinct : Distinct sampleSpecs := by
    unfold Distinct
    decide
  exact ⟨res', outputs', hcall, h.2.1 res' outputs' hcall hdistinct fun _ _ _ => rfl⟩

end CrowCore.JsonSchema
