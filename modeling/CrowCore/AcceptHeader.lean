import CrowCore.HttpResponse

set_option autoImplicit false

/-!
# Accept headers

The loop of `getPreferedContentType` drops a character of the header in each turn.
So it skips the character after a comma, which is right for a space, and from the
second range on it reads past the end of a range, which is right if a weight or
the end of the header comes first.
-/
namespace CrowCore.AcceptHeader
open HttpResponse

/-- A media range with its weight, and whether a space comes before it. -/
structure Element where
  spaced : Bool
  range : List Char
  q : Option (List Char)
  range_ne_nil : range ≠ []
  not_space : range.head? ≠ some ' '
  comma_notMem : ',' ∉ range
  no_separator : ¬ ";q=".toList <:+: range
  comma_notMem_q : ∀ weight ∈ q, ',' ∉ weight

def weightText : Option (List Char) → List Char
  | none => []
  | some weight => ";q=".toList ++ weight

def laterText : List Element → List Char
  | [] => []
  | e :: es =>
    ',' :: ((if e.spaced then [' '] else []) ++ e.range ++ weightText e.q ++ laterText es)

def headerText : List Element → List Char
  | [] => []
  | e :: es => e.range ++ weightText e.q ++ laterText es

def offer (preferedOrder : List ContentType) (range : List Char) : Option ContentType :=
  if String.ofList range = "*/*" then some .ANY
  else (contentTypes.lookup (String.ofList range)).filter fun type => type ∈ preferedOrder

/-- A range as it is written and as it appears; `none` where it runs on into what
follows it. -/
structure Place where
  written : List Char
  apparent : Option (List Char)

/-- Without a space the first character is skipped in its place. -/
def Element.visible (e : Element) : List Char := if e.spaced then e.range else e.range.drop 1

def laterPlaces : List Element → List Place
  | [] => []
  | e :: es =>
    { written := e.range
      apparent := if e.q = none ∧ es ≠ [] then none else some e.visible } :: laterPlaces es

def places : List Element → List Place
  | [] => []
  | e :: es => { written := e.range, apparent := some e.range } :: laterPlaces es

section Offers
variable (preferedOrder : List ContentType)

def Place.offer (p : Place) : Option ContentType := AcceptHeader.offer preferedOrder p.written

def Place.seems (p : Place) : Option ContentType :=
  p.apparent.bind (AcceptHeader.offer preferedOrder)

def negotiated (elements : List Element) : ContentType :=
  (elements.findSome? fun e => offer preferedOrder e.range).getD .NoMatch

end Offers

theorem beforeSeparator_cons_of_not {ch : Char} {rest : List Char}
    (h : ¬ ";q=".toList <+: ch :: rest) :
    beforeSeparator (ch :: rest) = ch :: beforeSeparator rest := by
  rw [beforeSeparator, if_neg]
  rwa [List.isPrefixOf_iff_prefix]

theorem beforeSeparator_append {xs ys : List Char} (h : ¬ ";q=".toList <:+: xs)
    (hq : ys.head? ≠ some 'q') (heq : ys.head? ≠ some '=') :
    beforeSeparator (xs ++ ys) = xs ++ beforeSeparator ys := by
  induction xs with
  | nil => rfl
  | cons ch xs ih =>
    have hrest : ¬ ";q=".toList <:+: xs := fun hin => h (List.infix_cons hin)
    rw [List.cons_append, beforeSeparator_cons_of_not, ih hrest, List.cons_append]
    rintro ⟨tail, htail⟩
    -- the three characters of the separator lie in xs or reach into ys
    cases xs with
    | nil =>
      cases ys with
      | nil => simp at htail
      | cons y ys =>
        have hy : ';' = ch ∧ 'q' = y ∧ '=' :: tail = ys := by simpa using htail
        exact hq (by rw [← hy.2.1, List.head?_cons])
    | cons x xs =>
      cases xs with
      | nil =>
        cases ys with
        | nil => simp at htail
        | cons y ys =>
          have hy : ';' = ch ∧ 'q' = x ∧ '=' = y ∧ tail = ys := by simpa using htail
          exact heq (by rw [← hy.2.2.1, List.head?_cons])
      | cons x' xs =>
        have hx : ';' = ch ∧ 'q' = x ∧ '=' = x' ∧ tail = xs ++ ys := by simpa using htail
        rw [← hx.1, ← hx.2.1, ← hx.2.2.1] at h
        exact h (List.IsPrefix.isInfix (List.prefix_append [';', 'q', '='] xs))

theorem beforeSeparator_weight {xs weight : List Char} (h : ¬ ";q=".toList <:+: xs) :
    beforeSeparator (xs ++ (";q=".toList ++ weight)) = xs := by
  rw [beforeSeparator_append h (by simp) (by simp)]
  simp [beforeSeparator]

theorem beforeSeparator_self {xs : List Char} (h : ¬ ";q=".toList <:+: xs) :
    beforeSeparator xs = xs := by
  have hself := @beforeSeparator_append xs [] h (by simp) (by simp)
  rwa [List.append_nil, beforeSeparator, List.append_nil] at hself

def names : List String := "*/*" :: contentTypes.map Prod.fst

theorem offer_eq_none {preferedOrder : List ContentType} {range : List Char}
    (h : String.ofList range ∉ names) : offer preferedOrder range = none := by
  rw [names, List.mem_cons, not_or] at h
  have hlookup : contentTypes.lookup (String.ofList range) = none := by
    rw [List.lookup_eq_none_iff]
    intro entry hentry
    rw [bne_iff_ne]
    exact fun heq => h.2 (heq ▸ List.mem_map_of_mem hentry)
  rw [offer, if_neg h.1, hlookup, Option.filter_none]

theorem offer_comma {preferedOrder : List ContentType} {xs : List Char} (h : ',' ∈ xs) :
    offer preferedOrder xs = none := by
  have hnames : ∀ name ∈ names, ',' ∉ name.toList := by decide
  apply offer_eq_none
  intro hname
  have hcomma := hnames _ hname
  rw [String.toList_ofList] at hcomma
  exact hcomma h

theorem offer_drop {preferedOrder : List ContentType} {range : List Char} {type : ContentType}
    (h : offer preferedOrder range = some type) : offer preferedOrder (range.drop 1) = none := by
  have hnames : ∀ name ∈ names, String.ofList (name.toList.drop 1) ∉ names := by decide
  have hname : String.ofList range ∈ names := by
    by_contra hname
    rw [offer_eq_none hname] at h
    cases h
  have hdrop := hnames _ hname
  rw [String.toList_ofList] at hdrop
  exact offer_eq_none hdrop

theorem offer_ne_noMatch (preferedOrder : List ContentType) (range : List Char) :
    offer preferedOrder range ≠ some .NoMatch := by
  rw [offer]
  split_ifs
  · decide
  · intro h
    have hlookup := (Option.filter_eq_some_iff.1 h).1
    rw [List.lookup_eq_some_iff] at hlookup
    obtain ⟨before, after, hsplit, -⟩ := hlookup
    have hmem : ContentType.NoMatch ∈ contentTypes.map Prod.snd := by
      rw [hsplit]
      simp
    revert hmem
    decide

section Loop
variable (preferedOrder : List ContentType) {header : List Char} {lastIndex : ℕ}

/-- One turn: the encoding is taken, or the loop goes on behind the next comma. -/
theorem preferedFrom_turn (hle : lastIndex ≤ header.length) {index : ℕ}
    (hindex : index = lastIndex + (header.drop lastIndex).findIdx (· == ',')) :
    preferedFrom preferedOrder header lastIndex =
      (offer preferedOrder (beforeSeparator ((header.drop lastIndex).take index))).getD
        (preferedFrom preferedOrder (header.drop 1) (index + 1)) := by
  rw [preferedFrom, if_pos (Nat.lt_succ_of_le hle), ← hindex, offer]
  dsimp only
  generalize String.ofList (beforeSeparator ((header.drop lastIndex).take index)) = encoding
  split_ifs with hany
  · rfl
  · cases contentTypes.lookup encoding with
    | none => rfl
    | some type => by_cases htype : type ∈ preferedOrder <;> simp [htype, Option.filter]

theorem preferedFrom_end (h : header.length < lastIndex) :
    preferedFrom preferedOrder header lastIndex = .NoMatch := by
  rw [preferedFrom, if_neg (by omega)]

theorem beq_comma {text : List Char} (h : ',' ∉ text) : ∀ ch ∈ text, (ch == ',') = false := by
  intro ch hch
  rw [beq_eq_false_iff_ne]
  exact fun heq => h (heq ▸ hch)

theorem findIdx_comma {text rest : List Char} (h : ',' ∉ text) :
    (text ++ ',' :: rest).findIdx (· == ',') = text.length := by
  rw [List.findIdx_append, List.findIdx_eq_length_of_false (beq_comma h), if_neg (lt_irrefl _),
    List.findIdx_cons, beq_self_eq_true, cond_true, Nat.zero_add]

theorem preferedFrom_last preferedOrder (hle : lastIndex ≤ header.length) {text : List Char}
    (hrest : header.drop lastIndex = text) (hcomma : ',' ∉ text) :
    preferedFrom preferedOrder header lastIndex =
      (offer preferedOrder (beforeSeparator text)).getD .NoMatch := by
  have hlength : header.length = lastIndex + text.length := by
    rw [← hrest, List.length_drop]
    omega
  have hindex : header.length = lastIndex + (header.drop lastIndex).findIdx (· == ',') := by
    rw [hrest, List.findIdx_eq_length_of_false (beq_comma hcomma), hlength]
  rw [preferedFrom_turn preferedOrder hle hindex, hrest, List.take_of_length_le (by omega),
    preferedFrom_end preferedOrder (by rw [List.length_drop]; omega)]

theorem preferedFrom_comma (hle : lastIndex ≤ header.length) {text : List Char} {ch : Char}
    {rest : List Char} (hrest : header.drop lastIndex = text ++ ',' :: ch :: rest)
    (hcomma : ',' ∉ text) :
    preferedFrom preferedOrder header lastIndex =
      (offer preferedOrder (beforeSeparator
        (text ++ (',' :: ch :: rest).take lastIndex))).getD
        (preferedFrom preferedOrder (header.drop 1) (lastIndex + text.length + 1)) ∧
    (header.drop 1).drop (lastIndex + text.length + 1) = rest ∧
    lastIndex + text.length + 1 ≤ (header.drop 1).length := by
  have hlength : header.length = lastIndex + (text.length + (rest.length + 2)) := by
    have h := congrArg List.length hrest
    rw [List.length_drop, List.length_append, List.length_cons, List.length_cons] at h
    omega
  refine ⟨?_, ?_, ?_⟩
  · have htake : (text ++ ',' :: ch :: rest).take (lastIndex + text.length) =
        text ++ (',' :: ch :: rest).take lastIndex := by
      rw [Nat.add_comm, List.take_length_add_append]
    have hindex : lastIndex + text.length =
        lastIndex + (header.drop lastIndex).findIdx (· == ',') := by
      rw [hrest, findIdx_comma hcomma]
    rw [preferedFrom_turn preferedOrder hle hindex, hrest, htake]
  · have hdrop : header.drop (lastIndex + (text.length + 2)) = rest := by
      rw [← List.drop_drop, hrest, List.drop_length_add_append]
      rfl
    rw [List.drop_drop, ← hdrop]
    congr 1
    omega
  · rw [List.length_drop]
    omega

theorem Element.visible_suffix (e : Element) : e.visible <:+ e.range := by
  rw [Element.visible]
  split_ifs
  · exact List.suffix_refl _
  · exact List.drop_suffix 1 _

theorem Element.visible_no_separator (e : Element) : ¬ ";q=".toList <:+: e.visible :=
  fun h => e.no_separator (h.trans e.visible_suffix.isInfix)

theorem weightText_comma (e : Element) : ',' ∉ weightText e.q := by
  cases hq : e.q with
  | none => exact List.not_mem_nil
  | some weight =>
    have hweight := e.comma_notMem_q weight hq
    simpa [weightText] using hweight

theorem Element.comma_notMem_text (e : Element) {xs : List Char} (hxs : xs <:+ e.range) :
    ',' ∉ xs ++ weightText e.q := by
  rw [List.mem_append, not_or]
  exact ⟨fun h => e.comma_notMem (hxs.mem h), weightText_comma e⟩

theorem laterText_cons (e : Element) (es : List Element) :
    ∃ ch, laterText (e :: es) = ',' :: ch :: (e.visible ++ weightText e.q ++ laterText es) := by
  rw [laterText, Element.visible]
  cases e.spaced with
  | true => exact ⟨' ', rfl⟩
  | false =>
    obtain ⟨ch, range, hrange⟩ := List.exists_cons_of_ne_nil e.range_ne_nil
    refine ⟨ch, ?_⟩
    rw [hrange]
    rfl

theorem offer_past_weight {xs weight more : List Char} (h : ¬ ";q=".toList <:+: xs) :
    beforeSeparator (xs ++ weightText (some weight) ++ more) = xs := by
  rw [weightText, List.append_assoc, List.append_assoc]
  exact beforeSeparator_weight h

theorem offer_past_comma {xs more : List Char} (h : ¬ ";q=".toList <:+: xs) :
    offer preferedOrder (beforeSeparator (xs ++ weightText none ++ ',' :: more)) = none := by
  apply offer_comma
  rw [weightText, List.append_nil, beforeSeparator_append h (by simp) (by simp),
    beforeSeparator_cons_of_not (by simp)]
  exact List.mem_append_right _ List.mem_cons_self

theorem beforeSeparator_text {xs : List Char} (h : ¬ ";q=".toList <:+: xs)
    (q : Option (List Char)) : beforeSeparator (xs ++ weightText q) = xs := by
  cases q with
  | none => rw [weightText, List.append_nil, beforeSeparator_self h]
  | some weight => exact beforeSeparator_weight h

theorem getD_findSome_cons {α β : Type} (f : α → Option β) (a : α) (l : List α) (b : β) :
    ((a :: l).findSome? f).getD b = (f a).getD ((l.findSome? f).getD b) := by
  rw [List.findSome?_cons]
  cases f a <;> rfl

/-- From the second element on, the loop sees the elements as they appear. The
induction is on those behind the current one, at which a turn leaves the loop. -/
theorem preferedFrom_later (e : Element) (es : List Element) (hpos : 0 < lastIndex)
    (hle : lastIndex ≤ header.length)
    (hrest : header.drop lastIndex = e.visible ++ weightText e.q ++ laterText es) :
    preferedFrom preferedOrder header lastIndex =
      ((laterPlaces (e :: es)).findSome? (Place.seems preferedOrder)).getD .NoMatch := by
  induction es generalizing e header lastIndex with
  | nil =>
    rw [laterText, List.append_nil] at hrest
    rw [preferedFrom_last preferedOrder hle hrest (e.comma_notMem_text e.visible_suffix),
      beforeSeparator_text e.visible_no_separator]
    simp [laterPlaces, Place.seems]
  | cons e' es ih =>
    obtain ⟨ch, hlater⟩ := laterText_cons e' es
    rw [hlater] at hrest
    obtain ⟨hturn, hdrop, hle'⟩ := preferedFrom_comma preferedOrder hle hrest
      (e.comma_notMem_text e.visible_suffix)
    obtain ⟨n, rfl⟩ : ∃ n, lastIndex = n + 1 := ⟨lastIndex - 1, by omega⟩
    have hnext := ih e' (Nat.succ_pos _) hle' hdrop
    rw [hturn, hnext, List.take_succ_cons]
    refine (congrArg (Option.getD · _) ?_).trans (getD_findSome_cons _ _ _ _).symm
    cases hq : e.q with
    | none =>
      rw [offer_past_comma preferedOrder e.visible_no_separator]
      simp [Place.seems]
    | some weight =>
      rw [offer_past_weight e.visible_no_separator]
      simp [Place.seems]

end Loop

variable {preferedOrder : List ContentType}

theorem offer_nil : offer preferedOrder [] = none := by
  simp [offer, contentTypes, List.lookup]

theorem getPreferedContentType_eq (elements : List Element) :
    getPreferedContentType (String.ofList (headerText elements)) preferedOrder =
      ((places elements).findSome? (Place.seems preferedOrder)).getD .NoMatch := by
  rw [getPreferedContentType, String.toList_ofList]
  cases elements with
  | nil =>
    rw [preferedFrom_last preferedOrder (Nat.le_refl 0) rfl List.not_mem_nil]
    exact congrArg (Option.getD · _) offer_nil
  | cons e es =>
    have htext := e.comma_notMem_text (List.suffix_refl _)
    have hfirst := beforeSeparator_text e.no_separator e.q
    refine Eq.trans ?_ (getD_findSome_cons _ _ _ _).symm
    cases es with
    | nil =>
      rw [headerText, laterText, List.append_nil,
        preferedFrom_last preferedOrder (Nat.zero_le _) rfl htext,
        List.drop_zero, hfirst]
      rfl
    | cons e' es =>
      obtain ⟨ch, hlater⟩ := laterText_cons e' es
      rw [headerText, hlater]
      obtain ⟨hturn, hdrop, hle⟩ := preferedFrom_comma preferedOrder
        (Nat.zero_le _) rfl htext
      have hnext := preferedFrom_later preferedOrder e' es (Nat.succ_pos _) hle hdrop
      rw [hturn, hnext, List.take_zero, List.append_nil, hfirst]
      rfl

section MadeUp
variable {α β : Type}

/-- What the first element is by `f`, but by `g` is not, a later one is by `g`. -/
def MadeUp (f g : α → Option β) (l : List α) : Prop :=
  ∀ before a after b, l = before ++ a :: after → (∀ x ∈ before, f x = none ∧ g x = none) →
    f a = some b → g a = none → after.findSome? g = some b

variable {f g : α → Option β} {a : α} {l : List α}

theorem madeUp_nil : MadeUp f g [] := by
  intro before a after b h
  simp at h

theorem madeUp_cons : MadeUp f g (a :: l) ↔
    (∀ b, f a = some b → g a = none → l.findSome? g = some b) ∧
    (f a = none → g a = none → MadeUp f g l) := by
  constructor
  · intro h
    refine ⟨fun b hf hg => h [] a l b rfl (fun x hx => by cases hx) hf hg, ?_⟩
    intro hf hg before a' after b hl hbefore
    refine h (a :: before) a' after b (by rw [hl, List.cons_append]) ?_
    intro x hx
    rcases List.mem_cons.1 hx with rfl | hx
    · exact ⟨hf, hg⟩
    · exact hbefore x hx
  · rintro ⟨hhead, htail⟩ before a' after b hl hbefore hf hg
    cases before with
    | nil =>
      obtain ⟨rfl, rfl⟩ := List.cons.inj hl
      exact hhead b hf hg
    | cons x before =>
      obtain ⟨rfl, hl'⟩ := List.cons.inj hl
      obtain ⟨hfa, hga⟩ := hbefore _ List.mem_cons_self
      exact htail hfa hga before a' after b hl'
        (fun x hx => hbefore x (List.mem_cons_of_mem _ hx)) hf hg

theorem getD_eq_some {o : Option β} {b d : β} (h : b ≠ d) : o.getD d = b ↔ o = some b := by
  cases o with
  | none => exact iff_of_false (fun heq => h heq.symm) (by simp)
  | some b' => simp

theorem getD_findSome_eq_iff {d : β} (hf : ∀ a ∈ l, f a ≠ some d) (hg : ∀ a ∈ l, g a ≠ some d)
    (hagree : ∀ a ∈ l, ∀ b c, f a = some b → g a = some c → b = c) :
    (l.findSome? g).getD d = (l.findSome? f).getD d ↔ MadeUp f g l ∧ MadeUp g f l := by
  induction l with
  | nil => exact iff_of_true rfl ⟨madeUp_nil, madeUp_nil⟩
  | cons a l ih =>
    have ih := ih (fun x hx => hf x (List.mem_cons_of_mem _ hx))
      (fun x hx => hg x (List.mem_cons_of_mem _ hx))
      fun x hx => hagree x (List.mem_cons_of_mem _ hx)
    have hfa := hf a List.mem_cons_self
    have hga := hg a List.mem_cons_self
    have hagree := hagree a List.mem_cons_self
    rw [getD_findSome_cons, getD_findSome_cons, madeUp_cons, madeUp_cons]
    cases hfv : f a with
    | none =>
      cases hgv : g a with
      | none => simpa using ih
      | some c =>
        have hne : c ≠ d := fun heq => hga (heq ▸ hgv)
        simpa [eq_comm (a := c)] using getD_eq_some hne
    | some b =>
      have hne : b ≠ d := fun heq => hfa (heq ▸ hfv)
      cases hgv : g a with
      | none => simpa using getD_eq_some hne
      | some c => simpa using (hagree b c hfv hgv).symm

end MadeUp

theorem apparent_laterPlaces {elements : List Element} {p : Place} (hp : p ∈ laterPlaces elements)
    {range : List Char} (h : p.apparent = some range) :
    range = p.written ∨ range = p.written.drop 1 := by
  induction elements with
  | nil => cases hp
  | cons e es ih =>
    rcases List.mem_cons.1 hp with rfl | hp
    · dsimp only at h
      split_ifs at h
      rw [← Option.some.inj h, Element.visible]
      split_ifs
      · exact .inl rfl
      · exact .inr rfl
    · exact ih hp

theorem apparent_places {elements : List Element} {p : Place} (hp : p ∈ places elements)
    {range : List Char} (h : p.apparent = some range) :
    range = p.written ∨ range = p.written.drop 1 := by
  cases elements with
  | nil => cases hp
  | cons e es =>
    rcases List.mem_cons.1 hp with rfl | hp
    · exact .inl (Option.some.inj h).symm
    · exact apparent_laterPlaces hp h

theorem places_agree {elements : List Element} {p : Place} (hp : p ∈ places elements)
    (type type' : ContentType) (hoffer : p.offer preferedOrder = some type)
    (hseems : p.seems preferedOrder = some type') : type = type' := by
  obtain ⟨range, hrange, hseems⟩ := Option.bind_eq_some_iff.1 hseems
  rcases apparent_places hp hrange with rfl | rfl
  · exact Option.some.inj (hoffer.symm.trans hseems)
  · rw [offer_drop hoffer] at hseems
    cases hseems

theorem findSome_offer (elements : List Element) :
    (places elements).findSome? (Place.offer preferedOrder) =
      elements.findSome? fun e => offer preferedOrder e.range := by
  have hlater : ∀ es : List Element, (laterPlaces es).findSome? (Place.offer preferedOrder) =
      es.findSome? fun e => offer preferedOrder e.range := by
    intro es
    induction es with
    | nil => rfl
    | cons e es ih =>
      rw [laterPlaces, List.findSome?_cons, List.findSome?_cons, ih]
      rfl
  cases elements with
  | nil => rfl
  | cons e es =>
    rw [places, List.findSome?_cons, List.findSome?_cons, hlater]
    rfl

/-- The first acceptable element is chosen if and only if it is read as it is written,
or else a later one makes up for it. -/
theorem negotiates_iff (preferedOrder : List ContentType) (elements : List Element) :
    getPreferedContentType (String.ofList (headerText elements)) preferedOrder =
      negotiated preferedOrder elements ↔
    MadeUp (Place.offer preferedOrder) (Place.seems preferedOrder) (places elements) ∧
    MadeUp (Place.seems preferedOrder) (Place.offer preferedOrder) (places elements) := by
  rw [getPreferedContentType_eq, negotiated, ← findSome_offer]
  apply getD_findSome_eq_iff
  · exact fun p _ => offer_ne_noMatch preferedOrder p.written
  · intro p _ h
    obtain ⟨range, -, hrange⟩ := Option.bind_eq_some_iff.1 h
    exact offer_ne_noMatch preferedOrder range hrange
  · exact fun p hp type type' => places_agree hp type type'

def sampleElements : List Element :=
  [{ spaced := false, range := "text/html".toList, q := none, range_ne_nil := by decide,
     not_space := by decide, comma_notMem := by decide, no_separator := by decide,
     comma_notMem_q := by simp },
   { spaced := false, range := "application/json".toList, q := none, range_ne_nil := by decide,
     not_space := by decide, comma_notMem := by decide, no_separator := by decide,
     comma_notMem_q := by simp }]

/-- The second type is looked up without its first character. -/
theorem second_type_not_found :
    String.ofList (headerText sampleElements) = "text/html,application/json" ∧
    negotiated [.JSON] sampleElements = .JSON ∧
    getPreferedContentType "text/html,application/json" [.JSON] = .NoMatch := by
  have htext : String.ofList (headerText sampleElements) = "text/html,application/json" := by
    decide
  refine ⟨htext, by decide, ?_⟩
  rw [← htext, getPreferedContentType_eq]
  decide

end CrowCore.AcceptHeader
