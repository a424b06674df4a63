import CrowCore.DecimalRuns

set_option autoImplicit false

/-!
# Message templates

`fillMessageArgs` puts arguments in the place of "%1", "%2" and so on. It reads all
digits of a number but drops only the first one of them from the template.
-/
namespace CrowCore.MessageTemplates
open DecimalRuns

abbrev Text := List Char

def maxSize : ℕ := 2 ^ 64 - 1

/-- The loop, on what was written and what is left of the template. -/
def fillLoop (messageArgs : List Text) (ret msg : Text) : Text :=
  match _hfound : msg.dropWhile (· ≠ '%') with
  | [] => ret ++ msg
  | _ :: rest =>
    let ret := ret ++ msg.takeWhile (· ≠ '%')
    match from_chars id maxSize rest with
    | none => []
    | some number =>
      -- `number--`, which makes the greatest number of 0
      match messageArgs[(number + maxSize) % 2 ^ 64]? with
      | none => []
      | some arg => fillLoop messageArgs (ret ++ arg) (rest.drop 1)
termination_by msg.length
decreasing_by
  have hle := List.length_dropWhile_le (· ≠ '%') msg
  rw [_hfound, List.length_cons] at hle
  rw [List.length_drop]
  omega

def fillMessageArgs (messageArgs : List Text) (msg : Text) : Text := fillLoop messageArgs [] msg

def placeholders : Text → List (List Char)
  | [] => []
  | ch :: msg => if ch = '%' then digitRun id msg :: placeholders msg else placeholders msg

/-- Digits that are the number of an argument. -/
structure Names (messageArgs : List Text) (run : List Char) : Prop where
  ne_nil : run ≠ []
  pos : 1 ≤ numberOf id run
  le : numberOf id run ≤ messageArgs.length

/-- The template with arguments in the place of its numbers; `kept` are the digits
that stay. -/
def replaced (kept : List Char → List Char) (messageArgs : List Text) (msg : Text) : Text :=
  match msg with
  | [] => []
  | ch :: msg =>
    if ch = '%' then
      messageArgs.getD (numberOf id (digitRun id msg) - 1) [] ++ kept (digitRun id msg) ++
        replaced kept messageArgs (afterRun id msg)
    else ch :: replaced kept messageArgs msg
termination_by msg.length
decreasing_by
  · exact Nat.lt_succ_of_le (List.length_dropWhile_le _ _)
  · exact Nat.lt_succ_self _

def substitute : List Text → Text → Text := replaced fun _ => []

/-- The filled template, or nothing if some '%' names no argument. -/
structure FillsCompletely (messageArgs : List Text) (msg : Text) : Prop where
  filled : (∀ run ∈ placeholders msg, Names messageArgs run) →
    fillMessageArgs messageArgs msg = substitute messageArgs msg
  refused : (∃ run ∈ placeholders msg, ¬ Names messageArgs run) →
    fillMessageArgs messageArgs msg = []

section Templates
variable {messageArgs : List Text} {kept : List Char → List Char} {text msg : Text}

theorem placeholders_append (h : '%' ∉ text) (msg : Text) :
    placeholders (text ++ msg) = placeholders msg := by
  induction text with
  | nil => rfl
  | cons ch text ih =>
    obtain ⟨hch, htext⟩ := not_or.1 (List.mem_cons.not.1 h)
    rw [List.cons_append, placeholders, if_neg (Ne.symm hch), ih htext]

theorem replaced_append (h : '%' ∉ text) (msg : Text) :
    replaced kept messageArgs (text ++ msg) = text ++ replaced kept messageArgs msg := by
  induction text with
  | nil => rfl
  | cons ch text ih =>
    obtain ⟨hch, htext⟩ := not_or.1 (List.mem_cons.not.1 h)
    rw [List.cons_append, replaced, if_neg (Ne.symm hch), ih htext, List.cons_append]

theorem not_mem_digitRun (msg : Text) : '%' ∉ digitRun id msg := by
  intro h
  have hdigit : isDigit id '%' := List.mem_takeWhile_imp h
  exact absurd hdigit (by decide)

theorem placeholders_afterRun (msg : Text) :
    placeholders (afterRun id msg) = placeholders msg := by
  have happend := placeholders_append (not_mem_digitRun msg) (afterRun id msg)
  rw [digitRun_append_afterRun] at happend
  exact happend.symm

theorem drop_run (hrun : digitRun id msg ≠ []) : '%' ∉ (digitRun id msg).drop 1 ∧
    msg.drop 1 = (digitRun id msg).drop 1 ++ afterRun id msg := by
  refine ⟨fun h => not_mem_digitRun msg (List.mem_of_mem_drop h), ?_⟩
  have hpos : 1 ≤ (digitRun id msg).length := List.length_pos_iff.2 hrun
  rw [← List.drop_append_of_le_length hpos, digitRun_append_afterRun]

theorem split_at_percent {ch : Char} {rest : Text}
    (h : msg.dropWhile (· ≠ '%') = ch :: rest) :
    '%' ∉ msg.takeWhile (· ≠ '%') ∧ msg = msg.takeWhile (· ≠ '%') ++ '%' :: rest := by
  have hnot := List.head?_dropWhile_not (· ≠ '%') msg
  rw [h] at hnot
  obtain rfl : ch = '%' := by simpa using hnot
  refine ⟨fun hmem => ?_, ?_⟩
  · simpa using List.mem_takeWhile_imp hmem
  · rw [← h, List.takeWhile_append_dropWhile]

theorem percent_not_mem (h : msg.dropWhile (· ≠ '%') = []) : '%' ∉ msg := by
  intro hmem
  have hall := List.dropWhile_eq_nil_iff.1 h '%' hmem
  simp at hall

theorem argument_of_names (hargs : messageArgs.length < 2 ^ 64) {rest : Text}
    (h : Names messageArgs (digitRun id rest)) : ∃ number arg,
      from_chars id maxSize rest = some number ∧
        messageArgs[(number + maxSize) % 2 ^ 64]? = some arg := by
  obtain ⟨hne, hpos, hle⟩ := h
  have hmax : numberOf id (digitRun id rest) ≤ maxSize := by
    unfold maxSize
    omega
  have hlt : (numberOf id (digitRun id rest) + maxSize) % 2 ^ 64 < messageArgs.length := by
    unfold maxSize
    omega
  exact ⟨_, _, from_chars_eq_some.2 ⟨hne, rfl, hmax⟩, List.getElem?_eq_getElem hlt⟩

theorem names_of_argument (hargs : messageArgs.length < 2 ^ 64) {rest : Text} {number : ℕ}
    {arg : Text} (hnumber : from_chars id maxSize rest = some number)
    (harg : messageArgs[(number + maxSize) % 2 ^ 64]? = some arg) :
    Names messageArgs (digitRun id rest) ∧
      messageArgs.getD (numberOf id (digitRun id rest) - 1) [] = arg := by
  obtain ⟨hne, rfl, hmax⟩ := from_chars_eq_some.1 hnumber
  obtain ⟨hlt, hget⟩ := List.getElem?_eq_some_iff.1 harg
  unfold maxSize at hlt hmax
  have hindex : (numberOf id (digitRun id rest) + maxSize) % 2 ^ 64 =
      numberOf id (digitRun id rest) - 1 := by
    unfold maxSize
    omega
  refine ⟨⟨hne, by omega, by omega⟩, ?_⟩
  rw [hindex] at harg
  rw [List.getD_eq_getElem?_getD, harg, Option.getD_some]

/-- What the loop writes if each '%' names an argument, and what it returns if not. -/
theorem fillLoop_eq (hargs : messageArgs.length < 2 ^ 64) (ret msg : Text) :
    ((∀ run ∈ placeholders msg, Names messageArgs run) → fillLoop messageArgs ret msg =
      ret ++ replaced (List.drop 1) messageArgs msg) ∧
    ((∃ run ∈ placeholders msg, ¬ Names messageArgs run) → fillLoop messageArgs ret msg = []) := by
  fun_induction fillLoop messageArgs ret msg with
  | case1 ret msg hfound =>
    have hmsg := percent_not_mem hfound
    have hplaceholders := placeholders_append hmsg []
    have hreplaced : replaced (List.drop 1) messageArgs (msg ++ []) =
        msg ++ replaced (List.drop 1) messageArgs [] := replaced_append hmsg []
    rw [List.append_nil] at hplaceholders hreplaced
    rw [hplaceholders, hreplaced, replaced, List.append_nil]
    simp [placeholders]
  | case2 ret msg ch rest hfound hnone =>
    obtain ⟨hlit, hmsg⟩ := split_at_percent hfound
    have hbad : ¬ Names messageArgs (digitRun id rest) := by
      intro hnames
      obtain ⟨number, arg, hnumber, -⟩ := argument_of_names hargs hnames
      rw [hnone] at hnumber
      cases hnumber
    rw [hmsg, placeholders_append hlit, placeholders, if_pos rfl]
    exact ⟨fun h => (hbad (h _ List.mem_cons_self)).elim, fun _ => rfl⟩
  | case3 ret msg ch rest hfound number hnumber hnone =>
    obtain ⟨hlit, hmsg⟩ := split_at_percent hfound
    have hbad : ¬ Names messageArgs (digitRun id rest) := by
      intro hnames
      obtain ⟨number', arg, hnumber', harg⟩ := argument_of_names hargs hnames
      obtain rfl := Option.some.inj (hnumber.symm.trans hnumber')
      rw [hnone] at harg
      cases harg
    rw [hmsg, placeholders_append hlit, placeholders, if_pos rfl]
    exact ⟨fun h => (hbad (h _ List.mem_cons_self)).elim, fun _ => rfl⟩
  | case4 ret msg ch rest hfound ret' number hnumber arg harg ih =>
    obtain ⟨hlit, hmsg⟩ := split_at_percent hfound
    obtain ⟨hnames, hvalue⟩ := names_of_argument hargs hnumber harg
    obtain ⟨hkept, hdrop⟩ := drop_run hnames.ne_nil
    rw [hdrop, placeholders_append hkept, replaced_append hkept, placeholders_afterRun] at ih
    rw [hmsg, placeholders_append hlit, placeholders, if_pos rfl, replaced_append hlit, replaced,
      if_pos rfl, hvalue, hdrop]
    constructor
    · intro h
      rw [ih.1 fun run hrun => h run (List.mem_cons_of_mem _ hrun)]
      simp [ret']
    · rintro ⟨run, hrun, hbad⟩
      rcases List.mem_cons.1 hrun with rfl | hrun
      · exact (hbad hnames).elim
      · exact ih.2 ⟨run, hrun, hbad⟩

theorem length_replaced (messageArgs : List Text) (kept : List Char → List Char) (msg : Text) :
    (replaced kept messageArgs msg).length = (substitute messageArgs msg).length +
      ((placeholders msg).map fun run => (kept run).length).sum := by
  unfold substitute
  fun_induction replaced kept messageArgs msg with
  | case1 => rw [replaced]; rfl
  | case2 msg ih =>
    rw [placeholders_afterRun] at ih
    rw [replaced, if_pos rfl, placeholders, if_pos rfl]
    simp only [List.length_append, List.map_cons, List.sum_cons, List.length_nil, ih]
    omega
  | case3 ch msg hch ih =>
    rw [replaced, if_neg hch, placeholders, if_neg hch, List.length_cons, List.length_cons, ih]
    omega

theorem replaced_eq_substitute (h : ∀ run ∈ placeholders msg, kept run = []) :
    replaced kept messageArgs msg = substitute messageArgs msg := by
  unfold substitute
  fun_induction replaced kept messageArgs msg with
  | case1 => rw [replaced]
  | case2 msg ih =>
    rw [placeholders, if_pos rfl] at h
    obtain ⟨hrun, hrest⟩ := List.forall_mem_cons.1 h
    rw [placeholders_afterRun] at ih
    rw [replaced, if_pos rfl, hrun, ih hrest]
  | case3 ch msg hch ih =>
    rw [placeholders, if_neg hch] at h
    rw [replaced, if_neg hch, ih h]

/-- A template is filled completely if and only if some '%' names no argument or all
numbers have one digit. -/
theorem fills_completely_iff (hargs : messageArgs.length < 2 ^ 64) (msg : Text) :
    FillsCompletely messageArgs msg ↔ ((∀ run ∈ placeholders msg, Names messageArgs run) →
      ∀ run ∈ placeholders msg, run.length = 1) := by
  obtain ⟨hfilled, hrefused⟩ := fillLoop_eq hargs [] msg
  constructor
  · rintro ⟨hcomplete, -⟩ hnames run hrun
    have heq := (hfilled hnames).symm.trans (hcomplete hnames)
    have hlength := length_replaced messageArgs (List.drop 1) msg
    rw [← List.nil_append (replaced _ _ _), heq] at hlength
    have hsum : ((placeholders msg).map fun run => (run.drop 1).length).sum = 0 := by omega
    have hzero := List.sum_eq_zero_iff.1 hsum _ (List.mem_map_of_mem hrun)
    have hpos := List.length_pos_iff.2 (hnames run hrun).ne_nil
    rw [List.length_drop] at hzero
    omega
  · intro hone
    refine ⟨fun hnames => ?_, hrefused⟩
    rw [fillMessageArgs, hfilled hnames, List.nil_append]
    refine replaced_eq_substitute fun run hrun => ?_
    rw [List.drop_eq_nil_iff, hone hnames run hrun]

end Templates

def sampleTemplate : Text := "Not %2, %1.".toList

theorem fills_completely_iff_sample : [['a'], ['b']].length < 2 ^ 64 ∧
    fillMessageArgs [['a'], ['b']] sampleTemplate = "Not b, a.".toList ∧
      FillsCompletely [['a'], ['b']] sampleTemplate := by
  refine ⟨by decide, by decide +kernel, ?_⟩
  exact (fills_completely_iff (by decide) sampleTemplate).2 fun _ => by decide +kernel

/-- The last digit of the number stays. -/
theorem twelfth_argument_keeps_digit :
    ¬ FillsCompletely (List.replicate 12 ['a']) "%12".toList := by
  intro h
  have hnames : ∀ run ∈ placeholders "%12".toList, Names (List.replicate 12 ['a']) run := by
    intro run hrun
    obtain rfl : run = ['1', '2'] := List.mem_singleton.1 hrun
    exact ⟨by decide, by decide, by decide⟩
  have hfilled := h.filled hnames
  revert hfilled
  decide +kernel

end CrowCore.MessageTemplates
