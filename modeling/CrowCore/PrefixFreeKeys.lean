import Mathlib

set_option autoImplicit false

/-!
# Prefix-free key lists

No key is a prefix of another one, at another place of the list or equal to it.
A scan that asks every entry whether its key is a prefix of a text then fires
at most once, so it does not depend on the order of the entries; and replacing
each entry by entries with longer, again prefix-free keys keeps the list so.
-/
namespace CrowCore.PrefixFreeKeys

variable {α β γ : Type*}

def Apart (a b : List α) : Prop := ¬ a <+: b ∧ ¬ b <+: a

theorem Apart.symm {a b : List α} (h : Apart a b) : Apart b a := ⟨h.2, h.1⟩

def PrefixFree (keys : List (List α)) : Prop := keys.Pairwise Apart

theorem PrefixFree.perm {keys keys' : List (List α)} (h : PrefixFree keys)
    (hp : keys.Perm keys') : PrefixFree keys' :=
  (hp.pairwise_iff fun hab => hab.symm).1 h

theorem PrefixFree.nodup {keys : List (List α)} (h : PrefixFree keys) : keys.Nodup := by
  refine List.Pairwise.imp ?_ h
  rintro a _ hab rfl
  exact hab.1 (List.prefix_refl a)

theorem prefixFree_of_length {keys : List (List α)} (h : keys.Nodup) (n : ℕ)
    (hlen : ∀ k ∈ keys, k.length = n) : PrefixFree keys := by
  refine List.Pairwise.imp_of_mem ?_ h
  intro a b ha hb hne
  have hab : a.length = b.length := (hlen a ha).trans (hlen b hb).symm
  exact ⟨fun hp => hne (hp.eq_of_length hab), fun hp => hne (hp.eq_of_length hab.symm).symm⟩

theorem Apart.append {a b : List α} (h : Apart a b) (c d : List α) : Apart (a ++ c) (b ++ d) := by
  have key : ∀ {a b : List α}, Apart a b → ∀ c d : List α, ¬ a ++ c <+: b ++ d := by
    intro a b h c d hp
    have ha : a <+: b ++ d := (List.prefix_append a c).trans hp
    rcases List.prefix_or_prefix_of_prefix ha (List.prefix_append b d) with h' | h'
    · exact h.1 h'
    · exact h.2 h'
  exact ⟨key h c d, key h.symm d c⟩

theorem Apart.append_left {c d : List α} (h : Apart c d) (a : List α) :
    Apart (a ++ c) (a ++ d) :=
  ⟨fun hp => h.1 ((List.prefix_append_right_inj a).1 hp),
    fun hp => h.2 ((List.prefix_append_right_inj a).1 hp)⟩

theorem prefixFree_flatMap {entries : List β} (key : β → List α) {sub : β → List (List α)}
    (h : PrefixFree (entries.map key)) (hsub : ∀ e ∈ entries, PrefixFree (sub e)) :
    PrefixFree (entries.flatMap fun e => (sub e).map (key e ++ ·)) := by
  unfold PrefixFree at *
  rw [List.pairwise_flatMap]
  constructor
  · intro e he
    exact List.pairwise_map.2 ((hsub e he).imp fun hab => hab.append_left (key e))
  · refine (List.pairwise_map.1 h).imp fun hab => ?_
    intro x hx y hy
    obtain ⟨c, -, rfl⟩ := List.mem_map.1 hx
    obtain ⟨d, -, rfl⟩ := List.mem_map.1 hy
    exact hab.append c d

variable [DecidableEq α]

theorem flatMap_of_mem {entries : List β} (key : β → List α) (h : PrefixFree (entries.map key))
    (text : List α) (g : β → List γ) {e : β} (he : e ∈ entries) (hp : key e <+: text) :
    (entries.flatMap fun e => if (key e).isPrefixOf text then g e else []) = g e := by
  induction entries with
  | nil => cases he
  | cons x entries ih =>
    obtain ⟨hx, htail⟩ := List.pairwise_cons.1 h
    rw [List.flatMap_cons]
    rcases List.mem_cons.1 he with rfl | hmem
    · rw [if_pos (List.isPrefixOf_iff_prefix.2 hp), List.append_right_eq_self,
        List.flatMap_eq_nil_iff]
      intro y hy
      rw [if_neg]
      intro hpy
      have hap := hx (key y) (List.mem_map_of_mem hy)
      rcases List.prefix_or_prefix_of_prefix hp (List.isPrefixOf_iff_prefix.1 hpy) with h' | h'
      · exact hap.1 h'
      · exact hap.2 h'
    · rw [if_neg, List.nil_append, ih htail hmem]
      intro hpx
      have hap := hx (key e) (List.mem_map_of_mem hmem)
      rcases List.prefix_or_prefix_of_prefix hp (List.isPrefixOf_iff_prefix.1 hpx) with h' | h'
      · exact hap.2 h'
      · exact hap.1 h'

theorem flatMap_perm {entries entries' : List β} (key : β → List α)
    (h : PrefixFree (entries.map key)) (hp : entries.Perm entries') (text : List α)
    (g : β → List γ) :
    (entries.flatMap fun e => if (key e).isPrefixOf text then g e else []) =
      entries'.flatMap fun e => if (key e).isPrefixOf text then g e else [] := by
  by_cases hex : ∃ e ∈ entries, key e <+: text
  · obtain ⟨e, he, hpre⟩ := hex
    rw [flatMap_of_mem key h text g he hpre,
      flatMap_of_mem key (h.perm (hp.map key)) text g (hp.mem_iff.1 he) hpre]
  · have hnone : ∀ e ∈ entries, (if (key e).isPrefixOf text then g e else []) = [] := by
      intro e he
      rw [if_neg]
      exact fun hpre => hex ⟨e, he, List.isPrefixOf_iff_prefix.1 hpre⟩
    rw [List.flatMap_eq_nil_iff.2 hnone,
      List.flatMap_eq_nil_iff.2 fun e he => hnone e (hp.mem_iff.2 he)]

end CrowCore.PrefixFreeKeys
