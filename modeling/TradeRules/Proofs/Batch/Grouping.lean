import Mathlib
import TradeRules.Batch.Plan

/-!
# Grouping by symbol

Rules are put into groups one after another. The groups that result stand in the order in which
their symbols first appear, each symbol once, and each holds the rules on its symbol in the order
of the batch (`Batch.groups_eq`). No rule that takes part is lost or doubled
(`Batch.groups_perm`).
-/

namespace TradeRules

/-- Every entry is left once when doubles are erased. -/
theorem nodup_eraseDups {β : Type} [DecidableEq β] (l : List β) : l.eraseDups.Nodup := by
  match l with
  | [] => exact List.nodup_nil
  | a :: as =>
    have hlt : (as.filter fun b => !b == a).length < as.length + 1 :=
      Nat.lt_succ_of_le (List.length_filter_le _ as)
    rw [List.eraseDups_cons, List.nodup_cons]
    exact ⟨by simp, nodup_eraseDups _⟩
termination_by l.length

/-- What came before is not kept again. -/
theorem eraseDups_concat_of_mem {β : Type} [DecidableEq β] {l : List β} {a : β} (h : a ∈ l) :
    (l ++ [a]).eraseDups = l.eraseDups := by
  have hnone : [a].removeAll l = [] := by simp [List.removeAll, h]
  rw [List.eraseDups_append, hnone, List.eraseDups_nil, List.append_nil]

/-- What is new is kept at the end. -/
theorem eraseDups_concat_of_notMem {β : Type} [DecidableEq β] {l : List β} {a : β} (h : a ∉ l) :
    (l ++ [a]).eraseDups = l.eraseDups ++ [a] := by
  have hone : [a].removeAll l = [a] := by simp [List.removeAll, h]
  rw [List.eraseDups_append, hone]
  rfl

namespace RuleGroup

/-- The groups of a row of rules, as they ought to be. -/
def ofRules (rules : List Rule) : List RuleGroup :=
  (rules.map Rule.symbol).eraseDups.map fun s => ⟨s, rules.filter fun r => r.symbol == s⟩

/-- A rule on a symbol without a group opens one at the end. -/
theorem join_of_notMem {symbols : List String} {members : String → List Rule} {rule : Rule}
    (h : rule.symbol ∉ symbols) :
    join rule (symbols.map fun s => ⟨s, members s⟩) =
      (symbols.map fun s => ⟨s, members s⟩) ++ [⟨rule.symbol, [rule]⟩] := by
  induction symbols with
  | nil => rfl
  | cons s symbols ih =>
    rw [List.mem_cons, not_or] at h
    rw [List.map_cons, join, if_neg (Ne.symm h.1), ih h.2, List.cons_append]

/-- A rule on another symbol adds nothing to a group. -/
theorem append_filter_of_ne {rule : Rule} {s : String} (h : rule.symbol ≠ s) (members : List Rule) :
    members ++ [rule].filter (fun r => r.symbol == s) = members := by
  simp [h]

/-- A rule on a symbol with a group joins that group and no other. -/
theorem join_of_mem {symbols : List String} {members : String → List Rule} {rule : Rule}
    (hnodup : symbols.Nodup) (h : rule.symbol ∈ symbols) :
    join rule (symbols.map fun s => ⟨s, members s⟩) =
      symbols.map fun s => ⟨s, members s ++ [rule].filter fun r => r.symbol == s⟩ := by
  induction symbols with
  | nil => cases h
  | cons s symbols ih =>
    obtain ⟨hs, hnodup⟩ := List.nodup_cons.1 hnodup
    rw [List.map_cons, List.map_cons, join]
    by_cases hr : s = rule.symbol
    · have hothers : ∀ s' ∈ symbols, (⟨s', members s'⟩ : RuleGroup) =
          ⟨s', members s' ++ [rule].filter fun r => r.symbol == s'⟩ := by
        intro s' hs'
        have hne : rule.symbol ≠ s' := by
          rintro rfl
          exact hs (hr ▸ hs')
        rw [append_filter_of_ne hne]
      rw [if_pos hr, List.map_congr_left hothers]
      simp [hr]
    · have hmem : rule.symbol ∈ symbols := by
        rcases List.mem_cons.1 h with h | h
        · exact absurd h.symm hr
        · exact h
      rw [if_neg hr, ih hnodup hmem, append_filter_of_ne (Ne.symm hr)]

/-- One more rule at the end of the batch is one more rule put into its group. -/
theorem join_ofRules (rules : List Rule) (rule : Rule) :
    join rule (ofRules rules) = ofRules (rules ++ [rule]) := by
  have hmem : rule.symbol ∈ (rules.map Rule.symbol).eraseDups ↔
      rule.symbol ∈ rules.map Rule.symbol := List.mem_eraseDups
  simp only [ofRules, List.map_append, List.filter_append, List.map_cons, List.map_nil]
  by_cases h : rule.symbol ∈ rules.map Rule.symbol
  · rw [join_of_mem (nodup_eraseDups _) (hmem.2 h), eraseDups_concat_of_mem h]
  · have hothers : ∀ s ∈ (rules.map Rule.symbol).eraseDups,
        (⟨s, rules.filter fun r => r.symbol == s⟩ : RuleGroup) =
          ⟨s, (rules.filter fun r => r.symbol == s) ++ [rule].filter fun r => r.symbol == s⟩ := by
      intro s hs
      have hne : rule.symbol ≠ s := by
        rintro rfl
        exact h (hmem.1 hs)
      rw [append_filter_of_ne hne]
    have hnone : (rules.filter fun r => r.symbol == rule.symbol) = [] := by
      rw [List.filter_eq_nil_iff]
      intro r hr hsame
      exact h (List.mem_map.2 ⟨r, hr, eq_of_beq hsame⟩)
    rw [join_of_notMem (mt hmem.1 h), eraseDups_concat_of_notMem h, List.map_append,
      List.map_congr_left hothers]
    simp [hnone]

/-- Rules that are put into groups one after another end up in the groups they ought to. -/
theorem foldl_join (done rules : List Rule) :
    rules.foldl (fun gs r => join r gs) (ofRules done) = ofRules (done ++ rules) := by
  induction rules generalizing done with
  | nil => rw [List.append_nil, List.foldl_nil]
  | cons rule rules ih => rw [List.foldl_cons, join_ofRules, ih, List.append_assoc]; rfl

/-- Putting a rule into its group adds that rule and nothing else. -/
theorem join_perm (rule : Rule) (groups : List RuleGroup) :
    ((join rule groups).flatMap RuleGroup.rules).Perm (rule :: groups.flatMap RuleGroup.rules) := by
  induction groups with
  | nil => exact List.Perm.refl _
  | cons g groups ih =>
    rw [join]
    split
    · rw [List.flatMap_cons, List.flatMap_cons, List.append_assoc]
      exact List.perm_middle
    · rw [List.flatMap_cons, List.flatMap_cons]
      exact (ih.append_left g.rules).trans List.perm_middle

/-- Putting rules into groups adds those rules and nothing else. -/
theorem foldl_join_perm (rules : List Rule) (groups : List RuleGroup) :
    ((rules.foldl (fun gs r => join r gs) groups).flatMap RuleGroup.rules).Perm
      (rules ++ groups.flatMap RuleGroup.rules) := by
  induction rules generalizing groups with
  | nil => exact List.Perm.refl _
  | cons rule rules ih =>
    rw [List.foldl_cons]
    exact (ih _).trans (((join_perm rule groups).append_left rules).trans List.perm_middle)

end RuleGroup

namespace Batch

/-- The symbols of the rules that take part, each at its first appearance. -/
def symbols (rules : List Rule) : List String := ((active rules).map Rule.symbol).eraseDups

/-- The rules on a symbol that take part. -/
def rulesOn (rules : List Rule) (s : String) : List Rule :=
  (active rules).filter fun r => r.symbol == s

/-- No symbol is listed twice. -/
theorem nodup_symbols (rules : List Rule) : (symbols rules).Nodup := nodup_eraseDups _

/-- There is one group for each symbol, with the rules on that symbol in their order. -/
theorem groups_eq (rules : List Rule) :
    groups rules = (symbols rules).map fun s => ⟨s, rulesOn rules s⟩ :=
  RuleGroup.foldl_join [] (active rules)

/-- The groups hold the rules that take part, each of them once. -/
theorem groups_perm (rules : List Rule) :
    ((groups rules).flatMap RuleGroup.rules).Perm (active rules) := by
  have h := RuleGroup.foldl_join_perm (active rules) []
  rwa [List.flatMap_nil, List.append_nil] at h

end Batch

end TradeRules
