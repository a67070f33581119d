import RdfDatalog.Datalog.Types

namespace RdfDatalog.Datalog

namespace DerivedFromIndex

variable (x : DerivedFromIndex) (q quad : Quad) (d derivation : Derivation)

/-- The derivation `d` of `q` is on record. -/
def Recorded (q : Quad) (d : Derivation) : Prop := d ∈ x.derivationsFor q

instance : Decidable (x.Recorded q d) := inferInstanceAs (Decidable (d ∈ x.derivationsFor q))

@[simp] theorem not_recorded_new : ¬ new.Recorded q d := by
  simp [Recorded, derivationsFor, new]

@[simp] theorem not_recorded_with (rules : Finset Nat) :
    ¬ (withNegativelyTriggeringRules rules).Recorded q d := by
  simp [Recorded, derivationsFor, withNegativelyTriggeringRules, new]

theorem derivationsFor_insert (entries : List Derivation) :
    ({ x with index := x.index.insert quad entries } : DerivedFromIndex).derivationsFor q =
      if q = quad then entries else x.derivationsFor q := by
  by_cases h : q = quad
  · subst h; simp [derivationsFor]
  · simp [derivationsFor, AList.lookup_insert_ne h, h]

theorem derivationsFor_erase :
    ({ x with index := x.index.erase quad } : DerivedFromIndex).derivationsFor q =
      if q = quad then [] else x.derivationsFor q := by
  by_cases h : q = quad
  · subst h; simp [derivationsFor]
  · simp [derivationsFor, AList.lookup_erase_ne h, h]

@[simp] theorem recorded_record :
    (x.record quad derivation).1.Recorded q d ↔
      x.Recorded q d ∨ (q = quad ∧ d = derivation) := by
  unfold record Recorded
  simp only
  split_ifs with hold hneg
  · constructor
    · exact Or.inl
    · rintro (h | ⟨rfl, rfl⟩)
      · exact h
      · exact hold
  all_goals
    change d ∈ DerivedFromIndex.derivationsFor
      { x with index := x.index.insert quad (x.derivationsFor quad ++ [derivation]) } q ↔ _
    rw [derivationsFor_insert]
    by_cases h : q = quad
    · subst h; simp
    · simp [h]

theorem record_isNew : (x.record quad derivation).2 = true ↔ ¬ x.Recorded quad derivation := by
  unfold record Recorded
  simp only
  split_ifs with hold hneg <;> simp [hold]

@[simp] theorem recorded_remove :
    (x.remove quad).Recorded q d ↔ x.Recorded q d ∧ q ≠ quad := by
  unfold remove Recorded
  cases hl : x.index.lookup quad with
  | none =>
    by_cases h : q = quad
    · subst h; simp [derivationsFor, hl]
    · simp [h]
  | some derivations =>
    change d ∈ DerivedFromIndex.derivationsFor { x with index := x.index.erase quad } q ↔ _
    rw [derivationsFor_erase]
    by_cases h : q = quad
    · subst h; simp
    · simp [h]

theorem mem_iter {q : Quad} {d : Derivation} :
    (∃ ds, (q, ds) ∈ x.iter ∧ d ∈ ds) ↔ x.Recorded q d := by
  unfold iter Recorded derivationsFor
  constructor
  · intro ⟨ds, hds, hd⟩
    obtain ⟨⟨q', ds'⟩, he, heq⟩ := List.mem_map.mp hds
    cases heq
    rw [AList.mem_lookup_iff.mpr he]
    exact hd
  · intro hd
    cases hl : x.index.lookup q with
    | none => rw [hl] at hd; cases hd
    | some ds =>
      rw [hl] at hd
      exact ⟨ds, List.mem_map.mpr ⟨⟨q, ds⟩, AList.mem_lookup_iff.mp hl, rfl⟩, hd⟩

/-- The reverse index is exact for every rule it is meant to track. -/
def ByRuleExact : Prop :=
  ∀ ruleId ∈ x.negativelyTriggeringRules, ∀ q,
    q ∈ x.quadsForRule ruleId ↔ ∃ d, x.Recorded q d ∧ d.ruleId = ruleId

theorem byRuleExact_with (rules : Finset Nat) :
    (withNegativelyTriggeringRules rules).ByRuleExact := by
  intro ruleId _ q
  simp only [not_recorded_with, false_and, exists_false, iff_false]
  simp [quadsForRule, withNegativelyTriggeringRules, new]

theorem quadsForRule_incrementByRule (ruleId j : Nat) :
    q ∈ (x.incrementByRule ruleId quad).quadsForRule j ↔
      q ∈ x.quadsForRule j ∨ (j = ruleId ∧ q = quad) := by
  unfold quadsForRule incrementByRule
  by_cases h : j = ruleId
  · subst h
    simp only [AList.lookup_insert, Option.getD_some, ← AList.mem_keys, AList.mem_insert, true_and]
    exact or_comm
  · simp [AList.lookup_insert_ne h, h]

@[simp] theorem record_negativelyTriggeringRules :
    (x.record quad derivation).1.negativelyTriggeringRules = x.negativelyTriggeringRules := by
  unfold record
  simp only
  split_ifs <;> rfl

theorem quadsForRule_record (ruleId : Nat) :
    q ∈ (x.record quad derivation).1.quadsForRule ruleId ↔
      q ∈ x.quadsForRule ruleId ∨ (¬ x.Recorded quad derivation ∧
        derivation.ruleId ∈ x.negativelyTriggeringRules ∧ ruleId = derivation.ruleId ∧
        q = quad) := by
  unfold record Recorded
  simp only
  split_ifs with hold hneg
  · simp [hold]
  · rw [quadsForRule_incrementByRule]
    simp only [hold, hneg, not_false_eq_true, true_and]
    rfl
  · simp only [hneg, false_and, and_false, or_false]
    rfl

variable {x}

theorem ByRuleExact.record (h : x.ByRuleExact) : (x.record quad derivation).1.ByRuleExact := by
  intro ruleId hr q
  rw [record_negativelyTriggeringRules] at hr
  rw [quadsForRule_record, h ruleId hr q]
  constructor
  · rintro (⟨d, hd, hid⟩ | ⟨-, -, rfl, rfl⟩)
    · exact ⟨d, (recorded_record x q quad d derivation).mpr (.inl hd), hid⟩
    · exact ⟨derivation, (recorded_record x q q derivation derivation).mpr (.inr ⟨rfl, rfl⟩), rfl⟩
  · intro ⟨d, hd, hid⟩
    rcases (recorded_record x q quad d derivation).mp hd with hd | ⟨rfl, rfl⟩
    · exact .inl ⟨d, hd, hid⟩
    · by_cases hold : x.Recorded q d
      · exact .inl ⟨d, hold, hid⟩
      · subst hid
        exact .inr ⟨hold, hr, rfl, rfl⟩

theorem mem_keys_dropByRule (byRule : AList (fun _ : Nat => AList (fun _ : Quad => Nat)))
    (ruleId : Nat) :
    q ∈ (((dropByRule quad byRule d).lookup ruleId).getD ∅).keys ↔
      q ∈ ((byRule.lookup ruleId).getD ∅).keys ∧ ¬ (q = quad ∧ ruleId = d.ruleId) := by
  unfold dropByRule
  cases hl : byRule.lookup d.ruleId with
  | none =>
    by_cases h : ruleId = d.ruleId
    · subst h; simp [hl]
    · simp [h]
  | some quads =>
    have herase : ∀ q, q ∈ (quads.erase quad).keys ↔ q ∈ quads.keys ∧ q ≠ quad := by
      intro q
      rw [← AList.mem_keys, AList.mem_erase, ← AList.mem_keys, and_comm]
    simp only
    by_cases h : ruleId = d.ruleId
    · subst h
      have hgoal : q ∈ ((byRule.lookup d.ruleId).getD ∅).keys ∧ ¬ (q = quad ∧ True) ↔
          q ∈ (quads.erase quad).keys := by
        rw [herase, hl]
        simp
      simp only
      rw [hgoal]
      split_ifs with he
      · rw [AList.lookup_erase]
        rw [List.isEmpty_iff] at he
        simp [he]
      · rw [AList.lookup_insert]
        rfl
    · split_ifs with he
      · simp [AList.lookup_erase_ne h, h]
      · simp [AList.lookup_insert_ne h, h]

theorem mem_keys_foldl_dropByRule (ds : List Derivation)
    (byRule : AList (fun _ : Nat => AList (fun _ : Quad => Nat))) (ruleId : Nat) :
    q ∈ (((ds.foldl (dropByRule quad) byRule).lookup ruleId).getD ∅).keys ↔
      q ∈ ((byRule.lookup ruleId).getD ∅).keys ∧
        ¬ (q = quad ∧ ∃ d ∈ ds, ruleId = d.ruleId) := by
  induction ds generalizing byRule with
  | nil => simp
  | cons d ds ih =>
    rw [List.foldl_cons, ih, mem_keys_dropByRule]
    simp only [List.mem_cons, exists_eq_or_imp]
    rw [and_assoc, ← not_or, ← and_or_left]

@[simp] theorem remove_negativelyTriggeringRules (x : DerivedFromIndex) :
    (x.remove quad).negativelyTriggeringRules = x.negativelyTriggeringRules := by
  unfold remove
  cases x.index.lookup quad <;> rfl

theorem quadsForRule_remove (x : DerivedFromIndex) (ruleId : Nat) :
    q ∈ (x.remove quad).quadsForRule ruleId ↔
      q ∈ x.quadsForRule ruleId ∧
        ¬ (q = quad ∧ ∃ d, x.Recorded quad d ∧ d.ruleId = ruleId) := by
  unfold remove quadsForRule Recorded derivationsFor
  cases x.index.lookup quad with
  | none => simp
  | some ds =>
    simp only [Option.getD_some]
    rw [mem_keys_foldl_dropByRule]
    simp only [eq_comm]

theorem ByRuleExact.remove (h : x.ByRuleExact) : (x.remove quad).ByRuleExact := by
  intro ruleId hr q
  rw [remove_negativelyTriggeringRules] at hr
  rw [quadsForRule_remove, h ruleId hr q]
  constructor
  · intro ⟨⟨d, hd, hid⟩, hno⟩
    have hne : q ≠ quad := by
      rintro rfl
      exact hno ⟨rfl, d, hd, hid⟩
    exact ⟨d, (recorded_remove x q quad d).mpr ⟨hd, hne⟩, hid⟩
  · intro ⟨d, hd, hid⟩
    have hd := (recorded_remove x q quad d).mp hd
    exact ⟨⟨d, hd.1, hid⟩, fun hq => hd.2 hq.1⟩

end DerivedFromIndex

end RdfDatalog.Datalog
