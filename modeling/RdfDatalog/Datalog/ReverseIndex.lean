import RdfDatalog.Datalog.DerivedFrom

namespace RdfDatalog.Datalog

namespace DerivedFromIndex

/-- The count stored for `ruleId` and `quad` in a reverse index. -/
def countIn (byRule : AList (fun _ : Nat => AList (fun _ : Quad => Nat))) (ruleId : Nat)
    (quad : Quad) : Option Nat :=
  ((byRule.lookup ruleId).getD ∅).lookup quad

/-- The stored number of derivations of `quad` by the rule at `ruleId`, if any is stored. -/
def countFor (x : DerivedFromIndex) (ruleId : Nat) (quad : Quad) : Option Nat :=
  countIn x.byRule ruleId quad

/-- The number of recorded derivations of `quad` by the rule at `ruleId`. -/
def derivationsBy (x : DerivedFromIndex) (ruleId : Nat) (quad : Quad) : Nat :=
  (x.derivationsFor quad).countP fun d => d.ruleId = ruleId

/-- How a number of derivations is stored: not at all when there is none. -/
def stored (n : Nat) : Option Nat := if n = 0 then none else some n

@[simp] theorem stored_zero : stored 0 = none := rfl

@[simp] theorem stored_succ (n : Nat) : stored (n + 1) = some (n + 1) := rfl

theorem stored_getD (n : Nat) : (stored n).getD 0 = n := by
  cases n <;> rfl

theorem stored_isSome (n : Nat) : (stored n).isSome ↔ n ≠ 0 := by
  cases n <;> simp

section Counts

variable (byRule : AList (fun _ : Nat => AList (fun _ : Quad => Nat))) (ruleId id : Nat)
  (quad q : Quad)

theorem countIn_insert (quads : AList (fun _ : Quad => Nat)) :
    countIn (byRule.insert ruleId quads) id q =
      if id = ruleId then quads.lookup q else countIn byRule id q := by
  unfold countIn
  by_cases h : id = ruleId
  · subst h
    simp
  · rw [AList.lookup_insert_ne h, if_neg h]

theorem countIn_erase :
    countIn (byRule.erase ruleId) id q = if id = ruleId then none else countIn byRule id q := by
  unfold countIn
  by_cases h : id = ruleId
  · subst h
    simp
  · rw [AList.lookup_erase_ne h, if_neg h]

theorem lookup_of_keys_isEmpty {quads : AList (fun _ : Quad => Nat)}
    (h : quads.keys.isEmpty = true) : quads.lookup q = none := by
  rw [AList.lookup_eq_none, AList.mem_keys, List.isEmpty_iff.mp h]
  exact List.not_mem_nil

theorem countIn_replace (quads : AList (fun _ : Quad => Nat)) :
    countIn (if quads.keys.isEmpty then byRule.erase ruleId else byRule.insert ruleId quads) id q =
      if id = ruleId then quads.lookup q else countIn byRule id q := by
  split_ifs with hempty hid hid
  · rw [countIn_erase, if_pos hid, lookup_of_keys_isEmpty q hempty]
  · rw [countIn_erase, if_neg hid]
  · rw [countIn_insert, if_pos hid]
  · rw [countIn_insert, if_neg hid]

theorem countIn_dropByRule (d : Derivation) :
    countIn (dropByRule quad byRule d) id q =
      if id = d.ruleId ∧ q = quad then none else countIn byRule id q := by
  unfold dropByRule
  cases hl : byRule.lookup d.ruleId with
  | none =>
    split_ifs with h
    · rw [countIn, h.1, hl]
      rfl
    · rfl
  | some quads =>
    dsimp only
    rw [countIn_replace]
    by_cases hid : id = d.ruleId
    · subst hid
      by_cases hq : q = quad
      · subst hq
        simp
      · simp [hq, countIn, hl, AList.lookup_erase_ne hq]
    · simp [hid]

theorem countIn_foldl_dropByRule (ds : List Derivation) :
    countIn (ds.foldl (dropByRule quad) byRule) id q =
      if q = quad ∧ ∃ d ∈ ds, d.ruleId = id then none else countIn byRule id q := by
  induction ds generalizing byRule with
  | nil => simp
  | cons d ds ih =>
    rw [List.foldl_cons, ih, countIn_dropByRule]
    by_cases hq : q = quad
    · by_cases hrest : ∃ d ∈ ds, d.ruleId = id
      · simp [hq, hrest]
      · by_cases hid : id = d.ruleId
        · simp [hq, hid]
        · simp [hq, hrest, hid, Ne.symm hid]
    · simp [hq]

end Counts

variable (x : DerivedFromIndex) (quad q : Quad) (ruleId id : Nat) (derivation : Derivation)

theorem mem_quadsForRule :
    q ∈ x.quadsForRule ruleId ↔ (x.countFor ruleId q).isSome := by
  rw [quadsForRule, countFor, countIn, ← AList.mem_keys, AList.lookup_isSome]

theorem countFor_incrementByRule :
    (x.incrementByRule ruleId quad).countFor id q =
      if id = ruleId ∧ q = quad then some ((x.countFor id q).getD 0 + 1) else x.countFor id q := by
  unfold countFor incrementByRule
  rw [countIn_insert]
  by_cases hid : id = ruleId
  · subst hid
    by_cases hq : q = quad
    · subst hq
      simp [countIn]
    · simp [countIn, hq, AList.lookup_insert_ne hq]
  · simp [hid]

theorem countFor_decrementByRule :
    (x.decrementByRule ruleId quad).countFor id q =
      if id = ruleId ∧ q = quad then (x.countFor id q).bind fun n => stored (n - 1)
      else x.countFor id q := by
  unfold decrementByRule countFor
  cases hl : x.byRule.lookup ruleId with
  | none =>
    split_ifs with h
    · obtain ⟨rfl, rfl⟩ := h
      simp [countIn, hl]
    · rfl
  | some quads =>
    dsimp only
    rw [countIn_replace]
    by_cases hid : id = ruleId
    · subst hid
      cases hn : quads.lookup quad with
      | none =>
        by_cases hq : q = quad
        · subst hq
          simp [countIn, hl, hn]
        · simp [countIn, hl, hq]
      | some n =>
        by_cases hq : q = quad
        · subst hq
          simp only [countIn, hl, hn, Option.getD_some, Option.bind_some, true_and, if_true, stored]
          split_ifs <;> simp
        · simp only [countIn, hl, Option.getD_some, hq, and_false, if_true, if_false]
          split_ifs
          · exact AList.lookup_erase_ne hq
          · exact AList.lookup_insert_ne hq
    · simp [hid]

/-- The reverse index counts exactly the derivations by the rules it is meant to track, and the
derivations of a quad are distinct. -/
structure Exact : Prop where
  nodup : ∀ q, (x.derivationsFor q).Nodup
  counted : ∀ id ∈ x.negativelyTriggeringRules, ∀ q, x.countFor id q = stored (x.derivationsBy id q)
  uncounted : ∀ id, id ∉ x.negativelyTriggeringRules → ∀ q, x.countFor id q = none

theorem record_of_recorded (h : x.Recorded quad derivation) :
    (x.record quad derivation).1 = x := by
  unfold record
  exact congrArg Prod.fst (if_pos h)

variable (h : ¬ x.Recorded quad derivation)

include h

theorem index_record : (x.record quad derivation).1.index =
    x.index.insert quad (x.derivationsFor quad ++ [derivation]) := by
  unfold record
  rw [Recorded] at h
  simp only [h, if_false]
  by_cases hneg : derivation.ruleId ∈ x.negativelyTriggeringRules <;> simp [hneg, incrementByRule]

theorem derivationsFor_record :
    (x.record quad derivation).1.derivationsFor q =
      if q = quad then x.derivationsFor q ++ [derivation] else x.derivationsFor q := by
  have hindex : (x.record quad derivation).1.derivationsFor q = DerivedFromIndex.derivationsFor
      { x with index := x.index.insert quad (x.derivationsFor quad ++ [derivation]) } q := by
    rw [derivationsFor, index_record x quad derivation h]
    rfl
  rw [hindex, derivationsFor_insert]
  split_ifs with hq
  · rw [hq]
  · rfl

theorem countFor_record :
    (x.record quad derivation).1.countFor id q =
      if id = derivation.ruleId ∧ q = quad ∧ derivation.ruleId ∈ x.negativelyTriggeringRules then
        some ((x.countFor id q).getD 0 + 1)
      else x.countFor id q := by
  unfold record
  rw [Recorded] at h
  simp only [h, if_false]
  by_cases hneg : derivation.ruleId ∈ x.negativelyTriggeringRules
  · simp only [hneg, if_true, and_true, countFor_incrementByRule]
    rfl
  · simp only [hneg, if_false, and_false]
    rfl

omit h

theorem index_decrementByRule : (x.decrementByRule ruleId quad).index = x.index := by
  unfold decrementByRule
  cases x.byRule.lookup ruleId <;> rfl

@[simp] theorem decrementByRule_negativelyTriggeringRules :
    (x.decrementByRule ruleId quad).negativelyTriggeringRules = x.negativelyTriggeringRules := by
  unfold decrementByRule
  cases x.byRule.lookup ruleId <;> rfl

@[simp] theorem unrecord_negativelyTriggeringRules :
    (x.unrecord quad derivation).negativelyTriggeringRules = x.negativelyTriggeringRules := by
  unfold unrecord
  cases x.index.lookup quad with
  | none => rfl
  | some entries =>
    dsimp only
    by_cases h : (entries.filter fun d => d ≠ derivation).length ≠ entries.length
    · rw [if_pos h, decrementByRule_negativelyTriggeringRules]
    · rw [if_neg h]

theorem derivationsFor_unrecord : (x.unrecord quad derivation).derivationsFor q =
    if q = quad then (x.derivationsFor q).filter (fun d => d ≠ derivation)
    else x.derivationsFor q := by
  unfold unrecord
  cases hl : x.index.lookup quad with
  | none =>
    split_ifs with h
    · subst h
      simp [derivationsFor, hl]
    · rfl
  | some entries =>
    have hentries : x.derivationsFor quad = entries := by rw [derivationsFor, hl]; rfl
    have hindex (y : DerivedFromIndex)
        (hy : y.index = if (entries.filter fun d => d ≠ derivation).isEmpty then
          x.index.erase quad else x.index.insert quad (entries.filter fun d => d ≠ derivation)) :
        y.derivationsFor q = if q = quad then (x.derivationsFor q).filter (fun d => d ≠ derivation)
          else x.derivationsFor q := by
      by_cases h : q = quad
      · subst h
        rw [derivationsFor, hy, if_pos rfl, hentries]
        split_ifs with hempty
        · rw [AList.lookup_erase, List.isEmpty_iff.mp hempty]
          rfl
        · rw [AList.lookup_insert]
          rfl
      · rw [derivationsFor, hy, derivationsFor, if_neg h]
        split_ifs
        · rw [AList.lookup_erase_ne h]
        · rw [AList.lookup_insert_ne h]
    dsimp only
    by_cases h : (entries.filter fun d => d ≠ derivation).length ≠ entries.length
    · rw [if_pos h]
      exact hindex _ (index_decrementByRule ..)
    · rw [if_neg h]
      exact hindex _ rfl

theorem countFor_unrecord : (x.unrecord quad derivation).countFor id q =
    if id = derivation.ruleId ∧ q = quad ∧ x.Recorded quad derivation then
      (x.countFor id q).bind fun n => stored (n - 1)
    else x.countFor id q := by
  have hchanged (entries : List Derivation) :
      (entries.filter fun d => d ≠ derivation).length ≠ entries.length ↔ derivation ∈ entries := by
    rw [Ne, List.length_filter_eq_length_iff, not_forall]
    simp
  unfold unrecord
  cases hl : x.index.lookup quad with
  | none => simp [Recorded, derivationsFor, hl]
  | some entries =>
    have hrecorded : x.Recorded quad derivation ↔ derivation ∈ entries := by
      rw [Recorded, derivationsFor, hl, Option.getD_some]
    dsimp only
    by_cases h : derivation ∈ entries
    · rw [if_pos ((hchanged entries).mpr h), countFor_decrementByRule]
      simp only [hrecorded.mpr h, and_true]
      rfl
    · rw [if_neg fun hno => h ((hchanged entries).mp hno)]
      simp only [mt hrecorded.mp h, and_false, if_false]
      rfl

theorem derivationsFor_remove : (x.remove quad).derivationsFor q =
    if q = quad then [] else x.derivationsFor q := by
  unfold remove
  cases hl : x.index.lookup quad with
  | none =>
    split_ifs with h
    · rw [h, derivationsFor, hl]
      rfl
    · rfl
  | some derivations => exact x.derivationsFor_erase q quad

theorem countFor_remove : (x.remove quad).countFor id q =
    if q = quad ∧ ∃ d ∈ x.derivationsFor quad, d.ruleId = id then none else x.countFor id q := by
  unfold remove derivationsFor
  cases x.index.lookup quad with
  | none => simp
  | some derivations => exact countIn_foldl_dropByRule x.byRule id quad q derivations

variable {x}

theorem exact_new : new.Exact :=
  ⟨fun _ => .nil, nofun, fun _ _ _ => rfl⟩

theorem exact_with (rules : Finset Nat) : (withNegativelyTriggeringRules rules).Exact :=
  ⟨fun _ => .nil, fun _ _ _ => rfl, fun _ _ _ => rfl⟩

theorem Exact.record (h : x.Exact) : (x.record quad derivation).1.Exact := by
  by_cases hold : x.Recorded quad derivation
  · rw [record_of_recorded x quad derivation hold]
    exact h
  · refine ⟨?_, ?_, ?_⟩
    · intro q
      rw [derivationsFor_record x quad q derivation hold]
      split_ifs with hq
      · subst hq
        rw [← List.concat_eq_append]
        exact (h.nodup q).concat hold
      · exact h.nodup q
    · intro id hid q
      rw [record_negativelyTriggeringRules] at hid
      rw [countFor_record x quad q id derivation hold, derivationsBy,
        derivationsFor_record x quad q derivation hold, h.counted id hid q, stored_getD]
      by_cases hq : q = quad
      · by_cases hrule : derivation.ruleId = id
        · simp [hq, hrule, hid, derivationsBy]
        · simp [hq, hrule, Ne.symm hrule, derivationsBy]
      · simp [hq, derivationsBy]
    · intro id hid q
      rw [record_negativelyTriggeringRules] at hid
      rw [countFor_record x quad q id derivation hold, if_neg, h.uncounted id hid q]
      rintro ⟨rfl, -, htrigger⟩
      exact hid htrigger

theorem Exact.unrecord (h : x.Exact) : (x.unrecord quad derivation).Exact := by
  refine ⟨?_, ?_, ?_⟩
  · intro q
    rw [derivationsFor_unrecord]
    split_ifs
    · exact (h.nodup q).filter _
    · exact h.nodup q
  · intro id hid q
    rw [unrecord_negativelyTriggeringRules] at hid
    rw [countFor_unrecord, derivationsBy, derivationsFor_unrecord, h.counted id hid q]
    by_cases hq : q = quad
    · subst hq
      have herase : (x.derivationsFor q).filter (fun d => d ≠ derivation) =
          (x.derivationsFor q).erase derivation := by
        rw [(h.nodup q).erase_eq_filter]
        exact List.filter_congr fun d _ => by rw [Bool.eq_iff_iff]; simp
      rw [if_pos rfl, herase, List.countP_erase, ← derivationsBy]
      by_cases hrule : derivation.ruleId = id
      · by_cases hold : x.Recorded q derivation
        · have hmem : derivation ∈ x.derivationsFor q := hold
          cases hn : x.derivationsBy id q with
          | zero | succ => simp [hrule, hold, hmem]
        · have hmem : derivation ∉ x.derivationsFor q := hold
          simp [hold, hmem]
      · simp [hrule, Ne.symm hrule]
    · simp [hq, derivationsBy]
  · intro id hid q
    rw [unrecord_negativelyTriggeringRules] at hid
    rw [countFor_unrecord, h.uncounted id hid q]
    simp

theorem Exact.remove (h : x.Exact) : (x.remove quad).Exact := by
  refine ⟨?_, ?_, ?_⟩
  · intro q
    rw [derivationsFor_remove]
    split_ifs
    · exact .nil
    · exact h.nodup q
  · intro id hid q
    rw [remove_negativelyTriggeringRules] at hid
    rw [countFor_remove, derivationsBy, derivationsFor_remove, h.counted id hid q]
    by_cases hq : q = quad
    · subst hq
      by_cases hby : ∃ d ∈ x.derivationsFor q, d.ruleId = id
      · simp [hby]
      · have hzero : x.derivationsBy id q = 0 := by
          rw [derivationsBy, List.countP_eq_zero]
          intro d hd hid
          exact hby ⟨d, hd, of_decide_eq_true hid⟩
        simp [hzero]
    · simp [hq, derivationsBy]
  · intro id hid q
    rw [remove_negativelyTriggeringRules] at hid
    rw [countFor_remove, h.uncounted id hid q]
    simp

/-- One change of an index. -/
inductive Edit (x : DerivedFromIndex) : DerivedFromIndex → Prop
  | record (q : Quad) (d : Derivation) : Edit x (x.record q d).1
  | unrecord (q : Quad) (d : Derivation) : Edit x (x.unrecord q d)
  | remove (q : Quad) : Edit x (x.remove q)

/-- Any number of changes. -/
def Edited : DerivedFromIndex → DerivedFromIndex → Prop := Relation.ReflTransGen Edit

namespace Edited

variable {y z : DerivedFromIndex}

theorem refl (x : DerivedFromIndex) : x.Edited x := Relation.ReflTransGen.refl

theorem trans (h : x.Edited y) (h' : y.Edited z) : x.Edited z := Relation.ReflTransGen.trans h h'

theorem single (h : x.Edit y) : x.Edited y := Relation.ReflTransGen.single h

theorem negativelyTriggeringRules (h : x.Edited y) :
    y.negativelyTriggeringRules = x.negativelyTriggeringRules := by
  induction h with
  | refl => rfl
  | tail _ hedit ih =>
    rw [← ih]
    cases hedit with
    | record q d => exact record_negativelyTriggeringRules _ q d
    | unrecord q d => exact unrecord_negativelyTriggeringRules _ q d
    | remove q => exact remove_negativelyTriggeringRules q _

theorem exact (h : x.Edited y) (hx : x.Exact) : y.Exact := by
  induction h with
  | refl => exact hx
  | tail _ hedit ih =>
    cases hedit with
    | record q d => exact ih.record q d
    | unrecord q d => exact ih.unrecord q d
    | remove q => exact ih.remove q

end Edited

/-- Two indexes hold the same derivations, in the same order, and the same counts. -/
structure Agrees (x y : DerivedFromIndex) : Prop where
  derivations : ∀ q, y.derivationsFor q = x.derivationsFor q
  counts : ∀ id q, y.countFor id q = x.countFor id q

theorem Edited.agrees {y : DerivedFromIndex} (h : x.Edited y) (hx : x.Exact)
    (hsame : ∀ q, y.derivationsFor q = x.derivationsFor q) : x.Agrees y := by
  refine ⟨hsame, fun id q => ?_⟩
  have hy := h.exact hx
  have hfilter := h.negativelyTriggeringRules
  by_cases hid : id ∈ x.negativelyTriggeringRules
  · rw [hy.counted id (hfilter ▸ hid) q, hx.counted id hid q, derivationsBy, derivationsBy,
      hsame q]
  · rw [hy.uncounted id (hfilter ▸ hid) q, hx.uncounted id hid q]

end DerivedFromIndex

end RdfDatalog.Datalog
