import RdfDatalog.Endpoint.ReasonerDelta
import RdfDatalog.Datalog.RuleOrder

namespace RdfDatalog.Endpoint

open Datalog Datalog.IncrementalReasoner

variable {N : NativeTypes} {Expr : Type}

abbrev RulesetMap (Expr : Type) := AList (fun _ : String => List (Rule Expr))

/-- What the rules endpoint of a dataset works on: its quads, its reasoner if it has one, and the
rules that were loaded under an id. -/
structure DatasetEntry (Expr : Type) where
  namedGraphs : QuadStore
  reasoner : Option (List (DatalogProgram Expr))
  rulesets : RulesetMap Expr

/-- The rules in force. -/
def DatasetEntry.activeRules (entry : DatasetEntry Expr) : List (Rule Expr) :=
  match entry.reasoner with
  | none => []
  | some programs => programs.flatMap DatalogProgram.activeRules

/-- What the rules endpoint calls out to: the reasoner, the parser of rules, which interns the
names it reads, and the order in which a map of rulesets is walked. -/
structure RulesEnv (N : NativeTypes) (Expr : Type) where
  reasoning : Reasoning Expr
  parse : String → GraphElementManager N →
    GraphElementManager N × Except String (List (Rule Expr))
  rulesetOrder : List (Sigma fun _ : String => List (Rule Expr)) →
    List (Sigma fun _ : String => List (Rule Expr))
  rulesetOrder_perm : ∀ entries, (rulesetOrder entries).Perm entries

variable [DecidableEq Expr]

/-- The rules to add, and the rules to remove. -/
def diffRulesets (oldRules newRules : List (Rule Expr)) : List (Rule Expr) × List (Rule Expr) :=
  (newRules.filter fun r => r ∉ oldRules, oldRules.filter fun r => r ∉ newRules)

/-- Reset the quads to the asserted ones and build a new reasoner over them. -/
def fullRebuild (env : ReasonerEnv Expr) (namedGraphs : QuadStore) (newRules : List (Rule Expr)) :
    Except (Fault Expr × QuadStore) (IncrementalReasoner Expr) :=
  IncrementalReasoner.new env newRules (assertedOnly namedGraphs)

/-- The delta on the live reasoner, deletions first. -/
def applyRulesetDelta (env : ReasonerEnv Expr) (m : IncrementalReasoner Expr)
    (added removed : List (Rule Expr)) : Updated Expr (IncrementalReasoner Expr) :=
  match (if removed.isEmpty then .ok (m, 0) else applyRuleDeletions env m removed) with
  | .error e => .error e
  | .ok (m, _) =>
    match (if added.isEmpty then .ok (m, 0) else applyRuleInsertions env m added) with
    | .error e => .error e
    | .ok (m, _) => .ok m

/-- Change the rules in force to `newRules`. Returns whether the reasoner was rebuilt. -/
def applyRulesetDiff (env : ReasonerEnv Expr) (m : IncrementalReasoner Expr)
    (newRules : List (Rule Expr)) : Updated Expr (IncrementalReasoner Expr × Bool) :=
  let (added, removed) := diffRulesets m.activeRules newRules
  if added.isEmpty && removed.isEmpty then .ok (m, false)
  else
    match applyRulesetDelta env m added removed with
    | .ok m => .ok (m, false)
    | .error (_, m) =>
      match fullRebuild env m.base newRules with
      | .error (f, base) => .error (f, ⟨m.programs, base⟩)
      | .ok m => .ok (m, true)

/-- Put `combined` in force. No rules at all unload the reasoner. -/
def applyCombinedRuleset (env : ReasonerEnv Expr) (entry : DatasetEntry Expr)
    (combined : List (Rule Expr)) : Except (Fault Expr × DatasetEntry Expr) (DatasetEntry Expr) :=
  if combined.isEmpty then
    .ok { entry with namedGraphs := assertedOnly entry.namedGraphs, reasoner := none }
  else
    match entry.reasoner with
    | some programs =>
      match applyRulesetDiff env ⟨programs, entry.namedGraphs⟩ combined with
      | .error (f, m) => .error (f, { entry with namedGraphs := m.base, reasoner := m.programs })
      | .ok (m, _) => .ok { entry with namedGraphs := m.base, reasoner := m.programs }
    | none =>
      match fullRebuild env entry.namedGraphs combined with
      | .error (f, base) => .error (f, { entry with namedGraphs := base })
      | .ok m => .ok { entry with namedGraphs := m.base, reasoner := m.programs }

/-- Append the rules of `extra` that `base` does not hold yet, each once. -/
def mergeRulesInto (base extra : List (Rule Expr)) : List (Rule Expr) :=
  extra.foldl (fun rules r => if r ∈ rules then rules else rules ++ [r]) base

/-- The rules of every id but `excludeId`, each once. -/
def unionOtherRulesets (env : RulesEnv N Expr) (rulesets : RulesetMap Expr) (excludeId : String) :
    List (Rule Expr) :=
  (env.rulesetOrder rulesets.entries).foldl
    (fun result e => if e.1 = excludeId then result else mergeRulesInto result e.2) []

inductive RulesetApplyError where
  | parse (e : String)
  | conflict (e : String)

def RulesetApplyError.describe : RulesetApplyError → String
  | parse e => "Datalog parse error: " ++ e
  | conflict e => "ruleset is contradictory over the dataset's existing data: " ++ e

/-- A change of the rulesets: what it returns, and the interned names and the dataset after it. -/
abbrev RulesetOutcome (N : NativeTypes) (Expr α : Type) :=
  Except RulesetApplyError α × GraphElementManager N × DatasetEntry Expr

/-- Put the combined rules in force, and on success edit the map of rulesets. -/
def applyAndRecord {α : Type} (env : RulesEnv N Expr) (resources : GraphElementManager N)
    (entry : DatasetEntry Expr) (combined : List (Rule Expr))
    (record : RulesetMap Expr → RulesetMap Expr) (result : α) : RulesetOutcome N Expr α :=
  match applyCombinedRuleset env.reasoning.env entry combined with
  | .error (f, entry) => (.error (.conflict (env.reasoning.describe f)), resources, entry)
  | .ok entry => (.ok result, resources, { entry with rulesets := record entry.rulesets })

/-- Replace all rules; the rules of every id are forgotten. -/
def applyReplaceRulesetText (env : RulesEnv N Expr) (resources : GraphElementManager N)
    (entry : DatasetEntry Expr) (rulesText : String) : RulesetOutcome N Expr Nat :=
  match env.parse rulesText resources with
  | (resources, .error e) => (.error (.parse e), resources, entry)
  | (resources, .ok rules) =>
    applyAndRecord env resources entry rules (fun _ => ∅) rules.length

def applySetNamedRulesetText (env : RulesEnv N Expr) (resources : GraphElementManager N)
    (entry : DatasetEntry Expr) (rulesetId rulesText : String) : RulesetOutcome N Expr Nat :=
  match env.parse rulesText resources with
  | (resources, .error e) => (.error (.parse e), resources, entry)
  | (resources, .ok rules) =>
    let combined := mergeRulesInto (unionOtherRulesets env entry.rulesets rulesetId) rules
    applyAndRecord env resources entry combined
      (fun rulesets => if rules.isEmpty then rulesets.erase rulesetId
        else rulesets.insert rulesetId rules) rules.length

/-- Take the rules of one id out; `none` if the id is not known. -/
def applyDeleteNamedRuleset (env : RulesEnv N Expr) (resources : GraphElementManager N)
    (entry : DatasetEntry Expr) (rulesetId : String) : RulesetOutcome N Expr (Option Nat) :=
  match entry.rulesets.lookup rulesetId with
  | none => (.ok none, resources, entry)
  | some removed =>
    applyAndRecord env resources entry (unionOtherRulesets env entry.rulesets rulesetId)
      (fun rulesets => rulesets.erase rulesetId) (some removed.length)

end RdfDatalog.Endpoint

namespace RdfDatalog.Endpoint

open Datalog Datalog.IncrementalReasoner GroundProgram

variable {Expr : Type}

/-- Without a reasoner nothing is derived; a reasoner meets its invariant over the asserted
quads. -/
def Reasoned (env : ReasonerEnv Expr) (entry : DatasetEntry Expr) : Prop :=
  match entry.reasoner with
  | none => ∀ q, ¬ entry.namedGraphs.Derived q
  | some programs =>
    RuleInvariant env {q | entry.namedGraphs.Extensional q} programs entry.namedGraphs

theorem asserted_ruleInvariant {env : ReasonerEnv Expr} {E : Set Quad}
    {programs : List (DatalogProgram Expr)} {base : QuadStore}
    (h : RuleInvariant env E programs base) :
    RuleInvariant env {q | base.Extensional q} programs base := by
  have hstable := h.stable.union (F := {q | base.Extensional q}) fun q hq => hq.1
  have hsub : E ⊆ {q | base.Extensional q} := fun q hq => h.asserted q hq
  rw [Set.union_eq_self_of_subset_left hsub] at hstable
  exact ⟨hstable, h.consistent, fun q hq => hq, h.negation, h.safe⟩

theorem Reasoned.closure {env : ReasonerEnv Expr} {entry : DatasetEntry Expr}
    (h : Reasoned env entry) : IsStable (clausesOf env entry.activeRules)
      {q | entry.namedGraphs.Extensional q} entry.namedGraphs.quads := by
  obtain ⟨base, reasoner, rulesets⟩ := entry
  cases reasoner with
  | none =>
    have hquads : {q | base.Extensional q} = base.quads := by
      ext q
      exact ⟨fun hq => hq.1, fun hq => ⟨hq, h q⟩⟩
    have hnone : clausesOf env (DatasetEntry.activeRules ⟨base, none, rulesets⟩) = ∅ := by
      rw [Set.eq_empty_iff_forall_notMem]
      intro c ⟨r, hr, _⟩
      cases hr
    dsimp only
    rw [hnone, hquads]
    exact (closure_eq_of_closed fun c hc => by cases hc).symm
  | some programs => exact h.stable

variable [DecidableEq Expr] {env : ReasonerEnv Expr} {entry entry' : DatasetEntry Expr}
  {combined : List (Rule Expr)}

/-- The strata of a ruleset are ordered as its dependencies ask. -/
def RebuildOrdered (rules : List (Rule Expr)) : Prop :=
  ∀ strata, (RulePartitioner.new rules).orderRules = .ok strata → OrderedStrata strata

structure DeltaSound (env : ReasonerEnv Expr) (m : IncrementalReasoner Expr)
    (added removed : List (Rule Expr)) : Prop where
  retraction : removed ≠ [] → RetractionSound env {q | m.base.Extensional q} m removed
  insertion : added ≠ [] → InsertionSound env
    { m with programs := disableRules (deletionTargets m.programs removed) m.programs } added

/-- The delta on the live reasoner is sound, or it fails and the rebuild is ordered. -/
def DiffSound (env : ReasonerEnv Expr) (m : IncrementalReasoner Expr)
    (newRules : List (Rule Expr)) : Prop :=
  let (added, removed) := diffRulesets m.activeRules newRules
  match applyRulesetDelta env m added removed with
  | .ok _ => DeltaSound env m added removed
  | .error _ => RebuildOrdered newRules

/-- The path that puts `combined` in force is sound. -/
def ChangeSound (env : ReasonerEnv Expr) (entry : DatasetEntry Expr)
    (combined : List (Rule Expr)) : Prop :=
  combined ≠ [] → match entry.reasoner with
    | none => RebuildOrdered combined
    | some programs => DiffSound env ⟨programs, entry.namedGraphs⟩ combined

theorem fullRebuild_reasoned (hf : env.FixedFilters) {base : QuadStore}
    {m : IncrementalReasoner Expr} (hordered : RebuildOrdered combined)
    (h : fullRebuild env base combined = .ok m) :
    RuleInvariant env {q | m.base.Extensional q} m.programs m.base ∧
      ∀ r, r ∈ m.activeRules ↔ r ∈ combined := by
  rw [fullRebuild] at h
  cases horder : (RulePartitioner.new combined).orderRules with
  | error f =>
    rw [IncrementalReasoner.new, horder] at h
    cases h
  | ok strata =>
    have hs := hordered strata horder
    have hbase : (assertedOnly base).quads = {q | (assertedOnly base).Extensional q} := by
      ext q
      have hq := extensional_assertedOnly base q
      exact hq.1.trans hq.2.symm
    have hinv := new_invariant hf horder hs h (by rw [hbase]; exact subset_strataModel _ _ _)
    refine ⟨asserted_ruleInvariant hinv, fun r => ?_⟩
    rw [← (RulePartitioner.orderRules_spec combined).2 strata horder r,
      ← (new_ok hf horder hs h).1]
    rfl

theorem insertionSound_congr {m m₁ : IncrementalReasoner Expr} {added : List (Rule Expr)}
    (hprograms : SameRules m.programs m₁.programs) (h : InsertionSound env m added) :
    InsertionSound env m₁ added := by
  have hslots := ruleSlots_of_sameRules hprograms
  have hactive : m.activeRules = m₁.activeRules :=
    congrArg List.flatten (activeStrata_of_forall₂ hprograms).symm
  have htable : ruleTable m.programs = ruleTable m₁.programs :=
    (ruleTable_of_forall₂ hprograms).symm
  have hclassify : IncrementalReasoner.classify m.programs =
      IncrementalReasoner.classify m₁.programs := by
    funext acc r
    rw [IncrementalReasoner.classify, IncrementalReasoner.classify, hslots]
  have hrequested : requestedRules m.programs added = requestedRules m₁.programs added := by
    rw [requestedRules, requestedRules, hclassify]
  have hin : m.inForceOrRequested added = m₁.inForceOrRequested added := by
    rw [inForceOrRequested, inForceOrRequested, hactive, htable]
  exact ⟨hactive ▸ hin ▸ h.downstream, hrequested ▸ h.freshOrder⟩

theorem applyRulesetDelta_reasoned (hf : env.FixedFilters) {m m' : IncrementalReasoner Expr}
    {added removed : List (Rule Expr)}
    (hinv : RuleInvariant env {q | m.base.Extensional q} m.programs m.base)
    (hsound : DeltaSound env m added removed)
    (h : applyRulesetDelta env m added removed = .ok m') :
    RuleInvariant env {q | m'.base.Extensional q} m'.programs m'.base ∧
      ∀ r, r ∈ m'.activeRules ↔ (r ∈ m.activeRules ∧ r ∉ removed) ∨ r ∈ added := by
  have hinsert {m₁ : IncrementalReasoner Expr}
      (hinv₁ : RuleInvariant env {q | m.base.Extensional q} m₁.programs m₁.base)
      (hsame : SameRules (disableRules (deletionTargets m.programs removed) m.programs)
        m₁.programs)
      (h : (match (if added.isEmpty then .ok (m₁, 0) else applyRuleInsertions env m₁ added) with
        | .error e => (.error e : Updated Expr (IncrementalReasoner Expr))
        | .ok (m, _) => .ok m) = .ok m') :
      RuleInvariant env {q | m'.base.Extensional q} m'.programs m'.base ∧
        ∀ r, r ∈ m'.activeRules ↔ r ∈ m₁.activeRules ∨ r ∈ added := by
    by_cases hadded : added = []
    · subst hadded
      cases h
      exact ⟨asserted_ruleInvariant hinv₁, fun r => by simp⟩
    · rw [if_neg (by simpa using hadded)] at h
      split at h
      · cases h
      · next m₂ hins =>
        cases h
        have hins_ok := applyRuleInsertions_ok hf hinv₁
          (insertionSound_congr hsame (hsound.insertion hadded)) hins
        exact ⟨asserted_ruleInvariant hins_ok.1, hins_ok.2⟩
  rw [applyRulesetDelta] at h
  by_cases hremoved : removed = []
  · subst hremoved
    have hsame : SameRules (disableRules (deletionTargets m.programs []) m.programs)
        m.programs := by
      have hnil : deletionTargets m.programs [] = [] := by
        rw [List.eq_nil_iff_forall_not_mem]
        intro ⟨i, id⟩ hmem
        obtain ⟨_, _, _, _, hR⟩ := mem_deletionTargets.mp hmem
        cases hR
      rw [hnil]
      exact SameRules.refl m.programs
    obtain ⟨hinv', hactive⟩ := hinsert hinv hsame h
    refine ⟨hinv', fun r => ?_⟩
    rw [hactive, and_iff_left List.not_mem_nil]
  · rw [if_neg (by simpa using hremoved)] at h
    cases hdel : applyRuleDeletions env m removed with
    | error e =>
      rw [hdel] at h
      cases h
    | ok m₁ =>
      rw [hdel] at h
      have hinv₁ := applyRuleDeletions_invariant hf hinv (hsound.retraction hremoved) hdel
      obtain ⟨hinv', hactive⟩ := hinsert hinv₁ (applyRuleDeletions_programs hdel) h
      have hleft : m₁.1.activeRules = m.activeRules.filter fun r => r ∉ removed := by
        have hflat := congrArg List.flatten (applyRuleDeletions_strata hdel)
        rw [withoutRules_flatten] at hflat
        exact hflat
      refine ⟨hinv', fun r => ?_⟩
      rw [hactive, hleft, List.mem_filter, decide_eq_true_eq]

theorem applyRulesetDiff_reasoned (hf : env.FixedFilters) {m : IncrementalReasoner Expr}
    {result : IncrementalReasoner Expr × Bool}
    (hinv : RuleInvariant env {q | m.base.Extensional q} m.programs m.base)
    (hsound : DiffSound env m combined) (h : applyRulesetDiff env m combined = .ok result) :
    RuleInvariant env {q | result.1.base.Extensional q} result.1.programs result.1.base ∧
      ∀ r, r ∈ result.1.activeRules ↔ r ∈ combined := by
  have hadded (r : Rule Expr) : r ∈ (diffRulesets m.activeRules combined).1 ↔
      r ∈ combined ∧ r ∉ m.activeRules := by
    rw [diffRulesets, List.mem_filter, decide_eq_true_eq]
  have hremoved (r : Rule Expr) : r ∈ (diffRulesets m.activeRules combined).2 ↔
      r ∈ m.activeRules ∧ r ∉ combined := by
    rw [diffRulesets, List.mem_filter, decide_eq_true_eq]
  rw [applyRulesetDiff] at h
  rw [DiffSound] at hsound
  dsimp only at h hsound
  generalize (diffRulesets m.activeRules combined).1 = added at h hsound hadded
  generalize (diffRulesets m.activeRules combined).2 = removed at h hsound hremoved
  split_ifs at h with hsame
  · cases h
    refine ⟨hinv, fun r => ?_⟩
    obtain ⟨hnone, hnone'⟩ := Bool.and_eq_true_iff.mp hsame
    have hin := hadded r
    have hout := hremoved r
    rw [List.isEmpty_iff.mp hnone, iff_false_left List.not_mem_nil] at hin
    rw [List.isEmpty_iff.mp hnone', iff_false_left List.not_mem_nil] at hout
    exact ⟨fun hr => by_contra fun hno => hout ⟨hr, hno⟩,
      fun hr => by_contra fun hno => hin ⟨hr, hno⟩⟩
  · cases hdelta : applyRulesetDelta env m added removed with
    | ok m' =>
      rw [hdelta] at h hsound
      cases h
      obtain ⟨hinv', hactive⟩ := applyRulesetDelta_reasoned hf hinv hsound hdelta
      refine ⟨hinv', fun r => ?_⟩
      rw [hactive, hadded, hremoved]
      tauto
    | error e =>
      rw [hdelta] at h hsound
      dsimp only at h hsound
      split at h
      · cases h
      · next m' hre =>
        cases h
        exact fullRebuild_reasoned hf hsound hre

/-- Putting a ruleset in force: on a sound path exactly its rules are, over a store that is their
model. -/
theorem applyCombinedRuleset_reasoned (hf : env.FixedFilters) (hentry : Reasoned env entry)
    (hsound : ChangeSound env entry combined)
    (h : applyCombinedRuleset env entry combined = .ok entry') :
    Reasoned env entry' ∧ (∀ r, r ∈ entry'.activeRules ↔ r ∈ combined) ∧
      entry'.rulesets = entry.rulesets := by
  obtain ⟨base, reasoner, rulesets⟩ := entry
  rw [applyCombinedRuleset] at h
  by_cases hempty : combined = []
  · subst hempty
    cases h
    refine ⟨fun q hd => ?_, fun r => Iff.rfl, rfl⟩
    have hq := extensional_assertedOnly base q
    exact (hq.2.mpr (hq.1.mp hd.mem)).2 hd
  · rw [if_neg (by simpa using hempty)] at h
    have hpath := hsound hempty
    have hrebuild {m : IncrementalReasoner Expr} {base : QuadStore}
        (hordered : RebuildOrdered combined)
        (hre : fullRebuild env base combined = .ok m) :
        Reasoned env ⟨m.base, some m.programs, rulesets⟩ ∧ ∀ r, r ∈ m.activeRules ↔ r ∈ combined :=
      fullRebuild_reasoned hf hordered hre
    cases reasoner with
    | none =>
      dsimp only at h
      split at h
      · cases h
      · next m hre =>
        cases h
        obtain ⟨hreasoned, hrules⟩ := hrebuild hpath hre
        exact ⟨hreasoned, hrules, rfl⟩
    | some programs =>
      dsimp only at h
      split at h
      · cases h
      · next result hdiff =>
        cases h
        obtain ⟨hreasoned, hrules⟩ :=
          applyRulesetDiff_reasoned hf (m := ⟨programs, base⟩) hentry hpath hdiff
        exact ⟨hreasoned, hrules, rfl⟩

end RdfDatalog.Endpoint
