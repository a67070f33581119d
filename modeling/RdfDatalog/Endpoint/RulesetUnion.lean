import RdfDatalog.Endpoint.RulesetChange

namespace RdfDatalog.Endpoint

open Datalog Datalog.IncrementalReasoner GroundProgram

variable {N : NativeTypes} {Expr : Type}

/-- The rules that clients have loaded: by the last plain load, and since then under each id. -/
structure LoadedRules (Expr : Type) where
  plain : List (Rule Expr)
  named : RulesetMap Expr

/-- `r` is a rule of the ruleset `id`. -/
def NamedUnder (rulesets : RulesetMap Expr) (id : String) (r : Rule Expr) : Prop :=
  ∃ rules, rulesets.lookup id = some rules ∧ r ∈ rules

def LoadedRules.Has (loaded : LoadedRules Expr) (r : Rule Expr) : Prop :=
  r ∈ loaded.plain ∨ ∃ id, NamedUnder loaded.named id r

/-- Exactly the loaded rules are in force, and the store is their stable model over the asserted
quads. -/
structure DatasetEntry.InForce (env : ReasonerEnv Expr) (loaded : LoadedRules Expr)
    (entry : DatasetEntry Expr) : Prop where
  rules : ∀ r, r ∈ entry.activeRules ↔ loaded.Has r
  closure : IsStable (clausesOf env entry.activeRules) {q | entry.namedGraphs.Extensional q}
    entry.namedGraphs.quads

section Union

variable [DecidableEq Expr]

theorem mem_mergeRulesInto (base extra : List (Rule Expr)) (r : Rule Expr) :
    r ∈ mergeRulesInto base extra ↔ r ∈ base ∨ r ∈ extra := by
  rw [mergeRulesInto]
  induction extra generalizing base with
  | nil => simp
  | cons x extra ih =>
    rw [List.foldl_cons, ih, List.mem_cons]
    split_ifs with hx
    · constructor
      · intro hr
        exact hr.imp_right .inr
      · rintro (hr | rfl | hr)
        · exact .inl hr
        · exact .inl hx
        · exact .inr hr
    · rw [List.mem_append, List.mem_singleton, or_assoc]

omit [DecidableEq Expr] in
theorem namedUnder_erase (rulesets : RulesetMap Expr) (id id' : String) (r : Rule Expr) :
    NamedUnder (rulesets.erase id) id' r ↔ id' ≠ id ∧ NamedUnder rulesets id' r := by
  by_cases hid : id' = id
  · subst hid
    simp [NamedUnder]
  · simp [NamedUnder, hid]

omit [DecidableEq Expr] in
theorem namedUnder_insert (rulesets : RulesetMap Expr) (id id' : String)
    (rules : List (Rule Expr)) (r : Rule Expr) : NamedUnder (rulesets.insert id rules) id' r ↔
      (id' = id ∧ r ∈ rules) ∨ (id' ≠ id ∧ NamedUnder rulesets id' r) := by
  by_cases hid : id' = id
  · subst hid
    simp [NamedUnder]
  · simp [NamedUnder, hid]

theorem mem_unionOtherRulesets (env : RulesEnv N Expr) (rulesets : RulesetMap Expr)
    (excludeId : String) (r : Rule Expr) :
    r ∈ unionOtherRulesets env rulesets excludeId ↔
      ∃ id, id ≠ excludeId ∧ NamedUnder rulesets id r := by
  have hfold (entries : List (Sigma fun _ : String => List (Rule Expr)))
      (acc : List (Rule Expr)) :
      r ∈ entries.foldl (fun result e =>
          if e.1 = excludeId then result else mergeRulesInto result e.2) acc ↔
        r ∈ acc ∨ ∃ e ∈ entries, e.1 ≠ excludeId ∧ r ∈ e.2 := by
    induction entries generalizing acc with
    | nil => simp
    | cons e entries ih =>
      rw [List.foldl_cons, ih]
      split_ifs with he
      · simp [he]
      · simp [mem_mergeRulesInto, he, or_assoc]
  rw [unionOtherRulesets, hfold, or_iff_right List.not_mem_nil]
  constructor
  · intro ⟨e, he, hne, hr⟩
    have hmem := (env.rulesetOrder_perm _).mem_iff.mp he
    exact ⟨e.1, hne, e.2, AList.mem_lookup_iff.mpr hmem, hr⟩
  · intro ⟨id, hne, rules, hlookup, hr⟩
    have hmem := AList.mem_lookup_iff.mp hlookup
    exact ⟨⟨id, rules⟩, (env.rulesetOrder_perm _).mem_iff.mpr hmem, hne, hr⟩

end Union

section Run

variable [DecidableEq Expr]

/-- A client's change of the rulesets. -/
inductive RulesetCall where
  | replace (rulesText : String)
  | setNamed (rulesetId rulesText : String)
  | deleteNamed (rulesetId : String)

/-- The names interned so far, the dataset, and what clients have loaded. -/
structure RulesetState (N : NativeTypes) (Expr : Type) where
  resources : GraphElementManager N
  entry : DatasetEntry Expr
  loaded : LoadedRules Expr

/-- What the call loads or takes back. -/
def RulesetCall.record (env : RulesEnv N Expr) (s : RulesetState N Expr) :
    RulesetCall → LoadedRules Expr
  | .replace rulesText =>
    match (env.parse rulesText s.resources).2 with
    | .error _ => s.loaded
    | .ok rules => ⟨rules, ∅⟩
  | .setNamed rulesetId rulesText =>
    match (env.parse rulesText s.resources).2 with
    | .error _ => s.loaded
    | .ok rules => { s.loaded with named := s.loaded.named.insert rulesetId rules }
  | .deleteNamed rulesetId => { s.loaded with named := s.loaded.named.erase rulesetId }

def RulesetCall.apply (env : RulesEnv N Expr) (s : RulesetState N Expr) :
    RulesetCall → RulesetOutcome N Expr (Option Nat)
  | .replace rulesText =>
    let (result, after) := applyReplaceRulesetText env s.resources s.entry rulesText
    (result.map some, after)
  | .setNamed rulesetId rulesText =>
    let (result, after) :=
      applySetNamedRulesetText env s.resources s.entry rulesetId rulesText
    (result.map some, after)
  | .deleteNamed rulesetId => applyDeleteNamedRuleset env s.resources s.entry rulesetId

/-- The ruleset that the call puts in force, if it comes to that. -/
def RulesetCall.combined (env : RulesEnv N Expr) (s : RulesetState N Expr) :
    RulesetCall → Option (List (Rule Expr))
  | .replace rulesText => (env.parse rulesText s.resources).2.toOption
  | .setNamed rulesetId rulesText => (env.parse rulesText s.resources).2.toOption.map fun rules =>
    mergeRulesInto (unionOtherRulesets env s.entry.rulesets rulesetId) rules
  | .deleteNamed rulesetId => (s.entry.rulesets.lookup rulesetId).map fun _ =>
    unionOtherRulesets env s.entry.rulesets rulesetId

def RulesetCall.edit (env : RulesEnv N Expr) (s : RulesetState N Expr) :
    RulesetCall → RulesetMap Expr
  | .replace _ => ∅
  | .setNamed rulesetId rulesText =>
    match (env.parse rulesText s.resources).2 with
    | .error _ => s.entry.rulesets
    | .ok rules => if rules.isEmpty then s.entry.rulesets.erase rulesetId
      else s.entry.rulesets.insert rulesetId rules
  | .deleteNamed rulesetId => s.entry.rulesets.erase rulesetId

/-- The call keeps the rules of the last plain load among those under an id, and the path that puts
the ruleset in force is sound. -/
structure RulesetCall.Sound (env : RulesEnv N Expr) (s : RulesetState N Expr)
    (call : RulesetCall) : Prop where
  plain : ∀ combined, call.combined env s = some combined →
    ∀ r ∈ (call.record env s).plain, r ∈ combined
  change : ∀ combined, call.combined env s = some combined →
    ChangeSound env.reasoning.env s.entry combined

/-- A run of successful calls, each of them sound. -/
inductive RulesetRun (env : RulesEnv N Expr) (start : RulesetState N Expr) :
    RulesetState N Expr → Prop
  | start : RulesetRun env start start
  | call {s : RulesetState N Expr} (call : RulesetCall) {result : Option Nat}
      {resources : GraphElementManager N} {entry : DatasetEntry Expr} :
    RulesetRun env start s → call.Sound env s →
      call.apply env s = (.ok result, resources, entry) →
      RulesetRun env start ⟨resources, entry, call.record env s⟩

/-- The books agree: each id has on record the rules loaded under it, and the rules in force are
those loaded. -/
structure RulesetState.Kept (env : RulesEnv N Expr) (s : RulesetState N Expr) : Prop where
  reasoned : Reasoned env.reasoning.env s.entry
  named : ∀ id r, NamedUnder s.entry.rulesets id r ↔ NamedUnder s.loaded.named id r
  rules : ∀ r, r ∈ s.entry.activeRules ↔ s.loaded.Has r

omit [DecidableEq Expr] in
theorem RulesetState.Kept.in_force {env : RulesEnv N Expr} {s : RulesetState N Expr}
    (h : s.Kept env) : s.entry.InForce env.reasoning.env s.loaded :=
  ⟨h.rules, h.reasoned.closure⟩

variable {entry : DatasetEntry Expr} {combined : List (Rule Expr)} {env : RulesEnv N Expr}
  {resources : GraphElementManager N} {s : RulesetState N Expr} {call : RulesetCall}

theorem applyCombinedRuleset_rulesets {env : ReasonerEnv Expr} {entry' : DatasetEntry Expr}
    (h : applyCombinedRuleset env entry combined = .ok entry') :
    entry'.rulesets = entry.rulesets := by
  rw [applyCombinedRuleset] at h
  split_ifs at h
  · cases h
    rfl
  · split at h
    · split at h
      · cases h
      · cases h
        rfl
    · split at h
      · cases h
      · cases h
        rfl

theorem applyAndRecord_ok {α : Type} {resources' : GraphElementManager N}
    {entry' : DatasetEntry Expr} {record : RulesetMap Expr → RulesetMap Expr} {result result' : α}
    (h : applyAndRecord env resources entry combined record result = (.ok result', resources',
      entry')) :
    ∃ entry₁, applyCombinedRuleset env.reasoning.env entry combined = .ok entry₁ ∧
      entry' = { entry₁ with rulesets := record entry.rulesets } := by
  rw [applyAndRecord] at h
  cases hcombined : applyCombinedRuleset env.reasoning.env entry combined with
  | error e =>
    rw [hcombined] at h
    cases h
  | ok entry₁ =>
    rw [hcombined] at h
    cases h
    rw [applyCombinedRuleset_rulesets hcombined]
    exact ⟨entry₁, rfl, rfl⟩

/-- What a successful call does: nothing when it names an unknown id, else it puts its ruleset in
force and edits the map of rulesets. -/
theorem RulesetCall.apply_ok {result : Option Nat}
    (h : call.apply env s = (.ok result, resources, entry)) :
    (∃ id, call = .deleteNamed id ∧ s.entry.rulesets.lookup id = none ∧ entry = s.entry) ∨
      ∃ combined entry₁, call.combined env s = some combined ∧
        applyCombinedRuleset env.reasoning.env s.entry combined = .ok entry₁ ∧
        entry = { entry₁ with rulesets := call.edit env s } := by
  have hmap {α : Type} {outcome : RulesetOutcome N Expr α} {f : α → Option Nat}
      (h : (outcome.1.map f, outcome.2) = (.ok result, resources, entry)) :
      ∃ result', outcome = (.ok result', resources, entry) := by
    obtain ⟨outcome, after⟩ := outcome
    cases outcome with
    | error e => cases h
    | ok result' =>
      cases h
      exact ⟨result', rfl⟩
  cases call with
  | replace rulesText =>
    obtain ⟨result', hrun⟩ := hmap h
    rw [combined, edit]
    cases hparse : env.parse rulesText s.resources with
    | mk resources₁ parsed =>
      rw [hparse] at hrun
      cases parsed with
      | error e => cases hrun
      | ok rules =>
        obtain ⟨entry₁, hcombined, hentry⟩ := applyAndRecord_ok hrun
        exact .inr ⟨rules, entry₁, rfl, hcombined, hentry⟩
  | setNamed rulesetId rulesText =>
    obtain ⟨result', hrun⟩ := hmap h
    rw [combined, edit]
    cases hparse : env.parse rulesText s.resources with
    | mk resources₁ parsed =>
      rw [hparse] at hrun
      cases parsed with
      | error e => cases hrun
      | ok rules =>
        obtain ⟨entry₁, hcombined, hentry⟩ := applyAndRecord_ok hrun
        exact .inr ⟨_, entry₁, rfl, hcombined, hentry⟩
  | deleteNamed rulesetId =>
    rw [apply, applyDeleteNamedRuleset] at h
    rw [combined, edit]
    cases hlookup : s.entry.rulesets.lookup rulesetId with
    | none =>
      rw [hlookup] at h
      cases h
      exact .inl ⟨rulesetId, rfl, hlookup, rfl⟩
    | some removed =>
      rw [hlookup] at h
      obtain ⟨entry₁, hcombined, hentry⟩ := applyAndRecord_ok h
      exact .inr ⟨_, entry₁, rfl, hcombined, hentry⟩

theorem RulesetCall.edit_named (hkept : s.Kept env) (h : call.combined env s = some combined)
    (id : String) (r : Rule Expr) :
    NamedUnder (call.edit env s) id r ↔ NamedUnder (call.record env s).named id r := by
  cases call with
  | replace rulesText =>
    rw [RulesetCall.combined] at h
    rw [edit, record]
    cases hparse : (env.parse rulesText s.resources).2 with
    | error e =>
      rw [hparse] at h
      cases h
    | ok rules => exact Iff.rfl
  | setNamed rulesetId rulesText =>
    rw [edit, record]
    cases (env.parse rulesText s.resources).2 with
    | error e => exact hkept.named id r
    | ok rules =>
      dsimp only
      rw [namedUnder_insert, ← hkept.named]
      split_ifs with hrules
      · rw [namedUnder_erase, List.isEmpty_iff.mp hrules]
        simp
      · rw [namedUnder_insert]
  | deleteNamed rulesetId =>
    rw [edit, record, namedUnder_erase, namedUnder_erase, hkept.named]

theorem RulesetCall.mem_combined (hkept : s.Kept env)
    (hplain : ∀ r ∈ (call.record env s).plain, r ∈ combined)
    (h : call.combined env s = some combined) (r : Rule Expr) :
    r ∈ combined ↔ (call.record env s).Has r := by
  have hunion (hnamed : r ∈ combined ↔ ∃ id, NamedUnder (call.record env s).named id r) :
      r ∈ combined ↔ (call.record env s).Has r := by
    rw [LoadedRules.Has, ← hnamed]
    exact (or_iff_right_of_imp (hplain r)).symm
  cases call with
  | replace rulesText =>
    rw [RulesetCall.combined] at h
    rw [record]
    cases hparse : (env.parse rulesText s.resources).2 with
    | error e =>
      rw [hparse] at h
      cases h
    | ok rules =>
      rw [hparse] at h
      cases h
      exact (or_iff_left nofun).symm
  | setNamed rulesetId rulesText =>
    refine hunion ?_
    rw [RulesetCall.combined] at h
    rw [record]
    cases hparse : (env.parse rulesText s.resources).2 with
    | error e =>
      rw [hparse] at h
      cases h
    | ok rules =>
      rw [hparse] at h
      cases h
      simp only [mem_mergeRulesInto, mem_unionOtherRulesets, namedUnder_insert, hkept.named]
      constructor
      · rintro (⟨id, hne, hr⟩ | hr)
        · exact ⟨id, .inr ⟨hne, hr⟩⟩
        · exact ⟨rulesetId, .inl ⟨rfl, hr⟩⟩
      · rintro ⟨id, ⟨_, hr⟩ | hr⟩
        · exact .inr hr
        · exact .inl ⟨id, hr⟩
  | deleteNamed rulesetId =>
    refine hunion ?_
    rw [RulesetCall.combined] at h
    cases hlookup : s.entry.rulesets.lookup rulesetId with
    | none =>
      rw [hlookup] at h
      cases h
    | some removed =>
      rw [hlookup] at h
      cases h
      simp only [record, mem_unionOtherRulesets, namedUnder_erase, hkept.named]

theorem RulesetCall.apply_kept (hf : env.reasoning.env.FixedFilters) {result : Option Nat}
    (hkept : s.Kept env) (hsound : call.Sound env s)
    (h : call.apply env s = (.ok result, resources, entry)) :
    RulesetState.Kept env ⟨resources, entry, call.record env s⟩ := by
  rcases RulesetCall.apply_ok h with ⟨id, rfl, hlookup, rfl⟩ | ⟨combined, entry₁, hc, happly, rfl⟩
  · have hnone (r : Rule Expr) : ¬ NamedUnder s.loaded.named id r := by
      rw [← hkept.named]
      intro ⟨rules, hrules, _⟩
      rw [hlookup] at hrules
      cases hrules
    have hsame (id' : String) (r : Rule Expr) :
        NamedUnder (s.loaded.named.erase id) id' r ↔ NamedUnder s.loaded.named id' r := by
      rw [namedUnder_erase]
      refine and_iff_right_of_imp fun hr heq => ?_
      rw [heq] at hr
      exact hnone r hr
    refine ⟨hkept.reasoned, fun id' r => (hkept.named id' r).trans (hsame id' r).symm,
      fun r => (hkept.rules r).trans ?_⟩
    simp only [LoadedRules.Has, record, hsame]
  · obtain ⟨hreasoned, hrules, -⟩ :=
      applyCombinedRuleset_reasoned hf hkept.reasoned (hsound.change combined hc) happly
    exact ⟨hreasoned, edit_named hkept hc,
      fun r => (hrules r).trans (mem_combined hkept (hsound.plain combined hc) hc r)⟩

/-- After every call of a sound run the rules in force are those loaded, and the store is their
model. -/
theorem RulesetRun.inForce {env : RulesEnv N Expr} (hf : env.reasoning.env.FixedFilters)
    {start s : RulesetState N Expr} (hstart : start.Kept env) (h : RulesetRun env start s) :
    s.entry.InForce env.reasoning.env s.loaded := by
  have hkept : s.Kept env := by
    induction h with
    | start => exact hstart
    | call call _ hsound happly ih => exact call.apply_kept hf ih hsound happly
  exact hkept.in_force

end Run

section Sample

/-- A parser that reads a predicate and answers the rule that derives it from `1`. -/
def sampleRulesEnv : RulesEnv NativeTypes.text Empty where
  reasoning := .plain
  parse := fun text resources =>
    (resources, .ok [unaryRule (if text = "2" then 2 else 3) [1] []])
  rulesetOrder := id
  rulesetOrder_perm := fun _ => .refl _

/-- A dataset on which no rule was loaded yet. -/
def freshState : RulesetState NativeTypes.text Empty :=
  ⟨Datastore.new.resources, ⟨storeOf [unaryQuad 1 0], none, ∅⟩, ⟨[], ∅⟩⟩

theorem freshState_kept : freshState.Kept sampleRulesEnv := by
  refine ⟨fun q hd => ?_, fun id r => Iff.rfl, fun r => ?_⟩
  · exact ((extensional_storeOf _ q).2.mpr ((extensional_storeOf _ q).1.mp hd.mem)).2 hd
  · refine iff_of_false nofun ?_
    rintro (h | ⟨_, _, h, _⟩)
    · cases h
    · cases h

theorem RulesetRun.inForce_named : ∃ s, RulesetRun sampleRulesEnv freshState s ∧
    s.entry.activeRules = [unaryRule 2 [1] []] ∧
      s.entry.InForce sampleRulesEnv.reasoning.env s.loaded := by
  let call : RulesetCall := .setNamed "a" "2"
  have hcombined : call.combined sampleRulesEnv freshState = some [unaryRule 2 [1] []] := by
    decide
  have hsound : call.Sound sampleRulesEnv freshState := by
    refine ⟨fun combined _ r hr => (by cases hr), fun combined h _ => ?_⟩
    rw [hcombined] at h
    cases h
    intro strata horder
    have hstrata : (RulePartitioner.new [unaryRule 2 [1] []]).orderRules =
        .ok [[unaryRule 2 [1] []]] := by decide
    rw [hstrata] at horder
    cases horder
    exact .of_clash (by decide)
  have hrun : (match call.apply sampleRulesEnv freshState with
      | (.ok _, _, entry) => decide (entry.activeRules = [unaryRule 2 [1] []])
      | (.error _, _) => false) = true := by decide
  cases happly : call.apply sampleRulesEnv freshState with
  | mk result after =>
    rw [happly] at hrun
    cases result with
    | error e => cases hrun
    | ok n =>
      have hreached := RulesetRun.call call .start hsound happly
      exact ⟨_, hreached, of_decide_eq_true hrun,
        RulesetRun.inForce ReasonerEnv.plain_fixedFilters freshState_kept hreached⟩

/-- Loading a ruleset under an id takes the plainly loaded rules out of force. -/
theorem applySetNamedRulesetText_drops_plain : ∃ n resources entry n' resources' entry',
    applyReplaceRulesetText sampleRulesEnv freshState.resources freshState.entry "2" =
        (.ok n, resources, entry) ∧
      applySetNamedRulesetText sampleRulesEnv resources entry "a" "3" =
        (.ok n', resources', entry') ∧
      ¬ entry'.InForce sampleRulesEnv.reasoning.env
        ⟨[unaryRule 2 [1] []], (∅ : RulesetMap Empty).insert "a" [unaryRule 3 [1] []]⟩ := by
  have hrun : (match applyReplaceRulesetText sampleRulesEnv freshState.resources
        freshState.entry "2" with
      | (.ok _, resources, entry) =>
        (match applySetNamedRulesetText sampleRulesEnv resources entry "a" "3" with
        | (.ok _, _, entry') => decide (unaryRule 2 [1] [] ∉ entry'.activeRules)
        | (.error _, _) => false)
      | (.error _, _) => false) = true := by decide
  cases hplain : applyReplaceRulesetText sampleRulesEnv freshState.resources
      freshState.entry "2" with
  | mk result after =>
    obtain ⟨resources, entry⟩ := after
    rw [hplain] at hrun
    cases result with
    | error e => cases hrun
    | ok n =>
      dsimp only at hrun
      cases hnamed : applySetNamedRulesetText sampleRulesEnv resources entry "a" "3" with
      | mk result' after' =>
        rw [hnamed] at hrun
        cases result' with
        | error e => cases hrun
        | ok n' =>
          have hno := of_decide_eq_true hrun
          exact ⟨n, resources, entry, n', after'.1, after'.2, rfl, hnamed,
            fun h => hno ((h.rules _).mpr (.inl (List.mem_singleton_self _)))⟩

end Sample

end RdfDatalog.Endpoint
