import Mathlib.Data.Set.Finite.List
import RdfDatalog.Datalog.PositiveRetraction
import RdfDatalog.Owl.RuleSpecs

namespace RdfDatalog

open GrowingState Datalog Owl

variable {N : NativeTypes}

namespace Eli

theorem generateAxiomRl_mints {f : Formula} (h : f.mintsClass = true) (m : Resources N) :
    ∃ r t b n, ((generateAxiomRl f).run m).1 = some [r] ∧
      r.head = .normalHead (getDefaultGraphPattern (.var "X") (.resource t) (.resource b)) ∧
      ((generateAxiomRl f).run m).2.get b = some (.nodeOrEdge (.anonymousBlankNode n)) ∧
      m.manager.anonResourceCount < n ∧
      n ≤ ((generateAxiomRl f).run m).2.manager.anonResourceCount := by
  cases f with
  | directlyTranslatableConceptInclusion subs sups => cases h
  | normalizedConceptInclusion conj sup =>
    cases sup with
    | atomicAnonymousConcept =>
      have hmint := GraphElementManager.createUnnamedAnonResource_get m.manager
      obtain ⟨-, hcount⟩ := GraphElementManager.createUnnamedAnonResource_spec m.manager
      have htypes := settles_typePatterns (N := N) conj
      have hlater : (createUnnamedAnonResource m).2 ≤
          ((generateAxiomRl (.normalizedConceptInclusion conj .atomicAnonymousConcept)).run m).2 :=
        (le_addNodeResource _ _).trans (htypes.grows _)
      refine ⟨_, _, _, _, rfl, rfl, Resources.get_mono hlater hmint, Nat.lt_succ_self _, ?_⟩
      exact hcount.ge.trans hlater.2.1
    | _ => cases h

end Eli

namespace Owl

open IncrementalReasoner (applyRuleDeletions)

def Axiom.mintsRule (env : DebugEnv N) (a : Axiom N) : Prop :=
  ∃ formulas, a.compilesTo env formulas ∧ ∃ f ∈ formulas, f.mintsClass = true

theorem grows_axiom2datalog (env : DebugEnv N) (a : Axiom N) (m : Resources N) :
    m ≤ (axiom2datalog env a m).2 :=
  (onlyOpen_axiom2datalog env a).grows m

theorem orNoRules_of_run {rules : OptionT (Interning N) (List OwlRule)} {parts : List OwlRule}
    {m m' : Resources N} (h : rules.run m = (some parts, m')) :
    orNoRules rules m = (parts, m') := by
  simp only [orNoRules, bind, StateT.bind, h]
  rfl

theorem axiom2datalog_mints {env : DebugEnv N} {a : Axiom N} (h : a.mintsRule env)
    (m : Resources N) : ∃ r ∈ (axiom2datalog env a m).1, ∃ t b n,
      r.head = .normalHead (getDefaultGraphPattern (.var "X") (.resource t) (.resource b)) ∧
      (axiom2datalog env a m).2.get b = some (.nodeOrEdge (.anonymousBlankNode n)) ∧
      m.manager.anonResourceCount < n ∧
      n ≤ (axiom2datalog env a m).2.manager.anonResourceCount := by
  obtain ⟨formulas, hcompiles, f, hf, hmints⟩ := h
  cases a with
  | axiomClassAxiom a =>
    obtain ⟨hformulas, hall⟩ := hcompiles
    have hrun : axiom2datalog env (.axiomClassAxiom a) =
        orNoRules (Eli.generateTboxRl formulas) := by
      rw [axiom2datalog, classAxiom2datalog, Eli.owl2datalog, hformulas]
    obtain ⟨hsome, -⟩ := ((Eli.succeeds_generateTboxRl formulas) m).2 _ le_rfl
    rw [hall] at hsome
    have htbox := optionBind_run (formulas.mapM Eli.generateAxiomRl)
      (fun rules => pure rules.flatten) m
    cases hparts : (formulas.mapM Eli.generateAxiomRl).run m with
    | mk o m' =>
      rw [hparts] at htbox
      cases o with
      | none =>
        rw [Eli.generateTboxRl, htbox] at hsome
        cases hsome
      | some parts =>
        have hout : axiom2datalog env (.axiomClassAxiom a) m = (parts.flatten, m') := by
          rw [hrun]
          refine orNoRules_of_run ?_
          rw [Eli.generateTboxRl, htbox]
          rfl
        have hgrows : ∀ f ∈ formulas, ∀ s : Resources N, s ≤ ((Eli.generateAxiomRl f).run s).2 :=
          fun f _ s => ((Eli.succeeds_generateAxiomRl f) s).1
        obtain ⟨hruns, -⟩ := forall₂_optionMapM hgrows hparts
        obtain ⟨part, hpart, s, hs, hle, hresult⟩ := FallibleFold.forall₂_exists hruns hf
        obtain ⟨r, t, b, n, hr, hhead, hget, hlt, hcount⟩ := Eli.generateAxiomRl_mints hmints s
        rw [hr] at hresult
        cases hresult
        rw [hout]
        refine ⟨r, List.mem_flatten.mpr ⟨_, hpart, .head _⟩, t, b, n, hhead, ?_, ?_, ?_⟩
        · exact Resources.get_mono hle hget
        · exact hs.2.1.trans_lt hlt
        · exact hcount.trans hle.2.1
  | _ => exact hcompiles.elim

theorem repeats_axiom2datalog {env : DebugEnv N} {a : Axiom N} (h : ¬ a.mintsRule env) :
    Repeats (axiom2datalog env a) := by
  by_cases hmints : a.mintsClass env
  · -- one of its formulas has no rules, so that the axiom has none
    have hnil : ∀ m, (axiom2datalog env a m).1 = [] := by
      intro m
      cases a with
      | axiomClassAxiom a =>
        rcases ((yields_classAxiom2datalog env a) m).2 _ le_rfl with ⟨formulas, hc, -⟩ | ⟨-, hnil⟩
        · obtain ⟨formulas', hformulas, f, hf, hmint⟩ := hmints
          rw [hc.1] at hformulas
          cases hformulas
          exact absurd ⟨formulas, hc, f, hf, hmint⟩ h
        · exact hnil
      | _ => exact hmints.elim
    exact ⟨grows_axiom2datalog env a, fun s t _ => (hnil t).trans (hnil s).symm⟩
  · exact (settles_axiom2datalog hmints).repeats

section Compiled

variable {env : DebugEnv N} {O : Ontology N} {m₀ : Resources N}

theorem grows_getEqualityAxioms (m : Resources N) :
    m ≤ (getEqualityAxioms m).2 :=
  settles_getEqualityAxioms.grows m

theorem owl2datalog_run : owl2datalog env O m₀ =
    (dedup (sortUnstable ((O.allAxioms.mapM (axiom2datalog env) m₀).1.flatten ++
      (getEqualityAxioms (O.allAxioms.mapM (axiom2datalog env) m₀).2).1)),
      (getEqualityAxioms (O.allAxioms.mapM (axiom2datalog env) m₀).2).2) := rfl

theorem grows_owl2datalog (env : DebugEnv N) (O : Ontology N) (m₀ : Resources N) :
    m₀ ≤ (owl2datalog env O m₀).2 := by
  rw [owl2datalog_run]
  exact (grows_mapM (fun a _ => grows_axiom2datalog env a) m₀).trans (grows_getEqualityAxioms _)

theorem forall₂_owl2datalog (env : DebugEnv N) (O : Ontology N) (m₀ : Resources N) :
    ∃ parts, List.Forall₂ (fun a rules => ∃ t, m₀ ≤ t ∧
        (axiom2datalog env a t).2 ≤ (owl2datalog env O m₀).2 ∧ (axiom2datalog env a t).1 = rules)
        O.allAxioms parts ∧
      ∃ t, (getEqualityAxioms t).2 = (owl2datalog env O m₀).2 ∧
        ∀ r, r ∈ (owl2datalog env O m₀).1 ↔ r ∈ parts.flatten ∨ r ∈ (getEqualityAxioms t).1 := by
  rw [owl2datalog_run]
  refine ⟨(O.allAxioms.mapM (axiom2datalog env) m₀).1, ?_,
    (O.allAxioms.mapM (axiom2datalog env) m₀).2, rfl, fun r => ?_⟩
  · refine (forall₂_mapM (fun a _ => grows_axiom2datalog env a) m₀).imp fun a rules h => ?_
    obtain ⟨t, ht, hle, hrules⟩ := h
    exact ⟨t, ht, hle.trans (grows_getEqualityAxioms _), hrules⟩
  · rw [mem_dedup_sortUnstable, List.mem_append]

theorem exists_compiled {a : Axiom N} (ha : a ∈ O.allAxioms) :
    ∃ t, m₀ ≤ t ∧ (axiom2datalog env a t).2 ≤ (owl2datalog env O m₀).2 ∧
      ∀ r ∈ (axiom2datalog env a t).1, r ∈ (owl2datalog env O m₀).1 := by
  obtain ⟨parts, hparts, _, _, hmem⟩ := forall₂_owl2datalog env O m₀
  obtain ⟨rules, hrules, t, ht, hle, rfl⟩ := FallibleFold.forall₂_exists hparts ha
  exact ⟨t, ht, hle, fun r hr => (hmem r).mpr (.inl (List.mem_flatten.mpr ⟨_, hrules, hr⟩))⟩

theorem compiled_cases {r : OwlRule} (hr : r ∈ (owl2datalog env O m₀).1) :
    (∃ a ∈ O.axioms, ∃ t, m₀ ≤ t ∧ (axiom2datalog env a t).2 ≤ (owl2datalog env O m₀).2 ∧
      r ∈ (axiom2datalog env a t).1) ∨
    ∃ t, (getEqualityAxioms t).2 = (owl2datalog env O m₀).2 ∧ r ∈ (getEqualityAxioms t).1 := by
  obtain ⟨parts, hparts, t, ht, hmem⟩ := forall₂_owl2datalog env O m₀
  rcases (hmem r).mp hr with hpart | heq
  · obtain ⟨rules, hrules, hr⟩ := List.mem_flatten.mp hpart
    obtain ⟨a, ha, t, ht, hle, rfl⟩ := FallibleFold.forall₂_exists_left hparts hrules
    rcases List.mem_append.mp ha with ha | ha
    · exact .inl ⟨a, ha, t, ht, hle, hr⟩
    · -- the built-in declarations have no rules
      obtain ⟨declaration, rfl⟩ := Ontology.mem_builtInDeclarations ha
      cases hr
  · exact .inr ⟨t, ht, heq⟩

/-- When no axiom names a new node, the compiled rules are those of the axioms and of equality, as
any later store compiles them. -/
theorem mem_owl2datalog (h : ∀ a ∈ O.axioms, ¬ a.mintsRule env) {m : Resources N}
    (hm : (owl2datalog env O m₀).2 ≤ m) (r : OwlRule) : r ∈ (owl2datalog env O m₀).1 ↔
      (∃ a ∈ O.axioms, r ∈ (axiom2datalog env a m).1) ∨ r ∈ (getEqualityAxioms m).1 := by
  constructor
  · intro hr
    rcases compiled_cases hr with ⟨a, ha, t, -, hle, hr⟩ | ⟨t, ht, hr⟩
    · have hsame := (repeats_axiom2datalog (h a ha)).again t m (hle.trans hm)
      exact .inl ⟨a, ha, hsame ▸ hr⟩
    · have hsame := settles_getEqualityAxioms.repeats.again t m (ht.le.trans hm)
      exact .inr (hsame ▸ hr)
  · intro hr
    rcases hr with ⟨a, ha, hr⟩ | hr
    · obtain ⟨t, -, hle, hmem⟩ := @exists_compiled _ env O m₀ a
        (List.mem_append_left Ontology.builtInDeclarations ha)
      have hsame := (repeats_axiom2datalog (h a ha)).again t m (hle.trans hm)
      exact hmem r (hsame ▸ hr)
    · obtain ⟨_, _, t, ht, hmem⟩ := forall₂_owl2datalog env O m₀
      have hsame := settles_getEqualityAxioms.repeats.again t m (ht.le.trans hm)
      exact (hmem r).mpr (.inr (hsame ▸ hr))

theorem onlyOpen_getEqualityAxioms :
    OnlyOpen (getEqualityAxioms : Interning N (List OwlRule)) := by
  intro m
  refine ⟨grows_getEqualityAxioms m, fun _ _ r hr => ?_⟩
  have hrules : ∃ k₁ k₂ k₃ k₄, (getEqualityAxioms m).1 =
      [⟨.normalHead (sameAsPattern k₁ "y" "x"), Eli.positiveAtoms [sameAsPattern k₁ "x" "y"]⟩,
        ⟨.normalHead (varPattern "s2" "p" "o"),
          Eli.positiveAtoms [sameAsPattern k₂ "s1" "s2", varPattern "s1" "p" "o"]⟩,
        ⟨.normalHead (varPattern "s" "p" "o2"),
          Eli.positiveAtoms [sameAsPattern k₃ "o1" "o2", varPattern "s" "p" "o1"]⟩,
        ⟨.normalHead (sameAsPattern k₄ "x" "z"),
          Eli.positiveAtoms [sameAsPattern k₄ "x" "y", sameAsPattern k₄ "y" "z"]⟩] :=
    ⟨_, _, _, _, rfl⟩
  obtain ⟨k₁, k₂, k₃, k₄, hrules⟩ := hrules
  rw [hrules] at hr
  simp only [List.mem_cons, List.not_mem_nil, or_false] at hr
  rcases hr with rfl | rfl | rfl | rfl
  all_goals exact openRule_normalHead (getDefaultGraphPattern_subjectVar _ _ _) _

theorem openRule_owl2datalog {r : OwlRule} (hr : r ∈ (owl2datalog env O m₀).1) : OpenRule r := by
  rcases compiled_cases hr with ⟨a, -, t, -, -, hr⟩ | ⟨t, -, hr⟩
  · exact ((onlyOpen_axiom2datalog env a) t).2 _ le_rfl r hr
  · exact (onlyOpen_getEqualityAxioms t).2 _ le_rfl r hr

theorem factHeads_of_openRule {rules : List OwlRule} (h : ∀ r ∈ rules, OpenRule r) :
    factHeads rules = ∅ := by
  rw [Set.eq_empty_iff_forall_notMem]
  intro q ⟨r, hr, _, hq⟩
  obtain ⟨-, hopen⟩ := h r hr
  unfold Rule.headQuad at hq
  cases hhead : r.head with
  | contradiction =>
    rw [hhead] at hq
    cases hq
  | normalHead p =>
    rw [hhead] at hq
    obtain ⟨hg, hs, hp, ho⟩ := applySubstitutionQuad_eq_some.mp hq
    have hterm : ∀ (t : Term) (x : GraphElementId),
        applySubstitutionResource emptySubstitution t = some x → t.getVariables = [] := by
      intro t x ht
      cases t with
      | resource id => rfl
      | var v => cases ht
    refine hopen p hhead ?_
    simp only [QuadPattern.getVariables, List.flatMap_cons, List.flatMap_nil, hterm _ _ hg,
      hterm _ _ hs, hterm _ _ hp, hterm _ _ ho, List.append_nil]

end Compiled

theorem fixedFilters_empty (renv : ReasonerEnv Empty) : renv.FixedFilters :=
  fun e => nomatch e

section Retraction

variable [DecidableEq (Axiom N)] (env : DebugEnv N) (O : Ontology N) (m₀ : Resources N)

/-- The retraction of `a` from the compiled ontology: compiled again it gives rules that were
compiled, and to drop those that the rest does not compile to leaves what the rest computes. -/
structure RetractionExact (a : Axiom N) : Prop where
  reproduced : ∀ m, (owl2datalog env O m₀).2 ≤ m →
    ∀ r ∈ (axiom2datalog env a m).1, r ∈ (owl2datalog env O m₀).1
  recompiled : ∀ m m', (owl2datalog env O m₀).2 ≤ m → (owl2datalog env O m₀).2 ≤ m' →
    ∀ (renv : ReasonerEnv Empty) (base : QuadStore), (∀ q ∈ base, base.Extensional q) →
    ∀ reasoner, IncrementalReasoner.new renv (owl2datalog env O m₀).1 base = .ok reasoner →
    ∃ left n, applyRuleDeletions renv reasoner ((axiom2datalog env a m).1.filter fun r =>
        r ∉ (owl2datalog env (O.removeAxiom a).1 m').1) = .ok (left, n) ∧
      ∃ fresh, IncrementalReasoner.new renv (owl2datalog env (O.removeAxiom a).1 m').1 base =
        .ok fresh ∧ fresh.base.quads = left.base.quads

variable {env O m₀}

omit [DecidableEq (Axiom N)] in
theorem not_reproduced {a : Axiom N} (hmints : a.mintsRule env) :
    ¬ ∀ m, (owl2datalog env O m₀).2 ≤ m →
      ∀ r ∈ (axiom2datalog env a m).1, r ∈ (owl2datalog env O m₀).1 := by
  intro h
  -- the stores of one call after the other
  let after : Nat → Resources N := fun k =>
    Nat.rec (owl2datalog env O m₀).2 (fun _ m => (axiom2datalog env a m).2) k
  have hstep : ∀ k, after k ≤ after (k + 1) := fun k => grows_axiom2datalog env a (after k)
  have hmono : Monotone after := monotone_nat_of_le_succ hstep
  choose rule hrule t b n hhead hget hlt hle using fun k => axiom2datalog_mints hmints (after k)
  have hinj : Function.Injective rule := by
    have hne : ∀ k j, k < j → rule k ≠ rule j := by
      intro k j hkj heq
      have hnodes : b k = b j := by
        have h := (hhead k).symm.trans ((congrArg Rule.head heq).trans (hhead j))
        simp only [getDefaultGraphPattern, RuleHead.normalHead.injEq, QuadPattern.mk.injEq,
          Term.resource.injEq] at h
        exact h.2.2.2
      have hk := Resources.get_mono (hmono (Nat.succ_le_succ hkj.le)) (hget k)
      have hj := hget j
      rw [← hnodes] at hj
      have hn : n k = n j := by
        have h := hk.symm.trans hj
        simpa using h
      have hcount : n k ≤ (after j).manager.anonResourceCount :=
        (hle k).trans (hmono hkj).2.1
      have := hlt j
      omega
    intro k j heq
    rcases lt_trichotomy k j with hlt | rfl | hlt
    · exact absurd heq (hne k j hlt)
    · rfl
    · exact absurd heq.symm (hne j k hlt)
  have hmem : ∀ k, rule k ∈ {r | r ∈ (owl2datalog env O m₀).1} :=
    fun k => h (after k) (hmono (Nat.zero_le k)) (rule k) (hrule k)
  exact Set.infinite_of_injective_forall_mem hinj hmem (List.finite_toSet _)

theorem retractionExact_of_forall (h : ∀ a ∈ O.axioms, ¬ a.mintsRule env) {a : Axiom N}
    (ha : a ∈ O.axioms) : RetractionExact env O m₀ a := by
  constructor
  · intro m hm r hr
    exact (mem_owl2datalog h hm r).mpr (.inl ⟨a, ha, hr⟩)
  · intro m m' hm hm' renv base hbase reasoner hnew
    have hremove : (O.removeAxiom a).1.axioms = O.axioms.erase a := by
      rw [Ontology.removeAxiom, if_pos ha]
    have hrestMints : ∀ b ∈ (O.removeAxiom a).1.axioms, ¬ b.mintsRule env := by
      intro b hb
      rw [hremove] at hb
      exact h b (List.mem_of_mem_erase hb)
    -- a store in which all three are compiled
    let last := (owl2datalog env (O.removeAxiom a).1 m').2
    have hlast : (owl2datalog env O m₀).2 ≤ last := hm'.trans (grows_owl2datalog _ _ _)
    have hall := mem_owl2datalog h hlast
    have hkept := mem_owl2datalog hrestMints (le_refl last)
    have hown : (axiom2datalog env a m).1 = (axiom2datalog env a last).1 := by
      obtain ⟨t, -, hle, -⟩ := @exists_compiled _ env O m₀ a
        (List.mem_append_left Ontology.builtInDeclarations ha)
      have hrep := repeats_axiom2datalog (h a ha)
      exact (hrep.again t m (hle.trans hm)).trans (hrep.again t last (hle.trans hlast)).symm
    refine IncrementalReasoner.applyRuleDeletions_of_positive (fixedFilters_empty renv)
      (fun r hr => (openRule_owl2datalog hr).1.notPatterns)
      (factHeads_of_openRule fun r hr => openRule_owl2datalog hr) hbase hnew fun r => ?_
    rw [hall r, hkept r, hremove, hown, List.mem_filter, decide_eq_true_iff, hkept r, hremove]
    constructor
    · intro hr
      refine ⟨?_, fun hdead => hdead.2 hr⟩
      rcases hr with ⟨b, hb, hr⟩ | hr
      · exact .inl ⟨b, List.mem_of_mem_erase hb, hr⟩
      · exact .inr hr
    · intro ⟨hr, hdead⟩
      by_contra hno
      rcases hr with ⟨b, hb, hr⟩ | hr
      · by_cases hab : b = a
        · subst hab
          exact hdead ⟨hr, hno⟩
        · exact hno (.inl ⟨b, (List.mem_erase_of_ne hab).mpr hb, hr⟩)
      · exact hno (.inr hr)

/-- The retraction of every axiom is exact just when no axiom names a new node. -/
theorem retractionExact_iff (env : DebugEnv N) (O : Ontology N) (m₀ : Resources N) :
    (∀ a ∈ O.axioms, RetractionExact env O m₀ a) ↔ ∀ a ∈ O.axioms, ¬ a.mintsRule env := by
  constructor
  · intro h a ha hmints
    exact not_reproduced hmints (h a ha).reproduced
  · intro h a ha
    exact retractionExact_of_forall h ha

def sampleDebug : DebugEnv NativeTypes.text := ⟨fun _ => false, fun _ => ""⟩

/-- `A SubClassOf _:1`. -/
def anonymousSuperclass : Axiom NativeTypes.text :=
  .axiomClassAxiom (.subClassOf [] (.className "A") (.anonymousClass 1))

/-- Compiled again, the axiom has rules that were not compiled. -/
theorem anonymousSuperclass_not_exact : ¬ @RetractionExact NativeTypes.text (Classical.decEq _)
    sampleDebug ⟨[anonymousSuperclass]⟩ .new anonymousSuperclass := by
  intro h
  have hmints : anonymousSuperclass.mintsRule sampleDebug := by
    refine ⟨_, ⟨rfl, rfl⟩, _, .tail _ (.head _), rfl⟩
  have hreproduced := @RetractionExact.reproduced _ (Classical.decEq _) _ _ _ _ h
  exact not_reproduced hmints hreproduced

end Retraction

end Owl

end RdfDatalog
