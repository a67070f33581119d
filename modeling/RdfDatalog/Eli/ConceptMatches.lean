import RdfDatalog.Eli.RuleSpecs

namespace RdfDatalog.Eli

open GrowingState Datalog Owl

variable {N : NativeTypes}

section Names

/-- The variable of the successor at `clause` of the node of `var`. -/
def successorVar (var : String) (clause : Nat) : String := var ++ "_" ++ toString clause

/-- The variable at the end of a path of clause numbers from the root. -/
def pathVar (path : List Nat) : String := path.foldl successorVar "X"

theorem pathVar_concat (path : List Nat) (n : Nat) :
    pathVar (path ++ [n]) = successorVar (pathVar path) n := by
  rw [pathVar, List.foldl_append]
  rfl

theorem toList_pathVar (path : List Nat) :
    (pathVar path).toList = 'X' :: path.flatMap fun n => '_' :: Nat.toDigits 10 n := by
  induction path using List.reverseRecOn with
  | nil => rfl
  | append_singleton path n ih =>
    have hdigits : (toString n).toList = Nat.toDigits 10 n := Nat.toList_repr
    rw [pathVar_concat, successorVar, String.toList_append, String.toList_append, ih, hdigits,
      List.flatMap_append]
    simp

theorem takeWhile_digits (n : Nat) (path : List Nat) :
    (Nat.toDigits 10 n ++ path.flatMap fun n => '_' :: Nat.toDigits 10 n).takeWhile Char.isDigit =
      Nat.toDigits 10 n := by
  have hall : ∀ c ∈ Nat.toDigits 10 n, c.isDigit = true :=
    fun c hc => Nat.isDigit_of_mem_toDigits (by decide) (by decide) hc
  rw [List.takeWhile_append_of_pos hall]
  cases path with
  | nil => simp
  | cons m path => simp

/-- The name of a variable tells its path. -/
theorem pathVar_injective : Function.Injective pathVar := by
  intro path path' h
  have hlist := congrArg String.toList h
  rw [toList_pathVar, toList_pathVar] at hlist
  replace hlist := (List.cons.inj hlist).2
  clear h
  induction path generalizing path' with
  | nil =>
    cases path' with
    | nil => rfl
    | cons m path' => simp at hlist
  | cons n path ih =>
    cases path' with
    | nil => simp at hlist
    | cons m path' =>
      rw [List.flatMap_cons, List.flatMap_cons, List.cons_append, List.cons_append] at hlist
      replace hlist := (List.cons.inj hlist).2
      have hdigits : Nat.toDigits 10 n = Nat.toDigits 10 m := by
        have htake := congrArg (List.takeWhile Char.isDigit) hlist
        rw [takeWhile_digits, takeWhile_digits] at htake
        exact htake
      have hnm : n = m := by
        have hvalue := congrArg (Nat.ofDigitChars 10 · 0) hdigits
        simpa only [Nat.ofDigitChars_ten_toDigits] using hvalue
      rw [hdigits] at hlist
      rw [hnm, ih (List.append_cancel_left hlist)]

end Names

mutual

/-- The paths of the existentials of a concept at `path`. An existential is numbered by its place
in the innermost intersection around it. -/
def ComplexConcept.successorPaths : ComplexConcept → (path : List Nat) → (clause : Nat) →
    List (List Nat)
  | .top, _, _ | .atomicConcept _, _, _ => []
  | .intersection clauses, path, _ => clauseSuccessorPaths clauses path 1
  | .someValuesFrom _ inner, path, clause =>
    (path ++ [clause]) :: inner.successorPaths (path ++ [clause]) 1

def clauseSuccessorPaths : List ComplexConcept → (path : List Nat) → (i : Nat) → List (List Nat)
  | [], _, _ => []
  | clause :: clauses, path, i =>
    clause.successorPaths path i ++ clauseSuccessorPaths clauses path (i + 1)

/-- The properties of the concept are named ones and inverses. -/
def ComplexConcept.simpleRoles : ComplexConcept → Bool
  | .top | .atomicConcept _ => true
  | .intersection clauses => clausesSimpleRoles clauses
  | .someValuesFrom role inner => role.isSingle && inner.simpleRoles

def clausesSimpleRoles : List ComplexConcept → Bool
  | [] => true
  | clause :: clauses => clause.simpleRoles && clausesSimpleRoles clauses

end

section Matching

/-- A value for every variable. -/
abbrev Valuation := String → GraphElementId

def termValue (σ : Valuation) : Term → GraphElementId
  | .resource id => id
  | .var v => σ v

def patternQuad (σ : Valuation) (p : QuadPattern) : Quad :=
  ⟨termValue σ p.graph, termValue σ p.subject, termValue σ p.predicate, termValue σ p.object⟩

/-- The patterns hold of the quads with `X = x`. -/
def MatchesAt (patterns : List QuadPattern) (G : Set Quad) (σ : Valuation) (x : GraphElementId) :
    Prop :=
  σ "X" = x ∧ ∀ p ∈ patterns, patternQuad σ p ∈ G

variable {D : Type} (I : Interpretation D)

mutual

/-- The concept holds at `path`, with the successors that `τ` says. -/
def Satisfies (τ : List Nat → D) : ComplexConcept → (path : List Nat) → (clause : Nat) → Prop
  | .top, _, _ => True
  | .atomicConcept cls, path, _ => I.cls cls (τ path)
  | .intersection clauses, path, _ => SatisfiesAll τ clauses path 1
  | .someValuesFrom role inner, path, clause =>
    I.prop role (τ path) (τ (path ++ [clause])) ∧ Satisfies τ inner (path ++ [clause]) 1

def SatisfiesAll (τ : List Nat → D) : List ComplexConcept → (path : List Nat) → (i : Nat) → Prop
  | [], _, _ => True
  | clause :: clauses, path, i =>
    Satisfies τ clause path i ∧ SatisfiesAll τ clauses path (i + 1)

end

mutual

/-- `ys` are successors that put `x` in the concept, one for each existential in order. -/
def Witnesses : ComplexConcept → (x : D) → (ys : List D) → Prop
  | .top, _, ys => ys = []
  | .atomicConcept cls, x, ys => ys = [] ∧ I.cls cls x
  | .intersection clauses, x, ys => ClauseWitnesses clauses x ys
  | .someValuesFrom role inner, x, ys =>
    ∃ y rest, ys = y :: rest ∧ I.prop role x y ∧ Witnesses inner y rest

def ClauseWitnesses : List ComplexConcept → (x : D) → (ys : List D) → Prop
  | [], _, ys => ys = []
  | clause :: clauses, x, ys => ∃ first rest, ys = first ++ rest ∧
    Witnesses clause x first ∧ ClauseWitnesses clauses x rest

end

mutual

/-- A node is in the concept iff successors put it there. -/
theorem concept_iff_witnesses : (concept : ComplexConcept) → (x : D) →
    (I.concept concept x ↔ ∃ ys, Witnesses I concept x ys)
  | .top, _ => ⟨fun _ => ⟨[], rfl⟩, fun _ => trivial⟩
  | .atomicConcept cls, _ => ⟨fun h => ⟨[], rfl, h⟩, fun ⟨_, _, h⟩ => h⟩
  | .intersection clauses, x => clausesHold_iff_witnesses clauses x
  | .someValuesFrom role inner, x => by
    constructor
    · intro ⟨y, hrole, hinner⟩
      obtain ⟨ys, hys⟩ := (concept_iff_witnesses inner y).mp hinner
      exact ⟨y :: ys, y, ys, rfl, hrole, hys⟩
    · intro ⟨ys, y, rest, hys, hrole, hrest⟩
      exact ⟨y, hrole, (concept_iff_witnesses inner y).mpr ⟨rest, hrest⟩⟩

theorem clausesHold_iff_witnesses : (clauses : List ComplexConcept) → (x : D) →
    (I.clausesHold clauses x ↔ ∃ ys, ClauseWitnesses I clauses x ys)
  | [], _ => ⟨fun _ => ⟨[], rfl⟩, fun _ => trivial⟩
  | clause :: clauses, x => by
    show I.concept clause x ∧ I.clausesHold clauses x ↔ _
    rw [concept_iff_witnesses clause x, clausesHold_iff_witnesses clauses x]
    constructor
    · intro ⟨⟨first, hfirst⟩, ⟨rest, hrest⟩⟩
      exact ⟨first ++ rest, first, rest, rfl, hfirst, hrest⟩
    · intro ⟨ys, first, rest, hys, hfirst, hrest⟩
      exact ⟨⟨first, hfirst⟩, ⟨rest, hrest⟩⟩

end

end Matching

section Translation

variable {m : Resources N} {G : Set Quad}

theorem typePattern_iff {v : String} {cls : Owl.Class} {p : QuadPattern}
    (h : IsTypePattern m v cls p) (σ : Valuation) :
    patternQuad σ p ∈ G ↔ (graphInterpretation m G).cls cls (σ v) := by
  obtain ⟨t, k, ht, hk, rfl⟩ := h
  constructor
  · exact fun hq => ⟨t, k, ht, hk, hq⟩
  · intro ⟨t', k', ht', hk', hq⟩
    have heq : t' = t := m.manager.getGraphElement_inj ht' ht
    have heq' : k' = k := m.manager.getGraphElement_inj hk' hk
    rw [heq, heq'] at hq
    exact hq

theorem role_iff {k : GraphElementId} {r : RdfResource} (hk : m.get k = some (.nodeOrEdge r))
    (s o : String) (σ : Valuation) :
    patternQuad σ (getRolePattern k s o) ∈ G ↔ (graphInterpretation m G).role r (σ s) (σ o) := by
  constructor
  · exact fun hq => ⟨k, hk, hq⟩
  · intro ⟨k', hk', hq⟩
    have heq : k' = k := m.manager.getGraphElement_inj hk' hk
    rw [heq] at hq
    exact hq

theorem rolePattern_iff {s o : String} {role : ObjectPropertyExpression} {p : QuadPattern}
    (h : IsRolePattern m s o role p) (σ : Valuation) :
    patternQuad σ p ∈ G ↔ (graphInterpretation m G).prop role (σ s) (σ o) := by
  fun_induction IsRolePattern m s o role p with
  | case1 | case2 =>
    obtain ⟨k, hk, rfl⟩ := h
    exact role_iff hk _ _ σ
  | case3 _ _ _ _ ih => exact ih h
  | case4 => exact h.elim

mutual

/-- The patterns of a concept say that it holds with the successors that the variables stand for. -/
theorem conceptPatterns_iff (σ : Valuation) : (concept : ComplexConcept) → (path : List Nat) →
    (clause : Nat) → (ps : List QuadPattern) → concept.simpleRoles = true →
    IsConceptPatterns m concept (pathVar path) clause ps →
    ((∀ p ∈ ps, patternQuad σ p ∈ G) ↔
      Satisfies (graphInterpretation m G) (fun path => σ (pathVar path)) concept path clause)
  | .top, path, clause, ps, _, h => by
    rw [IsConceptPatterns] at h
    rw [h, Satisfies]
    simp
  | .atomicConcept cls, path, clause, ps, _, h => by
    obtain ⟨p, rfl, hp⟩ := h
    rw [Satisfies, ← typePattern_iff hp σ]
    simp
  | .intersection clauses, path, clause, ps, hroles, h =>
    clausePatterns_iff σ clauses path 1 ps hroles h
  | .someValuesFrom role inner, path, clause, ps, hroles, h => by
    rw [ComplexConcept.simpleRoles, Bool.and_eq_true] at hroles
    obtain ⟨roles, rest, rfl, hrole, hrest⟩ := h
    obtain ⟨p, rfl, hp⟩ := hrole hroles.1
    have hvar : pathVar path ++ "_" ++ toString clause = pathVar (path ++ [clause]) :=
      (pathVar_concat path clause).symm
    rw [hvar] at hp hrest
    rw [Satisfies, ← rolePattern_iff hp σ,
      ← conceptPatterns_iff σ inner (path ++ [clause]) 1 rest hroles.2 hrest]
    simp

theorem clausePatterns_iff (σ : Valuation) : (clauses : List ComplexConcept) → (path : List Nat) →
    (i : Nat) → (ps : List QuadPattern) → clausesSimpleRoles clauses = true →
    AreClausePatterns m clauses (pathVar path) i ps →
    ((∀ p ∈ ps, patternQuad σ p ∈ G) ↔
      SatisfiesAll (graphInterpretation m G) (fun path => σ (pathVar path)) clauses path i)
  | [], path, i, ps, _, h => by
    rw [AreClausePatterns] at h
    rw [h, SatisfiesAll]
    simp
  | clause :: clauses, path, i, ps, hroles, h => by
    rw [clausesSimpleRoles, Bool.and_eq_true] at hroles
    obtain ⟨first, rest, rfl, hfirst, hrest⟩ := h
    rw [SatisfiesAll, ← conceptPatterns_iff σ clause path i first hroles.1 hfirst,
      ← clausePatterns_iff σ clauses path (i + 1) rest hroles.2 hrest]
    simp only [List.mem_append, or_imp, forall_and]

end

end Translation

section Successors

mutual

theorem length_lt_of_mem_successorPaths : (concept : ComplexConcept) → (path : List Nat) →
    (clause : Nat) → ∀ ρ ∈ concept.successorPaths path clause, path.length < ρ.length
  | .top, _, _, ρ, h | .atomicConcept _, _, _, ρ, h => by cases h
  | .intersection clauses, path, _, ρ, h =>
    length_lt_of_mem_clauseSuccessorPaths clauses path 1 ρ h
  | .someValuesFrom role inner, path, clause, ρ, h => by
    have hlength : (path ++ [clause]).length = path.length + 1 := by simp
    rcases List.mem_cons.mp h with rfl | h
    · omega
    · have hinner := length_lt_of_mem_successorPaths inner (path ++ [clause]) 1 ρ h
      omega

theorem length_lt_of_mem_clauseSuccessorPaths : (clauses : List ComplexConcept) →
    (path : List Nat) → (i : Nat) → ∀ ρ ∈ clauseSuccessorPaths clauses path i,
    path.length < ρ.length
  | [], _, _, ρ, h => by cases h
  | clause :: clauses, path, i, ρ, h => by
    rcases List.mem_append.mp h with h | h
    · exact length_lt_of_mem_successorPaths clause path i ρ h
    · exact length_lt_of_mem_clauseSuccessorPaths clauses path (i + 1) ρ h

end

variable {D : Type} {I : Interpretation D} {τ τ' : List Nat → D}

mutual

/-- A concept reads the successors at its own paths only. -/
theorem satisfies_congr : (concept : ComplexConcept) → (path : List Nat) → (clause : Nat) →
    τ path = τ' path → (∀ ρ ∈ concept.successorPaths path clause, τ ρ = τ' ρ) →
    Satisfies I τ concept path clause → Satisfies I τ' concept path clause
  | .top, _, _, _, _, _ => trivial
  | .atomicConcept cls, path, _, hpath, _, h => by
    rw [Satisfies, ← hpath]
    exact h
  | .intersection clauses, path, _, hpath, hsame, h =>
    satisfiesAll_congr clauses path 1 hpath hsame h
  | .someValuesFrom role inner, path, clause, hpath, hsame, h => by
    rw [ComplexConcept.successorPaths, List.forall_mem_cons] at hsame
    rw [Satisfies, ← hpath, ← hsame.1]
    exact ⟨h.1, satisfies_congr inner (path ++ [clause]) 1 hsame.1 hsame.2 h.2⟩

theorem satisfiesAll_congr : (clauses : List ComplexConcept) → (path : List Nat) → (i : Nat) →
    τ path = τ' path → (∀ ρ ∈ clauseSuccessorPaths clauses path i, τ ρ = τ' ρ) →
    SatisfiesAll I τ clauses path i → SatisfiesAll I τ' clauses path i
  | [], _, _, _, _, _ => trivial
  | clause :: clauses, path, i, hpath, hsame, h => by
    rw [clauseSuccessorPaths, List.forall_mem_append] at hsame
    exact ⟨satisfies_congr clause path i hpath hsame.1 h.1,
      satisfiesAll_congr clauses path (i + 1) hpath hsame.2 h.2⟩

end

mutual

/-- The successors at its paths put the node in the concept. -/
theorem witnesses_of_satisfies : (concept : ComplexConcept) → (path : List Nat) →
    (clause : Nat) → Satisfies I τ concept path clause →
    Witnesses I concept (τ path) ((concept.successorPaths path clause).map τ)
  | .top, _, _, _ => rfl
  | .atomicConcept _, _, _, h => ⟨rfl, h⟩
  | .intersection clauses, path, _, h => clauseWitnesses_of_satisfiesAll clauses path 1 h
  | .someValuesFrom _ inner, path, clause, h =>
    ⟨τ (path ++ [clause]), (inner.successorPaths (path ++ [clause]) 1).map τ, rfl, h.1,
      witnesses_of_satisfies inner (path ++ [clause]) 1 h.2⟩

theorem clauseWitnesses_of_satisfiesAll : (clauses : List ComplexConcept) → (path : List Nat) →
    (i : Nat) → SatisfiesAll I τ clauses path i →
    ClauseWitnesses I clauses (τ path) ((clauseSuccessorPaths clauses path i).map τ)
  | [], _, _, _ => rfl
  | clause :: clauses, path, i, h =>
    ⟨_, _, List.map_append, witnesses_of_satisfies clause path i h.1,
      clauseWitnesses_of_satisfiesAll clauses path (i + 1) h.2⟩

end

mutual

/-- If no path is used twice, any successors that put the node in the concept can be put at its
paths. -/
theorem exists_satisfies : (concept : ComplexConcept) → (path : List Nat) → (clause : Nat) →
    (τ : List Nat → D) → (ys : List D) → (concept.successorPaths path clause).Nodup →
    Witnesses I concept (τ path) ys → ∃ τ' : List Nat → D,
      (∀ ρ, ρ ∉ concept.successorPaths path clause → τ' ρ = τ ρ) ∧
      (concept.successorPaths path clause).map τ' = ys ∧ Satisfies I τ' concept path clause
  | .top, _, _, τ, ys, _, h => ⟨τ, fun _ _ => rfl, h.symm, trivial⟩
  | .atomicConcept cls, _, _, τ, ys, _, h => ⟨τ, fun _ _ => rfl, h.1.symm, h.2⟩
  | .intersection clauses, path, _, τ, ys, hnodup, h =>
    exists_satisfiesAll clauses path 1 τ ys hnodup h
  | .someValuesFrom role inner, path, clause, τ, ys, hnodup, h => by
    obtain ⟨y, rest, rfl, hrole, hinner⟩ := h
    rw [ComplexConcept.successorPaths, List.nodup_cons] at hnodup
    let next := path ++ [clause]
    have hnext : next.length = path.length + 1 := by simp [next]
    have hy : Function.update τ next y next = y := Function.update_self ..
    obtain ⟨τ', hkept, hmap, hsat⟩ := exists_satisfies inner next 1 (Function.update τ next y)
      rest hnodup.2 (by rw [hy]; exact hinner)
    have hvalue : τ' next = y := (hkept next hnodup.1).trans hy
    have hne : path ≠ next := fun heq => by
      have hlength := congrArg List.length heq
      omega
    have hpath : τ' path = τ path := by
      rw [hkept path, Function.update_of_ne hne]
      intro hmem
      have hlt := length_lt_of_mem_successorPaths inner next 1 path hmem
      omega
    refine ⟨τ', fun ρ hρ => ?_, ?_, ?_, hsat⟩
    · rw [ComplexConcept.successorPaths, List.mem_cons, not_or] at hρ
      rw [hkept ρ hρ.2, Function.update_of_ne hρ.1]
    · rw [ComplexConcept.successorPaths, List.map_cons, hmap, hvalue]
    · rw [hpath, hvalue]
      exact hrole

theorem exists_satisfiesAll : (clauses : List ComplexConcept) → (path : List Nat) → (i : Nat) →
    (τ : List Nat → D) → (ys : List D) → (clauseSuccessorPaths clauses path i).Nodup →
    ClauseWitnesses I clauses (τ path) ys → ∃ τ' : List Nat → D,
      (∀ ρ, ρ ∉ clauseSuccessorPaths clauses path i → τ' ρ = τ ρ) ∧
      (clauseSuccessorPaths clauses path i).map τ' = ys ∧ SatisfiesAll I τ' clauses path i
  | [], _, _, τ, ys, _, h => ⟨τ, fun _ _ => rfl, h.symm, trivial⟩
  | clause :: clauses, path, i, τ, ys, hnodup, h => by
    obtain ⟨first, rest, rfl, hfirst, hrest⟩ := h
    rw [clauseSuccessorPaths, List.nodup_append'] at hnodup
    obtain ⟨hnodup₁, hnodup₂, hdisjoint⟩ := hnodup
    obtain ⟨τ₁, hkept₁, hmap₁, hsat₁⟩ := exists_satisfies clause path i τ first hnodup₁ hfirst
    have hpath₁ : τ₁ path = τ path := hkept₁ path fun hmem =>
      absurd (length_lt_of_mem_successorPaths clause path i path hmem) (Nat.lt_irrefl _)
    obtain ⟨τ₂, hkept₂, hmap₂, hsat₂⟩ := exists_satisfiesAll clauses path (i + 1) τ₁ rest hnodup₂
      (by rw [hpath₁]; exact hrest)
    have hpath₂ : τ₁ path = τ₂ path := (hkept₂ path fun hmem =>
      absurd (length_lt_of_mem_clauseSuccessorPaths clauses path (i + 1) path hmem)
        (Nat.lt_irrefl _)).symm
    -- the later clauses leave the successors of this one alone
    have hsame (ρ : List Nat) (hρ : ρ ∈ clause.successorPaths path i) : τ₁ ρ = τ₂ ρ :=
      (hkept₂ ρ fun hmem => hdisjoint hρ hmem).symm
    refine ⟨τ₂, fun ρ hρ => ?_, ?_, satisfies_congr clause path i hpath₂ hsame hsat₁, hsat₂⟩
    · rw [clauseSuccessorPaths, List.mem_append, not_or] at hρ
      rw [hkept₂ ρ hρ.2, hkept₁ ρ hρ.1]
    · rw [clauseSuccessorPaths, List.map_append, hmap₂, ← hmap₁, List.map_congr_left hsame]

end

end Successors

section EveryQuad

variable {m : Resources N}

theorem typePattern_univ {v : String} {cls : Owl.Class} {p : QuadPattern}
    (h : IsTypePattern m v cls p) (x : GraphElementId) :
    (graphInterpretation m Set.univ).cls cls x :=
  (typePattern_iff h fun _ => x).mp (Set.mem_univ _)

theorem rolePattern_univ {path : List Nat} {clause : Nat} {role : ObjectPropertyExpression}
    {p : QuadPattern} (h : IsRolePattern m (pathVar path) (pathVar (path ++ [clause])) role p)
    (x y : GraphElementId) : (graphInterpretation m Set.univ).prop role x y := by
  have hne : pathVar path ≠ pathVar (path ++ [clause]) := fun heq => by
    have hlength := congrArg List.length (pathVar_injective heq)
    simp at hlength
  let σ : Valuation := fun v => if v = pathVar path then x else y
  have hσ := (rolePattern_iff h σ).mp (Set.mem_univ _)
  simpa only [σ, if_true, if_neg hne.symm] using hσ

mutual

/-- Where every quad is there, any successors will do. -/
theorem witnesses_univ : (concept : ComplexConcept) → (path : List Nat) → (clause : Nat) →
    (ps : List QuadPattern) → concept.simpleRoles = true →
    IsConceptPatterns m concept (pathVar path) clause ps → (x : GraphElementId) →
    (ys : List GraphElementId) → ys.length = (concept.successorPaths path clause).length →
    Witnesses (graphInterpretation m Set.univ) concept x ys
  | .top, _, _, _, _, _, _, ys, hlength => List.eq_nil_of_length_eq_zero hlength
  | .atomicConcept cls, _, _, _, _, h, x, ys, hlength => by
    obtain ⟨p, -, hp⟩ := h
    exact ⟨List.eq_nil_of_length_eq_zero hlength, typePattern_univ hp x⟩
  | .intersection clauses, path, _, ps, hroles, h, x, ys, hlength =>
    clauseWitnesses_univ clauses path 1 ps hroles h x ys hlength
  | .someValuesFrom role inner, path, clause, ps, hroles, h, x, ys, hlength => by
    rw [ComplexConcept.simpleRoles, Bool.and_eq_true] at hroles
    obtain ⟨roles, rest, rfl, hrole, hrest⟩ := h
    obtain ⟨p, rfl, hp⟩ := hrole hroles.1
    have hvar : pathVar path ++ "_" ++ toString clause = pathVar (path ++ [clause]) :=
      (pathVar_concat path clause).symm
    rw [hvar] at hp hrest
    cases ys with
    | nil => cases hlength
    | cons y ys =>
      exact ⟨y, ys, rfl, rolePattern_univ hp x y, witnesses_univ inner (path ++ [clause]) 1 rest
        hroles.2 hrest y ys (Nat.succ.inj hlength)⟩

theorem clauseWitnesses_univ : (clauses : List ComplexConcept) → (path : List Nat) → (i : Nat) →
    (ps : List QuadPattern) → clausesSimpleRoles clauses = true →
    AreClausePatterns m clauses (pathVar path) i ps → (x : GraphElementId) →
    (ys : List GraphElementId) → ys.length = (clauseSuccessorPaths clauses path i).length →
    ClauseWitnesses (graphInterpretation m Set.univ) clauses x ys
  | [], _, _, _, _, _, _, ys, hlength => List.eq_nil_of_length_eq_zero hlength
  | clause :: clauses, path, i, ps, hroles, h, x, ys, hlength => by
    rw [clausesSimpleRoles, Bool.and_eq_true] at hroles
    obtain ⟨first, rest, rfl, hfirst, hrest⟩ := h
    rw [clauseSuccessorPaths, List.length_append] at hlength
    let n := (clause.successorPaths path i).length
    exact ⟨ys.take n, ys.drop n, (List.take_append_drop n ys).symm,
      witnesses_univ clause path i first hroles.1 hfirst x _ (by rw [List.length_take]; omega),
      clauseWitnesses_univ clauses path (i + 1) rest hroles.2 hrest x _
        (by rw [List.length_drop]; omega)⟩

end

end EveryQuad

theorem hasPattern_of_isSingle (role : ObjectPropertyExpression) (h : role.isSingle = true) :
    role.hasPattern = true := by
  fun_induction ObjectPropertyExpression.isSingle role with
  | case1 | case2 => simp [ObjectPropertyExpression.hasPattern]
  | case3 inner ih =>
    cases inner with
    | objectPropertyChain _ => cases h
    | namedObjectProperty _ | anonymousObjectProperty _ | inverseObjectProperty _ =>
      rw [ObjectPropertyExpression.hasPattern]
      · exact ih h
      · simp
  | case4 => cases h

mutual

theorem hasPatterns_of_simpleRoles : (concept : ComplexConcept) → concept.simpleRoles = true →
    concept.hasPatterns = true
  | .top, _ | .atomicConcept _, _ => rfl
  | .intersection clauses, h => clausesHavePatterns_of_simpleRoles clauses h
  | .someValuesFrom role inner, h => by
    rw [ComplexConcept.simpleRoles, Bool.and_eq_true] at h
    rw [ComplexConcept.hasPatterns, Bool.and_eq_true]
    exact ⟨hasPattern_of_isSingle role h.1, hasPatterns_of_simpleRoles inner h.2⟩

theorem clausesHavePatterns_of_simpleRoles : (clauses : List ComplexConcept) →
    clausesSimpleRoles clauses = true → clausesHavePatterns clauses = true
  | [], _ => rfl
  | clause :: clauses, h => by
    rw [clausesSimpleRoles, Bool.and_eq_true] at h
    rw [clausesHavePatterns, Bool.and_eq_true]
    exact ⟨hasPatterns_of_simpleRoles clause h.1, clausesHavePatterns_of_simpleRoles clauses h.2⟩

end

section Exactness

/-- The variables of the existentials, in order. -/
def ComplexConcept.successorVars (concept : ComplexConcept) : List String :=
  (concept.successorPaths [] 1).map pathVar

/-- The patterns match at the members of the concept, with any successors that put them there. -/
structure TranslatesConcept (m : Resources N) (concept : ComplexConcept)
    (patterns : List QuadPattern) : Prop where
  exact : ∀ (G : Set Quad) (x : GraphElementId),
    (∃ σ, MatchesAt patterns G σ x) ↔ (graphInterpretation m G).concept concept x
  apart : ∀ (G : Set Quad) (x : GraphElementId) (ys : List GraphElementId),
    Witnesses (graphInterpretation m G) concept x ys →
      ∃ σ, MatchesAt patterns G σ x ∧ concept.successorVars.map σ = ys

theorem translatesConcept_iff {m : Resources N} {concept : ComplexConcept} {ps : List QuadPattern}
    (hroles : concept.simpleRoles = true) (h : IsConceptPatterns m concept "X" 1 ps) :
    TranslatesConcept m concept ps ↔ (concept.successorPaths [] 1).Nodup := by
  constructor
  · intro htranslates
    let n := (concept.successorPaths [] 1).length
    have hall := witnesses_univ concept [] 1 ps hroles h 0 (List.range n) (List.length_range ..)
    obtain ⟨σ, -, hσ⟩ := htranslates.apart _ _ _ hall
    have hnodup : (concept.successorVars.map σ).Nodup := by
      rw [hσ]
      exact List.nodup_range
    exact hnodup.of_map.of_map
  · intro hnodup
    have hapart (G : Set Quad) (x : GraphElementId) (ys : List GraphElementId)
        (hys : Witnesses (graphInterpretation m G) concept x ys) :
        ∃ σ, MatchesAt ps G σ x ∧ concept.successorVars.map σ = ys := by
      obtain ⟨τ, hkept, hmap, hτ⟩ := exists_satisfies concept [] 1 (fun _ => x) ys hnodup hys
      have hx : τ [] = x := hkept [] fun hmem =>
        absurd (length_lt_of_mem_successorPaths concept [] 1 [] hmem) (Nat.lt_irrefl _)
      obtain ⟨σ, hσ⟩ : ∃ σ : Valuation, ∀ path, σ (pathVar path) = τ path :=
        ⟨Function.extend pathVar τ fun _ => x, fun path =>
          pathVar_injective.extend_apply τ _ path⟩
      have hmatch : MatchesAt ps G σ x := by
        refine ⟨(hσ []).trans hx, (conceptPatterns_iff σ concept [] 1 ps hroles h).mpr ?_⟩
        rw [funext hσ]
        exact hτ
      refine ⟨σ, hmatch, ?_⟩
      rw [ComplexConcept.successorVars, List.map_map, ← hmap]
      exact List.map_congr_left fun path _ => hσ path
    refine ⟨fun G x => ?_, hapart⟩
    rw [concept_iff_witnesses]
    constructor
    · intro ⟨σ, hx, hσ⟩
      rw [← hx]
      exact ⟨_, witnesses_of_satisfies concept [] 1
        ((conceptPatterns_iff σ concept [] 1 ps hroles h).mp hσ)⟩
    · intro ⟨ys, hys⟩
      obtain ⟨σ, hσ, -⟩ := hapart G x ys hys
      exact ⟨σ, hσ⟩

theorem exists_conceptPatterns (concept : ComplexConcept) (hroles : concept.simpleRoles = true)
    (m₀ : Resources N) : ∃ patterns m, (translateEli concept "X" 1).run m₀ = (some patterns, m) ∧
      IsConceptPatterns m concept "X" 1 patterns := by
  obtain ⟨-, hyields⟩ := succeeds_translateEli (N := N) concept "X" 1 m₀
  obtain ⟨hsome, hpatterns⟩ := hyields _ le_rfl
  rw [hasPatterns_of_simpleRoles concept hroles] at hsome
  obtain ⟨patterns, hrun⟩ := Option.isSome_iff_exists.mp hsome
  exact ⟨patterns, _, Prod.ext hrun rfl, hpatterns patterns hrun⟩

/-- A concept over properties and inverses is translated right iff no two of its existentials have
the same numbers from the root. -/
theorem translateEli_exact_iff (concept : ComplexConcept) (hroles : concept.simpleRoles = true)
    (m₀ : Resources N) : ∃ patterns m, (translateEli concept "X" 1).run m₀ = (some patterns, m) ∧
      (TranslatesConcept m concept patterns ↔ (concept.successorPaths [] 1).Nodup) := by
  obtain ⟨patterns, m, hrun, hpatterns⟩ := exists_conceptPatterns concept hroles m₀
  exact ⟨patterns, m, hrun, translatesConcept_iff hroles hpatterns⟩

/-- `∃ r. (A ⊓ ∃ s⁻. B)` -/
def nestedConcept : ComplexConcept :=
  .someValuesFrom (.namedObjectProperty "r") (.intersection [.atomicConcept "A",
    .someValuesFrom (.inverseObjectProperty (.namedObjectProperty "s")) (.atomicConcept "B")])

theorem translateEli_exact_nested : ∃ patterns m,
    (translateEli nestedConcept "X" 1).run (.new : Resources .text) = (some patterns, m) ∧
      (TranslatesConcept m nestedConcept patterns ↔
        (nestedConcept.successorPaths [] 1).Nodup) :=
  translateEli_exact_iff nestedConcept rfl .new

/-- `∃ r. A ⊓ (∃ r. B)`, with an intersection of one part for the second existential. -/
def groupedConcept : ComplexConcept :=
  .intersection [.someValuesFrom (.namedObjectProperty "r") (.atomicConcept "A"),
    .intersection [.someValuesFrom (.namedObjectProperty "r") (.atomicConcept "B")]]

/-- Both existentials are matched at `X_1`, so successors that are apart do not match. -/
theorem not_translateEli_exact : ¬ ∀ (concept : ComplexConcept), concept.simpleRoles = true →
    ∀ m₀ : Resources .text, ∃ patterns m,
      (translateEli concept "X" 1).run m₀ = (some patterns, m) ∧
      ∀ (G : Set Quad) (x : GraphElementId),
        (∃ σ, MatchesAt patterns G σ x) ↔ (graphInterpretation m G).concept concept x := by
  intro h
  obtain ⟨patterns, m, hrun, hexact⟩ := h groupedConcept rfl .new
  obtain ⟨patterns', m', hrun', hpatterns⟩ := exists_conceptPatterns groupedConcept rfl
    (.new : Resources .text)
  cases hrun.symm.trans hrun'
  obtain ⟨_, _, -, ⟨_, _, -, hrole, _, -, t, a, ht, ha, -⟩, _, _, -,
    ⟨_, _, -, ⟨_, _, -, -, _, -, _, b, -, hb, -⟩, -⟩, -⟩ := id hpatterns
  obtain ⟨_, -, k, hk, -⟩ := hrole rfl
  have htk : t ≠ k := fun heq => by
    rw [heq, hk] at ht
    simp [rdfType] at ht
  have hab : a ≠ b := fun heq => by
    rw [heq, hb] at ha
    simp at ha
  let G : Set Quad := {⟨defaultGraphElementId, 0, k, 1⟩, ⟨defaultGraphElementId, 1, t, a⟩,
    ⟨defaultGraphElementId, 0, k, 2⟩, ⟨defaultGraphElementId, 2, t, b⟩}
  have hconcept : (graphInterpretation m G).concept groupedConcept 0 :=
    ⟨⟨1, ⟨k, hk, by simp [G]⟩, t, a, ht, ha, by simp [G]⟩,
      ⟨⟨2, ⟨k, hk, by simp [G]⟩, t, b, ht, hb, by simp [G]⟩, trivial⟩, trivial⟩
  obtain ⟨σ, -, hσ⟩ := (hexact G 0).mpr hconcept
  obtain ⟨⟨-, t₁, a₁, ht₁, ha₁, hquad₁⟩, ⟨⟨-, t₂, b₂, ht₂, hb₂, hquad₂⟩, -⟩, -⟩ :=
    (conceptPatterns_iff σ groupedConcept [] 1 patterns rfl hpatterns).mp hσ
  rw [m.manager.getGraphElement_inj ht₁ ht, m.manager.getGraphElement_inj ha₁ ha] at hquad₁
  rw [m.manager.getGraphElement_inj ht₂ ht, m.manager.getGraphElement_inj hb₂ hb] at hquad₂
  have hone : σ (pathVar [1]) = 1 := by simpa [G, htk, hab] using hquad₁
  have htwo : σ (pathVar [1]) = 2 := by simpa [G, htk, hab.symm] using hquad₂
  rw [hone] at htwo
  cases htwo

end Exactness

end RdfDatalog.Eli
