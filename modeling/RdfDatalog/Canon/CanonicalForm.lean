import RdfDatalog.Canon.Dataset

namespace RdfDatalog.Canon

open GraphElementManager

variable {N : NativeTypes}

/-- The node a term of a datastore stands for, with its literals read by `f`. -/
def meaning (f : RdfLiteral N → OxLiteral) : RdfTerm N → Node Nat
  | .iri i => .iri i
  | .blank n => .blank n
  | .literal l => .literal (f l)
  | .triple s p o => .triple (meaning f s) (meaning f p) (meaning f o)

def statement (f : RdfLiteral N → OxLiteral) (t : TermQuad N) : Statement Nat :=
  ⟨if t.graph = .iri defaultGraphIri then none else some (meaning f t.graph),
    meaning f t.subject, meaning f t.predicate, meaning f t.obj⟩

/-- The quads a datastore holds. -/
def statements (f : RdfLiteral N → OxLiteral) (store : Datastore N) : Set (Statement Nat) :=
  statement f '' store.terms

def rdf11 (f : RdfLiteral N → OxLiteral) (store : Datastore N) : Set (Statement Nat) :=
  {q ∈ statements f store | q.IsRdf11}

def NamedOrBlankNode.toNode : NamedOrBlankNode → Node String
  | namedNode i => .iri i
  | blankNode b => .blank b

def Term.toNode : Term → Node String
  | namedNode i => .iri i
  | blankNode b => .blank b
  | literal l => .literal l

def GraphName.toNode : GraphName → Option (Node String)
  | namedNode i => some (.iri i)
  | blankNode b => some (.blank b)
  | defaultGraph => none

def OxQuad.toStatement (q : OxQuad) : Statement String :=
  ⟨q.graphName.toNode, q.subject.toNode, .iri q.predicate, q.obj.toNode⟩

section Conversion

variable {env : OxrdfEnv N} {m : GraphElementManager N} {e : GraphElement N}
  {f : RdfLiteral N → OxLiteral}

theorem elementToSubject_eq_some {s : NamedOrBlankNode} :
    elementToSubject e = some s ↔ ∃ t, m.Resolves e t ∧ (meaning f t).isResource = true ∧
      s.toNode = (meaning f t).map blankLabel := by
  constructor
  · intro h
    cases e with
    | nodeOrEdge r =>
      cases h
      cases r with
      | iri i => exact ⟨.iri i, .iri i, rfl, rfl⟩
      | anonymousBlankNode n => exact ⟨.blank n, .blank n, rfl, rfl⟩
    | graphLiteral l => cases h
    | tripleTerm k => cases h
  · intro ⟨t, hres, hshape, hs⟩
    cases hres with
    | iri | blank => cases s <;> cases hs; rfl
    | literal | tripleTerm => cases hshape

theorem elementToPredicate_eq_some {p : IriReference} :
    elementToPredicate e = some p ↔ ∃ t, m.Resolves e t ∧ (meaning f t).isIri = true ∧
      .iri p = (meaning f t).map blankLabel := by
  constructor
  · intro h
    cases e with
    | nodeOrEdge r =>
      cases r with
      | iri i =>
        cases h
        exact ⟨.iri p, .iri p, rfl, rfl⟩
      | anonymousBlankNode n => cases h
    | graphLiteral l => cases h
    | tripleTerm k => cases h
  · intro ⟨t, hres, hshape, hp⟩
    cases hres with
    | iri i => cases hp; rfl
    | blank | literal | tripleTerm => cases hshape

theorem elementToTerm_eq_some {o : Term} :
    elementToTerm env e = some o ↔ ∃ t, m.Resolves e t ∧
      (meaning (literalToOxrdf env) t).isTriple = false ∧
      o.toNode = (meaning (literalToOxrdf env) t).map blankLabel := by
  constructor
  · intro h
    cases e with
    | nodeOrEdge r =>
      cases h
      cases r with
      | iri i => exact ⟨.iri i, .iri i, rfl, rfl⟩
      | anonymousBlankNode n => exact ⟨.blank n, .blank n, rfl, rfl⟩
    | graphLiteral l =>
      cases h
      exact ⟨.literal l, .literal l, rfl, rfl⟩
    | tripleTerm k => cases h
  · intro ⟨t, hres, hshape, ho⟩
    cases hres with
    | iri | blank | literal => cases o <;> cases ho; rfl
    | tripleTerm => cases hshape

theorem elementToGraphName_eq_some {g : GraphName} :
    elementToGraphName e = some g ↔ ∃ t, m.Resolves e t ∧ (meaning f t).isResource = true ∧
      g.toNode = some ((meaning f t).map graphBlankLabel) := by
  constructor
  · intro h
    cases e with
    | nodeOrEdge r =>
      cases r with
      | iri i =>
        cases h
        exact ⟨.iri i, .iri i, rfl, rfl⟩
      | anonymousBlankNode n =>
        cases h
        exact ⟨.blank n, .blank n, rfl, rfl⟩
    | graphLiteral l => cases h
    | tripleTerm k => cases h
  · intro ⟨t, hres, hshape, hg⟩
    cases hres with
    | iri | blank => cases g <;> cases hg; rfl
    | literal | tripleTerm => cases hshape

theorem graph_eq_default_iff {id : GraphElementId} {t : RdfTerm N}
    (hid : m.getGraphElement id = some e) (hres : m.Resolves e t) :
    t = .iri defaultGraphIri ↔ id = defaultGraphElementId := by
  constructor
  · intro ht
    rw [ht] at hres
    have he : e = .iri defaultGraphIri := hres.inj (.iri defaultGraphIri)
    rw [he] at hid
    exact getGraphElement_inj hid m.defaultGraph
  · intro h
    subst h
    cases hid.symm.trans m.defaultGraph
    exact hres.unique (.iri defaultGraphIri)

variable {oxquad : OxQuad}

theorem buildOxrdfQuad_eq_some {s p o : GraphElementId} {g : GraphName} :
    buildOxrdfQuad env m s p o g = some (some oxquad) ↔
      ∃ es ep eo, m.getGraphElement s = some es ∧ m.getGraphElement p = some ep ∧
        m.getGraphElement o = some eo ∧ elementToSubject es = some oxquad.subject ∧
        elementToPredicate ep = some oxquad.predicate ∧
        elementToTerm env eo = some oxquad.obj ∧ oxquad.graphName = g := by
  constructor
  · intro h
    unfold buildOxrdfQuad at h
    cases hs : m.getGraphElement s with
    | none => simp [hs] at h
    | some es =>
      cases hsub : elementToSubject es with
      | none => simp [hs, hsub] at h
      | some subject =>
        cases hp : m.getGraphElement p with
        | none => simp [hs, hsub, hp] at h
        | some ep =>
          cases hpred : elementToPredicate ep with
          | none => simp [hs, hsub, hp, hpred] at h
          | some predicate =>
            cases ho : m.getGraphElement o with
            | none => simp [hs, hsub, hp, hpred, ho] at h
            | some eo =>
              cases hobj : elementToTerm env eo with
              | none => simp [hs, hsub, hp, hpred, ho, hobj] at h
              | some obj =>
                simp [hs, hsub, hp, hpred, ho, hobj] at h
                subst h
                exact ⟨es, ep, eo, rfl, rfl, rfl, hsub, hpred, hobj, rfl⟩
  · intro ⟨es, ep, eo, hs, hp, ho, hsub, hpred, hobj, hg⟩
    subst hg
    simp [buildOxrdfQuad, hs, hp, ho, hsub, hpred, hobj]

theorem quadToOxrdf_graph {quad : Quad} :
    quadToOxrdf env m quad = some (some oxquad) ↔
      ∃ eg t, m.getGraphElement quad.tripleId = some eg ∧ m.Resolves eg t ∧
        (t ≠ .iri defaultGraphIri → (meaning f t).isResource = true) ∧
        oxquad.graphName.toNode =
          (if t = .iri defaultGraphIri then none else some (meaning f t)).map
            (Node.map graphBlankLabel) ∧
        buildOxrdfQuad env m quad.subject quad.predicate quad.obj oxquad.graphName =
          some (some oxquad) := by
  unfold quadToOxrdf
  by_cases hid : quad.tripleId = defaultGraphElementId
  · rw [if_pos hid, hid]
    constructor
    · intro h
      have hname : oxquad.graphName = .defaultGraph := by
        obtain ⟨_, _, _, _, _, _, _, _, _, hg⟩ := buildOxrdfQuad_eq_some.mp h
        exact hg
      refine ⟨_, .iri defaultGraphIri, m.defaultGraph, .iri _, fun h => absurd rfl h, ?_, ?_⟩
      · rw [hname, if_pos rfl]
        rfl
      · rw [hname]
        exact h
    · intro ⟨eg, t, heg, hres, _, hname, h⟩
      rw [if_pos ((graph_eq_default_iff heg hres).mpr rfl)] at hname
      have hdefault : oxquad.graphName = .defaultGraph := by
        cases hg : oxquad.graphName <;> rw [hg] at hname <;> cases hname
      rwa [hdefault] at h
  · rw [if_neg hid]
    constructor
    · intro h
      cases heg : m.getGraphElement quad.tripleId with
      | none => simp [heg] at h
      | some eg =>
        cases hname : elementToGraphName eg with
        | none => simp [heg, hname] at h
        | some g =>
          simp only [heg, Option.bind_eq_bind, Option.bind_some, hname] at h
          obtain ⟨t, hres, hshape, hg⟩ := elementToGraphName_eq_some.mp hname
          have ht : t ≠ .iri defaultGraphIri := fun ht =>
            hid ((graph_eq_default_iff heg hres).mp ht)
          have hgraph : oxquad.graphName = g := by
            obtain ⟨_, _, _, _, _, _, _, _, _, hgraph⟩ := buildOxrdfQuad_eq_some.mp h
            exact hgraph
          refine ⟨eg, t, rfl, hres, fun _ => hshape, ?_, ?_⟩
          · rw [hgraph, hg, if_neg ht]
            rfl
          · rw [hgraph]
            exact h
    · intro ⟨eg, t, heg, hres, hshape, hname, h⟩
      have ht : t ≠ .iri defaultGraphIri := fun ht =>
        hid ((graph_eq_default_iff heg hres).mp ht)
      rw [if_neg ht] at hname
      have hg := elementToGraphName_eq_some.mpr ⟨t, hres, hshape ht, hname⟩
      simp only [heg, Option.bind_eq_bind, Option.bind_some, hg]
      exact h

theorem quadToOxrdf_eq_some {quad : Quad} :
    quadToOxrdf env m quad = some (some oxquad) ↔
      ∃ r t, m.getResourceQuad quad = some r ∧ m.ResolvesQuad r t ∧
        (statement (literalToOxrdf env) t).IsRdf11 ∧
        oxquad.toStatement =
          (statement (literalToOxrdf env) t).mapPositions blankLabel graphBlankLabel := by
  constructor
  · intro h
    obtain ⟨eg, g, heg, hg, hshape, hname, h⟩ :=
      (quadToOxrdf_graph (f := literalToOxrdf env)).mp h
    obtain ⟨es, ep, eo, hes, hep, heo, hsub, hpred, hobj, _⟩ := buildOxrdfQuad_eq_some.mp h
    obtain ⟨s, hs, hsshape, hseq⟩ :=
      (elementToSubject_eq_some (f := literalToOxrdf env)).mp hsub
    obtain ⟨p, hp, hpshape, hpeq⟩ :=
      (elementToPredicate_eq_some (f := literalToOxrdf env)).mp hpred
    obtain ⟨o, ho, hoshape, hoeq⟩ := elementToTerm_eq_some.mp hobj
    refine ⟨⟨eg, es, ep, eo⟩, ⟨g, s, p, o⟩,
      getResourceQuad_eq_some.mpr ⟨heg, hes, hep, heo⟩, ⟨hg, hs, hp, ho⟩,
      ⟨?_, hsshape, hpshape, hoshape⟩, ?_⟩
    · intro n hn
      simp only [statement] at hn
      split at hn
      · cases hn
      · next hne =>
        cases hn
        exact hshape hne
    · rw [OxQuad.toStatement, hname, hseq, hpeq, hoeq]
      rfl
  · intro ⟨r, t, hr, ht, hshape, heq⟩
    obtain ⟨heg, hes, hep, heo⟩ := getResourceQuad_eq_some.mp hr
    rw [OxQuad.toStatement, Statement.mapPositions, Statement.mk.injEq] at heq
    refine (quadToOxrdf_graph (f := literalToOxrdf env)).mpr
      ⟨r.graph, t.graph, heg, ht.graph, ?_, heq.1, ?_⟩
    · intro hne
      refine hshape.graph _ ?_
      rw [statement, if_neg hne]
      rfl
    · exact buildOxrdfQuad_eq_some.mpr ⟨r.subject, r.predicate, r.obj, hes, hep, heo,
        elementToSubject_eq_some.mpr ⟨t.subject, ht.subject, hshape.subject, heq.2.1⟩,
        elementToPredicate_eq_some.mpr ⟨t.predicate, ht.predicate, hshape.predicate, heq.2.2.1⟩,
        elementToTerm_eq_some.mpr ⟨t.obj, ht.obj, hshape.obj, heq.2.2.2⟩, rfl⟩

end Conversion

section Dataset

variable {env : OxrdfEnv N} {store : Datastore N}

variable {dataset : Finset OxQuad}

theorem mem_insertConverted {converted : Option OxQuad} {q : OxQuad} :
    q ∈ insertConverted dataset converted ↔ q ∈ dataset ∨ converted = some q := by
  cases converted with
  | none => simp [insertConverted]
  | some oxquad =>
    rw [insertConverted, Finset.mem_insert, Option.some.injEq]
    exact ⟨fun h => h.symm.imp id Eq.symm, fun h => h.symm.imp Eq.symm id⟩

theorem mem_foldlM_insertConverted {step : Quad → Option (Option OxQuad)} {l : List Quad}
    {converted : Finset OxQuad} {q : OxQuad} (h : l.foldlM (fun dataset quad => (step quad).map
      (insertConverted dataset)) dataset = some converted) :
    q ∈ converted ↔ q ∈ dataset ∨ ∃ quad ∈ l, step quad = some (some q) := by
  induction l generalizing dataset with
  | nil =>
    cases h
    simp
  | cons quad l ih =>
    rw [List.foldlM_cons] at h
    cases hstep : step quad with
    | none => simp [hstep] at h
    | some o =>
      rw [hstep] at h
      rw [ih h, mem_insertConverted, List.exists_mem_cons_iff, hstep, Option.some.injEq, or_assoc]

theorem exists_toStatement {q : Statement String} (h : q.IsRdf11) :
    ∃ oxquad : OxQuad, oxquad.toStatement = q := by
  obtain ⟨graph, subject, predicate, obj⟩ := q
  have hgraph : ∃ g : GraphName, g.toNode = graph := by
    cases graph with
    | none => exact ⟨.defaultGraph, rfl⟩
    | some name =>
      have hname : name.isResource = true := h.graph name rfl
      cases name with
      | iri i => exact ⟨.namedNode i, rfl⟩
      | blank b => exact ⟨.blankNode b, rfl⟩
      | literal l => cases hname
      | triple s p o => cases hname
  have hsubject : ∃ s : NamedOrBlankNode, s.toNode = subject := by
    cases subject with
    | iri i => exact ⟨.namedNode i, rfl⟩
    | blank b => exact ⟨.blankNode b, rfl⟩
    | literal | triple => cases h.subject
  have hpredicate : ∃ p : IriReference, .iri p = predicate := by
    cases predicate with
    | iri i => exact ⟨i, rfl⟩
    | blank | literal | triple => cases h.predicate
  have hobj : ∃ o : Term, o.toNode = obj := by
    cases obj with
    | iri i => exact ⟨.namedNode i, rfl⟩
    | blank b => exact ⟨.blankNode b, rfl⟩
    | literal l => exact ⟨.literal l, rfl⟩
    | triple s p o => cases h.obj
  obtain ⟨g, hg⟩ := hgraph
  obtain ⟨s, hs⟩ := hsubject
  obtain ⟨p, hp⟩ := hpredicate
  obtain ⟨o, ho⟩ := hobj
  exact ⟨⟨s, p, o, g⟩, by rw [OxQuad.toStatement, hg, hs, hp, ho]⟩

theorem datastoreToOxrdfDataset_spec (h : datastoreToOxrdfDataset env store = some dataset) :
    OxQuad.toStatement '' (dataset : Set OxQuad) =
      Statement.mapPositions blankLabel graphBlankLabel '' rdf11 (literalToOxrdf env) store := by
  have hmem (oxquad : OxQuad) : oxquad ∈ dataset ↔ ∃ quad ∈ store.namedGraphs.quadList,
      quadToOxrdf env store.resources quad = some (some oxquad) := by
    rw [mem_foldlM_insertConverted h]
    simp only [Finset.notMem_empty, false_or]
  ext q
  constructor
  · intro ⟨oxquad, hin, hq⟩
    obtain ⟨quad, hquad, hconv⟩ := (hmem oxquad).mp hin
    obtain ⟨r, t, hr, ht, hshape, heq⟩ := quadToOxrdf_eq_some.mp hconv
    rw [← hq]
    exact ⟨_, ⟨⟨t, ⟨r, mem_resolve.mpr ⟨quad, hquad, hr⟩, ht⟩, rfl⟩, hshape⟩, heq.symm⟩
  · intro ⟨_, ⟨⟨t, ⟨r, hin, ht⟩, hstatement⟩, hshape⟩, hq⟩
    subst hstatement
    obtain ⟨quad, hquad, hr⟩ := mem_resolve.mp hin
    obtain ⟨oxquad, heq⟩ := exists_toStatement hshape.mapPositions
    have hconv : quadToOxrdf env store.resources quad = some (some oxquad) :=
      quadToOxrdf_eq_some.mpr ⟨r, t, hr, ht, hshape, heq⟩
    refine ⟨oxquad, (hmem oxquad).mpr ⟨quad, hquad, hconv⟩, ?_⟩
    rw [heq, hq]

end Dataset

end RdfDatalog.Canon
