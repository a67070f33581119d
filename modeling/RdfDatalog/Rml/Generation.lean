import RdfDatalog.Rml.Execution

namespace RdfDatalog.Rml

open GraphElementManager Datastore

variable {N : NativeTypes}

section Documents

/-- A mapping document as RML has it: triples maps with names of their own, parents that exist, and
no functions. -/
structure MappingDocument.Valid (mapping : MappingDocument N) : Prop where
  ids : (mapping.triplesMaps.map (·.id)).Nodup
  subjects : ∀ tm ∈ mapping.triplesMaps, tm.subjectMap.termMap.Valid
  predicates : ∀ tm ∈ mapping.triplesMaps, ∀ pom ∈ tm.predicateObjectMaps,
    ∀ pm ∈ pom.predicateMaps, pm.1.Valid
  objects : ∀ tm ∈ mapping.triplesMaps, ∀ pom ∈ tm.predicateObjectMaps,
    ∀ om ∈ pom.objectMaps, om.parentTriplesMap = none → om.termMap.Valid
  parents : ∀ tm ∈ mapping.triplesMaps, ∀ pom ∈ tm.predicateObjectMaps, ∀ om ∈ pom.objectMaps,
    ∀ parentId, om.parentTriplesMap = some parentId →
      ∃ parent ∈ mapping.triplesMaps, parent.id = parentId
  graphs : ∀ tm ∈ mapping.triplesMaps, ∀ pom ∈ tm.predicateObjectMaps,
    ∀ gm ∈ tm.subjectMap.graphMaps ++ pom.graphMaps, gm.termMap.Valid

variable {tm : TriplesMap N}

theorem lookup_parentById {l : List (TriplesMap N)} (hids : (l.map (·.id)).Nodup) (h : tm ∈ l)
    (parents : ParentById N) :
    (l.foldl (fun parents tm => parents.insert tm.id tm) parents).lookup tm.id = some tm := by
  have hkeep (l : List (TriplesMap N)) (parents : ParentById N) (id : IriReference)
      (hid : id ∉ l.map (·.id)) :
      (l.foldl (fun parents tm => parents.insert tm.id tm) parents).lookup id =
        parents.lookup id := by
    induction l generalizing parents with
    | nil => rfl
    | cons tm l ih =>
      rw [List.map_cons, List.mem_cons, not_or] at hid
      rw [List.foldl_cons, ih _ hid.2, AList.lookup_insert_ne hid.1]
  induction l generalizing parents with
  | nil => cases h
  | cons tm' l ih =>
    rw [List.map_cons, List.nodup_cons] at hids
    rw [List.foldl_cons]
    rcases List.mem_cons.mp h with rfl | h
    · rw [hkeep l _ _ hids.1, AList.lookup_insert]
    · exact ih hids.2 h _

variable {mapping : MappingDocument N}

theorem MappingDocument.Valid.lookup (h : mapping.Valid) (htm : tm ∈ mapping.triplesMaps) :
    (parentById mapping).lookup tm.id = some tm :=
  lookup_parentById h.ids htm ∅

theorem MappingDocument.Valid.eq_of_id (h : mapping.Valid) {tm' : TriplesMap N}
    (htm : tm ∈ mapping.triplesMaps) (htm' : tm' ∈ mapping.triplesMaps) (hid : tm.id = tm'.id) :
    tm = tm' := by
  have hlookup := h.lookup htm
  rw [hid, h.lookup htm'] at hlookup
  exact (Option.some.inj hlookup).symm

end Documents

section Translation

def subjectLogic (tm : TriplesMap N) : GenerationLogic N :=
  tm.subjectMap.termMap.logic tm.subjectMap.termType none none

/-- What `objectInput` answers when it does not fail. -/
def objectPlan (parents : ParentById N) (tm : TriplesMap N) (om : ObjectMap N) :
    LogicalPlan N × GenerationLogic N :=
  match om.parentTriplesMap.bind fun parentId => parents.lookup parentId with
  | some parent =>
    (.join (makeScan tm) (makeScan parent) (om.joinConditions.map fun jc => ⟨jc.child, jc.parent⟩)
      (chooseJoinAlgorithm tm.logicalSource.source parent.logicalSource.source),
      subjectLogic parent)
  | none => (makeScan tm, om.termMap.logic om.termType om.language om.datatype)

def graphLogic (graphMaps : List (GraphMap N)) : Attrs N :=
  (graphMaps.head?.map fun gm => (OutputAttr.graph, gm.termMap.logic .iri none none)).toList

def pairPlan (parents : ParentById N) (tm : TriplesMap N) (pom : PredicateObjectMap N)
    (pm : TermMap N × TermType) (om : ObjectMap N) : LogicalPlan N :=
  .projection (objectPlan parents tm om).1 ([(.subject, subjectLogic tm),
    (.predicate, pm.1.logic pm.2 none none), (.object, (objectPlan parents tm om).2)] ++
    graphLogic (tm.subjectMap.graphMaps ++ pom.graphMaps))

def plansOf (parents : ParentById N) (tm : TriplesMap N) : List (LogicalPlan N) :=
  (tm.predicateObjectMaps.map fun pom => pom.predicateMaps.map fun pm =>
    pom.objectMaps.map (pairPlan parents tm pom pm)).flatten.flatten ++
    tm.subjectMap.classes.map (classPlan tm (subjectLogic tm))

theorem mapM_ok {ε α β : Type} {f : α → Except ε β} {g : α → β} {l : List α}
    (h : ∀ a ∈ l, f a = .ok (g a)) : l.mapM f = .ok (l.map g) := by
  rw [FallibleFold.mapM_eq_ok_iff, List.forall₂_map_right_iff]
  exact List.forall₂_same.mpr h

variable (env : Owl.DebugEnv N) {mapping : MappingDocument N}

variable {tm : TriplesMap N} {pom : PredicateObjectMap N}

variable (h : mapping.Valid)

include h in
theorem objectInput_eq (htm : tm ∈ mapping.triplesMaps)
    (hpom : pom ∈ tm.predicateObjectMaps) {om : ObjectMap N} (hom : om ∈ pom.objectMaps) :
    objectInput env (parentById mapping) tm om =
      .ok (objectPlan (parentById mapping) tm om) := by
  unfold objectInput objectPlan
  cases hparent : om.parentTriplesMap with
  | none =>
    dsimp only
    rw [termMapToLogic_eq (h.objects tm htm pom hpom om hom hparent)]
    rfl
  | some parentId =>
    obtain ⟨parent, hmem, rfl⟩ := h.parents tm htm pom hpom om hom parentId hparent
    dsimp only [Option.bind]
    rw [h.lookup hmem]
    dsimp only
    rw [termMapToLogic_eq (h.subjects parent hmem)]
    rfl

theorem graphAttrs_eq {graphMaps : List (GraphMap N)} (h : ∀ gm ∈ graphMaps, gm.termMap.Valid) :
    graphAttrs graphMaps = .ok (graphLogic graphMaps) := by
  cases graphMaps with
  | nil => rfl
  | cons gm rest =>
    unfold graphAttrs
    dsimp only [List.head?]
    rw [termMapToLogic_eq (h gm (.head rest))]
    rfl

include h

theorem translatePair_eq (htm : tm ∈ mapping.triplesMaps)
    (hpom : pom ∈ tm.predicateObjectMaps) (pm : TermMap N × TermType) {om : ObjectMap N}
    (hom : om ∈ pom.objectMaps) :
    translatePair env (parentById mapping) tm pom (subjectLogic tm) (pm.1.logic pm.2 none none) om =
      .ok (pairPlan (parentById mapping) tm pom pm om) := by
  rw [translatePair, objectInput_eq env h htm hpom hom, graphAttrs_eq (h.graphs tm htm pom hpom)]
  rfl

theorem translatePredicate_eq (htm : tm ∈ mapping.triplesMaps)
    (hpom : pom ∈ tm.predicateObjectMaps) {pm : TermMap N × TermType} (hpm : pm ∈ pom.predicateMaps)
    :
    translatePredicate env (parentById mapping) tm pom (subjectLogic tm) pm =
      .ok (pom.objectMaps.map (pairPlan (parentById mapping) tm pom pm)) := by
  rw [translatePredicate, termMapToLogic_eq (h.predicates tm htm pom hpom pm hpm)]
  exact mapM_ok fun om hom => translatePair_eq env h htm hpom pm hom

theorem translateTriplesMap_eq (htm : tm ∈ mapping.triplesMaps) :
    translateTriplesMap env (parentById mapping) tm = .ok (plansOf (parentById mapping) tm) := by
  have hpairs : tm.predicateObjectMaps.mapM (fun pom =>
      pom.predicateMaps.mapM (translatePredicate env (parentById mapping) tm pom
        (subjectLogic tm))) =
      .ok (tm.predicateObjectMaps.map fun pom => pom.predicateMaps.map fun pm =>
        pom.objectMaps.map (pairPlan (parentById mapping) tm pom pm)) :=
    mapM_ok fun pom hpom => mapM_ok fun pm hpm => translatePredicate_eq env h htm hpom hpm
  rw [translateTriplesMap, termMapToLogic_eq (h.subjects tm htm)]
  change (tm.predicateObjectMaps.mapM (fun pom =>
      pom.predicateMaps.mapM (translatePredicate env (parentById mapping) tm pom
        (subjectLogic tm))) >>= fun pairPlans => Except.ok (pairPlans.flatten.flatten ++
          tm.subjectMap.classes.map (classPlan tm (subjectLogic tm)))) = _
  rw [hpairs]
  rfl

theorem translate_eq :
    translate env mapping =
      .ok (mapping.triplesMaps.map (plansOf (parentById mapping))).flatten := by
  rw [translate, mapM_ok fun tm htm => translateTriplesMap_eq env h htm]
  rfl

omit h

end Translation

section Coverage

/-- The first graph map names a graph, and the others name no other one. -/
def OneGraph (graphMaps : List (GraphMap N)) (row : SourceRow) : Prop :=
  graphMaps = [] ∨ ∃ gm rest g, graphMaps = gm :: rest ∧
    gm.termMap.Generates .iri none none row g ∧ g ≠ .iri rmlDefaultGraph ∧
    ∀ gm' ∈ rest, ∀ g', gm'.termMap.Generates .iri none none row g' → g' = g

/-- The object map is evaluated for the row: a referencing one only where a row of the parent
joins. -/
def ObjectMap.Joined (mapping : MappingDocument N) (tables : Tables) (om : ObjectMap N)
    (row : SourceRow) : Prop :=
  ∀ parentId, om.parentTriplesMap = some parentId → ∃ parent ∈ mapping.triplesMaps,
    parent.id = parentId ∧ ∃ parentRow ∈ tables parent.logicalSource,
      Joins om.joinConditions row parentRow

/-- What the engine does is what RML prescribes: the terms it generates are right, one graph is
named for every row that gives a quad, classes stand in the default graph, and without join
conditions the rows of the parent have the subject that the row itself has. -/
structure MappingDocument.Covered (mapping : MappingDocument N) (tables : Tables) : Prop where
  subjects : ∀ tm ∈ mapping.triplesMaps, ∀ row ∈ tables tm.logicalSource,
    (tm.subjectMap.classes ≠ [] ∨ ∃ pom ∈ tm.predicateObjectMaps, pom.predicateMaps ≠ [] ∧
      ∃ om ∈ pom.objectMaps, om.Joined mapping tables row) →
    tm.subjectMap.termMap.SupportedAt tm.subjectMap.termType row
  predicates : ∀ tm ∈ mapping.triplesMaps, ∀ row ∈ tables tm.logicalSource,
    ∀ pom ∈ tm.predicateObjectMaps, (∃ om ∈ pom.objectMaps, om.Joined mapping tables row) →
    ∀ pm ∈ pom.predicateMaps, pm.1.SupportedAt pm.2 row
  objects : ∀ tm ∈ mapping.triplesMaps, ∀ row ∈ tables tm.logicalSource,
    ∀ pom ∈ tm.predicateObjectMaps, pom.predicateMaps ≠ [] →
    ∀ om ∈ pom.objectMaps, om.parentTriplesMap = none → om.termMap.SupportedAt om.termType row
  joinedSubjects : ∀ tm ∈ mapping.triplesMaps, ∀ row ∈ tables tm.logicalSource,
    ∀ pom ∈ tm.predicateObjectMaps, pom.predicateMaps ≠ [] → ∀ om ∈ pom.objectMaps,
    ∀ parent ∈ mapping.triplesMaps, om.parentTriplesMap = some parent.id →
    ∀ parentRow ∈ tables parent.logicalSource, Joins om.joinConditions row parentRow →
      parent.subjectMap.termMap.SupportedAt parent.subjectMap.termType parentRow
  graphs : ∀ tm ∈ mapping.triplesMaps, ∀ row ∈ tables tm.logicalSource,
    ∀ pom ∈ tm.predicateObjectMaps, ∀ q : RmlQuad N, tm.SubjectOf row q.subject →
      (∃ pm ∈ pom.predicateMaps, pm.1.Generates pm.2 none none row q.predicate) →
      (∃ om ∈ pom.objectMaps, om.ObjectOf mapping tables row q.obj) →
      (∀ gm ∈ (tm.subjectMap.graphMaps ++ pom.graphMaps).head?, gm.termMap.SupportedAt .iri row) ∧
        OneGraph (tm.subjectMap.graphMaps ++ pom.graphMaps) row
  classes : ∀ tm ∈ mapping.triplesMaps, tm.subjectMap.classes ≠ [] →
    tm.subjectMap.graphMaps ≠ [] → ∀ row ∈ tables tm.logicalSource, ∀ s, ¬ tm.SubjectOf row s
  parents : ∀ tm ∈ mapping.triplesMaps, ∀ pom ∈ tm.predicateObjectMaps, pom.predicateMaps ≠ [] →
    ∀ om ∈ pom.objectMaps, ∀ parent ∈ mapping.triplesMaps,
      om.parentTriplesMap = some parent.id → om.joinConditions = [] →
      chooseJoinAlgorithm tm.logicalSource.source parent.logicalSource.source = .hashJoin ∧
      ∀ row ∈ tables tm.logicalSource, ∀ q : RmlQuad N, tm.SubjectOf row q.subject →
        (∃ pm ∈ pom.predicateMaps, pm.1.Generates pm.2 none none row q.predicate) →
        ∀ o, (∃ parentRow ∈ tables parent.logicalSource, parent.SubjectOf parentRow o) ↔
          parent.SubjectOf row o

end Coverage

section Plans

variable (functions : StringFunctions) {sources : Sources} {tables : Tables}
  {mapping : MappingDocument N}

theorem valid_foldLogic {termMap : TermMap N} (h : termMap.Valid) (termType : TermType)
    (language : Option String) (datatype : Option IriReference) :
    (foldLogic (termMap.logic termType language datatype)).Valid := by
  cases termMap with
  | constant elem =>
    match elem, h with
    | .nodeOrEdge (.iri _), _ => trivial
    | .graphLiteral _, _ => trivial
  | template t =>
    simp only [TermMap.logic, foldLogic]
    split_ifs <;> trivial
  | reference _ => trivial
  | functionCall _ _ => cases h

/-- The graph that the engine takes: the first graph map's, else the default graph. -/
def firstGraph (graphMaps : List (GraphMap N)) (row : SourceRow) : RmlTerm N :=
  (graphMaps.head?.bind fun gm =>
    (foldLogic (gm.termMap.logic .iri none none)).term? row).getD defaultGraphTerm

theorem graphOf_iff_firstGraph {graphMaps : List (GraphMap N)} {row : SourceRow}
    (hvalid : ∀ gm ∈ graphMaps, gm.termMap.Valid)
    (hsupported : ∀ gm ∈ graphMaps.head?, gm.termMap.SupportedAt .iri row)
    (hone : OneGraph graphMaps row) (g : RmlTerm N) :
    GraphOf graphMaps row g ↔ g = firstGraph graphMaps row := by
  rcases hone with rfl | ⟨gm, rest, g₀, rfl, hg₀, hne, hrest⟩
  · simp [GraphOf, firstGraph]
  · have hfirst : firstGraph (gm :: rest) row = g₀ := by
      have hterm := (term?_foldLogic_iff (hvalid gm (.head rest)) (hsupported gm rfl)).mpr hg₀
      simp [firstGraph, hterm]
    have hname : g₀.asGraph = g₀ := if_neg hne
    rw [hfirst]
    constructor
    · intro h
      rcases h with ⟨hnil, -⟩ | ⟨gm', hgm', t, ht, rfl⟩
      · cases hnil
      · have heq : t = g₀ := by
          rcases List.mem_cons.mp hgm' with rfl | hgm'
          · have hterm (t : RmlTerm N) :
                (foldLogic (gm'.termMap.logic .iri none none)).term? row = some t ↔
                  gm'.termMap.Generates .iri none none row t :=
              term?_foldLogic_iff (hvalid gm' hgm') (hsupported gm' rfl)
            exact Option.some.inj (((hterm t).mpr ht).symm.trans ((hterm g₀).mpr hg₀))
          · exact hrest gm' hgm' t ht
        rw [heq, hname]
    · intro h
      rw [h]
      exact .inr ⟨gm, .head rest, g₀, hg₀, hname.symm⟩

/-- The folded attributes of a plan for a predicate and an object. -/
def pairAttrs (tm : TriplesMap N) (pom : PredicateObjectMap N) (pm : TermMap N × TermType)
    (objLogic : GenerationLogic N) : Attrs N :=
  let attrs : Attrs N := [(.subject, subjectLogic tm), (.predicate, pm.1.logic pm.2 none none),
    (.object, objLogic)] ++ graphLogic (tm.subjectMap.graphMaps ++ pom.graphMaps)
  attrs.map fun a => (a.1, foldLogic a.2)

variable {tm : TriplesMap N} {pom : PredicateObjectMap N} {pm : TermMap N × TermType}

variable {objLogic : GenerationLogic N}

theorem emitted_pairAttrs {childRow parentRow : SourceRow} {q : RmlQuad N} :
    emitted (pairAttrs tm pom pm objLogic) childRow parentRow = some q ↔
      (foldLogic (subjectLogic tm)).term? childRow = some q.subject ∧
      (foldLogic (pm.1.logic pm.2 none none)).term? childRow = some q.predicate ∧
      (foldLogic objLogic).term? parentRow = some q.obj ∧
      q.graph = firstGraph (tm.subjectMap.graphMaps ++ pom.graphMaps) childRow := by
  have hgraph : attrTerm (pairAttrs tm pom pm objLogic) .graph childRow =
      (tm.subjectMap.graphMaps ++ pom.graphMaps).head?.bind fun gm =>
        (foldLogic (gm.termMap.logic .iri none none)).term? childRow := by
    cases hhead : (tm.subjectMap.graphMaps ++ pom.graphMaps).head? with
    | none | some => simp [attrTerm, pairAttrs, graphLogic, hhead]
  rw [emitted_iff, hgraph]
  exact Iff.rfl

theorem valid_pairAttrs (h : mapping.Valid) (htm : tm ∈ mapping.triplesMaps)
    (hpom : pom ∈ tm.predicateObjectMaps) (hpm : pm ∈ pom.predicateMaps)
    (hobj : (foldLogic objLogic).Valid) :
    ∀ a ∈ pairAttrs tm pom pm objLogic, a.2.Valid := by
  intro a ha
  obtain ⟨b, hb, rfl⟩ := List.mem_map.mp ha
  rcases List.mem_append.mp hb with hb | hb
  · simp only [List.mem_cons, List.not_mem_nil, or_false] at hb
    rcases hb with rfl | rfl | rfl
    · exact valid_foldLogic (h.subjects tm htm) _ _ _
    · exact valid_foldLogic (h.predicates tm htm pom hpom pm hpm) _ _ _
    · exact hobj
  · simp only [graphLogic, Option.mem_toList, Option.map_eq_some_iff] at hb
    obtain ⟨gm, hgm, rfl⟩ := hb
    exact valid_foldLogic (h.graphs tm htm pom hpom gm (List.mem_of_mem_head? hgm)) _ _ _

/-- The quads that RML prescribes for a predicate map and an object map. -/
def pairQuads (mapping : MappingDocument N) (tables : Tables) (tm : TriplesMap N)
    (pom : PredicateObjectMap N) (pm : TermMap N × TermType) (om : ObjectMap N) : Set (RmlQuad N) :=
  {q | ∃ row ∈ tables tm.logicalSource, tm.SubjectOf row q.subject ∧
    pm.1.Generates pm.2 none none row q.predicate ∧ om.ObjectOf mapping tables row q.obj ∧
    GraphOf (tm.subjectMap.graphMaps ++ pom.graphMaps) row q.graph}

variable (hvalid : mapping.Valid) (hcovered : mapping.Covered tables)
include hvalid hcovered

variable (htm : tm ∈ mapping.triplesMaps)
include htm

section Pairs

variable (hpom : pom ∈ tm.predicateObjectMaps) (hpm : pm ∈ pom.predicateMaps) {om : ObjectMap N}
  (hom : om ∈ pom.objectMaps)
include hpom hpm hom

/-- Where an object of the pair is one that RML prescribes, the quad is one as well. -/
theorem emitted_pairAttrs_covered {row parentRow : SourceRow} {q : RmlQuad N}
    (hrow : row ∈ tables tm.logicalSource) (hjoined : om.Joined mapping tables row)
    (hobject : tm.SubjectOf row q.subject → pm.1.Generates pm.2 none none row q.predicate →
      (foldLogic objLogic).term? parentRow = some q.obj → om.ObjectOf mapping tables row q.obj) :
    emitted (pairAttrs tm pom pm objLogic) row parentRow = some q ↔
      tm.SubjectOf row q.subject ∧ pm.1.Generates pm.2 none none row q.predicate ∧
      (foldLogic objLogic).term? parentRow = some q.obj ∧
      GraphOf (tm.subjectMap.graphMaps ++ pom.graphMaps) row q.graph := by
  have hsubject : (foldLogic (subjectLogic tm)).term? row = some q.subject ↔
      tm.SubjectOf row q.subject :=
    term?_foldLogic_iff (hvalid.subjects tm htm) (hcovered.subjects tm htm row hrow
      (.inr ⟨pom, hpom, List.ne_nil_of_mem hpm, om, hom, hjoined⟩))
  have hpredicate : (foldLogic (pm.1.logic pm.2 none none)).term? row = some q.predicate ↔
      pm.1.Generates pm.2 none none row q.predicate :=
    term?_foldLogic_iff (hvalid.predicates tm htm pom hpom pm hpm)
      (hcovered.predicates tm htm row hrow pom hpom ⟨om, hom, hjoined⟩ pm hpm)
  rw [emitted_pairAttrs, hsubject, hpredicate]
  refine and_congr_right fun hs => and_congr_right fun hp => and_congr_right fun ho => ?_
  obtain ⟨hsupported, hone⟩ :=
    hcovered.graphs tm htm row hrow pom hpom q hs ⟨pm, hpm, hp⟩ ⟨om, hom, hobject hs hp ho⟩
  exact (graphOf_iff_firstGraph (hvalid.graphs tm htm pom hpom) hsupported hone q.graph).symm

theorem runs_scanPlan (hsources : sources.Hold tables) (hparent : om.parentTriplesMap = none) :
    Runs functions sources [foldPlan (pairPlan (parentById mapping) tm pom pm om)]
      (pairQuads mapping tables tm pom pm om) := by
  have hplan : foldPlan (pairPlan (parentById mapping) tm pom pm om) =
      .projection (.scan (scanOf tm.logicalSource))
        (pairAttrs tm pom pm (om.termMap.logic om.termType om.language om.datatype)) := by
    simp only [pairPlan, objectPlan, hparent]
    rfl
  have hobject (row : SourceRow) (hrow : row ∈ tables tm.logicalSource) (t : RmlTerm N) :
      (foldLogic (om.termMap.logic om.termType om.language om.datatype)).term? row = some t ↔
        om.ObjectOf mapping tables row t := by
    rw [ObjectMap.ObjectOf, hparent]
    exact term?_foldLogic_iff (hvalid.objects tm htm pom hpom om hom hparent)
      (hcovered.objects tm htm row hrow pom hpom (List.ne_nil_of_mem hpm) om hom hparent)
  have hjoined (row : SourceRow) : om.Joined mapping tables row := by
    intro parentId hid
    rw [hparent] at hid
    cases hid
  have hlogic := valid_foldLogic (hvalid.objects tm htm pom hpom om hom hparent) om.termType
    om.language om.datatype
  rw [hplan]
  refine Runs.congr (Runs.of_plan fun ds hds => emits_scanPlan hsources hds
    (valid_pairAttrs hvalid htm hpom hpm hlogic) tm.logicalSource) fun q => ?_
  refine exists_congr fun row => and_congr_right fun hrow => ?_
  rw [emitted_pairAttrs_covered hvalid hcovered htm hpom hpm hom hrow (hjoined row)
    fun _ _ => (hobject row hrow q.obj).mp, hobject row hrow]

variable {parent : TriplesMap N} (hmem : parent ∈ mapping.triplesMaps)
  (hparent : om.parentTriplesMap = some parent.id)
include hmem hparent

theorem objectOf_iff_joins {row : SourceRow} (hrow : row ∈ tables tm.logicalSource)
    {q : RmlQuad N} (hs : tm.SubjectOf row q.subject)
    (hp : pm.1.Generates pm.2 none none row q.predicate) :
    om.ObjectOf mapping tables row q.obj ↔ ∃ parentRow ∈ tables parent.logicalSource,
      Joins om.joinConditions row parentRow ∧ parent.SubjectOf parentRow q.obj := by
  have hsame (hnil : om.joinConditions = []) :=
    (hcovered.parents tm htm pom hpom (List.ne_nil_of_mem hpm) om hom parent hmem hparent
      hnil).2 row hrow q hs ⟨pm, hpm, hp⟩ q.obj
  rw [ObjectMap.ObjectOf, hparent]
  constructor
  · intro ⟨parent', hmem', hid, h⟩
    cases hvalid.eq_of_id hmem' hmem hid
    rcases h with ⟨hnil, hsub⟩ | ⟨-, h⟩
    · obtain ⟨parentRow, hparentRow, hobj⟩ := (hsame hnil).mpr hsub
      refine ⟨parentRow, hparentRow, ?_, hobj⟩
      rw [hnil]
      exact nofun
    · exact h
  · intro ⟨parentRow, hparentRow, hjoins, hobj⟩
    refine ⟨parent, hmem, rfl, ?_⟩
    by_cases hnil : om.joinConditions = []
    · exact .inl ⟨hnil, (hsame hnil).mp ⟨parentRow, hparentRow, hobj⟩⟩
    · exact .inr ⟨hnil, parentRow, hparentRow, hjoins, hobj⟩

theorem runs_joinPlan (hsources : sources.Hold tables) :
    Runs functions sources [foldPlan (pairPlan (parentById mapping) tm pom pm om)]
      (pairQuads mapping tables tm pom pm om) := by
  have hplan : foldPlan (pairPlan (parentById mapping) tm pom pm om) =
      .projection (.join (.scan (scanOf tm.logicalSource)) (.scan (scanOf parent.logicalSource))
        (om.joinConditions.map fun jc => ⟨jc.child, jc.parent⟩)
        (chooseJoinAlgorithm tm.logicalSource.source parent.logicalSource.source))
        (pairAttrs tm pom pm (subjectLogic parent)) := by
    have hbind : (some parent.id).bind (fun parentId => (parentById mapping).lookup parentId) =
        some parent := hvalid.lookup hmem
    simp only [pairPlan, objectPlan, hparent, hbind]
    rfl
  have hconditions : (om.joinConditions.map fun jc => JoinCondition.mk jc.child jc.parent) = [] →
      chooseJoinAlgorithm tm.logicalSource.source parent.logicalSource.source = .hashJoin :=
    fun hnil => (hcovered.parents tm htm pom hpom (List.ne_nil_of_mem hpm) om hom parent hmem
      hparent (List.map_eq_nil_iff.mp hnil)).1
  have hlogic :=
    valid_foldLogic (hvalid.subjects parent hmem) parent.subjectMap.termType none none
  rw [hplan]
  refine Runs.congr (Runs.of_plan fun ds hds => emits_joinPlan hsources hds
    (valid_pairAttrs hvalid htm hpom hpm hlogic) tm.logicalSource parent.logicalSource
    hconditions) fun q => ?_
  refine exists_congr fun row => and_congr_right fun hrow => ?_
  have hobjectOf (hs : tm.SubjectOf row q.subject)
      (hp : pm.1.Generates pm.2 none none row q.predicate) :=
    objectOf_iff_joins hvalid hcovered htm hpom hpm hom hmem hparent hrow hs hp
  -- what the plan gives for a row of the child and one of the parent that joins it
  have hemitted {parentRow : SourceRow} (hparentRow : parentRow ∈ tables parent.logicalSource)
      (hjoins : Joins om.joinConditions row parentRow) :
      emitted (pairAttrs tm pom pm (subjectLogic parent)) row parentRow = some q ↔
        tm.SubjectOf row q.subject ∧ pm.1.Generates pm.2 none none row q.predicate ∧
        parent.SubjectOf parentRow q.obj ∧
        GraphOf (tm.subjectMap.graphMaps ++ pom.graphMaps) row q.graph := by
    have hobject : (foldLogic (subjectLogic parent)).term? parentRow = some q.obj ↔
        parent.SubjectOf parentRow q.obj :=
      term?_foldLogic_iff (hvalid.subjects parent hmem) (hcovered.joinedSubjects tm htm row hrow
        pom hpom (List.ne_nil_of_mem hpm) om hom parent hmem hparent parentRow hparentRow hjoins)
    have hjoined : om.Joined mapping tables row := by
      intro parentId hid
      rw [hparent, Option.some.injEq] at hid
      exact ⟨parent, hmem, hid, parentRow, hparentRow, hjoins⟩
    rw [emitted_pairAttrs_covered hvalid hcovered htm hpom hpm hom hrow hjoined fun hs hp ho =>
      (hobjectOf hs hp).mpr ⟨parentRow, hparentRow, hjoins, hobject.mp ho⟩, hobject]
  constructor
  · intro ⟨hs, hp, ho, hg⟩
    obtain ⟨parentRow, hparentRow, hjoins, hobj⟩ := (hobjectOf hs hp).mp ho
    exact ⟨parentRow, hparentRow, List.forall_mem_map.mpr hjoins,
      (hemitted hparentRow hjoins).mpr ⟨hs, hp, hobj, hg⟩⟩
  · intro ⟨parentRow, hparentRow, hjoins, hq⟩
    have hjoins' := List.forall_mem_map.mp hjoins
    obtain ⟨hs, hp, hobj, hg⟩ := (hemitted hparentRow hjoins').mp hq
    exact ⟨hs, hp, (hobjectOf hs hp).mpr ⟨parentRow, hparentRow, hjoins', hobj⟩, hg⟩

omit hmem hparent in
theorem runs_pairPlan (hsources : sources.Hold tables) :
    Runs functions sources [foldPlan (pairPlan (parentById mapping) tm pom pm om)]
      (pairQuads mapping tables tm pom pm om) := by
  cases hparent : om.parentTriplesMap with
  | none => exact runs_scanPlan functions hvalid hcovered htm hpom hpm hom hsources hparent
  | some parentId =>
    obtain ⟨parent, hmem, rfl⟩ := hvalid.parents tm htm pom hpom om hom parentId hparent
    exact runs_joinPlan functions hvalid hcovered htm hpom hpm hom hmem hparent hsources

end Pairs

variable (hsources : sources.Hold tables)
include hsources

theorem runs_classPlan {classIri : IriReference}
    (hclass : classIri ∈ tm.subjectMap.classes) :
    Runs functions sources [foldPlan (classPlan tm (subjectLogic tm) classIri)]
      {q | ∃ row ∈ tables tm.logicalSource, tm.SubjectOf row q.subject ∧ q.obj = .iri classIri ∧
        q.predicate = .iri rdfType ∧ GraphOf tm.subjectMap.graphMaps row q.graph} := by
  let attrs : Attrs N := [(.subject, foldLogic (subjectLogic tm)),
    (.predicate, .constant (.iri rdfType)), (.object, .constant (.iri classIri))]
  have hattrs : ∀ a ∈ attrs, a.2.Valid := by
    intro a ha
    simp only [attrs, List.mem_cons, List.not_mem_nil, or_false] at ha
    rcases ha with rfl | rfl | rfl
    · exact valid_foldLogic (hvalid.subjects tm htm) _ _ _
    · trivial
    · trivial
  refine Runs.congr (Runs.of_plan fun ds hds =>
    emits_scanPlan hsources hds hattrs tm.logicalSource) fun q => ?_
  refine exists_congr fun row => and_congr_right fun hrow => ?_
  have hsubject : attrTerm attrs .subject row = some q.subject ↔ tm.SubjectOf row q.subject :=
    term?_foldLogic_iff (hvalid.subjects tm htm)
      (hcovered.subjects tm htm row hrow (.inl (List.ne_nil_of_mem hclass)))
  have hpredicate : attrTerm attrs .predicate row = some (.iri rdfType) := rfl
  have hobject : attrTerm attrs .object row = some (.iri classIri) := rfl
  have hgraph : attrTerm attrs .graph row = none := rfl
  rw [emitted_iff, hsubject, hpredicate, hobject, hgraph, Option.some.injEq, Option.some.injEq]
  have hdefault (hs : tm.SubjectOf row q.subject) :
      GraphOf tm.subjectMap.graphMaps row q.graph ↔ q.graph = defaultGraphTerm := by
    have hnil : tm.subjectMap.graphMaps = [] := by
      by_contra hne
      exact hcovered.classes tm htm (List.ne_nil_of_mem hclass) hne row hrow q.subject hs
    rw [hnil]
    simp [GraphOf]
  constructor
  · rintro ⟨hs, ho, hp, hg⟩
    exact ⟨hs, hp.symm, ho.symm, (hdefault hs).mp hg⟩
  · rintro ⟨hs, hp, ho, hg⟩
    exact ⟨hs, ho.symm, hp.symm, (hdefault hs).mpr hg⟩

theorem runs_plansOf :
    Runs functions sources (constantFold (plansOf (parentById mapping) tm))
      {q | ∃ row ∈ tables tm.logicalSource, tm.SubjectOf row q.subject ∧
        (PairQuad mapping tables tm row q ∨ ClassQuad tm row q)} := by
  have hpairs := Runs.flatten_map fun pom (hpom : pom ∈ tm.predicateObjectMaps) =>
    Runs.flatten_map fun pm (hpm : pm ∈ pom.predicateMaps) =>
      Runs.map fun om (hom : om ∈ pom.objectMaps) =>
        runs_pairPlan functions hvalid hcovered htm hpom hpm hom hsources
  have hclasses := Runs.map fun classIri (hclass : classIri ∈ tm.subjectMap.classes) =>
    runs_classPlan functions hvalid hcovered htm hsources hclass
  have hplans : constantFold (plansOf (parentById mapping) tm) =
      (tm.predicateObjectMaps.map fun pom => (pom.predicateMaps.map fun pm =>
        pom.objectMaps.map fun om =>
          foldPlan (pairPlan (parentById mapping) tm pom pm om)).flatten).flatten ++
      tm.subjectMap.classes.map fun classIri =>
        foldPlan (classPlan tm (subjectLogic tm) classIri) := by
    simp only [constantFold, plansOf, List.map_append, List.map_flatten, List.map_map,
      List.flatten_flatten, Function.comp_def]
  rw [hplans]
  refine (hpairs.append hclasses).congr fun q => ?_
  constructor
  · intro ⟨row, hrow, hs, hq⟩
    rcases hq with ⟨pom, hpom, ⟨pm, hpm, hp⟩, ⟨om, hom, ho⟩, hg⟩ | ⟨⟨classIri, hclass, ho⟩, hp, hg⟩
    · exact .inl ⟨pom, hpom, pm, hpm, om, hom, row, hrow, hs, hp, ho, hg⟩
    · exact .inr ⟨classIri, hclass, row, hrow, hs, ho, hp, hg⟩
  · intro hq
    rcases hq with ⟨pom, hpom, pm, hpm, om, hom, row, hrow, hs, hp, ho, hg⟩ |
      ⟨classIri, hclass, row, hrow, hs, ho, hp, hg⟩
    · exact ⟨row, hrow, hs, .inl ⟨pom, hpom, ⟨pm, hpm, hp⟩, ⟨om, hom, ho⟩, hg⟩⟩
    · exact ⟨row, hrow, hs, .inr ⟨⟨classIri, hclass, ho⟩, hp, hg⟩⟩

omit htm

end Plans

section Exactness

/-- Executing the mapping succeeds and adds exactly the RML dataset: blank nodes are numbered by
`ρ`, known labels keep their blank node, and new ones get blank nodes of their own. -/
def ExecutesExactly (env : Owl.DebugEnv N) (functions : StringFunctions) (sources : Sources)
    (tables : Tables) (mapping : MappingDocument N) (ds : Datastore N) : Prop :=
  ∃ plans ds', translate env mapping = .ok plans ∧
    execute functions sources (constantFold plans) ds = .ok ds' ∧
    ∃ ρ : String → Nat,
      (∀ q ∈ rmlDataset mapping tables, ∀ q' ∈ rmlDataset mapping tables, ∀ l ∈ q.labels,
        ∀ l' ∈ q'.labels, ρ l = ρ l' → l = l') ∧
      (∀ q ∈ rmlDataset mapping tables, ∀ l ∈ q.labels,
        ds.resources.Names l (ρ l) ∨ ¬ ds.resources.HasBlank (ρ l)) ∧
      ds'.terms = ds.terms ∪ RmlQuad.toQuad ρ '' rmlDataset mapping tables

theorem ready_new : Ready (Datastore.new : Datastore N) := by
  refine ⟨⟨?_, ?_, ?_⟩, ?_⟩
  · intro n hn
    simp [HasBlank, Datastore.new, GraphElementManager.new] at hn
  · intro name id hid
    cases hid
  · intro l l' n hl
    obtain ⟨id, hid, -⟩ := hl
    cases hid
  · intro q hq
    cases hq

def sampleDebug : Owl.DebugEnv NativeTypes.text := ⟨fun _ => false, fun _ => ""⟩

def sampleFunctions : StringFunctions := ⟨id, id, id⟩

def sampleRow : SourceRow := fun _ => some "a"

def oneRow : Tables := fun _ => [sampleRow]

def oneRowSources : Sources := ⟨fun _ => .ok [sampleRow], fun _ _ _ => .ok [(sampleRow, sampleRow)]⟩

theorem oneRowSources_hold : oneRowSources.Hold oneRow := by
  refine ⟨fun _ => rfl, fun child parent c p conditions _ _ _ => ⟨_, rfl, fun pair => ?_⟩⟩
  constructor
  · intro h
    rw [List.mem_singleton.mp h]
    exact ⟨List.mem_singleton_self _, List.mem_singleton_self _, fun _ _ => ⟨"a", rfl, rfl⟩⟩
  · intro ⟨hchild, hparent, _⟩
    have heq : pair = (sampleRow, sampleRow) :=
      Prod.ext (List.mem_singleton.mp hchild) (List.mem_singleton.mp hparent)
    rw [heq]
    exact List.mem_singleton_self _

def constantSubject (classes : List IriReference) (graphMaps : List (GraphMap NativeTypes.text))
    (poms : List (PredicateObjectMap NativeTypes.text)) : MappingDocument NativeTypes.text :=
  ⟨[⟨"tm", ⟨.file "a.csv", .csv, none⟩, ⟨.constant (.iri "urn:s"), .iri, classes, graphMaps⟩,
    poms⟩]⟩

def inGraph : GraphMap NativeTypes.text := ⟨.constant (.iri "urn:g")⟩

/-- A class, and a predicate and an object in a graph. -/
def nameInGraph : MappingDocument NativeTypes.text :=
  constantSubject ["urn:C"] [] [⟨[(.constant (.iri "urn:p"), .iri)],
    [⟨.reference "name", .literal, none, none, none, []⟩], [inGraph]⟩]

theorem nameInGraph_valid : nameInGraph.Valid := by
  constructor <;> simp [nameInGraph, constantSubject, inGraph, TermMap.Valid]

theorem nameInGraph_covered : nameInGraph.Covered oneRow := by
  constructor
  case graphs =>
    refine List.forall_mem_singleton.mpr (List.forall_mem_singleton.mpr ?_)
    refine List.forall_mem_singleton.mpr fun q _ _ _ => ?_
    refine ⟨by simp [inGraph, TermMap.SupportedAt], .inr ?_⟩
    exact ⟨inGraph, [], .iri "urn:g", rfl, .constantIri _, by decide, by simp⟩
  all_goals simp [nameInGraph, constantSubject, inGraph, oneRow, TermMap.SupportedAt]

def classInGraph : MappingDocument NativeTypes.text :=
  constantSubject ["urn:C"] [inGraph] []

theorem classInGraph_valid : classInGraph.Valid := by
  constructor <;> simp [classInGraph, constantSubject, TermMap.Valid]

end Exactness

end RdfDatalog.Rml
