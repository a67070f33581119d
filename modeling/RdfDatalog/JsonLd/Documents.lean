import RdfDatalog.JsonLd.PlainNodes

namespace RdfDatalog.JsonLd

open Endpoint GraphElementManager

variable {N : NativeTypes}

/-- A quad of an RDF dataset, without triple terms. -/
structure DatasetQuad (source : Datastore N) (q : Quad) : Prop extends PlainQuad source q where
  graph : ∃ e text, source.resources.getGraphElement q.tripleId = some e ∧ Plain e ∧
    idText e = some text

/-- A named graph is printed only if it is named by an IRI; where graphs are not told apart, all
are. -/
def GraphPrinted (flatten : Bool) (source : Datastore N) (q : Quad) : Prop :=
  flatten = true ∨ (source.resources.getNamedResource q.tripleId).isSome = true

variable (env : ParserEnv) (printed : PrintedValues N)

def graphIn (flatten : Bool) (source : Datastore N) (q : Quad) : LabelTerm N :=
  if flatten then .iri defaultGraphIri else termOf env printed source q.tripleId

/-- What a document is read as. -/
def readAll (flatten : Bool) (source : Datastore N) : Set (LabelQuad N) :=
  {l | ∃ q ∈ source.namedGraphs, GraphPrinted flatten source q ∧ TypePrinted source q ∧
    l = quadIn env printed source (graphIn env printed flatten source q) q}

variable {env printed} {network : NetworkPolicy} {order : GroupOrder} {source ds : Datastore N}
  {S : Set (LabelQuad N)} {graph : Option GraphElementId} {gt : LabelTerm N}
  {g : GraphElementId} {quads : List Quad}

/-- A step that reads a node object without a context as `Handlers.node` does. -/
def ReadsNode (env : ParserEnv) (network : NetworkPolicy) (graph : Option GraphElementId)
    (levels : Nat) (step : Datastore N → Value → Except String (Datastore N)) : Prop :=
  ∀ ds map, map.lookup "@context" = none → step ds (.object map) =
    ((handlers env levels).node (Context.empty network) graph ds map).map Prod.fst

theorem processWithContext_plain {nested : Handlers N} {map : List (String × Value)}
    (h : map.lookup "@context" = none) :
    processWithContext env nested (Context.empty network) graph ds map =
      nested.node (Context.empty network) graph ds map := by
  rw [processWithContext, h]
  rfl

theorem readsNode_graphItem (levels : Nat) : ReadsNode env network graph levels
    (processGraphItem (N := N) env (handlers env levels) (Context.empty network) graph) := by
  intro ds map h
  rw [processGraphItem, processWithContext_plain h]

theorem readsNode_document (levels : Nat) : ReadsNode env network graph levels
    ((handlers (N := N) env (levels + 1)).document (Context.empty network) graph) := by
  intro ds map h
  change processDocument env (handlers env levels) (Context.empty network) graph ds
    (.object map) = _
  rw [processDocument, processWithContext_plain h]

section Subjects

theorem buildNode_isSome {s : GraphElementId} {e : GraphElement N} {text : String}
    (he : source.resources.getGraphElement s = some e) (ht : idText e = some text) :
    (buildNode printed order source g s quads).isSome = true := by
  rw [buildNode, he, Option.bind_some, ht]
  rfl

theorem read_buildSubjectNodes (hplain : ∀ q ∈ quads, PlainQuad source q) (h : Represents ds S)
    (hg : GraphAt ds.resources graph gt) {levels : Nat}
    {step : Datastore N → Value → Except String (Datastore N)}
    (hstep : ReadsNode env network graph (levels + 3) step) :
    ∃ ds', (buildSubjectNodes printed order source g quads).foldlM step ds = .ok ds' ∧
      Adds ds ds' S (readIn env printed source gt quads) := by
  have hperm := order.subjects_perm g (quads.map Quad.subject).dedup
  have hmem (s : GraphElementId) : s ∈ order.subjects g (quads.map Quad.subject).dedup ↔
      ∃ q ∈ quads, q.subject = s := by
    rw [hperm.mem_iff, List.mem_dedup, List.mem_map]
  rw [buildSubjectNodes]
  generalize order.subjects g (quads.map Quad.subject).dedup = subjects at *
  have helement (s : GraphElementId) (hs : s ∈ subjects) : ∃ e text,
      source.resources.getGraphElement s = some e ∧ Plain e ∧ idText e = some text := by
    obtain ⟨q, hq, rfl⟩ := (hmem s).mp hs
    exact (hplain q hq).subject
  have hnodes : (subjects.filterMap fun s =>
      buildNode printed order source g s (quads.filter fun q => q.subject = s)) =
        subjects.map fun s => (buildNode printed order source g s
          (quads.filter fun q => q.subject = s)).getD .null := by
    rw [← List.filterMap_eq_map]
    refine List.filterMap_congr fun s hs => ?_
    obtain ⟨e, text, he, -, ht⟩ := helement s hs
    obtain ⟨value, hvalue⟩ := Option.isSome_iff_exists.mp
      (@buildNode_isSome N printed order source g (quads.filter fun q => q.subject = s) s e text
        he ht)
    rw [Function.comp_apply, hvalue, Option.getD_some]
  rw [hnodes, List.foldlM_map]
  have hread (s : GraphElementId) (hs : s ∈ subjects) (ds₁ : Datastore N) (S₁ : Set (LabelQuad N))
      (h₁ : Represents ds₁ S₁) (hlabels : ds.resources.Labels ds₁.resources) :
      ∃ ds₂, step ds₁ ((buildNode printed order source g s
          (quads.filter fun q => q.subject = s)).getD .null) = .ok ds₂ ∧
        Adds ds₁ ds₂ S₁ (readIn env printed source gt
          (quads.filter fun q => q.subject = s)) := by
    obtain ⟨e, text, he, hpe, ht⟩ := helement s hs
    obtain ⟨value, hvalue⟩ := Option.isSome_iff_exists.mp
      (@buildNode_isSome N printed order source g (quads.filter fun q => q.subject = s) s e text
        he ht)
    have hfiltered : ∀ q ∈ quads.filter (fun q => q.subject = s), PlainQuad source q :=
      fun q hq => hplain q (List.mem_filter.mp hq).1
    have hsubject : ∀ q ∈ quads.filter (fun q => q.subject = s), q.subject = s :=
      fun q hq => decide_eq_true_iff.mp (List.mem_filter.mp hq).2
    obtain ⟨map, hmap, hcontext, ds₂, id, hnode, hadds⟩ := @node_buildNode N env printed network
      order source ds₁ S₁ graph gt g s _ hfiltered hsubject value hvalue e he hpe h₁
      (hg.mono hlabels) levels
    refine ⟨ds₂, ?_, hadds⟩
    rw [hvalue, Option.getD_some, hmap, hstep ds₁ map hcontext, hnode]
    rfl
  obtain ⟨ds', hfold, hadds⟩ := @Represents.foldlM N ds S _
    (fun ds s => step ds ((buildNode printed order source g s
      (quads.filter fun q => q.subject = s)).getD .null))
    (fun s => readIn env printed source gt (quads.filter fun q => q.subject = s)) subjects
    ds.resources hread h (.refl _)
  refine ⟨ds', hfold, hadds.congr ?_⟩
  ext l
  constructor
  · intro ⟨s, hs, q, hq, hl⟩
    exact ⟨q, (List.mem_filter.mp hq).1, hl⟩
  · intro ⟨q, hq, hl⟩
    refine ⟨q.subject, (hmem _).mpr ⟨q, hq, rfl⟩, q, ?_, hl⟩
    rw [List.mem_filter, decide_eq_true_iff]
    exact ⟨hq, rfl⟩

end Subjects

section Graphs

theorem node_namedGraph (hplain : ∀ q ∈ quads, PlainQuad source q) {iri : String}
    (hiri : HasScheme iri) (h : Represents ds S) (levels : Nat) :
    ∃ map, Value.object (SortedFields.ofEntries [("@id", .string iri),
        ("@graph", .array (buildSubjectNodes printed order source g quads))]) = .object map ∧
      map.lookup "@context" = none ∧
      ∃ ds' id, (handlers env (levels + 4)).node (Context.empty network) none ds map =
          .ok (ds', id) ∧ Adds ds ds' S (readIn env printed source (.iri iri) quads) := by
  have hsorted : SortedFields.ofEntries [("@id", Value.string iri),
      ("@graph", .array (buildSubjectNodes printed order source g quads))] =
        [("@graph", .array (buildSubjectNodes printed order source g quads)),
          ("@id", .string iri)] := by
    have hlt : "@graph" < "@id" := by decide
    simp only [SortedFields.ofEntries, List.foldl_cons, List.foldl_nil, SortedFields.insert,
      if_pos hlt]
  have hpe : Plain (GraphElement.iri iri : GraphElement N) := by
    refine ⟨fun k heq => (by cases heq), fun i heq => ?_⟩
    cases heq
    exact hiri
  have hi := @nodeSubject_interning N env printed network ds (.iri iri) iri h.labelled hpe rfl
  obtain ⟨ds', hfold, hadds⟩ := @read_buildSubjectNodes N env printed network order source _ S
    (some (nodeSubject env ds (Context.empty network) (some iri)).2) (.iri iri) g quads hplain
    (h.interned hi) hi.term levels _ (readsNode_graphItem (levels + 3))
  refine ⟨_, congrArg Value.object hsorted, rfl, ds',
    (nodeSubject env ds (Context.empty network) (some iri)).2, ?_, Adds.after hi hadds⟩
  change processNode env (handlers env (levels + 3)) (Context.empty network) none ds _ = _
  rw [processNode]
  have hid : nodeIdString env (Context.empty network)
      [("@graph", .array (buildSubjectNodes printed order source g quads)),
        ("@id", .string iri)] = some iri := rfl
  rw [hid]
  dsimp only
  rw [typeScoped_empty]
  dsimp only [Option.isSome_some]
  rw [List.foldlM_cons, processField_graph]
  rw [if_pos rfl, hfold]
  rfl

variable (env printed) in
def readFrom (flatten : Bool) (source : Datastore N) (quads : List Quad) : Set (LabelQuad N) :=
  {l | ∃ q ∈ quads, GraphPrinted flatten source q ∧ TypePrinted source q ∧
    l = quadIn env printed source (graphIn env printed flatten source q) q}

theorem readFrom_eq_readIn {flatten : Bool}
    (hgraph : ∀ q ∈ quads, GraphPrinted flatten source q ∧
      graphIn env printed flatten source q = gt) :
    readFrom env printed flatten source quads = readIn env printed source gt quads := by
  ext l
  constructor
  · rintro ⟨q, hq, -, htype, hl⟩
    rw [(hgraph q hq).2] at hl
    exact ⟨q, hq, htype, hl⟩
  · intro ⟨q, hq, htype, hl⟩
    rw [← (hgraph q hq).2] at hl
    exact ⟨q, hq, (hgraph q hq).1, htype, hl⟩

theorem foldlM_flatMap {α β : Type} {step : Datastore N → β → Except String (Datastore N)}
    (f : α → List β) (l : List α) (ds : Datastore N) :
    (l.flatMap f).foldlM step ds = l.foldlM (fun ds i => (f i).foldlM step ds) ds := by
  induction l generalizing ds with
  | nil => rfl
  | cons i l ih =>
    rw [List.flatMap_cons, List.foldlM_append, List.foldlM_cons]
    congr 1
    funext ds'
    exact ih ds'

theorem read_graphNodes {flatten : Bool} (hplain : ∀ q ∈ quads, DatasetQuad source q)
    (hgraph : ∀ q ∈ quads, q.tripleId = g) (hne : quads ≠ []) (h : Represents ds S) {levels : Nat}
    {step : Datastore N → Value → Except String (Datastore N)}
    (hstep : ReadsNode env network none (levels + 4) step) :
    ∃ ds', (graphNodes printed order source flatten g quads).foldlM step ds = .ok ds' ∧
      Adds ds ds' S (readFrom env printed flatten source quads) := by
  have hquads : ∀ q ∈ quads, PlainQuad source q := fun q hq => (hplain q hq).toPlainQuad
  cases flatten with
  | true =>
    rw [@readFrom_eq_readIn N env printed source (.iri defaultGraphIri) quads true
      fun q _ => ⟨.inl rfl, rfl⟩]
    exact read_buildSubjectNodes hquads h (graphAt_none _) hstep
  | false =>
    rw [graphNodes, if_neg Bool.false_ne_true]
    cases hnamed : source.resources.getNamedResource g with
    | none =>
      refine ⟨ds, rfl, h.refl.congr ?_⟩
      ext l
      refine iff_of_false (fun hl => hl.elim) ?_
      rintro ⟨q, hq, hprinted, -⟩
      rcases hprinted with hflat | hsome
      · cases hflat
      · rw [hgraph q hq, hnamed] at hsome
        cases hsome
    | some iri =>
      obtain ⟨q, hq⟩ := List.exists_mem_of_ne_nil _ hne
      obtain ⟨e, text, he, hpe, -⟩ := (hplain q hq).graph
      have hiri : HasScheme iri := by
        rw [hgraph q hq, getNamedResource_eq_some.mp hnamed] at he
        cases he
        exact hpe.2 iri rfl
      have hin : readFrom env printed false source quads =
          readIn env printed source (.iri iri) quads := by
        refine readFrom_eq_readIn fun q hq => ⟨.inr ?_, ?_⟩
        · rw [hgraph q hq, hnamed]
          rfl
        · rw [graphIn, if_neg Bool.false_ne_true, hgraph q hq, termOf_iri hnamed]
      obtain ⟨map, hmap, hcontext, ds', id, hnode, hadds⟩ := @node_namedGraph N env printed network
        order source ds S g quads hquads iri hiri h levels
      refine ⟨ds', ?_, hadds.congr hin.symm⟩
      dsimp only
      rw [hmap, List.foldlM_cons, hstep ds map hcontext, hnode]
      rfl

theorem read_buildAllNodes {flatten : Bool}
    (hplain : ∀ q ∈ source.namedGraphs, DatasetQuad source q)
    (h : Represents ds S) {levels : Nat}
    {step : Datastore N → Value → Except String (Datastore N)}
    (hstep : ReadsNode env network none (levels + 4) step) :
    ∃ ds', (buildAllNodes printed order source flatten).foldlM step ds = .ok ds' ∧
      Adds ds ds' S (readAll env printed flatten source) := by
  have hall (q : Quad) : q ∈ source.namedGraphs.quadsMatching none none none none ↔
      q ∈ source.namedGraphs := by
    rw [QuadStore.mem_quadsMatching]
    exact and_iff_left ⟨nofun, nofun, nofun, nofun⟩
  rw [buildAllNodes]
  generalize source.namedGraphs.quadsMatching none none none none = all at *
  have hplain : ∀ q ∈ all, DatasetQuad source q := fun q hq => hplain q ((hall q).mp hq)
  have hnamedMem {q : Quad} : q ∈ all.filter (fun q => q.tripleId ≠ defaultGraphElementId) ↔
      q ∈ all ∧ q.tripleId ≠ defaultGraphElementId := by
    rw [List.mem_filter, decide_eq_true_iff]
  have hdefaultMem {q : Quad} : q ∈ all.filter (fun q => q.tripleId = defaultGraphElementId) ↔
      q ∈ all ∧ q.tripleId = defaultGraphElementId := by
    rw [List.mem_filter, decide_eq_true_iff]
  generalize all.filter (fun q => q.tripleId ≠ defaultGraphElementId) = named at *
  generalize all.filter (fun q => q.tripleId = defaultGraphElementId) = default at *
  have hperm := order.graphs_perm (named.map Quad.tripleId).dedup
  have hgraphs (g : GraphElementId) : g ∈ order.graphs (named.map Quad.tripleId).dedup ↔
      ∃ q ∈ named, q.tripleId = g := by
    rw [hperm.mem_iff, List.mem_dedup, List.mem_map]
  generalize order.graphs (named.map Quad.tripleId).dedup = graphs at *
  have hfiltered {g : GraphElementId} {q : Quad} :
      q ∈ named.filter (fun q => q.tripleId = g) ↔ q ∈ named ∧ q.tripleId = g := by
    rw [List.mem_filter, decide_eq_true_iff]
  have hread (g : GraphElementId) (hg : g ∈ graphs) (ds₁ : Datastore N) (S₁ : Set (LabelQuad N))
      (h₁ : Represents ds₁ S₁) (_ : ds.resources.Labels ds₁.resources) :
      ∃ ds₂, (graphNodes printed order source flatten g
          (named.filter fun q => q.tripleId = g)).foldlM step ds₁ = .ok ds₂ ∧
        Adds ds₁ ds₂ S₁ (readFrom env printed flatten source
          (named.filter fun q => q.tripleId = g)) := by
    obtain ⟨q, hq, hqg⟩ := (hgraphs g).mp hg
    exact read_graphNodes (fun q hq => hplain q (hnamedMem.mp (hfiltered.mp hq).1).1)
      (fun q hq => (hfiltered.mp hq).2) (List.ne_nil_of_mem (hfiltered.mpr ⟨hq, hqg⟩)) h₁ hstep
  obtain ⟨ds₁, hfirst, hadds⟩ := @read_buildSubjectNodes N env printed network order source ds S
    none (.iri defaultGraphIri) defaultGraphElementId default
    (fun q hq => (hplain q (hdefaultMem.mp hq).1).toPlainQuad) h (graphAt_none _) _ _ hstep
  obtain ⟨ds₂, hrest, hadds'⟩ := Represents.foldlM hread hadds.represents hadds.labels
  refine ⟨ds₂, ?_, (hadds.trans hadds').congr ?_⟩
  · rw [List.foldlM_append, hfirst]
    exact (foldlM_flatMap _ _ _).trans hrest
  · have hdefault : readFrom env printed flatten source default =
        readIn env printed source (.iri defaultGraphIri) default := by
      have hget := source.resources.defaultGraph
      refine readFrom_eq_readIn fun q hq => ⟨.inr ?_, ?_⟩
      · rw [(hdefaultMem.mp hq).2, getNamedResource_eq_some.mpr hget]
        rfl
      · rw [graphIn, (hdefaultMem.mp hq).2,
          termOf_iri (getNamedResource_eq_some.mpr hget), ite_self]
    rw [← hdefault]
    ext l
    constructor
    · rintro (⟨q, hq, hl⟩ | ⟨g, -, q, hq, hl⟩)
      · exact ⟨q, (hall q).mp (hdefaultMem.mp hq).1, hl⟩
      · exact ⟨q, (hall q).mp (hnamedMem.mp (hfiltered.mp hq).1).1, hl⟩
    · intro ⟨q, hq, hl⟩
      have hq := (hall q).mpr hq
      by_cases hid : q.tripleId = defaultGraphElementId
      · exact .inl ⟨q, hdefaultMem.mpr ⟨hq, hid⟩, hl⟩
      · have hmem := hnamedMem.mpr ⟨hq, hid⟩
        exact .inr ⟨q.tripleId, (hgraphs _).mpr ⟨q, hmem, rfl⟩, q, hfiltered.mpr ⟨hmem, rfl⟩, hl⟩

end Graphs

section Document

variable {form : Form}

/-- Whether the nodes of all graphs are put into one. -/
def Form.flattens (form : Form) : Bool := form = .flattened

theorem node_graphOnly {items : List Value} {map : List (String × Value)} (levels : Nat)
    (hmap : map = [("@graph", .array items)] ∨
      map = [("@context", .object []), ("@graph", .array items)]) :
    (handlers env (levels + 2)).document (Context.empty network) none ds (.object map) =
      items.foldlM (processGraphItem env (handlers env levels) (Context.empty network) none)
        (newAnonymousBlankNode ds).1 := by
  have hcontext : extendBy env (Context.empty network) (map.lookup "@context") =
      .ok (Context.empty network) := by
    rcases hmap with rfl | rfl
    · rfl
    · change extend env (Context.empty network) (.object []) = _
      rw [extend]
      rfl
  have hid : nodeIdString env (Context.empty network) map = none := by
    rw [nodeIdString, keywordAlias_empty]
    rcases hmap with rfl | rfl
    · rfl
    · rfl
  have hgraph : [("@graph", Value.array items)].foldlM (processField env (handlers env levels)
      (Context.empty network) none (newAnonymousBlankNode ds).2 false)
        (newAnonymousBlankNode ds).1 =
          items.foldlM (processGraphItem env (handlers env levels) (Context.empty network) none)
            (newAnonymousBlankNode ds).1 := by
    rw [List.foldlM_cons, processField_graph, if_neg Bool.false_ne_true]
    exact bind_pure _
  have hfields : map.foldlM (processField env (handlers env levels) (Context.empty network) none
      (newAnonymousBlankNode ds).2 false) (newAnonymousBlankNode ds).1 =
        items.foldlM (processGraphItem env (handlers env levels) (Context.empty network) none)
          (newAnonymousBlankNode ds).1 := by
    rcases hmap with rfl | rfl
    · exact hgraph
    · rw [List.foldlM_cons, processField_skip (.inr rfl)]
      exact hgraph
  change processDocument env (handlers env (levels + 1)) (Context.empty network) none ds
    (.object map) = _
  rw [processDocument, processWithContext, hcontext]
  change (processNode env (handlers env levels) (Context.empty network) none ds map).map
    Prod.fst = _
  rw [processNode, hid]
  dsimp only [nodeSubject]
  rw [typeScoped_empty]
  dsimp only [Option.isSome_none]
  rw [hfields]
  cases items.foldlM (processGraphItem env (handlers env levels) (Context.empty network) none)
    (newAnonymousBlankNode ds).1 with
  | error e => rfl
  | ok ds' => rfl

theorem levels_document : ∃ levels, (document printed order source form).levels = levels + 6 := by
  cases form with
  | compacted | expanded | flattened => exact ⟨_, Nat.mul_add 3 _ 2⟩

theorem parse_serialize (hplain : ∀ q ∈ source.namedGraphs, DatasetQuad source q)
    (hparse : env.parse (env.print (document printed order source form)) =
      .ok (document printed order source form)) :
    ∃ ds, parseJsonld env network .new (serialize printed order source env form) = .ok ds ∧
      Represents ds (readAll env printed form.flattens source) := by
  have hnew : Represents (Datastore.new : Datastore N) ∅ := represents_new
  have hblank := (hnew.newAnonymousBlankNode).1
  obtain ⟨levels, hlevels⟩ := @levels_document N printed order source form
  have hrun : parseJsonld env network (Datastore.new : Datastore N)
      (serialize printed order source env form) =
        (handlers env (levels + 6)).document (Context.empty network) none .new
          (document printed order source form) := by
    rw [parseJsonld, serialize, hparse, ← hlevels]
  have hitems : ∃ ds, (buildAllNodes printed order source form.flattens).foldlM
      (processGraphItem env (handlers env (levels + 4)) (Context.empty network) none)
      (newAnonymousBlankNode Datastore.new).1 = .ok ds ∧
        Represents ds (readAll env printed form.flattens source) := by
    obtain ⟨ds, hfold, hadds⟩ := @read_buildAllNodes N env printed network order source _ ∅
      form.flattens hplain hblank levels _ (readsNode_graphItem (levels + 4))
    refine ⟨ds, hfold, ?_⟩
    have hrep := hadds.represents
    rw [Set.empty_union] at hrep
    exact hrep
  rw [hrun]
  cases form with
  | compacted =>
    have hdocument : document printed order source .compacted = .object
        [("@context", .object []),
          ("@graph", .array (buildAllNodes printed order source false))] := by
      have hlt : ¬ "@graph" < "@context" := by decide
      have hne : ¬ "@graph" = "@context" := by decide
      simp only [document, SortedFields.ofEntries, List.foldl_cons, List.foldl_nil,
        SortedFields.insert, if_neg hlt, if_neg hne]
    rw [hdocument, node_graphOnly (levels + 4) (.inr rfl)]
    exact hitems
  | flattened =>
    rw [document, node_graphOnly (levels + 4) (.inl rfl)]
    exact hitems
  | expanded =>
    obtain ⟨ds, hfold, hadds⟩ := @read_buildAllNodes N env printed network order source _ ∅
      false hplain hnew levels _ (readsNode_document (levels + 4))
    have hrep := hadds.represents
    rw [Set.empty_union] at hrep
    exact ⟨ds, hfold, hrep⟩

end Document

end RdfDatalog.JsonLd
