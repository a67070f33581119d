import RdfDatalog.Endpoint.TermRepr
import RdfDatalog.Endpoint.PendingView

namespace RdfDatalog.Endpoint

open GraphElementManager

variable {N : NativeTypes}

/-! Terms and quads as the TriG parser library hands them over. -/

inductive NamedOrBlankNode where
  | namedNode (iri : String)
  | blankNode (name : String)

inductive OxTerm where
  | namedNode (iri : String)
  | blankNode (name : String)
  | literal (lit : OxLiteral)
  | triple (subject : NamedOrBlankNode) (predicate : String) (object : OxTerm)

inductive GraphName where
  | defaultGraph
  | namedNode (iri : String)
  | blankNode (name : String)

structure OxQuad where
  subject : NamedOrBlankNode
  predicate : String
  object : OxTerm
  graphName : GraphName

def internNamedNode (ds : Datastore N) (iri : String) : Datastore N × GraphElementId :=
  ds.addResource (.iri iri)

def internBlankNode (ds : Datastore N) (name : String) : Datastore N × GraphElementId :=
  let (resources, id) := ds.resources.getOrCreateNamedAnonResource name
  ({ ds with resources }, id)

def internSubject (ds : Datastore N) : NamedOrBlankNode → Datastore N × GraphElementId
  | .namedNode iri => internNamedNode ds iri
  | .blankNode name => internBlankNode ds name

/-- Intern an embedded triple; its row among the reified triples is left out. -/
def addTripleTerm (ds : Datastore N) (subject predicate obj : GraphElementId) :
    Datastore N × GraphElementId :=
  ds.addResource (.tripleTerm ⟨subject, predicate, obj⟩)

def internTerm (ds : Datastore N) : OxTerm → Datastore N × Option GraphElementId
  | .namedNode iri =>
    let (ds, id) := internNamedNode ds iri
    (ds, some id)
  | .blankNode name =>
    let (ds, id) := internBlankNode ds name
    (ds, some id)
  | .literal lit =>
    let (ds, id) := ds.addResource (.graphLiteral (convertLiteral lit))
    (ds, some id)
  | .triple subject predicate object =>
    let (ds, s) := internSubject ds subject
    let (ds, p) := internNamedNode ds predicate
    let (ds, o) := internTerm ds object
    match o with
    | none => (ds, none)
    | some o =>
      let (ds, id) := addTripleTerm ds s p o
      (ds, some id)

def internGraphName (ds : Datastore N) : GraphName → Datastore N × GraphElementId
  | .defaultGraph => (ds, defaultGraphElementId)
  | .namedNode iri => internNamedNode ds iri
  | .blankNode name => internBlankNode ds name

/-- Add the quad once its object is interned; without an object it is skipped. -/
def addParsed (subject predicate : GraphElementId) (graphName : GraphName) :
    Datastore N × Option GraphElementId → Datastore N
  | (ds, none) => ds
  | (ds, some obj) =>
    let (ds, graphId) := internGraphName ds graphName
    ds.addQuad ⟨graphId, subject, predicate, obj⟩

def addOxQuad (ds : Datastore N) (quad : OxQuad) : Datastore N :=
  let (ds, subject) := internSubject ds quad.subject
  let (ds, predicate) := internNamedNode ds quad.predicate
  addParsed subject predicate quad.graphName (internTerm ds quad.object)

def parseTrig (trigParser : String → Except String (List OxQuad)) (ds : Datastore N)
    (body : String) : Except String (Datastore N) :=
  (trigParser body).map fun quads => quads.foldl addOxQuad ds

def trimEnd (s : String) : String :=
  String.ofList (s.toList.reverse.dropWhile isWhitespace).reverse

def ensureTrailingDot (content : String) : String :=
  let t := trimEnd content
  match t.toList.getLast? with
  | some '.' => content
  | some '}' => content
  | _ => t ++ " ."

def prefixLine (e : Sigma fun _ : String => String) : String :=
  "@prefix " ++ e.1 ++ ": <" ++ e.2 ++ "> .\n"

/-- The body of a data block, seeded with the prefixes of the request. -/
def dataBody (content : String) (prefixes : AList (fun _ : String => String)) : String :=
  prefixes.entries.foldl (fun body e => body ++ prefixLine e) "" ++ ensureTrailingDot content

def parseTurtleContent (trigParser : String → Except String (List OxQuad)) (content : String)
    (prefixes : AList (fun _ : String => String)) : Except String (Datastore N) :=
  match parseTrig trigParser Datastore.new (dataBody content prefixes) with
  | .ok tmp => .ok tmp
  | .error e => .error ("parse error: " ++ e)

/-- No blank node and no embedded triple. -/
def OxQuad.Plain (quad : OxQuad) : Prop :=
  (∃ s, quad.subject = .namedNode s) ∧
  ((∃ o, quad.object = .namedNode o) ∨ ∃ lit, quad.object = .literal lit) ∧
  (quad.graphName = .defaultGraph ∨ ∃ g, quad.graphName = .namedNode g)

/-- A quad whose graph is an IRI and whose terms the changelog can record. -/
structure Recordable (r : QuadResource N) : Prop where
  graph : ∃ iri, r.graph = .iri iri
  subject : parserForm r.subject
  predicate : parserForm r.predicate
  obj : parserForm r.obj

/-- Interned ids, and recordable quads only. -/
def RecordableStore (ds : Datastore N) : Prop :=
  ∀ q ∈ ds.namedGraphs, ∃ r, ds.resources.getResourceQuad q = some r ∧ Recordable r

variable {ds : Datastore N}

theorem RecordableStore.interned (h : RecordableStore ds) : ds.Interned := by
  intro q hq
  obtain ⟨r, hr, -⟩ := h q hq
  exact Interned.of_eq_some hr

theorem recordableStore_new : RecordableStore (Datastore.new : Datastore N) := by
  intro q hq
  exact absurd hq (QuadStore.not_mem_new q)

theorem RecordableStore.addResource (h : RecordableStore ds) (e : GraphElement N) :
    RecordableStore (ds.addResource e).1 := by
  intro q hq
  obtain ⟨r, hr, hrec⟩ := h q hq
  exact ⟨r, (ds.addResource_extends e).getResourceQuad hr, hrec⟩

theorem RecordableStore.addQuad (h : RecordableStore ds) {q : Quad} {r : QuadResource N}
    (hr : ds.resources.getResourceQuad q = some r) (hrec : Recordable r) :
    RecordableStore (ds.addQuad q) := by
  intro q' hq'
  change q' ∈ ds.namedGraphs.addQuad q at hq'
  rw [QuadStore.mem_addQuad] at hq'
  cases hq' with
  | inl hq' => exact h q' hq'
  | inr hq' => exact ⟨r, hq' ▸ hr, hrec⟩

theorem internTerm_plain (ds : Datastore N) {object : OxTerm}
    (h : (∃ o, object = .namedNode o) ∨ ∃ lit, object = .literal lit) :
    ∃ e : GraphElement N, parserForm e ∧
      internTerm ds object = ((ds.addResource e).1, some (ds.addResource e).2) := by
  cases h with
  | inl h =>
    obtain ⟨o, rfl⟩ := h
    exact ⟨.iri o, rfl, rfl⟩
  | inr h =>
    obtain ⟨lit, rfl⟩ := h
    refine ⟨.graphLiteral (convertLiteral lit), ?_, rfl⟩
    simp [parserForm, convertLiteral_isNative]

theorem internGraphName_plain (ds : Datastore N) {graphName : GraphName}
    (h : graphName = .defaultGraph ∨ ∃ g, graphName = .namedNode g) :
    ∃ iri, (internGraphName ds graphName).1.resources.getGraphElement
        (internGraphName ds graphName).2 = some (.iri iri) ∧
      ds.resources.Extends (internGraphName ds graphName).1.resources ∧
      (RecordableStore ds → RecordableStore (internGraphName ds graphName).1) := by
  cases h with
  | inl h =>
    subst h
    exact ⟨defaultGraphIri, ds.resources.defaultGraph, Extends.refl _, id⟩
  | inr h =>
    obtain ⟨g, rfl⟩ := h
    exact ⟨g, ds.addResource_get (.iri g), ds.addResource_extends (.iri g),
      fun hs => hs.addResource (.iri g)⟩

theorem RecordableStore.addOxQuad (h : RecordableStore ds) {quad : OxQuad} (hquad : quad.Plain) :
    RecordableStore (addOxQuad ds quad) := by
  obtain ⟨⟨s, hs⟩, ho, hg⟩ := hquad
  let ds₁ := (ds.addResource (.iri s)).1
  let ds₂ := (ds₁.addResource (.iri quad.predicate)).1
  obtain ⟨e, he, hterm⟩ := internTerm_plain ds₂ ho
  let ds₃ := (ds₂.addResource e).1
  obtain ⟨iri, hget, hext, hkeep⟩ := internGraphName_plain ds₃ hg
  have hds₃ : RecordableStore ds₃ :=
    ((h.addResource (.iri s)).addResource (.iri quad.predicate)).addResource e
  have hs₂ := ds₁.addResource_extends (.iri quad.predicate)
  have hs₃ := ds₂.addResource_extends e
  have heq : Endpoint.addOxQuad ds quad =
      (internGraphName ds₃ quad.graphName).1.addQuad
        ⟨(internGraphName ds₃ quad.graphName).2, (ds.addResource (.iri s)).2,
          (ds₁.addResource (.iri quad.predicate)).2, (ds₂.addResource e).2⟩ := by
    unfold Endpoint.addOxQuad
    rw [hs]
    change addParsed _ _ quad.graphName (internTerm ds₂ quad.object) = _
    rw [hterm]
    rfl
  rw [heq]
  refine (hkeep hds₃).addQuad (r := ⟨.iri iri, .iri s, .iri quad.predicate, e⟩) ?_
    ⟨⟨iri, rfl⟩, rfl, rfl, he⟩
  refine getResourceQuad_eq_some.mpr ⟨hget, ?_, ?_, ?_⟩
  · exact (hs₂.trans (hs₃.trans hext)).getGraphElement (ds.addResource_get (.iri s))
  · exact (hs₃.trans hext).getGraphElement (ds₁.addResource_get (.iri quad.predicate))
  · exact hext.getGraphElement (ds₂.addResource_get e)

theorem RecordableStore.foldl_addOxQuad (h : RecordableStore ds) {quads : List OxQuad}
    (hquads : ∀ quad ∈ quads, quad.Plain) :
    RecordableStore (quads.foldl Endpoint.addOxQuad ds) := by
  induction quads generalizing ds with
  | nil => exact h
  | cons quad quads ih =>
    exact ih (h.addOxQuad (hquads quad List.mem_cons_self))
      fun q hq => hquads q (List.mem_cons_of_mem _ hq)

theorem parseTurtleContent_recordable {trigParser : String → Except String (List OxQuad)}
    {content : String} {prefixes : AList (fun _ : String => String)} {tmp : Datastore N}
    (hplain : ∀ quads, trigParser (dataBody content prefixes) = .ok quads →
      ∀ quad ∈ quads, quad.Plain)
    (h : parseTurtleContent trigParser content prefixes = .ok tmp) : RecordableStore tmp := by
  unfold parseTurtleContent parseTrig at h
  cases hp : trigParser (dataBody content prefixes) with
  | error e => simp [hp, Except.map] at h
  | ok quads =>
    rw [hp] at h
    obtain rfl := Except.ok.inj h
    exact recordableStore_new.foldl_addOxQuad (hplain quads hp)

section Interned

/-- Interned ids only, among the quads and among the names of blank nodes. -/
structure ParsedStore (ds : Datastore N) : Prop where
  quads : ds.Interned
  names : ∀ name id, ds.resources.anonResourceMap.lookup name = some id →
    ∃ e, ds.resources.getGraphElement id = some e

structure Interns (ds ds' : Datastore N) (id : GraphElementId) : Prop where
  extended : ds.resources.Extends ds'.resources
  parsed : ParsedStore ds'
  element : ∃ e, ds'.resources.getGraphElement id = some e

theorem parsedStore_new : ParsedStore (Datastore.new : Datastore N) :=
  ⟨recordableStore_new.interned, nofun⟩

variable {ds : Datastore N}

variable (h : ParsedStore ds)

include h in
theorem ParsedStore.extends {ds' : Datastore N}
    (hgraphs : ds'.namedGraphs = ds.namedGraphs) (hext : ds.resources.Extends ds'.resources)
    (hnames : ds'.resources.anonResourceMap = ds.resources.anonResourceMap) : ParsedStore ds' := by
  refine ⟨h.quads.extends hgraphs hext, fun name id hlookup => ?_⟩
  rw [hnames] at hlookup
  obtain ⟨e, he⟩ := h.names name id hlookup
  exact ⟨e, hext.getGraphElement he⟩

theorem addResource_anonResourceMap (m : GraphElementManager N) (e : GraphElement N) :
    (m.addResource e).1.anonResourceMap = m.anonResourceMap := by
  rw [addResource]
  split
  · rfl
  · rfl

include h

theorem ParsedStore.internElement (e : GraphElement N) :
    Interns ds (ds.addResource e).1 (ds.addResource e).2 :=
  ⟨ds.addResource_extends e,
    h.extends rfl (ds.addResource_extends e) (addResource_anonResourceMap ds.resources e),
    e, ds.addResource_get e⟩

theorem ParsedStore.internBlankNode (name : String) :
    Interns ds (internBlankNode ds name).1 (internBlankNode ds name).2 := by
  rw [Endpoint.internBlankNode, getOrCreateNamedAnonResource]
  cases hlookup : ds.resources.anonResourceMap.lookup name with
  | some id => exact ⟨Extends.refl _, h, h.names name id hlookup⟩
  | none =>
    let m : GraphElementManager N :=
      { ds.resources with anonResourceCount := ds.resources.anonResourceCount + 1 }
    let e : GraphElement N := .nodeOrEdge (.anonymousBlankNode m.anonResourceCount)
    have hext : ds.resources.Extends (m.addResource e).1 := m.addResource_extends e
    have hget : (m.addResource e).1.getGraphElement (m.addResource e).2 = some e :=
      m.addResource_get e
    refine ⟨hext, ⟨fun q hq => (h.quads q hq).extends hext, fun name' id hname => ?_⟩, e, hget⟩
    change ((m.addResource e).1.anonResourceMap.insert name (m.addResource e).2).lookup name' =
      some id at hname
    by_cases heq : name' = name
    · rw [heq, AList.lookup_insert] at hname
      cases hname
      exact ⟨e, hget⟩
    · rw [AList.lookup_insert_ne heq, addResource_anonResourceMap] at hname
      obtain ⟨e', he'⟩ := h.names name' id hname
      exact ⟨e', hext.getGraphElement he'⟩

theorem ParsedStore.internSubject (subject : NamedOrBlankNode) :
    Interns ds (internSubject ds subject).1 (internSubject ds subject).2 := by
  cases subject with
  | namedNode iri => exact h.internElement (.iri iri)
  | blankNode name => exact h.internBlankNode name

theorem ParsedStore.internTerm (term : OxTerm) :
    ∃ id, (internTerm ds term).2 = some id ∧ Interns ds (internTerm ds term).1 id := by
  induction term generalizing ds with
  | namedNode iri => exact ⟨_, rfl, h.internElement (.iri iri)⟩
  | blankNode name => exact ⟨_, rfl, h.internBlankNode name⟩
  | literal lit => exact ⟨_, rfl, h.internElement _⟩
  | triple subject predicate object ih =>
    have hs := h.internSubject subject
    have hp := hs.parsed.internElement (.iri predicate)
    obtain ⟨o, ho, hobject⟩ := ih hp.parsed
    rw [Endpoint.internTerm]
    dsimp only [internNamedNode]
    rw [ho]
    have hterm := hobject.parsed.internElement
      (.tripleTerm ⟨(Endpoint.internSubject ds subject).2,
        ((Endpoint.internSubject ds subject).1.addResource (.iri predicate)).2, o⟩)
    exact ⟨_, rfl, (hs.extended.trans (hp.extended.trans hobject.extended)).trans hterm.extended,
      hterm.parsed, hterm.element⟩

theorem ParsedStore.internGraphName (graphName : GraphName) :
    Interns ds (internGraphName ds graphName).1 (internGraphName ds graphName).2 := by
  cases graphName with
  | defaultGraph => exact ⟨Extends.refl _, h, _, ds.resources.defaultGraph⟩
  | namedNode iri => exact h.internElement (.iri iri)
  | blankNode name => exact h.internBlankNode name

theorem ParsedStore.addOxQuad (quad : OxQuad) :
    ParsedStore (addOxQuad ds quad) := by
  have hs := h.internSubject quad.subject
  have hp := hs.parsed.internElement (.iri quad.predicate)
  obtain ⟨o, ho, hobject⟩ := hp.parsed.internTerm quad.object
  have hg := hobject.parsed.internGraphName quad.graphName
  obtain ⟨ge, hge⟩ := hg.element
  obtain ⟨se, hse⟩ := hs.element
  obtain ⟨pe, hpe⟩ := hp.element
  obtain ⟨oe, hoe⟩ := hobject.element
  rw [Endpoint.addOxQuad]
  dsimp only [internNamedNode]
  generalize hterm : Endpoint.internTerm _ quad.object = interned at ho hobject hg hge hoe
  obtain ⟨ds₃, object⟩ := interned
  dsimp only at ho hobject hg hge hoe
  subst ho
  have hquad : (Endpoint.internGraphName ds₃ quad.graphName).1.resources.getResourceQuad
      ⟨(Endpoint.internGraphName ds₃ quad.graphName).2, _, _, o⟩ = some ⟨ge, se, pe, oe⟩ :=
    getResourceQuad_eq_some.mpr ⟨hge,
      (hp.extended.trans (hobject.extended.trans hg.extended)).getGraphElement hse,
      (hobject.extended.trans hg.extended).getGraphElement hpe,
      hg.extended.getGraphElement hoe⟩
  exact ⟨hg.parsed.quads.addQuad hquad, hg.parsed.names⟩

omit h

theorem parseTurtleContent_interned {trigParser : String → Except String (List OxQuad)}
    {content : String} {prefixes : AList (fun _ : String => String)} {tmp : Datastore N}
    (h : parseTurtleContent trigParser content prefixes = .ok tmp) : tmp.Interned := by
  have hfold (quads : List OxQuad) {ds : Datastore N} (hds : ParsedStore ds) :
      ParsedStore (quads.foldl Endpoint.addOxQuad ds) := by
    induction quads generalizing ds with
    | nil => exact hds
    | cons quad quads ih => exact ih (hds.addOxQuad quad)
  rw [parseTurtleContent, parseTrig] at h
  cases hp : trigParser (dataBody content prefixes) with
  | error e =>
    rw [hp] at h
    cases h
  | ok quads =>
    rw [hp] at h
    obtain rfl := Except.ok.inj h
    exact (hfold quads parsedStore_new).quads

end Interned

end RdfDatalog.Endpoint
