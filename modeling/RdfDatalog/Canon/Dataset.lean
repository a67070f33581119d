import RdfDatalog.Math.Labels
import RdfDatalog.Math.Numerals
import RdfDatalog.Store.FreshNodes

namespace RdfDatalog.Canon

/-- An RDF term over the blank nodes `β`. -/
inductive Node (β : Type) where
  | iri (i : IriReference)
  | blank (b : β)
  | literal (l : OxLiteral)
  | triple (subject predicate obj : Node β)

namespace Node

variable {α β γ : Type}

def map (f : α → β) : Node α → Node β
  | iri i => iri i
  | blank b => blank (f b)
  | literal l => literal l
  | triple s p o => triple (s.map f) (p.map f) (o.map f)

def labels : Node α → Set α
  | iri _ | literal _ => ∅
  | blank b => {b}
  | triple s p o => s.labels ∪ p.labels ∪ o.labels

def isIri : Node α → Bool
  | iri _ => true
  | _ => false

def isResource : Node α → Bool
  | iri _ | blank _ => true
  | _ => false

def isTriple : Node α → Bool
  | triple _ _ _ => true
  | _ => false

theorem map_congr {f g : α → β} {t : Node α} (h : ∀ a ∈ t.labels, f a = g a) :
    t.map f = t.map g := by
  induction t with
  | iri i => rfl
  | blank b => rw [map, map, h b rfl]
  | literal l => rfl
  | triple s p o hs hp ho =>
    rw [map, map, hs fun a ha => h a (.inl (.inl ha)), hp fun a ha => h a (.inl (.inr ha)),
      ho fun a ha => h a (.inr ha)]

theorem map_id (t : Node α) : t.map id = t := by
  induction t with
  | triple s p o hs hp ho => rw [map, hs, hp, ho]
  | _ => rfl

theorem map_map (g : β → γ) (f : α → β) (t : Node α) : (t.map f).map g = t.map (g ∘ f) := by
  induction t with
  | triple s p o hs hp ho => rw [map, map, map, hs, hp, ho]
  | _ => rfl

variable (f : α → β)

theorem labels_map (t : Node α) : (t.map f).labels = f '' t.labels := by
  induction t with
  | iri | literal => exact (Set.image_empty f).symm
  | blank b => exact Set.image_singleton.symm
  | triple s p o hs hp ho =>
    rw [map, labels, labels, hs, hp, ho, Set.image_union, Set.image_union]

@[simp] theorem isIri_map (t : Node α) : (t.map f).isIri = t.isIri := by
  cases t <;> rfl

@[simp] theorem isResource_map (t : Node α) :
    (t.map f).isResource = t.isResource := by
  cases t <;> rfl

@[simp] theorem isTriple_map (t : Node α) : (t.map f).isTriple = t.isTriple := by
  cases t <;> rfl

end Node

/-- A triple in a graph; without a graph name it is in the default graph. -/
structure Statement (β : Type) where
  graph : Option (Node β)
  subject : Node β
  predicate : Node β
  obj : Node β

namespace Statement

variable {α β : Type}

/-- The blank nodes that name the graph. -/
def graphLabels (q : Statement α) : Set α :=
  match q.graph with
  | none => ∅
  | some g => g.labels

def nodeLabels (q : Statement α) : Set α := q.subject.labels ∪ q.predicate.labels ∪ q.obj.labels

/-- Rename graph names and nodes, each their own way. -/
def mapPositions (f g : α → β) (q : Statement α) : Statement β :=
  ⟨q.graph.map (Node.map g), q.subject.map f, q.predicate.map f, q.obj.map f⟩

theorem mapPositions_congr {f g f' g' : α → β} {q : Statement α}
    (hnode : ∀ a ∈ q.nodeLabels, f a = f' a) (hgraph : ∀ a ∈ q.graphLabels, g a = g' a) :
    q.mapPositions f g = q.mapPositions f' g' := by
  have hname : q.graph.map (Node.map g) = q.graph.map (Node.map g') := by
    rw [graphLabels] at hgraph
    cases hq : q.graph with
    | none => rfl
    | some name =>
      rw [hq] at hgraph
      exact congrArg some (Node.map_congr hgraph)
  rw [mapPositions, mapPositions, hname, Node.map_congr fun a ha => hnode a (.inl (.inl ha)),
    Node.map_congr fun a ha => hnode a (.inl (.inr ha)),
    Node.map_congr fun a ha => hnode a (.inr ha)]

theorem mapPositions_mapPositions {γ : Type} (f' g' : β → γ) (f g : α → β) (q : Statement α) :
    (q.mapPositions f g).mapPositions f' g' = q.mapPositions (f' ∘ f) (g' ∘ g) := by
  have hname : (q.graph.map (Node.map g)).map (Node.map g') = q.graph.map (Node.map (g' ∘ g)) := by
    cases q.graph with
    | none => rfl
    | some name => exact congrArg some (Node.map_map g' g name)
  rw [mapPositions, mapPositions, mapPositions, hname, Node.map_map, Node.map_map, Node.map_map]

theorem graphLabels_mapPositions (f g : α → β) (q : Statement α) :
    (q.mapPositions f g).graphLabels = g '' q.graphLabels := by
  cases q with
  | mk graph s p o =>
    cases graph with
    | none => exact (Set.image_empty g).symm
    | some name => exact Node.labels_map g name

theorem nodeLabels_mapPositions (f g : α → β) (q : Statement α) :
    (q.mapPositions f g).nodeLabels = f '' q.nodeLabels := by
  rw [nodeLabels, nodeLabels, Set.image_union, Set.image_union, mapPositions, Node.labels_map,
    Node.labels_map, Node.labels_map]

instance : Labelled Statement where
  map f q := q.mapPositions f f
  labels q := q.graphLabels ∪ q.nodeLabels
  map_congr h := mapPositions_congr (fun a ha => h a (.inr ha)) fun a ha => h a (.inl ha)
  map_id q := by
    cases q with
    | mk graph s p o => cases graph <;> simp only [mapPositions, Option.map, Node.map_id]
  map_map g f q := mapPositions_mapPositions g g f f q
  labels_map f q := by
    rw [graphLabels_mapPositions, nodeLabels_mapPositions, Set.image_union]

theorem map_eq (f : α → β) (q : Statement α) : Labelled.map f q = q.mapPositions f f := rfl

theorem labels_eq (q : Statement α) : Labelled.labels q = q.graphLabels ∪ q.nodeLabels := rfl

/-- A quad of RDF 1.1. -/
structure IsRdf11 (q : Statement α) : Prop where
  graph : ∀ g ∈ q.graph, g.isResource = true
  subject : q.subject.isResource = true
  predicate : q.predicate.isIri = true
  obj : q.obj.isTriple = false

theorem IsRdf11.mapPositions {f g : α → β} {q : Statement α} (h : q.IsRdf11) :
    (q.mapPositions f g).IsRdf11 := by
  constructor
  · intro n hn
    obtain ⟨name, hname, hn⟩ := Option.mem_map.mp hn
    rw [← hn, Node.isResource_map]
    exact h.graph name hname
  · exact (Node.isResource_map f _).trans h.subject
  · exact (Node.isIri_map f _).trans h.predicate
  · exact (Node.isTriple_map f _).trans h.obj

end Statement

end RdfDatalog.Canon

namespace RdfDatalog.Canon

variable {N : NativeTypes}

def rdfLangString : IriReference := "http://www.w3.org/1999/02/22-rdf-syntax-ns#langString"

/-- A point in time by the calendar; a leap second is second 60. -/
structure CivilTime where
  year : Int
  month : Nat
  day : Nat
  hour : Nat
  minute : Nat
  second : Nat
  nano : Fin 1000000000
  deriving DecidableEq

/-- `%Y` -/
def yearDigits (year : Int) : List Char :=
  if 0 ≤ year ∧ year ≤ 9999 then Numerals.padded 4 year.natAbs
  else (if year < 0 then '-' else '+') :: Numerals.padded 4 year.natAbs

/-- `%.f`: as few of 3, 6 and 9 digits as hold all of it. -/
def fractionDigits (nanos : Nat) : List Char :=
  if nanos = 0 then []
  else if nanos % 1000000 = 0 then '.' :: Numerals.padded 3 (nanos / 1000000)
  else if nanos % 1000 = 0 then '.' :: Numerals.padded 6 (nanos / 1000)
  else '.' :: Numerals.padded 9 nanos

/-- `dt.format("%Y-%m-%dT%H:%M:%S%.fZ")` -/
def dateTimeFormat (dt : CivilTime) : String :=
  String.ofList (yearDigits dt.year ++ '-' :: (Numerals.padded 2 dt.month ++ '-' ::
    (Numerals.padded 2 dt.day ++ 'T' :: (Numerals.padded 2 dt.hour ++ ':' ::
      (Numerals.padded 2 dt.minute ++ ':' :: (Numerals.padded 2 dt.second ++
        (fractionDigits dt.nano ++ ['Z'])))))))

/-- What the conversion takes from the date and language-tag libraries. -/
structure OxrdfEnv (N : NativeTypes) where
  civil : N.DateTime → CivilTime
  numSeconds : N.Duration → Int
  subsecNanos : N.Duration → Int
  /-- A well-formed language tag as the library keeps it. -/
  parseLanguageTag : String → Option String

inductive NamedOrBlankNode where
  | namedNode (iri : IriReference)
  | blankNode (label : String)
  deriving DecidableEq

inductive Term where
  | namedNode (iri : IriReference)
  | blankNode (label : String)
  | literal (l : OxLiteral)
  deriving DecidableEq

inductive GraphName where
  | namedNode (iri : IriReference)
  | blankNode (label : String)
  | defaultGraph
  deriving DecidableEq

structure OxQuad where
  subject : NamedOrBlankNode
  predicate : IriReference
  obj : Term
  graphName : GraphName
  deriving DecidableEq

def newSimpleLiteral (value : String) : OxLiteral := ⟨value, none, xsdString⟩

def newTypedLiteral (value : String) (datatype : IriReference) : OxLiteral :=
  ⟨value, none, datatype⟩

def newLanguageTaggedLiteral (env : OxrdfEnv N) (value language : String) : Option OxLiteral :=
  (env.parseLanguageTag language).map fun tag => ⟨value, some tag, rdfLangString⟩

def blankLabel (id : Nat) : String := "b" ++ toString id

def graphBlankLabel (id : Nat) : String := "bg" ++ toString id

def resourceToSubject : RdfResource → NamedOrBlankNode
  | .iri iri => .namedNode iri
  | .anonymousBlankNode id => .blankNode (blankLabel id)

def resourceToTerm : RdfResource → Term
  | .iri iri => .namedNode iri
  | .anonymousBlankNode id => .blankNode (blankLabel id)

def resourceToPredicate : RdfResource → Option IriReference
  | .iri iri => some iri
  | .anonymousBlankNode _ => none

def durationText (negative : Bool) (totalSecs : Nat) (fraction : String) : String :=
  (if negative then "-" else "") ++ "P" ++ toString (totalSecs / 86400) ++ "DT" ++
    toString (totalSecs % 86400 / 3600) ++ "H" ++ toString (totalSecs % 3600 / 60) ++ "M" ++
    toString (totalSecs % 60) ++ fraction ++ "S"

def literalToOxrdf (env : OxrdfEnv N) : RdfLiteral N → OxLiteral
  | .literalString s => newSimpleLiteral s
  | .langLiteral lang literal =>
    (newLanguageTaggedLiteral env literal lang).getD (newSimpleLiteral literal)
  | .typedLiteral typeIri literal => newTypedLiteral literal typeIri
  | .booleanLiteral b => newTypedLiteral (if b then "true" else "false") xsdBoolean
  | .integerLiteral i => newTypedLiteral (toString i) xsdInteger
  | .decimalLiteral d => newTypedLiteral (N.decimalText d) xsdDecimal
  | .floatLiteral f => newTypedLiteral (N.floatText f) xsdFloat
  | .doubleLiteral f => newTypedLiteral (N.floatText f) xsdDouble
  | .dateTimeLiteral dt => newTypedLiteral (dateTimeFormat (env.civil dt)) xsdDateTime
  | .dateLiteral d => newTypedLiteral (N.dateText d) xsdDate
  | .timeLiteral t => newTypedLiteral (N.timeText t) xsdTime
  | .durationLiteral dur =>
    newTypedLiteral (durationText (env.numSeconds dur < 0) (env.numSeconds dur).natAbs "")
      xsdDuration

def elementToSubject : GraphElement N → Option NamedOrBlankNode
  | .nodeOrEdge r => some (resourceToSubject r)
  | .graphLiteral _ | .tripleTerm _ => none

def elementToTerm (env : OxrdfEnv N) : GraphElement N → Option Term
  | .nodeOrEdge r => some (resourceToTerm r)
  | .graphLiteral l => some (.literal (literalToOxrdf env l))
  | .tripleTerm _ => none

def elementToPredicate : GraphElement N → Option IriReference
  | .nodeOrEdge r => resourceToPredicate r
  | .graphLiteral _ | .tripleTerm _ => none

def elementToGraphName : GraphElement N → Option GraphName
  | .nodeOrEdge (.iri iri) => some (.namedNode iri)
  | .nodeOrEdge (.anonymousBlankNode id) => some (.blankNode (graphBlankLabel id))
  | .graphLiteral _ | .tripleTerm _ => none

/-- The outer option is `none` where the source panics on a dangling id, the inner one where it
skips the quad. -/
def buildOxrdfQuad (env : OxrdfEnv N) (m : GraphElementManager N)
    (subjectId predicateId objectId : GraphElementId) (graphName : GraphName) :
    Option (Option OxQuad) := do
  match elementToSubject (← m.getGraphElement subjectId) with
  | none => return none
  | some subject =>
    match elementToPredicate (← m.getGraphElement predicateId) with
    | none => return none
    | some predicate =>
      match elementToTerm env (← m.getGraphElement objectId) with
      | none => return none
      | some obj => return some ⟨subject, predicate, obj, graphName⟩

def quadToOxrdf (env : OxrdfEnv N) (m : GraphElementManager N) (quad : Quad) :
    Option (Option OxQuad) := do
  if quad.tripleId = defaultGraphElementId then
    buildOxrdfQuad env m quad.subject quad.predicate quad.obj .defaultGraph
  else
    match elementToGraphName (← m.getGraphElement quad.tripleId) with
    | some graphName => buildOxrdfQuad env m quad.subject quad.predicate quad.obj graphName
    | none => return none

def insertConverted (dataset : Finset OxQuad) : Option OxQuad → Finset OxQuad
  | some oxquad => insert oxquad dataset
  | none => dataset

def datastoreToOxrdfDataset (env : OxrdfEnv N) (store : Datastore N) : Option (Finset OxQuad) :=
  store.namedGraphs.quadList.foldlM
    (fun dataset quad =>
      (quadToOxrdf env store.resources quad).map (insertConverted dataset)) ∅

/-- `canonicalize` is the canonicalisation library's; the dataset it gets is the converted one in
the types of an older version. -/
def canonicalizeDataset (env : OxrdfEnv N) (canonicalize : Finset OxQuad → Except String String)
    (store : Datastore N) : Option (Except String String) :=
  (datastoreToOxrdfDataset env store).map canonicalize

end RdfDatalog.Canon
