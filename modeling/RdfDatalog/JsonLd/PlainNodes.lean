import RdfDatalog.JsonLd.PlainValues

namespace RdfDatalog.JsonLd

open Endpoint GraphElementManager

variable {N : NativeTypes}

section Quads

variable (env : ParserEnv) (printed : PrintedValues N)

def termOf (source : Datastore N) (id : GraphElementId) : LabelTerm N :=
  ((source.resources.getGraphElement id).map (labelTerm env printed)).getD (.iri "")

def quadIn (source : Datastore N) (graph : LabelTerm N) (q : Quad) : LabelQuad N :=
  ⟨graph, termOf env printed source q.subject, termOf env printed source q.predicate,
    termOf env printed source q.obj⟩

/-- A type is printed only if it is an IRI. -/
def TypePrinted (source : Datastore N) (q : Quad) : Prop :=
  source.resources.getNamedResource q.predicate = some rdfType →
    (source.resources.getNamedResource q.obj).isSome = true

def readIn (source : Datastore N) (graph : LabelTerm N) (quads : List Quad) :
    Set (LabelQuad N) :=
  {l | ∃ q ∈ quads, TypePrinted source q ∧ l = quadIn env printed source graph q}

/-- A quad as RDF has them, without triple terms. -/
structure PlainQuad (source : Datastore N) (q : Quad) : Prop where
  subject : ∃ e text, source.resources.getGraphElement q.subject = some e ∧ Plain e ∧
    idText e = some text
  predicate : ∃ iri, source.resources.getNamedResource q.predicate = some iri ∧ HasScheme iri
  obj : ∃ e, source.resources.getGraphElement q.obj = some e ∧ Plain e

variable {env printed}

theorem getNamedResource_eq_some {m : GraphElementManager N} {id : GraphElementId} {iri : String} :
    m.getNamedResource id = some iri ↔ m.getGraphElement id = some (.iri iri) := by
  rw [getNamedResource]
  constructor
  · intro h
    split at h
    · rename_i i hi
      cases h
      exact hi
    · cases h
  · intro h
    rw [h]

theorem termOf_eq {source : Datastore N} {id : GraphElementId} {e : GraphElement N}
    (h : source.resources.getGraphElement id = some e) :
    termOf env printed source id = labelTerm env printed e := by
  rw [termOf, h]
  rfl

theorem termOf_iri {source : Datastore N} {id : GraphElementId} {iri : String}
    (h : source.resources.getNamedResource id = some iri) :
    termOf env printed source id = .iri iri :=
  termOf_eq (getNamedResource_eq_some.mp h)

theorem objectValue_eq {source : Datastore N} {id : GraphElementId}
    (h : ∃ e, source.resources.getGraphElement id = some e ∧ Plain e) :
    ∃ e value, source.resources.getGraphElement id = some e ∧ Plain e ∧
      elementToValue printed e = some value ∧ objectValue printed source id = some value := by
  obtain ⟨e, he, hplain⟩ := h
  have hsome : ∃ value, elementToValue printed e = some value := by
    cases e with
    | graphLiteral l => exact ⟨_, rfl⟩
    | tripleTerm k => exact absurd rfl (hplain.1 k)
    | nodeOrEdge r =>
      cases r with
      | iri | anonymousBlankNode => exact ⟨_, rfl⟩
  obtain ⟨value, hvalue⟩ := hsome
  refine ⟨e, value, he, hplain, hvalue, ?_⟩
  rw [objectValue, he, Option.bind_some, hvalue]

end Quads

section Fields

variable {env : ParserEnv} {printed : PrintedValues N} {network : NetworkPolicy}
  {source ds : Datastore N} {S : Set (LabelQuad N)} {graph : Option GraphElementId}
  {gt st : LabelTerm N} {subject : GraphElementId}

variable {nested : Handlers N} {quads : List Quad}

theorem processField_skip {explicit : Bool} {key : String}
    (h : key = "@id" ∨ key = "@context") (value : Value) :
    processField env nested (Context.empty network) graph subject explicit ds (key, value) =
      .ok ds :=
  if_pos h

theorem processField_types {explicit : Bool} (value : Value) :
    processField env nested (Context.empty network) graph subject explicit ds ("@type", value) =
      .ok (emitTypeTriples env ds (Context.empty network) graph subject value) := by
  have hid : ¬ ("@type" = "@id" ∨ "@type" = "@context") := by decide
  unfold processField
  rw [if_neg hid, if_pos rfl]

theorem processField_graph (items : List Value) (explicit : Bool) :
    processField env nested (Context.empty network) graph subject explicit ds
        ("@graph", .array items) =
      items.foldlM (processGraphItem env nested (Context.empty network)
        (if explicit then some subject else graph)) ds := by
  have hid : ¬ ("@graph" = "@id" ∨ "@graph" = "@context") := by decide
  have htype : ¬ "@graph" = "@type" := by decide
  unfold processField
  rw [if_neg hid, if_neg htype, if_pos rfl]
  rfl

theorem typeScoped_empty (map : List (String × Value)) :
    typeScoped env (Context.empty network) map = .ok (Context.empty network) := by
  unfold typeScoped
  split
  · rfl
  · next typeVal _ =>
    induction iterStringOrArray typeVal with
    | nil => rfl
    | cons typeStr strings ih =>
      rw [List.foldlM_cons, lookup_empty]
      exact ih

theorem HasScheme.ne_keyword {iri keyword : String} (h : HasScheme iri)
    (hkeyword : isKeyword keyword = true) : iri ≠ keyword := by
  rintro rfl
  rw [h.not_keyword] at hkeyword
  cases hkeyword

theorem processField_iri {explicit : Bool} {iri : String}
    (hiri : HasScheme iri) (value : Value) :
    processField env nested (Context.empty network) graph subject explicit ds (iri, value) =
      processProperty env nested (Context.empty network) graph subject ds (iri, value) := by
  have hid : ¬ (iri = "@id" ∨ iri = "@context") :=
    not_or.mpr ⟨hiri.ne_keyword (by decide), hiri.ne_keyword (by decide)⟩
  unfold processField
  rw [if_neg hid, if_neg (hiri.ne_keyword (by decide)), if_neg (hiri.ne_keyword (by decide)),
    if_neg (hiri.ne_keyword (by decide)), if_neg (hiri.ne_keyword (by decide)),
    if_neg (hiri.ne_keyword (by decide)),
    if_neg (by rw [hiri.not_keyword]; exact Bool.false_ne_true)]
  unfold processTermField
  rw [lookup_empty]
  rfl

def objectValues (printed : PrintedValues N) (source : Datastore N) (quads : List Quad) :
    List Value :=
  quads.filterMap fun q => objectValue printed source q.obj

variable (hquads : ∀ q ∈ quads, ∃ e, source.resources.getGraphElement q.obj = some e ∧ Plain e)
  (h : Represents ds S) (hg : GraphAt ds.resources graph gt) (hs : At ds.resources subject st)
include hquads h hg hs

theorem addValues {p : GraphElementId} {pt : LabelTerm N} (hp : At ds.resources p pt) :
    ∃ ds', (objectValues printed source quads).foldlM
        (addValueToGraph env nested (Context.empty network) graph subject p .none) ds = .ok ds' ∧
      Adds ds ds' S {l | ∃ q ∈ quads, l = ⟨gt, st, pt, termOf env printed source q.obj⟩} := by
  have hvalues : objectValues printed source quads = quads.map fun q =>
      (objectValue printed source q.obj).getD .null := by
    rw [objectValues, ← List.filterMap_eq_map]
    refine List.filterMap_congr fun q hq => ?_
    obtain ⟨e, value, -, -, -, hvalue⟩ := @objectValue_eq N printed _ _ (hquads q hq)
    rw [Function.comp_apply, hvalue]
    rfl
  rw [hvalues, List.foldlM_map]
  refine Represents.foldlM (fun q hq ds₁ S₁ h₁ hlabels => ?_) h (.refl _)
  obtain ⟨e, value, he, hplain, hvalue, hobject⟩ := @objectValue_eq N printed _ _ (hquads q hq)
  rw [hobject, Option.getD_some]
  exact addValueToGraph_element (l := ⟨gt, st, pt, termOf env printed source q.obj⟩) h₁
    (hg.mono hlabels) (hs.mono hlabels) (hp.mono hlabels) hplain (termOf_eq he) hvalue

theorem processProperty_values {iri : String} (hiri : HasScheme iri) (levels : Nat) :
    ∃ ds', processProperty env (handlers env (levels + 2)) (Context.empty network)
        graph subject ds (iri, .array (objectValues printed source quads)) = .ok ds' ∧
      Adds ds ds' S {l | ∃ q ∈ quads, l = ⟨gt, st, .iri iri, termOf env printed source q.obj⟩} := by
  have hi := internIri_interning h.labelled iri
  have hproperty : propertyIri env (Context.empty network) iri = some iri := by
    rw [propertyIri, expandTerm_absolute env network hiri]
    exact if_pos (hiri.isAbsoluteIri env)
  obtain ⟨ds', hfold, hadds⟩ := @addValues N env printed network source _ S graph gt st subject
    (handlers env levels) _ hquads (h.interned hi) (hg.mono hi.labels) (hs.mono hi.labels) _ _
    hi.term
  refine ⟨ds', ?_, Adds.after hi hadds⟩
  rw [processProperty, hproperty, lookup_empty]
  exact hfold

theorem emitTypeTriples_iris :
    Adds ds (emitTypeTriples env ds (Context.empty network) graph subject (.array
        ((quads.filterMap fun q => source.resources.getNamedResource q.obj).map Value.string))) S
      {l | ∃ q ∈ quads, (source.resources.getNamedResource q.obj).isSome = true ∧
        l = ⟨gt, st, .iri rdfType, termOf env printed source q.obj⟩} := by
  have hi := internIri_interning h.labelled rdfType
  have hstrings (strings : List String) :
      iterStringOrArray (.array (strings.map Value.string)) = strings := by
    rw [iterStringOrArray, List.filterMap_map]
    exact List.filterMap_some
  rw [emitTypeTriples, hstrings]
  refine Adds.after hi ?_
  have hadds := @Represents.foldl N _ S String (emitTypeTriple env (Context.empty network) graph
    subject (internIri ds rdfType).2) (fun iri => {⟨gt, st, .iri rdfType, .iri iri⟩})
    (quads.filterMap fun q => source.resources.getNamedResource q.obj)
    (internIri ds rdfType).1.resources (fun iri hiri ds₁ S₁ h₁ hlabels => ?_) (h.interned hi)
    (.refl _)
  · refine hadds.congr ?_
    ext l
    constructor
    · intro ⟨iri, hiri, hl⟩
      obtain ⟨q, hq, hobj⟩ := List.mem_filterMap.mp hiri
      refine ⟨q, hq, by rw [hobj]; rfl, ?_⟩
      rw [termOf_iri hobj]
      exact hl
    · intro ⟨q, hq, hsome, hl⟩
      obtain ⟨iri, hobj⟩ := Option.isSome_iff_exists.mp hsome
      rw [termOf_iri hobj] at hl
      exact ⟨iri, List.mem_filterMap.mpr ⟨q, hq, hobj⟩, hl⟩
  · obtain ⟨q, hq, hobj⟩ := List.mem_filterMap.mp hiri
    obtain ⟨e, he, hplain⟩ := hquads q hq
    have hscheme : HasScheme iri := by
      cases he.symm.trans (getNamedResource_eq_some.mp hobj)
      exact hplain.2 iri rfl
    have hlabels' := hi.labels.trans hlabels
    have hiri' := internIri_interning h₁.labelled iri
    rw [emitTypeTriple, expandTerm_absolute env network hscheme, Option.getD_some,
      if_pos (hscheme.isAbsoluteIri env)]
    exact Adds.after hiri' ((h₁.interned hiri').addToGraph (hg.mono (hlabels'.trans hiri'.labels))
      (hs.mono (hlabels'.trans hiri'.labels)) (hi.term.mono (hlabels.trans hiri'.labels))
      hiri'.term)

end Fields

section Node

variable {env : ParserEnv} {printed : PrintedValues N} {network : NetworkPolicy}
  {order : GroupOrder} {source ds : Datastore N} {S : Set (LabelQuad N)}
  {graph : Option GraphElementId} {gt : LabelTerm N} {g subject : GraphElementId}
  {quads : List Quad} {preds : List GraphElementId}

def typeQuads (source : Datastore N) (quads : List Quad) (preds : List GraphElementId) :
    List Quad :=
  (preds.filter fun p => source.resources.getNamedResource p = some rdfType).flatMap fun p =>
    quads.filter fun q => q.predicate = p

theorem typeValues_eq : typeValues source quads preds =
    ((typeQuads source quads preds).filterMap fun q =>
      source.resources.getNamedResource q.obj).map Value.string := by
  rw [typeValues, typeQuads, List.filterMap_flatMap, List.map_flatMap]

/-- The entries of a node, before they are sorted. -/
def nodeEntries (printed : PrintedValues N) (source : Datastore N) (text : String)
    (quads : List Quad) (preds : List GraphElementId) : List (String × Value) :=
  ("@id", .string text) :: (if (typeValues source quads preds).isEmpty then []
      else [("@type", .array (typeValues source quads preds))]) ++
    preds.filterMap (predicateEntry printed source quads)

theorem mem_nodeEntries {text : String} {field : String × Value} :
    field ∈ nodeEntries printed source text quads preds ↔ field = ("@id", .string text) ∨
      ((typeValues source quads preds).isEmpty = false ∧
        field = ("@type", .array (typeValues source quads preds))) ∨
      ∃ p ∈ preds, predicateEntry printed source quads p = some field := by
  rw [nodeEntries, List.cons_append, List.mem_cons, List.mem_append, List.mem_filterMap]
  refine or_congr_right (or_congr_left ?_)
  cases (typeValues source quads preds).isEmpty with
  | true => simp
  | false => simp

theorem predicateEntry_named {p : GraphElementId} {iri : String}
    (h : iri ∈ (predicateEntry printed source quads p).map Prod.fst) :
    source.resources.getNamedResource p = some iri := by
  rw [predicateEntry] at h
  cases hnamed : source.resources.getNamedResource p with
  | none =>
    rw [hnamed] at h
    cases h
  | some i =>
    rw [hnamed] at h
    dsimp only at h
    split_ifs at h
    · cases h
    · cases h
    · cases h
      rfl

def fieldQuads (env : ParserEnv) (printed : PrintedValues N) (source : Datastore N)
    (gt st : LabelTerm N) (quads : List Quad) (preds : List GraphElementId)
    (field : String × Value) : Set (LabelQuad N) :=
  {l | (field.1 = "@type" ∧ ∃ q ∈ typeQuads source quads preds,
        (source.resources.getNamedResource q.obj).isSome = true ∧
          l = ⟨gt, st, .iri rdfType, termOf env printed source q.obj⟩) ∨
      ∃ p ∈ preds, predicateEntry printed source quads p = some field ∧
        ∃ q ∈ quads.filter (fun q => q.predicate = p),
          l = ⟨gt, st, .iri field.1, termOf env printed source q.obj⟩}

section Plain

variable (hpreds : ∀ p, p ∈ preds ↔ ∃ q ∈ quads, q.predicate = p)
include hpreds

theorem mem_typeQuads {q : Quad} :
    q ∈ typeQuads source quads preds ↔
      q ∈ quads ∧ source.resources.getNamedResource q.predicate = some rdfType := by
  rw [typeQuads, List.mem_flatMap]
  constructor
  · intro ⟨p, hp, hq⟩
    rw [List.mem_filter, decide_eq_true_iff] at hp hq
    obtain ⟨hmem, rfl⟩ := hq
    exact ⟨hmem, hp.2⟩
  · intro ⟨hmem, htype⟩
    refine ⟨q.predicate, ?_, ?_⟩
    · rw [List.mem_filter, decide_eq_true_iff]
      exact ⟨(hpreds _).mpr ⟨q, hmem, rfl⟩, htype⟩
    · rw [List.mem_filter, decide_eq_true_iff]
      exact ⟨hmem, rfl⟩

variable (hplain : ∀ q ∈ quads, PlainQuad source q)
include hplain

theorem predicateEntry_eq {p : GraphElementId} (hp : p ∈ preds) :
    ∃ iri, source.resources.getNamedResource p = some iri ∧ HasScheme iri ∧
      predicateEntry printed source quads p = if iri = rdfType then none else
        some (iri, .array (objectValues printed source
          (quads.filter fun q => q.predicate = p))) := by
  obtain ⟨q, hq, rfl⟩ := (hpreds p).mp hp
  obtain ⟨iri, hiri, hscheme⟩ := (hplain q hq).predicate
  refine ⟨iri, hiri, hscheme, ?_⟩
  obtain ⟨e, value, -, -, -, hvalue⟩ := @objectValue_eq N printed _ _ (hplain q hq).obj
  have hmem : value ∈ objectValues printed source
      (quads.filter fun x => x.predicate = q.predicate) := by
    refine List.mem_filterMap.mpr ⟨q, ?_, hvalue⟩
    rw [List.mem_filter, decide_eq_true_iff]
    exact ⟨hq, rfl⟩
  have hne : (objectValues printed source
      (quads.filter fun x => x.predicate = q.predicate)).isEmpty = false := by
    rw [List.isEmpty_eq_false_iff]
    exact List.ne_nil_of_mem hmem
  rw [objectValues] at hne
  rw [predicateEntry, hiri]
  dsimp only
  rw [hne]
  rfl

theorem predicateEntry_key {p : GraphElementId} (hp : p ∈ preds)
    {field : String × Value} (h : predicateEntry printed source quads p = some field) :
    source.resources.getNamedResource p = some field.1 ∧ HasScheme field.1 ∧ field.1 ≠ rdfType ∧
      field.2 = .array (objectValues printed source (quads.filter fun q => q.predicate = p)) := by
  obtain ⟨iri, hiri, hscheme, hentry⟩ := @predicateEntry_eq N printed _ _ _ hpreds hplain p hp
  rw [hentry] at h
  split_ifs at h with htype
  cases h
  exact ⟨hiri, hscheme, htype, rfl⟩

theorem nodup_nodeEntries (hnodup : preds.Nodup) (text : String) :
    ((nodeEntries printed source text quads preds).map Prod.fst).Nodup := by
  have hiris : ((preds.filterMap (predicateEntry printed source quads)).map Prod.fst).Nodup := by
    rw [List.map_filterMap]
    refine List.Nodup.filterMap (fun p p' iri hp hp' => ?_) hnodup
    have hp := getNamedResource_eq_some.mp (predicateEntry_named hp)
    have hp' := getNamedResource_eq_some.mp (predicateEntry_named hp')
    exact getGraphElement_inj hp hp'
  have hfresh (keyword : String) (h : isKeyword keyword = true) :
      keyword ∉ (preds.filterMap (predicateEntry printed source quads)).map Prod.fst := by
    intro hmem
    obtain ⟨field, hfield, heq⟩ := List.mem_map.mp hmem
    obtain ⟨p, hp, hentry⟩ := List.mem_filterMap.mp hfield
    exact (predicateEntry_key hpreds hplain hp hentry).2.1.ne_keyword h heq
  have hid := hfresh "@id" (by decide)
  have htype := hfresh "@type" (by decide)
  rw [nodeEntries, List.cons_append, List.map_cons, List.map_append]
  cases (typeValues source quads preds).isEmpty with
  | true => exact List.nodup_cons.mpr ⟨hid, hiris⟩
  | false =>
    refine List.nodup_cons.mpr ⟨?_, List.nodup_cons.mpr ⟨htype, hiris⟩⟩
    intro hmem
    rcases List.mem_cons.mp hmem with heq | hmem
    · have hne : "@id" ≠ "@type" := by decide
      exact hne heq
    · exact hid hmem

theorem fieldQuads_all (hsubject : ∀ q ∈ quads, q.subject = subject) (text : String) :
    {l | ∃ field ∈ nodeEntries printed source text quads preds,
        l ∈ fieldQuads env printed source gt (termOf env printed source subject) quads preds
          field} = readIn env printed source gt quads := by
  ext l
  constructor
  · intro ⟨field, _, hl⟩
    rcases hl with ⟨-, q, hq, hsome, rfl⟩ | ⟨p, hp, hentry, q, hq, rfl⟩
    · obtain ⟨hmem, htype⟩ := (mem_typeQuads hpreds).mp hq
      refine ⟨q, hmem, fun _ => hsome, ?_⟩
      rw [quadIn, hsubject q hmem, termOf_iri htype]
    · obtain ⟨hnamed, -, hne, -⟩ := predicateEntry_key hpreds hplain hp hentry
      rw [List.mem_filter, decide_eq_true_iff] at hq
      obtain ⟨hmem, rfl⟩ := hq
      refine ⟨q, hmem, fun htype => ?_, ?_⟩
      · exact absurd (Option.some.inj (hnamed.symm.trans htype)) hne
      · rw [quadIn, hsubject q hmem, termOf_iri hnamed]
  · intro ⟨q, hmem, hprinted, hl⟩
    have hp : q.predicate ∈ preds := (hpreds _).mpr ⟨q, hmem, rfl⟩
    obtain ⟨iri, hnamed, -, hentry⟩ := @predicateEntry_eq N printed _ _ _ hpreds hplain _ hp
    by_cases htype : iri = rdfType
    · subst htype
      have hsome := hprinted hnamed
      have hq : q ∈ typeQuads source quads preds := (mem_typeQuads hpreds).mpr ⟨hmem, hnamed⟩
      refine ⟨("@type", .array (typeValues source quads preds)), ?_, .inl ⟨rfl, q, hq, hsome, ?_⟩⟩
      · refine mem_nodeEntries.mpr (.inr (.inl ⟨?_, rfl⟩))
        obtain ⟨i, hi⟩ := Option.isSome_iff_exists.mp hsome
        have hmemi : i ∈ (typeQuads source quads preds).filterMap fun q =>
            source.resources.getNamedResource q.obj := List.mem_filterMap.mpr ⟨q, hq, hi⟩
        rw [List.isEmpty_eq_false_iff, typeValues_eq]
        exact List.ne_nil_of_mem (List.mem_map_of_mem hmemi)
      · rw [hl, quadIn, hsubject q hmem, termOf_iri hnamed]
    · rw [if_neg htype] at hentry
      refine ⟨_, mem_nodeEntries.mpr (.inr (.inr ⟨_, hp, hentry⟩)), .inr ⟨_, hp, hentry, q, ?_, ?_⟩⟩
      · rw [List.mem_filter, decide_eq_true_iff]
        exact ⟨hmem, rfl⟩
      · rw [hl, quadIn, hsubject q hmem, termOf_iri hnamed]

theorem processField_entry {text : String} {field : String × Value}
    (hfield : field ∈ nodeEntries printed source text quads preds)
    {st : LabelTerm N} {s : GraphElementId} (explicit : Bool) (h : Represents ds S)
    (hg : GraphAt ds.resources graph gt) (hs : At ds.resources s st) (levels : Nat) :
    ∃ ds', processField env (handlers env (levels + 2)) (Context.empty network) graph s explicit ds
        field = .ok ds' ∧
      Adds ds ds' S (fieldQuads env printed source gt st quads preds field) := by
  have hobj : ∀ q ∈ quads, ∃ e, source.resources.getGraphElement q.obj = some e ∧ Plain e :=
    fun q hq => (hplain q hq).obj
  have hnokey (keyword : String) (hk : isKeyword keyword = true) (value : Value)
      {p : GraphElementId}
      (hp : p ∈ preds) : predicateEntry printed source quads p ≠ some (keyword, value) := by
    intro hentry
    exact (predicateEntry_key hpreds hplain hp hentry).2.1.ne_keyword hk rfl
  rcases mem_nodeEntries.mp hfield with rfl | ⟨-, rfl⟩ | ⟨p, hp, hentry⟩
  · refine ⟨ds, processField_skip (.inl rfl) _, h.refl.congr ?_⟩
    ext l
    refine iff_of_false (fun hl => hl.elim) ?_
    rintro (⟨hkey, -⟩ | ⟨p, hp, hentry, -⟩)
    · have hne : "@id" ≠ "@type" := by decide
      exact hne hkey
    · exact hnokey _ (by decide) _ hp hentry
  · have htypes : ∀ q ∈ typeQuads source quads preds,
        ∃ e, source.resources.getGraphElement q.obj = some e ∧ Plain e :=
      fun q hq => hobj q ((mem_typeQuads hpreds).mp hq).1
    refine ⟨_, processField_types _, ?_⟩
    rw [typeValues_eq]
    refine (@emitTypeTriples_iris N env printed _ _ _ _ _ _ _ _ _ htypes h hg hs).congr ?_
    ext l
    constructor
    · intro hl
      exact .inl ⟨rfl, hl⟩
    · rintro (⟨-, hl⟩ | ⟨p, hp, hentry, -⟩)
      · exact hl
      · exact absurd hentry (hnokey _ (by decide) _ hp)
  · obtain ⟨hnamed, hscheme, hne, hvalue⟩ := predicateEntry_key hpreds hplain hp hentry
    obtain ⟨key, value⟩ := field
    dsimp only at hnamed hscheme hne hvalue
    subst hvalue
    have hquads : ∀ q ∈ quads.filter (fun q => q.predicate = p),
        ∃ e, source.resources.getGraphElement q.obj = some e ∧ Plain e :=
      fun q hq => hobj q (List.mem_filter.mp hq).1
    obtain ⟨ds', hrun, hadds⟩ := @processProperty_values N env printed network source ds S graph gt
      st s _ hquads h hg hs key hscheme levels
    refine ⟨ds', (processField_iri hscheme _).trans hrun, hadds.congr ?_⟩
    ext l
    constructor
    · intro ⟨q, hq, hl⟩
      exact .inr ⟨p, hp, hentry, q, hq, hl⟩
    · rintro (⟨hkey, -⟩ | ⟨p', hp', hentry', q, hq, hl⟩)
      · exact absurd hkey (hscheme.ne_keyword (by decide))
      · have hnamed' := (predicateEntry_key hpreds hplain hp' hentry').1
        have heq : p' = p := getGraphElement_inj (getNamedResource_eq_some.mp hnamed')
          (getNamedResource_eq_some.mp hnamed)
        subst heq
        exact ⟨q, hq, hl⟩

end Plain

theorem node_buildNode (hplain : ∀ q ∈ quads, PlainQuad source q)
    (hsubject : ∀ q ∈ quads, q.subject = subject) {value : Value}
    (hbuild : buildNode printed order source g subject quads = some value) {e : GraphElement N}
    (he : source.resources.getGraphElement subject = some e) (hpe : Plain e)
    (h : Represents ds S) (hg : GraphAt ds.resources graph gt) (levels : Nat) :
    ∃ map, value = .object map ∧ map.lookup "@context" = none ∧
      ∃ ds' id, (handlers env (levels + 3)).node (Context.empty network) graph ds map =
          .ok (ds', id) ∧ Adds ds ds' S (readIn env printed source gt quads) := by
  cases htext : idText e with
  | none =>
    rw [buildNode, he, Option.bind_some, htext] at hbuild
    cases hbuild
  | some text =>
    rw [buildNode, he, Option.bind_some, htext] at hbuild
    have hperm := order.predicates_perm g subject (quads.map Quad.predicate).dedup
    have hpreds (p : GraphElementId) :
        p ∈ order.predicates g subject (quads.map Quad.predicate).dedup ↔
          ∃ q ∈ quads, q.predicate = p := by
      rw [hperm.mem_iff, List.mem_dedup, List.mem_map]
    have hnodup := hperm.nodup_iff.mpr (List.nodup_dedup _)
    generalize order.predicates g subject (quads.map Quad.predicate).dedup = preds at *
    have hvalue : value = .object (SortedFields.ofEntries
        (nodeEntries printed source text quads preds)) := (Option.some.inj hbuild).symm
    have hkeys := @nodup_nodeEntries N printed _ _ _ hpreds hplain hnodup text
    have hsorted := SortedFields.ofEntries_perm hkeys
    have hsortedKeys := (hsorted.map Prod.fst).nodup_iff.mpr hkeys
    have hid : (SortedFields.ofEntries (nodeEntries printed source text quads preds)).lookup "@id" =
        some (.string text) :=
      SortedFields.lookup_eq_some_of_mem hsortedKeys
        (hsorted.mem_iff.mpr (mem_nodeEntries.mpr (.inl rfl)))
    have hcontext : (SortedFields.ofEntries (nodeEntries printed source text quads preds)).lookup
        "@context" = none := by
      refine SortedFields.lookup_eq_none_of_notMem fun hmem => ?_
      obtain ⟨field, hfield, hkey⟩ := List.mem_map.mp hmem
      rcases mem_nodeEntries.mp (hsorted.mem_iff.mp hfield) with rfl | ⟨-, rfl⟩ | ⟨p, hp, hentry⟩
      · have hne : "@id" ≠ "@context" := by decide
        exact hne hkey
      · have hne : "@type" ≠ "@context" := by decide
        exact hne hkey
      · exact (predicateEntry_key hpreds hplain hp hentry).2.1.ne_keyword (by decide) hkey
    have hi := @nodeSubject_interning N env printed network ds e text h.labelled hpe htext
    have hst : termOf env printed source subject = labelTerm env printed e := termOf_eq he
    obtain ⟨ds', hfold, hadds⟩ := @Represents.foldlM N
      (nodeSubject env ds (Context.empty network) (some text)).1 S _
      (processField env (handlers env (levels + 2)) (Context.empty network) graph
        (nodeSubject env ds (Context.empty network) (some text)).2 true)
      (fieldQuads env printed source gt (termOf env printed source subject) quads preds)
      (SortedFields.ofEntries (nodeEntries printed source text quads preds))
      (nodeSubject env ds (Context.empty network) (some text)).1.resources
      (fun field hfield ds₁ S₁ h₁ hlabels => by
        refine processField_entry hpreds hplain (hsorted.mem_iff.mp hfield) true h₁
          (hg.mono (hi.labels.trans hlabels)) ?_ levels
        rw [hst]
        exact hi.term.mono hlabels)
      (h.interned hi) (.refl _)
    refine ⟨_, hvalue, hcontext, ds',
      (nodeSubject env ds (Context.empty network) (some text)).2, ?_,
      (Adds.after hi hadds).congr ?_⟩
    · change processNode env (handlers env (levels + 2)) (Context.empty network) graph ds _ = _
      have hidString : nodeIdString env (Context.empty network)
          (SortedFields.ofEntries (nodeEntries printed source text quads preds)) = some text := by
        rw [nodeIdString, hid]
        rfl
      rw [processNode, hidString]
      dsimp only
      rw [typeScoped_empty]
      dsimp only [Option.isSome_some]
      rw [hfold]
      rfl
    · rw [← fieldQuads_all hpreds hplain hsubject text]
      ext l
      simp only [Set.mem_ofPred_eq, hsorted.mem_iff]

end Node

end RdfDatalog.JsonLd
