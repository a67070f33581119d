import RdfDatalog.Endpoint.SentData
import RdfDatalog.JsonLd.Documents

namespace RdfDatalog.JsonLd

open Endpoint GraphElementManager

variable {N : NativeTypes}

section Terms

def PlainTerm : RdfTerm N → Prop
  | .iri i => HasScheme i
  | .triple _ _ _ => False
  | _ => True

/-- A term that nodes and graphs are named by. -/
def NodeTerm : RdfTerm N → Prop
  | .iri i => HasScheme i
  | .blank _ => True
  | _ => False

/-- A quad of an RDF dataset. -/
structure PlainTerms (t : TermQuad N) : Prop where
  graph : NodeTerm t.graph
  subject : NodeTerm t.subject
  predicate : ∃ iri, t.predicate = .iri iri
  obj : PlainTerm t.obj

/-- A quad that is printed at all: not in a graph without an IRI, unless graphs are not told apart,
and no type that is not an IRI. -/
structure Printed (flatten : Bool) (t : TermQuad N) : Prop where
  graph : flatten = true ∨ ∃ iri, t.graph = .iri iri
  type : t.predicate = .iri rdfType → ∃ iri, t.obj = .iri iri

variable (env : ParserEnv) (printed : PrintedValues N)

def readTerm (ρ : Nat → Nat) (t : RdfTerm N) : RdfTerm N := t.map ρ (readBack env printed)

/-- What a quad is read as, where blank nodes are numbered so. -/
def readQuad (flatten : Bool) (ρ : Nat → Nat) (t : TermQuad N) : TermQuad N :=
  ⟨readTerm env printed ρ (if flatten then .iri defaultGraphIri else t.graph),
    readTerm env printed ρ t.subject, readTerm env printed ρ t.predicate,
    readTerm env printed ρ t.obj⟩

variable {env printed} {source ds : Datastore N} {m m' : GraphElementManager N}
  {e : GraphElement N} {t : RdfTerm N} {ρ : Nat → Nat}

theorem Resolves.iri_iff (h : m.Resolves e t) (i : String) : e = .iri i ↔ t = .iri i := by
  cases h with
  | iri j =>
    constructor
    · intro heq
      cases heq
      rfl
    · intro heq
      cases heq
      rfl
  | blank | literal | tripleTerm => exact iff_of_false nofun nofun

theorem resolves_of_denotes (h : m.Resolves e t) (ht : ∀ k, e ≠ .tripleTerm k)
    (hρ : ∀ n k, m'.Names ("b" ++ toString n) k → ρ n = k) {e' : GraphElement N}
    (he' : Denotes m' (labelTerm env printed e) e') :
      m'.Resolves e' (readTerm env printed ρ t) := by
  cases h with
  | iri i =>
    cases he' with
    | iri _ => exact .iri i
  | literal l =>
    cases he' with
    | literal _ => exact .literal _
  | blank n =>
    cases he' with
    | blank hn =>
      have hmap : readTerm env printed ρ (.blank n) = .blank (ρ n) := rfl
      rw [hmap, hρ n _ hn]
      exact .blank _
  | tripleTerm hs hp ho _ _ _ => exact absurd rfl (ht _)

theorem At.resolves {id id' : GraphElementId} (he : source.resources.getGraphElement id = some e)
    (ht : ∀ k, e ≠ .tripleTerm k) (h : source.resources.Resolves e t)
    (hρ : ∀ n k, m'.Names ("b" ++ toString n) k → ρ n = k)
    (hat : At m' id' (termOf env printed source id)) :
    ∃ e', m'.getGraphElement id' = some e' ∧ m'.Resolves e' (readTerm env printed ρ t) := by
  obtain ⟨e', hget, hdenotes⟩ := hat
  rw [termOf_eq he] at hdenotes
  exact ⟨e', hget, resolves_of_denotes h ht hρ hdenotes⟩

end Terms

section Store

variable {env : ParserEnv} {printed : PrintedValues N} {source ds : Datastore N}
  {m : GraphElementManager N} {q : Quad}

variable {e : GraphElement N} {t : TermQuad N}

theorem nodeTerm_of_idText {text : String} (h : idText e = some text) (hplain : Plain e) :
    ∃ t, (∀ m : GraphElementManager N, m.Resolves e t) ∧ NodeTerm t := by
  cases e with
  | nodeOrEdge r =>
    cases r with
    | iri i => exact ⟨.iri i, fun _ => .iri i, hplain.2 i rfl⟩
    | anonymousBlankNode n => exact ⟨.blank n, fun _ => .blank n, trivial⟩
  | graphLiteral l => cases h
  | tripleTerm k => cases h

theorem plainTerm_of_plain (hplain : Plain e) :
    ∃ t, (∀ m : GraphElementManager N, m.Resolves e t) ∧ PlainTerm t := by
  cases e with
  | nodeOrEdge r =>
    cases r with
    | iri i => exact ⟨.iri i, fun _ => .iri i, hplain.2 i rfl⟩
    | anonymousBlankNode n => exact ⟨.blank n, fun _ => .blank n, trivial⟩
  | graphLiteral l => exact ⟨.literal l, fun _ => .literal l, trivial⟩
  | tripleTerm k => exact absurd rfl (hplain.1 k)

theorem DatasetQuad.exists_terms (h : DatasetQuad source q) :
    ∃ t, source.resources.StandsFor q t ∧ PlainTerms t := by
  obtain ⟨eg, gtext, hg, hgplain, hgtext⟩ := h.graph
  obtain ⟨es, stext, hs, hsplain, hstext⟩ := h.subject
  obtain ⟨iri, hp, -⟩ := h.predicate
  obtain ⟨eo, ho, hoplain⟩ := h.obj
  obtain ⟨tg, htg, hgnode⟩ := nodeTerm_of_idText hgtext hgplain
  obtain ⟨ts, hts, hsnode⟩ := nodeTerm_of_idText hstext hsplain
  obtain ⟨tobj, hto, hoterm⟩ := plainTerm_of_plain hoplain
  have hr : source.resources.getResourceQuad q = some ⟨eg, es, .iri iri, eo⟩ :=
    getResourceQuad_eq_some.mpr ⟨hg, hs, getNamedResource_eq_some.mp hp, ho⟩
  exact ⟨⟨tg, ts, .iri iri, tobj⟩, ⟨_, hr, htg _, hts _, .iri iri, hto _⟩, hgnode, hsnode,
    ⟨iri, rfl⟩, hoterm⟩

theorem mem_terms :
    t ∈ source.terms ↔ ∃ q ∈ source.namedGraphs, source.resources.StandsFor q t := by
  constructor
  · intro ⟨r, hr, ht⟩
    obtain ⟨q, hq, hqr⟩ := GraphElementManager.mem_resolve.mp hr
    exact ⟨q, (QuadStore.mem_quadList _ q).mp hq, r, hqr, ht⟩
  · intro ⟨q, hq, r, hqr, ht⟩
    exact ⟨r, GraphElementManager.mem_resolve.mpr ⟨q, (QuadStore.mem_quadList _ q).mpr hq, hqr⟩, ht⟩

theorem plainTerms_of_mem (hplain : ∀ q ∈ source.namedGraphs, DatasetQuad source q)
    (ht : t ∈ source.terms) : PlainTerms t := by
  obtain ⟨q, hq, hstands⟩ := mem_terms.mp ht
  obtain ⟨t', hstands', hplain'⟩ := (hplain q hq).exists_terms
  rw [hstands.unique hstands']
  exact hplain'

theorem isSome_getNamedResource {id : GraphElementId} {t : RdfTerm N}
    (he : source.resources.getGraphElement id = some e) (h : source.resources.Resolves e t) :
    (source.resources.getNamedResource id).isSome = true ↔ ∃ iri, t = .iri iri := by
  rw [Option.isSome_iff_exists]
  constructor
  · intro ⟨iri, hiri⟩
    cases he.symm.trans (getNamedResource_eq_some.mp hiri)
    exact ⟨iri, (Resolves.iri_iff h iri).mp rfl⟩
  · intro ⟨iri, hiri⟩
    rw [(Resolves.iri_iff h iri).mpr hiri] at he
    exact ⟨iri, getNamedResource_eq_some.mpr he⟩

theorem printed_iff {flatten : Bool} (h : source.resources.StandsFor q t) :
    Printed flatten t ↔ GraphPrinted flatten source q ∧ TypePrinted source q := by
  obtain ⟨r, hr, ht⟩ := h
  obtain ⟨hg, -, hp, ho⟩ := getResourceQuad_eq_some.mp hr
  have hgraph := isSome_getNamedResource hg ht.graph
  have hobj := isSome_getNamedResource ho ht.obj
  have htype : source.resources.getNamedResource q.predicate = some rdfType ↔
      t.predicate = .iri rdfType := by
    rw [getNamedResource_eq_some, hp, Option.some.injEq]
    exact Resolves.iri_iff ht.predicate rdfType
  constructor
  · intro h
    exact ⟨h.graph.imp_right hgraph.mpr, fun h' => hobj.mpr (h.type (htype.mp h'))⟩
  · intro ⟨h, h'⟩
    exact ⟨h.imp_right hgraph.mp, fun hp' => hobj.mp (h' (htype.mpr hp'))⟩

end Store

section Reading

variable {env : ParserEnv} {printed : PrintedValues N} {source ds : Datastore N} {flatten : Bool}

theorem exists_numbering (m : GraphElementManager N) :
    ∃ ρ : Nat → Nat, ∀ n k, m.Names ("b" ++ toString n) k → ρ n = k := by
  classical
  refine ⟨fun n => if h : ∃ k, m.Names ("b" ++ toString n) k then h.choose else 0, ?_⟩
  intro n k hk
  have h : ∃ k, m.Names ("b" ++ toString n) k := ⟨k, hk⟩
  dsimp only
  rw [dif_pos h]
  exact h.choose_spec.unique hk

/-- The blank nodes of a quad that are not the names of graphs. -/
def nodeBlanks (t : TermQuad N) : List Nat := t.subject.blanks ++ t.obj.blanks

theorem standsFor_readQuad {m : GraphElementManager N} {q q' : Quad} {t : TermQuad N}
    (hplain : DatasetQuad source q) (h : source.resources.StandsFor q t) {ρ : Nat → Nat}
    (hρ : ∀ n k, m.Names ("b" ++ toString n) k → ρ n = k)
    (hat : AtQuad m q' (quadIn env printed source (graphIn env printed flatten source q) q)) :
    m.StandsFor q' (readQuad env printed flatten ρ t) := by
  obtain ⟨r, hr, ht⟩ := h
  obtain ⟨hg, hs, hp, ho⟩ := getResourceQuad_eq_some.mp hr
  obtain ⟨eg, _, hg', hgplain, -⟩ := hplain.graph
  obtain ⟨es, _, hs', hsplain, -⟩ := hplain.subject
  obtain ⟨iri, hp', -⟩ := hplain.predicate
  obtain ⟨eo, ho', hoplain⟩ := hplain.obj
  have hnotp : ∀ k, r.predicate ≠ .tripleTerm k := by
    intro k heq
    rw [getNamedResource_eq_some.mp hp'] at hp
    rw [← Option.some.inj hp] at heq
    cases heq
  cases hg.symm.trans hg'
  cases hs.symm.trans hs'
  cases ho.symm.trans ho'
  obtain ⟨es', hsget, hsres⟩ := At.resolves hs hsplain.1 ht.subject hρ hat.subject
  obtain ⟨ep', hpget, hpres⟩ := At.resolves hp hnotp ht.predicate hρ hat.predicate
  obtain ⟨eo', hoget, hores⟩ := At.resolves ho hoplain.1 ht.obj hρ hat.obj
  have hgraph : ∃ eg', m.getGraphElement q'.tripleId = some eg' ∧
      m.Resolves eg'
        (readTerm env printed ρ (if flatten then .iri defaultGraphIri else t.graph)) := by
    have hgat := hat.graph
    cases flatten with
    | false => exact At.resolves hg hgplain.1 ht.graph hρ hgat
    | true =>
      obtain ⟨eg', hget, hdenotes⟩ := hgat
      cases hdenotes with
      | iri _ => exact ⟨_, hget, .iri _⟩
  obtain ⟨eg', hgget, hgres⟩ := hgraph
  exact ⟨⟨eg', es', ep', eo'⟩, getResourceQuad_eq_some.mpr ⟨hgget, hsget, hpget, hoget⟩, hgres,
    hsres, hpres, hores⟩

theorem terms_eq_image (hplain : ∀ q ∈ source.namedGraphs, DatasetQuad source q)
    (h : Represents ds (readAll env printed flatten source)) :
    ∃ ρ : Nat → Nat, Set.InjOn ρ {n | ∃ t ∈ source.terms, Printed flatten t ∧ n ∈ nodeBlanks t} ∧
      ds.terms = readQuad env printed flatten ρ '' {t ∈ source.terms | Printed flatten t} := by
  obtain ⟨ρ, hρ⟩ := exists_numbering ds.resources
  have hread {q : Quad} (hq : q ∈ source.namedGraphs) {t : TermQuad N}
      (ht : source.resources.StandsFor q t) (hprinted : Printed flatten t) :
      ∃ q' ∈ ds.namedGraphs,
        AtQuad ds.resources q'
          (quadIn env printed source (graphIn env printed flatten source q) q) ∧
        ds.resources.StandsFor q' (readQuad env printed flatten ρ t) := by
    obtain ⟨hgraph, htype⟩ := (printed_iff ht).mp hprinted
    obtain ⟨q', hq', hat⟩ := h.complete _ ⟨q, hq, hgraph, htype, rfl⟩
    exact ⟨q', hq', hat, standsFor_readQuad (hplain q hq) ht hρ hat⟩
  refine ⟨ρ, ?_, ?_⟩
  · have hnames {n : Nat} (hn : ∃ t ∈ source.terms, Printed flatten t ∧ n ∈ nodeBlanks t) :
        ∃ k, ds.resources.Names ("b" ++ toString n) k := by
      obtain ⟨t, ht, hprinted, hn⟩ := hn
      obtain ⟨q, hq, hstands⟩ := mem_terms.mp ht
      obtain ⟨q', -, hat, -⟩ := hread hq hstands hprinted
      obtain ⟨r, hr, hres⟩ := hstands
      obtain ⟨-, hs, -, ho⟩ := getResourceQuad_eq_some.mp hr
      have hblank {id id' : GraphElementId} {e : GraphElement N} {t : RdfTerm N}
          (he : source.resources.getGraphElement id = some e) (ht : source.resources.Resolves e t)
          (hterm : ∀ k, e ≠ .tripleTerm k)
          (hat : At ds.resources id' (termOf env printed source id)) (hn : n ∈ t.blanks) :
          ∃ k, ds.resources.Names ("b" ++ toString n) k := by
        obtain ⟨e', -, hdenotes⟩ := hat
        rw [termOf_eq he] at hdenotes
        cases ht with
        | iri i => cases hn
        | literal l => cases hn
        | tripleTerm _ _ _ _ _ _ => exact absurd rfl (hterm _)
        | blank n' =>
          cases List.mem_singleton.mp hn
          cases hdenotes with
          | blank hk => exact ⟨_, hk⟩
      obtain ⟨es, _, hs', hsplain, -⟩ := (hplain q hq).subject
      obtain ⟨eo, ho', hoplain⟩ := (hplain q hq).obj
      cases hs.symm.trans hs'
      cases ho.symm.trans ho'
      rcases List.mem_append.mp hn with hn | hn
      · exact hblank hs hres.subject hsplain.1 hat.subject hn
      · exact hblank ho hres.obj hoplain.1 hat.obj hn
    intro n hn n' hn' heq
    obtain ⟨k, hk⟩ := hnames hn
    obtain ⟨k', hk'⟩ := hnames hn'
    rw [hρ n k hk, hρ n' k' hk'] at heq
    subst heq
    have hlabel := congrArg String.toList (h.labelled.apart _ _ _ hk hk')
    rw [String.toList_append, String.toList_append] at hlabel
    exact toString_injective (String.toList_inj.mp (List.append_cancel_left hlabel))
  · ext t'
    constructor
    · intro ht'
      obtain ⟨q', hq', hstands'⟩ := mem_terms.mp ht'
      obtain ⟨l, ⟨q, hq, hgraph, htype, rfl⟩, hat⟩ := h.sound q' hq'
      obtain ⟨t, hstands, -⟩ := (hplain q hq).exists_terms
      refine ⟨t, ⟨mem_terms.mpr ⟨q, hq, hstands⟩, (printed_iff hstands).mpr ⟨hgraph, htype⟩⟩, ?_⟩
      exact (standsFor_readQuad (hplain q hq) hstands hρ hat).unique hstands'
    · rintro ⟨t, ⟨ht, hprinted⟩, rfl⟩
      obtain ⟨q, hq, hstands⟩ := mem_terms.mp ht
      obtain ⟨q', hq', -, hstands'⟩ := hread hq hstands hprinted
      exact mem_terms.mpr ⟨q', hq', hstands'⟩

end Reading

end RdfDatalog.JsonLd
