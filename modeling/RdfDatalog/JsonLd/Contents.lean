import RdfDatalog.JsonLd.Parser
import RdfDatalog.Store.NamedNodes

namespace RdfDatalog.JsonLd

open GraphElementManager

variable {N : NativeTypes}

inductive LabelTerm (N : NativeTypes) where
  | iri (i : String)
  | blank (label : String)
  | literal (l : RdfLiteral N)

structure LabelQuad (N : NativeTypes) where
  graph : LabelTerm N
  subject : LabelTerm N
  predicate : LabelTerm N
  obj : LabelTerm N

section Terms

inductive Denotes (m : GraphElementManager N) : LabelTerm N → GraphElement N → Prop
  | iri (i : String) : Denotes m (.iri i) (.iri i)
  | blank {label : String} {n : Nat} :
    m.Names label n → Denotes m (.blank label) (.nodeOrEdge (.anonymousBlankNode n))
  | literal (l : RdfLiteral N) : Denotes m (.literal l) (.graphLiteral l)

variable {m m' : GraphElementManager N} {t : LabelTerm N} {e e' : GraphElement N}

theorem Denotes.mono (hl : m.Labels m') (h : Denotes m t e) : Denotes m' t e := by
  cases h with
  | iri i => exact .iri i
  | literal l => exact .literal l
  | blank hn => exact .blank (hl.names _ _ hn)

def At (m : GraphElementManager N) (id : GraphElementId) (t : LabelTerm N) : Prop :=
  ∃ e, m.getGraphElement id = some e ∧ Denotes m t e

theorem At.mono {id : GraphElementId} (hl : m.Labels m') (h : At m id t) : At m' id t := by
  obtain ⟨e, he, ht⟩ := h
  exact ⟨e, hl.extended.getGraphElement he, ht.mono hl⟩

structure AtQuad (m : GraphElementManager N) (q : Quad) (l : LabelQuad N) : Prop where
  graph : At m q.tripleId l.graph
  subject : At m q.subject l.subject
  predicate : At m q.predicate l.predicate
  obj : At m q.obj l.obj

theorem AtQuad.mono {q : Quad} {l : LabelQuad N} (hl : m.Labels m') (h : AtQuad m q l) :
    AtQuad m' q l :=
  ⟨h.graph.mono hl, h.subject.mono hl, h.predicate.mono hl, h.obj.mono hl⟩

end Terms

/-- The store holds these quads and no others. -/
structure Represents (ds : Datastore N) (S : Set (LabelQuad N)) : Prop where
  labelled : ds.resources.Labelled
  sound : ∀ q ∈ ds.namedGraphs, ∃ l ∈ S, AtQuad ds.resources q l
  complete : ∀ l ∈ S, ∃ q ∈ ds.namedGraphs, AtQuad ds.resources q l

/-- From one store to the next: labels stay, and these quads are added. -/
structure Adds (ds ds' : Datastore N) (S A : Set (LabelQuad N)) : Prop where
  represents : Represents ds' (S ∪ A)
  labels : ds.resources.Labels ds'.resources

/-- An element is interned, and nothing else happens. -/
structure Interning (ds : Datastore N) (result : Datastore N × GraphElementId)
    (t : LabelTerm N) : Prop where
  namedGraphs : result.1.namedGraphs = ds.namedGraphs
  labels : ds.resources.Labels result.1.resources
  labelled : result.1.resources.Labelled
  term : At result.1.resources result.2 t

section Steps

variable {ds ds' ds'' : Datastore N} {S A B : Set (LabelQuad N)}

theorem represents_new : Represents (Datastore.new : Datastore N) ∅ := by
  refine ⟨⟨?_, ?_, ?_⟩, fun q hq => absurd hq (QuadStore.not_mem_new q), fun l hl => hl.elim⟩
  · intro n hn
    cases hn with
    | tail _ h => cases h
  · intro name id hid
    cases hid
  · intro l l' n ⟨id, hid, _⟩
    cases hid

theorem Represents.keep (h : Represents ds S) (hn : ds'.namedGraphs = ds.namedGraphs)
    (hl : ds.resources.Labels ds'.resources) (hlabelled : ds'.resources.Labelled) :
    Represents ds' S := by
  refine ⟨hlabelled, fun q hq => ?_, fun l hmem => ?_⟩
  · rw [hn] at hq
    obtain ⟨l, hmem, hat⟩ := h.sound q hq
    exact ⟨l, hmem, hat.mono hl⟩
  · obtain ⟨q, hq, hat⟩ := h.complete l hmem
    rw [hn]
    exact ⟨q, hq, hat.mono hl⟩

theorem Represents.interned (h : Represents ds S) {result : Datastore N × GraphElementId}
    {t : LabelTerm N} (hi : Interning ds result t) : Represents result.1 S :=
  h.keep hi.namedGraphs hi.labels hi.labelled

theorem Represents.refl (h : Represents ds S) : Adds ds ds S ∅ := by
  refine ⟨?_, .refl _⟩
  rw [Set.union_empty]
  exact h

theorem Adds.trans (h : Adds ds ds' S A) (h' : Adds ds' ds'' (S ∪ A) B) :
    Adds ds ds'' S (A ∪ B) := by
  refine ⟨?_, h.labels.trans h'.labels⟩
  rw [← Set.union_assoc]
  exact h'.represents

theorem Adds.after {t : LabelTerm N} {result : Datastore N × GraphElementId}
    (hi : Interning ds result t) (h : Adds result.1 ds' S A) : Adds ds ds' S A :=
  ⟨h.represents, hi.labels.trans h.labels⟩

theorem Adds.congr (h : Adds ds ds' S A) (heq : A = B) : Adds ds ds' S B := heq ▸ h

/-- The graph a triple is added to. -/
def GraphAt (m : GraphElementManager N) (graph : Option GraphElementId) (t : LabelTerm N) : Prop :=
  At m (graph.getD defaultGraphElementId) t

theorem GraphAt.mono {m m' : GraphElementManager N} {graph : Option GraphElementId}
    {t : LabelTerm N} (hl : m.Labels m') (h : GraphAt m graph t) : GraphAt m' graph t :=
  At.mono hl h

theorem graphAt_none (m : GraphElementManager N) : GraphAt m none (.iri defaultGraphIri) :=
  ⟨_, m.defaultGraph, .iri _⟩

theorem Represents.addToGraph (h : Represents ds S) {graph : Option GraphElementId}
    {s p o : GraphElementId} {l : LabelQuad N} (hg : GraphAt ds.resources graph l.graph)
    (hs : At ds.resources s l.subject) (hp : At ds.resources p l.predicate)
    (ho : At ds.resources o l.obj) : Adds ds (addToGraph ds graph s p o) S {l} := by
  have hat : AtQuad ds.resources ⟨graph.getD defaultGraphElementId, s, p, o⟩ l := ⟨hg, hs, hp, ho⟩
  refine ⟨⟨h.labelled, fun q hq => ?_, fun l' hl' => ?_⟩, .refl _⟩
  · rcases (QuadStore.mem_addQuad ..).mp hq with hq | rfl
    · obtain ⟨l', hl', hat'⟩ := h.sound q hq
      exact ⟨l', .inl hl', hat'⟩
    · exact ⟨l, .inr rfl, hat⟩
  · rcases hl' with hl' | rfl
    · obtain ⟨q, hq, hat'⟩ := h.complete l' hl'
      exact ⟨q, (QuadStore.mem_addQuad ..).mpr (.inl hq), hat'⟩
    · exact ⟨_, (QuadStore.mem_addQuad ..).mpr (.inr rfl), hat⟩

theorem Represents.foldlM {ι : Type} {f : Datastore N → ι → Except String (Datastore N)}
    {F : ι → Set (LabelQuad N)} {l : List ι} {origin : GraphElementManager N}
    (hstep : ∀ i ∈ l, ∀ ds S, Represents ds S → origin.Labels ds.resources →
      ∃ ds', f ds i = .ok ds' ∧ Adds ds ds' S (F i))
    (h : Represents ds S) (horigin : origin.Labels ds.resources) :
    ∃ ds', l.foldlM f ds = .ok ds' ∧ Adds ds ds' S {x | ∃ i ∈ l, x ∈ F i} := by
  induction l generalizing ds S with
  | nil =>
    refine ⟨ds, rfl, h.refl.congr ?_⟩
    ext x
    simp
  | cons i l ih =>
    obtain ⟨ds₁, hfirst, hadds⟩ := hstep i (.head l) ds S h horigin
    obtain ⟨ds₂, hrest, hadds'⟩ := ih (fun j hj => hstep j (.tail i hj)) hadds.represents
      (horigin.trans hadds.labels)
    refine ⟨ds₂, ?_, (hadds.trans hadds').congr ?_⟩
    · rw [List.foldlM_cons, hfirst]
      exact hrest
    · ext x
      simp

theorem Represents.foldl {ι : Type} {f : Datastore N → ι → Datastore N}
    {F : ι → Set (LabelQuad N)} {l : List ι} {origin : GraphElementManager N}
    (hstep : ∀ i ∈ l, ∀ ds S, Represents ds S → origin.Labels ds.resources →
      Adds ds (f ds i) S (F i))
    (h : Represents ds S) (horigin : origin.Labels ds.resources) :
    Adds ds (l.foldl f ds) S {x | ∃ i ∈ l, x ∈ F i} := by
  induction l generalizing ds S with
  | nil =>
    refine h.refl.congr ?_
    ext x
    simp
  | cons i l ih =>
    have hadds := hstep i (.head l) ds S h horigin
    have hadds' := ih (fun j hj => hstep j (.tail i hj)) hadds.represents
      (horigin.trans hadds.labels)
    refine (hadds.trans hadds').congr ?_
    ext x
    simp

end Steps

section Interning

variable {ds : Datastore N}

variable (h : ds.resources.Labelled)

include h

theorem addResource_interning {e : GraphElement N} {t : LabelTerm N}
    (he : ∀ n, e ≠ .nodeOrEdge (.anonymousBlankNode n))
    (ht : Denotes (ds.addResource e).1.resources t e) : Interning ds (ds.addResource e) t :=
  ⟨rfl, labels_addResource h.named e, h.addResource he, e, addResource_get ds.resources e, ht⟩

theorem internIri_interning (iri : String) :
    Interning ds (internIri ds iri) (.iri iri) :=
  addResource_interning h nofun (.iri iri)

theorem addLiteral_interning (l : RdfLiteral N) :
    Interning ds (addLiteral ds l) (.literal l) :=
  addResource_interning h nofun (.literal l)

theorem internBlankNode_interning (label : String) :
    Interning ds (internBlankNode ds ("_:" ++ label)) (.blank label) := by
  have hblank : isBlankNodeId ("_:" ++ label) = true := by
    rw [isBlankNodeId, String.toList_append, List.isPrefixOf_iff_prefix]
    exact List.prefix_append _ _
  have hlabel : String.ofList (("_:" ++ label).toList.drop 2) = label := by
    rw [String.toList_append]
    exact String.ofList_toList
  obtain ⟨hlabelled, hlabels, n, hn, hget⟩ := getOrCreateNamed_labels h label
  rw [internBlankNode, if_pos hblank, hlabel]
  exact ⟨rfl, hlabels, hlabelled, _, hget, .blank hn⟩

omit h

theorem Represents.newAnonymousBlankNode {S : Set (LabelQuad N)} (h : Represents ds S) :
    Represents (newAnonymousBlankNode ds).1 S ∧
      ds.resources.Labels (newAnonymousBlankNode ds).1.resources := by
  have hl := h.labelled
  have hcount : ({ ds.resources with
      anonResourceCount := ds.resources.anonResourceCount + 1 } :
        GraphElementManager N).NamesBlankNodes := hl.named
  have hlabels : ds.resources.Labels ds.resources.createUnnamedAnonResource.1 := by
    obtain ⟨hext, hnames, hfresh⟩ := labels_addResource hcount
      (.nodeOrEdge (.anonymousBlankNode (ds.resources.anonResourceCount + 1)))
    exact ⟨hext, hnames, hfresh⟩
  have hlabelled : ds.resources.createUnnamedAnonResource.1.Labelled := by
    refine ⟨?_, hl.named.createUnnamed, ?_⟩
    · intro n hn
      rw [(createUnnamedAnonResource_spec ds.resources).2]
      rcases mem_addResource hn with hold | hnew
      · exact (hl.fresh n hold).trans (Nat.le_succ _)
      · cases hnew
        exact le_rfl
    · intro l l' n hn hn'
      exact hl.apart l l' n ((names_addResource hcount _ l n).mp hn)
        ((names_addResource hcount _ l' n).mp hn')
  exact ⟨h.keep rfl hlabels hlabelled, hlabels⟩

end Interning

end RdfDatalog.JsonLd
