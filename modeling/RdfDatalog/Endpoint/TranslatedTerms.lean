import RdfDatalog.Store.FreshNodes
import RdfDatalog.Endpoint.SentData
import RdfDatalog.Endpoint.GraphStoreMeaning

namespace RdfDatalog

variable {N : NativeTypes}

inductive NamesIn (elements : List (GraphElement N)) : GraphElementId → RdfTerm N → Prop
  | iri {id : GraphElementId} {i : IriReference} :
    elements[id]? = some (.iri i) → NamesIn elements id (.iri i)
  | blank {id : GraphElementId} {n : Nat} :
    elements[id]? = some (.nodeOrEdge (.anonymousBlankNode n)) → NamesIn elements id (.blank n)
  | literal {id : GraphElementId} {l : RdfLiteral N} :
    elements[id]? = some (.graphLiteral l) → NamesIn elements id (.literal l)
  | tripleTerm {id : GraphElementId} {k : TripleTermKey} {s p o : RdfTerm N} :
    elements[id]? = some (.tripleTerm k) → NamesIn elements k.subject s →
    NamesIn elements k.predicate p → NamesIn elements k.obj o →
    NamesIn elements id (.triple s p o)

/-- Interning appends what is not there. -/
def place (elements : List (GraphElement N)) (e : GraphElement N) : List (GraphElement N) :=
  if e ∈ elements then elements else elements ++ [e]

theorem place_of_mem {elements : List (GraphElement N)} {e : GraphElement N}
    (h : e ∈ elements) : place elements e = elements :=
  if_pos h

theorem mem_place (elements : List (GraphElement N)) (e x : GraphElement N) :
    x ∈ place elements e ↔ x ∈ elements ∨ x = e := by
  unfold place
  split_ifs with h
  · constructor
    · exact Or.inl
    · intro hx
      rcases hx with hx | rfl
      · exact hx
      · exact h
  · rw [List.mem_append, List.mem_singleton]

theorem place_place (elements : List (GraphElement N)) (e : GraphElement N) :
    place (place elements e) e = place elements e :=
  place_of_mem ((mem_place elements e e).mpr (.inr rfl))

theorem mem_foldl_place (es elements : List (GraphElement N)) (x : GraphElement N) :
    x ∈ es.foldl place elements ↔ x ∈ elements ∨ x ∈ es := by
  induction es generalizing elements with
  | nil => simp
  | cons e es ih => rw [List.foldl_cons, ih, mem_place, List.mem_cons, or_assoc]

theorem prefix_foldl_place (es elements : List (GraphElement N)) :
    elements <+: es.foldl place elements := by
  induction es generalizing elements with
  | nil => exact List.prefix_rfl
  | cons e es ih =>
    have hplace : elements <+: place elements e := by
      unfold place
      split_ifs
      · exact List.prefix_rfl
      · exact List.prefix_append _ _
    exact hplace.trans (ih (place elements e))

def QuadResource.elements (r : QuadResource N) : List (GraphElement N) :=
  [r.graph, r.subject, r.predicate, r.obj]

namespace GraphElementManager

theorem addResource_resourceList (m : GraphElementManager N) (e : GraphElement N) :
    (m.addResource e).1.resourceList = place m.resourceList e := by
  unfold addResource
  split
  · next id he => exact (place_of_mem (List.mem_of_getElem? ((m.exact e id).mp he))).symm
  · next he =>
    have hnew : e ∉ m.resourceList := by
      intro hmem
      obtain ⟨i, hi⟩ := List.mem_iff_getElem?.mp hmem
      rw [(m.exact e i).mpr hi] at he
      cases he
    rw [place, if_neg hnew]

variable {m : GraphElementManager N}

theorem namesIn_iff {id : GraphElementId} {t : RdfTerm N} :
    NamesIn m.resourceList id t ↔ ∃ e, m.getGraphElement id = some e ∧ m.Resolves e t := by
  constructor
  · intro h
    induction h with
    | iri h => exact ⟨_, h, .iri _⟩
    | blank h => exact ⟨_, h, .blank _⟩
    | literal h => exact ⟨_, h, .literal _⟩
    | tripleTerm h _ _ _ ihs ihp iho =>
      obtain ⟨es, hes, hs⟩ := ihs
      obtain ⟨ep, hep, hp⟩ := ihp
      obtain ⟨eo, heo, ho⟩ := iho
      exact ⟨_, h, .tripleTerm hes hep heo hs hp ho⟩
  · intro ⟨e, he, h⟩
    induction h generalizing id with
    | iri i => exact .iri he
    | blank n => exact .blank he
    | literal l => exact .literal he
    | tripleTerm hs hp ho _ _ _ ihs ihp iho => exact .tripleTerm he (ihs hs) (ihp hp) (iho ho)

theorem ResolvesQuad.elements {r : QuadResource N} {t : TermQuad N} (h : m.ResolvesQuad r t)
    {e : GraphElement N} (he : e ∈ r.elements) :
    ∃ te, m.Resolves e te ∧ (∀ n ∈ te.blanks, n ∈ t.blanks) ∧
      ∀ (m' : GraphElementManager N) (ρ : Nat → Nat), m'.ResolvesQuad r (t.rename ρ) →
        m'.Resolves e (te.rename ρ) := by
  simp only [QuadResource.elements, List.mem_cons, List.not_mem_nil, or_false] at he
  rcases he with rfl | rfl | rfl | rfl
  · exact ⟨t.graph, h.graph, fun n hn => by simp [TermQuad.blanks, hn], fun _ _ h' => h'.graph⟩
  · exact ⟨t.subject, h.subject, fun n hn => by simp [TermQuad.blanks, hn],
      fun _ _ h' => h'.subject⟩
  · exact ⟨t.predicate, h.predicate, fun n hn => by simp [TermQuad.blanks, hn],
      fun _ _ h' => h'.predicate⟩
  · exact ⟨t.obj, h.obj, fun n hn => by simp [TermQuad.blanks, hn], fun _ _ h' => h'.obj⟩

theorem exists_element_of_blank {r : QuadResource N} {t : TermQuad N} (h : m.ResolvesQuad r t)
    {n : Nat} (hn : n ∈ t.blanks) :
    ∃ e ∈ r.elements, ∃ te, m.Resolves e te ∧ n ∈ te.blanks := by
  simp only [TermQuad.blanks, List.mem_append] at hn
  rcases hn with ((hn | hn) | hn) | hn
  · exact ⟨r.graph, by simp [QuadResource.elements], t.graph, h.graph, hn⟩
  · exact ⟨r.subject, by simp [QuadResource.elements], t.subject, h.subject, hn⟩
  · exact ⟨r.predicate, by simp [QuadResource.elements], t.predicate, h.predicate, hn⟩
  · exact ⟨r.obj, by simp [QuadResource.elements], t.obj, h.obj, hn⟩

end GraphElementManager

namespace Endpoint

open GraphElementManager TermQuad

/-- The quads of `tmp`, graph by graph, as translation visits them. -/
def visited (tmp : Datastore N) : List Quad :=
  tmp.namedGraphs.graphIds.flatMap tmp.namedGraphs.table.getGraph

def elementsOf (tmp : Datastore N) (quads : List Quad) : List (GraphElement N) :=
  (quads.filterMap tmp.resources.getResourceQuad).flatMap QuadResource.elements

/-- The elements of `store`, and after them the new ones of the quads of `tmp`. -/
def layout (store tmp : Datastore N) : List (GraphElement N) :=
  (elementsOf tmp (visited tmp)).foldl place store.resources.resourceList

variable {tmp : Datastore N}

theorem mem_visited {q : Quad} : q ∈ visited tmp ↔ q ∈ tmp.namedGraphs := by
  rw [visited, List.mem_flatMap]
  constructor
  · intro ⟨gid, _, hq⟩
    exact ((mem_getGraph tmp gid q).mp hq).1
  · intro hq
    exact ⟨q.tripleId, (tmp.namedGraphs.mem_graphIds _).mpr ⟨q, hq, rfl⟩,
      (mem_getGraph tmp _ q).mpr ⟨hq, rfl⟩⟩

theorem mem_elementsOf {quads : List Quad} {e : GraphElement N} :
    e ∈ elementsOf tmp quads ↔
      ∃ q ∈ quads, ∃ r, tmp.resources.getResourceQuad q = some r ∧ e ∈ r.elements := by
  simp only [elementsOf, List.mem_flatMap, List.mem_filterMap]
  constructor
  · intro ⟨r, ⟨q, hq, hr⟩, he⟩
    exact ⟨q, hq, r, hr, he⟩
  · intro ⟨q, hq, r, hr, he⟩
    exact ⟨r, ⟨q, hq, hr⟩, he⟩

theorem elementsOf_append (tmp : Datastore N) (quads quads' : List Quad) :
    elementsOf tmp (quads ++ quads') = elementsOf tmp quads ++ elementsOf tmp quads' := by
  simp [elementsOf]

section Carrying

/-- The step from `acc` to `acc'` interns the elements of `quads` and appends the same quads, in
the ids of the store. -/
structure Carries (tmp : Datastore N) (acc acc' : Datastore N × List Quad) (quads : List Quad) :
    Prop where
  laidOut : acc'.1.resources.resourceList =
    (elementsOf tmp quads).foldl place acc.1.resources.resourceList
  carried : ∃ new, acc'.2 = acc.2 ++ new ∧ List.Forall₂ (fun q q' =>
    ∃ r, tmp.resources.getResourceQuad q = some r ∧
      acc'.1.resources.getResourceQuad q' = some r) quads new

variable {tmp : Datastore N} {acc acc' acc'' : Datastore N × List Quad} {quads quads' : List Quad}

theorem Carries.refl (tmp : Datastore N) (acc : Datastore N × List Quad) : Carries tmp acc acc [] :=
  ⟨rfl, [], (List.append_nil _).symm, .nil⟩

theorem Carries.extends (h : Carries tmp acc acc' quads) :
    acc.1.resources.Extends acc'.1.resources := by
  unfold Extends
  rw [h.laidOut]
  exact prefix_foldl_place _ _

theorem Carries.trans (h : Carries tmp acc acc' quads) (h' : Carries tmp acc' acc'' quads') :
    Carries tmp acc acc'' (quads ++ quads') where
  laidOut := by rw [elementsOf_append, List.foldl_append, ← h.laidOut, h'.laidOut]
  carried := by
    obtain ⟨new, hnew, hcarried⟩ := h.carried
    obtain ⟨new', hnew', hcarried'⟩ := h'.carried
    refine ⟨new ++ new', by rw [hnew', hnew, List.append_assoc], ?_⟩
    apply List.rel_append _ hcarried'
    refine hcarried.imp fun q q' hq => ?_
    obtain ⟨r, hr, hr'⟩ := hq
    exact ⟨r, hr, h'.extends.getResourceQuad hr'⟩

theorem carries_translateQuad {g : GraphElementId} {q : Quad} {r : QuadResource N}
    (hr : tmp.resources.getResourceQuad q = some r)
    (hg : acc.1.resources.getGraphElement g = some r.graph) :
    Carries tmp acc (translateQuad tmp g acc q) [q] := by
  obtain ⟨hrg, hrs, hrp, hro⟩ := getResourceQuad_eq_some.mp hr
  obtain ⟨-, -, hquad⟩ := internTriple_spec acc.1 g r.subject r.predicate r.obj hg
  have hstep : translateQuad tmp g acc q =
      ((internTriple acc.1 g r.subject r.predicate r.obj).1,
        acc.2 ++ [(internTriple acc.1 g r.subject r.predicate r.obj).2]) := by
    unfold translateQuad
    rw [hrs, hrp, hro]
  have helements : elementsOf tmp [q] = r.elements := by
    simp [elementsOf, hr]
  rw [hstep]
  constructor
  · have hgraph := place_of_mem (List.mem_of_getElem? hg)
    rw [helements, QuadResource.elements, List.foldl_cons, hgraph]
    simp only [internTriple, Datastore.addResource, addResource_resourceList, List.foldl_cons,
      List.foldl_nil]
  · exact ⟨_, rfl, .cons ⟨r, hr, hquad⟩ .nil⟩

theorem carries_translateQuads {g : GraphElementId}
    (hquads : ∀ q ∈ quads, ∃ r, tmp.resources.getResourceQuad q = some r ∧
      acc.1.resources.getGraphElement g = some r.graph) :
    Carries tmp acc (quads.foldl (translateQuad tmp g) acc) quads := by
  induction quads generalizing acc with
  | nil => exact Carries.refl tmp acc
  | cons q quads ih =>
    obtain ⟨r, hr, hg⟩ := hquads q List.mem_cons_self
    have hstep := carries_translateQuad hr hg
    refine hstep.trans (ih fun q' hq' => ?_)
    obtain ⟨r', hr', hg'⟩ := hquads q' (List.mem_cons_of_mem _ hq')
    exact ⟨r', hr', hstep.extends.getGraphElement hg'⟩

theorem resolveTmpGraphId_resourceList (store : Datastore N) {gid : GraphElementId}
    {ge : GraphElement N} (hgid : tmp.resources.getGraphElement gid = some ge) :
    (resolveTmpGraphId store tmp gid).1.resources.resourceList =
      place store.resources.resourceList ge := by
  unfold resolveTmpGraphId
  split_ifs with hdefault
  · subst hdefault
    cases hgid.symm.trans tmp.resources.defaultGraph
    exact (place_of_mem (List.mem_of_getElem? store.resources.defaultGraph)).symm
  · rw [hgid]
    exact addResource_resourceList store.resources ge

theorem carries_translateGraph (htmp : tmp.Interned) {gid : GraphElementId}
    (hgid : gid ∈ tmp.namedGraphs.graphIds) :
    Carries tmp acc (translateGraph tmp acc gid) (tmp.namedGraphs.table.getGraph gid) := by
  obtain ⟨q, hq, hqg⟩ := (tmp.namedGraphs.mem_graphIds gid).mp hgid
  obtain ⟨r, hr⟩ := Option.isSome_iff_exists.mp (htmp q hq)
  have hge := (getResourceQuad_eq_some.mp hr).1
  rw [hqg] at hge
  obtain ⟨-, -, hget⟩ := resolveTmpGraphId_spec acc.1 tmp hge
  have hlist := resolveTmpGraphId_resourceList acc.1 hge
  have hgraph : ∀ q' ∈ tmp.namedGraphs.table.getGraph gid, ∃ r',
      tmp.resources.getResourceQuad q' = some r' ∧ r'.graph = r.graph := by
    intro q' hq'
    obtain ⟨hmem, hq'g⟩ := (mem_getGraph tmp gid q').mp hq'
    obtain ⟨r', hr'⟩ := Option.isSome_iff_exists.mp (htmp q' hmem)
    have hge' := (getResourceQuad_eq_some.mp hr').1
    rw [hq'g, hge] at hge'
    exact ⟨r', hr', (Option.some.inj hge').symm⟩
  have hquads : Carries tmp ((resolveTmpGraphId acc.1 tmp gid).1, acc.2)
      (translateGraph tmp acc gid) (tmp.namedGraphs.table.getGraph gid) := by
    refine carries_translateQuads fun q' hq' => ?_
    obtain ⟨r', hr', hrg⟩ := hgraph q' hq'
    exact ⟨r', hr', hrg ▸ hget⟩
  refine ⟨?_, hquads.carried⟩
  -- the graph's own element was interned before its first quad, whose graph it is
  rw [hquads.laidOut, hlist]
  have hne := (mem_getGraph tmp gid q).mpr ⟨hq, hqg⟩
  cases hlisted : tmp.namedGraphs.table.getGraph gid with
  | nil =>
    rw [hlisted] at hne
    cases hne
  | cons q' rest =>
    obtain ⟨r', hr', hrg⟩ := hgraph q' (hlisted ▸ List.mem_cons_self)
    have hfirst : elementsOf tmp (q' :: rest) =
        r.graph :: ([r'.subject, r'.predicate, r'.obj] ++ elementsOf tmp rest) := by
      simp [elementsOf, hr', QuadResource.elements, hrg]
    rw [hfirst, List.foldl_cons, List.foldl_cons, place_place]

theorem carries_translateGraphs (htmp : tmp.Interned) {ids : List GraphElementId}
    (hids : ∀ gid ∈ ids, gid ∈ tmp.namedGraphs.graphIds) :
    Carries tmp acc (ids.foldl (translateGraph tmp) acc)
      (ids.flatMap tmp.namedGraphs.table.getGraph) := by
  induction ids generalizing acc with
  | nil => exact Carries.refl tmp acc
  | cons gid ids ih =>
    rw [List.flatMap_cons]
    exact (carries_translateGraph htmp (hids gid List.mem_cons_self)).trans
      (ih fun g hg => hids g (List.mem_cons_of_mem _ hg))

end Carrying

theorem translateToMainIds_carries (store : Datastore N) (htmp : tmp.Interned) :
    (translateToMainIds store tmp).1.resources.resourceList = layout store tmp ∧
      List.Forall₂ (fun q q' => ∃ r, tmp.resources.getResourceQuad q = some r ∧
        (translateToMainIds store tmp).1.resources.getResourceQuad q' = some r)
        (visited tmp) (translateToMainIds store tmp).2 := by
  have h : Carries tmp (store, []) (translateToMainIds store tmp) (visited tmp) :=
    carries_translateGraphs htmp fun _ hg => hg
  obtain ⟨new, hnew, hcarried⟩ := h.carried
  rw [List.nil_append] at hnew
  exact ⟨h.laidOut, hnew ▸ hcarried⟩

/-- The returned quads read in the store as those of `tmp` read there, up to a renaming that keeps
blank nodes apart and takes them to ones that the store did not have. -/
def MergesRenamed (store tmp : Datastore N) : Prop :=
  ∃ ρ : Nat → Nat, Set.InjOn ρ (blanksOf tmp.terms) ∧
    (∀ n ∈ blanksOf tmp.terms, ¬ store.resources.HasBlank (ρ n)) ∧
    List.Forall₂ (fun q q' => ∃ t, tmp.resources.StandsFor q t ∧
        (translateToMainIds store tmp).1.resources.StandsFor q' (t.rename ρ))
      (visited tmp) (translateToMainIds store tmp).2

/-- The blank nodes of `tmp` are not in the store, and the ids inside its triple terms name the
same terms there. -/
structure SharesIds (store tmp : Datastore N) : Prop where
  apart : ∀ n ∈ blanksOf tmp.terms, ¬ store.resources.HasBlank n
  components : ∀ k, .tripleTerm k ∈ elementsOf tmp (visited tmp) →
    ∀ id ∈ [k.subject, k.predicate, k.obj], ∀ t,
      NamesIn tmp.resources.resourceList id t → NamesIn (layout store tmp) id t

section Merging

variable {store tmp : Datastore N}

variable {e : GraphElement N} {m : GraphElementManager N}

theorem resolves_of_visited (htmp : tmp.Resolvable) (he : e ∈ elementsOf tmp (visited tmp)) :
    ∃ te, tmp.resources.Resolves e te ∧ ∀ n ∈ te.blanks, n ∈ blanksOf tmp.terms := by
  obtain ⟨q, hq, r, hr, her⟩ := mem_elementsOf.mp he
  obtain ⟨r', t, hr', ht⟩ := htmp q (mem_visited.mp hq)
  cases hr.symm.trans hr'
  obtain ⟨te, hte, hblanks, -⟩ := ResolvesQuad.elements ht her
  exact ⟨te, hte, fun n hn => ⟨t, ⟨r, mem_resolve.mpr
    ⟨q, (QuadStore.mem_quadList _ q).mpr (mem_visited.mp hq), hr⟩, ht⟩, hblanks n hn⟩⟩

theorem SharesIds.resolves (h : SharesIds store tmp) (hm : m.resourceList = layout store tmp)
    {t : RdfTerm N} (he : e ∈ elementsOf tmp (visited tmp)) (ht : tmp.resources.Resolves e t) :
    m.Resolves e t := by
  have hcomponent {k : TripleTermKey} (hk : .tripleTerm k ∈ elementsOf tmp (visited tmp))
      {id : GraphElementId} (hid : id ∈ [k.subject, k.predicate, k.obj]) {es : GraphElement N}
      {s : RdfTerm N} (hes : tmp.resources.getGraphElement id = some es)
      (hs : tmp.resources.Resolves es s) :
      ∃ e', m.getGraphElement id = some e' ∧ m.Resolves e' s := by
    have hnames := h.components k hk id hid s (namesIn_iff.mpr ⟨es, hes, hs⟩)
    rw [← hm] at hnames
    exact namesIn_iff.mp hnames
  cases ht with
  | iri i => exact .iri i
  | blank n => exact .blank n
  | literal l => exact .literal l
  | tripleTerm hes hep heo hs hp ho =>
    obtain ⟨es', hes', hs'⟩ := hcomponent he (by simp) hes hs
    obtain ⟨ep', hep', hp'⟩ := hcomponent he (by simp) hep hp
    obtain ⟨eo', heo', ho'⟩ := hcomponent he (by simp) heo ho
    exact .tripleTerm hes' hep' heo' hs' hp' ho'

theorem SharesIds.merges (h : SharesIds store tmp) (htmp : tmp.Resolvable) :
    MergesRenamed store tmp := by
  obtain ⟨hlist, hcarried⟩ := translateToMainIds_carries store htmp.interned
  refine ⟨id, Function.injective_id.injOn, h.apart, ?_⟩
  have hstands (q q' : Quad) (hq : q ∈ visited tmp)
      (hqq : ∃ r, tmp.resources.getResourceQuad q = some r ∧
        (translateToMainIds store tmp).1.resources.getResourceQuad q' = some r) :
      ∃ t, tmp.resources.StandsFor q t ∧
        (translateToMainIds store tmp).1.resources.StandsFor q' (t.rename id) := by
    obtain ⟨r, hr, hr'⟩ := hqq
    obtain ⟨r', t, hr'', ht⟩ := htmp q (mem_visited.mp hq)
    cases hr.symm.trans hr''
    have hread {e : GraphElement N} {te : RdfTerm N} (he : e ∈ r.elements)
        (hte : tmp.resources.Resolves e te) :=
      h.resolves hlist (mem_elementsOf.mpr ⟨q, hq, r, hr, he⟩) hte
    refine ⟨t, ⟨r, hr, ht⟩, r, hr', ?_⟩
    rw [TermQuad.rename_id]
    exact ⟨hread (by simp [QuadResource.elements]) ht.graph,
      hread (by simp [QuadResource.elements]) ht.subject,
      hread (by simp [QuadResource.elements]) ht.predicate,
      hread (by simp [QuadResource.elements]) ht.obj⟩
  rw [List.forall₂_iff_get] at hcarried ⊢
  refine ⟨hcarried.1, fun i hi hi' => ?_⟩
  exact hstands _ _ (List.get_mem _ _) (hcarried.2 i hi hi')

theorem MergesRenamed.resolves (hm : m = (translateToMainIds store tmp).1.resources) {ρ : Nat → Nat}
    (htmp : tmp.Interned) (hmerge : List.Forall₂ (fun q q' => ∃ t, tmp.resources.StandsFor q t ∧
      (translateToMainIds store tmp).1.resources.StandsFor q' (t.rename ρ)) (visited tmp)
      (translateToMainIds store tmp).2) {t : RdfTerm N} (he : e ∈ elementsOf tmp (visited tmp))
    (ht : tmp.resources.Resolves e t) : m.Resolves e (t.rename ρ) := by
  subst hm
  obtain ⟨-, hcarried⟩ := translateToMainIds_carries store htmp
  obtain ⟨q, hq, r, hr, her⟩ := mem_elementsOf.mp he
  obtain ⟨i, hi, rfl⟩ := List.mem_iff_getElem.mp hq
  have hi' : i < (translateToMainIds store tmp).2.length := hcarried.length_eq ▸ hi
  obtain ⟨r', hr', hres⟩ := (List.forall₂_iff_get.mp hcarried).2 i hi hi'
  obtain ⟨tq, ⟨r₁, hr₁, htq⟩, r₂, hr₂, htq'⟩ := (List.forall₂_iff_get.mp hmerge).2 i hi hi'
  cases hr'.symm.trans hr
  cases hr₁.symm.trans hr
  cases hr₂.symm.trans hres
  obtain ⟨te, hte, -, hrenamed⟩ := ResolvesQuad.elements htq her
  cases ht.unique hte
  exact hrenamed _ ρ htq'

/-- The renaming moves no blank node: the nodes that translation adds keep their numbers, and the
others were in the store before. -/
theorem renaming_fixed (hm : m.resourceList = layout store tmp) {ρ : Nat → Nat}
    (hinj : Set.InjOn ρ (blanksOf tmp.terms))
    (hfresh : ∀ n ∈ blanksOf tmp.terms, ¬ store.resources.HasBlank (ρ n))
    (hkept : ∀ n, .nodeOrEdge (.anonymousBlankNode n) ∈ elementsOf tmp (visited tmp) → ρ n = n ∧ n ∈
      blanksOf tmp.terms) {t : RdfTerm N} (hblanks : ∀ n ∈ t.blanks, n ∈ blanksOf tmp.terms)
    {id : GraphElementId} (ht : NamesIn m.resourceList id (t.rename ρ)) :
    ∀ n ∈ t.blanks, ρ n = n := by
  induction t generalizing id with
  | iri | literal => exact fun n hn => absurd hn List.not_mem_nil
  | blank k =>
    intro n hn
    obtain rfl := List.mem_singleton.mp hn
    cases ht with
    | blank hid =>
      have hmem := List.mem_of_getElem? hid
      rw [hm, layout, mem_foldl_place] at hmem
      rcases hmem with hold | hnew
      · exact absurd hold (hfresh n (hblanks n hn))
      · obtain ⟨hfix, hmem⟩ := hkept (ρ n) hnew
        exact hinj hmem (hblanks n hn) hfix
  | triple s p o ihs ihp iho =>
    cases ht with
    | tripleTerm _ hs hp ho =>
      intro n hn
      have hsub {part : RdfTerm N} (hpart : ∀ n ∈ part.blanks, n ∈ (RdfTerm.triple s p o).blanks) :
          ∀ n ∈ part.blanks, n ∈ blanksOf tmp.terms :=
        fun n hn => hblanks n (hpart n hn)
      simp only [RdfTerm.blanks, List.mem_append] at hn
      rcases hn with (hn | hn) | hn
      · exact ihs (hsub fun n hn => by simp [RdfTerm.blanks, hn]) hs n hn
      · exact ihp (hsub fun n hn => by simp [RdfTerm.blanks, hn]) hp n hn
      · exact iho (hsub fun n hn => by simp [RdfTerm.blanks, hn]) ho n hn

theorem MergesRenamed.sharesIds (h : MergesRenamed store tmp) (htmp : tmp.Resolvable) :
    SharesIds store tmp := by
  obtain ⟨ρ, hinj, hfresh, hmerge⟩ := h
  obtain ⟨hlist, -⟩ := translateToMainIds_carries store htmp.interned
  have hrenamed {e : GraphElement N} {t : RdfTerm N} (he : e ∈ elementsOf tmp (visited tmp))
      (ht : tmp.resources.Resolves e t) := MergesRenamed.resolves rfl htmp.interned hmerge he ht
  have hkept (n : Nat)
      (hn : .nodeOrEdge (.anonymousBlankNode n) ∈ elementsOf tmp (visited tmp)) :
      ρ n = n ∧ n ∈ blanksOf tmp.terms := by
    obtain ⟨te, hte, hblanks⟩ := resolves_of_visited htmp hn
    cases hte
    have hread := hrenamed hn (.blank n)
    exact ⟨RdfTerm.blank.inj (hread.unique (.blank n)), hblanks n List.mem_cons_self⟩
  have hfixed {t : RdfTerm N} (hblanks : ∀ n ∈ t.blanks, n ∈ blanksOf tmp.terms)
      {id : GraphElementId} (ht : NamesIn _ id (t.rename ρ)) : ∀ n ∈ t.blanks, ρ n = n :=
    renaming_fixed hlist hinj hfresh hkept hblanks ht
  have hplaced {e : GraphElement N} (he : e ∈ elementsOf tmp (visited tmp)) :
      ∃ id, (translateToMainIds store tmp).1.resources.getGraphElement id = some e := by
    refine List.mem_iff_getElem?.mp ?_
    rw [hlist, layout, mem_foldl_place]
    exact .inr he
  constructor
  · intro n hn
    obtain ⟨t, ⟨r, hr, ht⟩, hnt⟩ := id hn
    obtain ⟨q, hq, hqr⟩ := mem_resolve.mp hr
    obtain ⟨e, her, te, hte, hne⟩ := exists_element_of_blank ht hnt
    have he := mem_elementsOf.mpr
      ⟨q, mem_visited.mpr ((QuadStore.mem_quadList _ q).mp hq), r, hqr, her⟩
    obtain ⟨te', hte', hblanks⟩ := resolves_of_visited htmp he
    cases hte.unique hte'
    obtain ⟨i, hi⟩ := hplaced he
    have hfix := hfixed hblanks (namesIn_iff.mpr ⟨e, hi, hrenamed he hte⟩) n hne
    rw [← hfix]
    exact hfresh n hn
  · intro k hk i hi t ht
    obtain ⟨e, he, hte⟩ := namesIn_iff.mp ht
    obtain ⟨tk, htk, hblanks⟩ := resolves_of_visited htmp hk
    have hread := hrenamed hk htk
    cases htk with
    | tripleTerm hs hp ho rs rp ro =>
      cases hread with
      | tripleTerm hs' hp' ho' rs' rp' ro' =>
        -- the component that `i` names, in `tmp` and in the store
        have hcomponent {part : RdfTerm N} {ep ep' : GraphElement N}
            (hpart : tmp.resources.getGraphElement i = some ep)
            (hres : tmp.resources.Resolves ep part)
            (hpart' : (translateToMainIds store tmp).1.resources.getGraphElement i = some ep')
            (hres' : (translateToMainIds store tmp).1.resources.Resolves ep' (part.rename ρ))
            (hsub : ∀ n ∈ part.blanks, n ∈ blanksOf tmp.terms) :
              NamesIn (layout store tmp) i t := by
          cases hpart.symm.trans he
          cases hres.unique hte
          have hnames := namesIn_iff.mpr ⟨ep', hpart', hres'⟩
          have hfix := hfixed hsub hnames
          rw [RdfTerm.rename_congr fun n hn => (hfix n hn).trans (id_eq n).symm,
            RdfTerm.rename_id] at hnames
          exact hlist ▸ hnames
        simp only [RdfTerm.blanks, List.mem_append] at hblanks
        simp only [List.mem_cons, List.not_mem_nil, or_false] at hi
        rcases hi with rfl | rfl | rfl
        · exact hcomponent hs rs hs' rs' fun n hn => hblanks n (.inl (.inl hn))
        · exact hcomponent hp rp hp' rp' fun n hn => hblanks n (.inl (.inr hn))
        · exact hcomponent ho ro ho' ro' fun n hn => hblanks n (.inr hn)

end Merging

/-- Parsed data keeps its meaning in the store exactly when its blank nodes are not there yet and
the ids inside its triple terms happen to name the same terms there. -/
theorem translateToMainIds_merges_iff (store : Datastore N) {tmp : Datastore N}
    (htmp : tmp.Resolvable) : MergesRenamed store tmp ↔ SharesIds store tmp :=
  ⟨fun h => h.sharesIds htmp, fun h => h.merges htmp⟩

theorem translateToMainIds_merges_new :
    MergesRenamed .new blankDocument ↔ SharesIds .new blankDocument :=
  translateToMainIds_merges_iff .new blankDocument_resolvable

/-- The blank node of a document parsed again is taken for the one of the first time. -/
theorem translateToMainIds_captures_blank :
    ¬ ∀ store tmp : Datastore NativeTypes.text, tmp.Resolvable → MergesRenamed store tmp := by
  intro h
  have hshared := (h blankDocument blankDocument blankDocument_resolvable).sharesIds
    blankDocument_resolvable
  have hblank : 1 ∈ blanksOf blankDocument.terms :=
    ⟨⟨.iri defaultGraphIri, .blank 1, .iri "p", .iri "o"⟩,
      ⟨_, by decide, blankDocument_resolves⟩, by decide⟩
  have hthere : blankDocument.resources.HasBlank 1 := by
    unfold HasBlank
    decide
  exact hshared.apart 1 hblank hthere

end Endpoint

end RdfDatalog
