import RdfDatalog.Endpoint.SparqlUpdate
import RdfDatalog.Store.TermQuads
import RdfDatalog.Math.DeltaBuffer

namespace RdfDatalog

open GraphElementManager

variable {N : NativeTypes}

theorem Datastore.addResource_extends (ds : Datastore N) (e : GraphElement N) :
    ds.resources.Extends (ds.addResource e).1.resources :=
  ds.resources.addResource_extends e

theorem Datastore.addResource_get (ds : Datastore N) (e : GraphElement N) :
    (ds.addResource e).1.resources.getGraphElement (ds.addResource e).2 = some e :=
  ds.resources.addResource_get e

namespace GraphElementManager

theorem resolve_append (m : GraphElementManager N) (l l' : List Quad) :
    m.resolve (l ++ l') = m.resolve l ∪ m.resolve l' := by
  ext r
  simp only [mem_resolve, List.mem_append, Finset.mem_union, or_and_right, exists_or]

theorem resolve_singleton {m : GraphElementManager N} {q : Quad} {r : QuadResource N}
    (h : m.getResourceQuad q = some r) : m.resolve [q] = {r} := by
  ext r'
  simp only [mem_resolve, List.mem_singleton, exists_eq_left, h, Option.some.injEq,
    Finset.mem_singleton]
  exact eq_comm

theorem Interned.of_eq_some {m : GraphElementManager N} {q : Quad} {r : QuadResource N}
    (h : m.getResourceQuad q = some r) : m.Interned q :=
  Option.isSome_iff_exists.mpr ⟨r, h⟩

end GraphElementManager

namespace Datastore

variable {ds : Datastore N}

theorem Interned.extends {ds' : Datastore N} (h : ds.Interned)
    (hgraphs : ds'.namedGraphs = ds.namedGraphs) (hext : ds.resources.Extends ds'.resources) :
    ds'.Interned := by
  intro q hq
  rw [hgraphs] at hq
  exact (h q hq).extends hext

theorem Interned.addQuad (h : ds.Interned) {q : Quad} {r : QuadResource N}
    (hr : ds.resources.getResourceQuad q = some r) : (ds.addQuad q).Interned := by
  intro q' hq'
  cases (ds.namedGraphs.mem_addQuad q q').mp hq' with
  | inl hq' => exact h q' hq'
  | inr hq' =>
    subst hq'
    exact Interned.of_eq_some hr

theorem Interned.removeQuad (h : ds.Interned) (q : Quad) :
    (ds.removeQuad q).Interned := by
  intro q' hq'
  exact h q' ((ds.namedGraphs.mem_removeQuad q q').mp hq').1

theorem resolved_removeQuad (ds : Datastore N) {q : Quad} {r : QuadResource N}
    (hr : ds.resources.getResourceQuad q = some r) :
    (ds.removeQuad q).resolved = ds.resolved \ {r} := by
  ext x
  change x ∈ ds.resources.resolve (ds.namedGraphs.removeQuad q).quadList ↔ _
  rw [Finset.mem_sdiff, Datastore.resolved, mem_resolve, mem_resolve, Finset.mem_singleton]
  simp only [QuadStore.mem_quadList, QuadStore.mem_removeQuad]
  constructor
  · rintro ⟨q', ⟨hq, hne⟩, hx⟩
    exact ⟨⟨q', hq, hx⟩, fun heq => hne (getResourceQuad_inj (heq ▸ hx) hr)⟩
  · rintro ⟨⟨q', hq, hx⟩, hne⟩
    refine ⟨q', ⟨hq, fun heq => hne ?_⟩, hx⟩
    rw [heq, hr] at hx
    exact (Option.some.inj hx).symm

end Datastore

namespace Endpoint

open DeltaBuffer

/-- `result` holds quads that stand for `r` in a store that only interned more elements. -/
structure Translated (store : Datastore N) (result : Datastore N × List Quad)
    (r : Finset (QuadResource N)) : Prop where
  namedGraphs : result.1.namedGraphs = store.namedGraphs
  extended : store.resources.Extends result.1.resources
  interned : ∀ q ∈ result.2, result.1.resources.Interned q
  resolved : result.1.resources.resolve result.2 = r

theorem Translated.start (store : Datastore N) : Translated store (store, []) ∅ :=
  ⟨rfl, Extends.refl _, by simp, by simp [resolve]⟩

variable {store tmp : Datastore N} {acc : Datastore N × List Quad} {r : Finset (QuadResource N)}
  {ge : GraphElement N} {g : GraphElementId} {done : List Quad}

theorem Translated.weaken {store' : Datastore N} (h : Translated store acc r)
    (hgraphs : store'.namedGraphs = acc.1.namedGraphs)
    (hext : acc.1.resources.Extends store'.resources) : Translated store (store', acc.2) r where
  namedGraphs := hgraphs.trans h.namedGraphs
  extended := h.extended.trans hext
  interned q hq := (h.interned q hq).extends hext
  resolved := (resolve_extends hext h.interned).trans h.resolved

theorem internTriple_spec (store : Datastore N) (g : GraphElementId) (s p o : GraphElement N)
    (hg : store.resources.getGraphElement g = some ge) :
    (internTriple store g s p o).1.namedGraphs = store.namedGraphs ∧
    store.resources.Extends (internTriple store g s p o).1.resources ∧
    (internTriple store g s p o).1.resources.getResourceQuad (internTriple store g s p o).2 =
      some ⟨ge, s, p, o⟩ := by
  have h1 := store.addResource_extends s
  have hs := store.addResource_get s
  have h2 := (store.addResource s).1.addResource_extends p
  have hp := (store.addResource s).1.addResource_get p
  have h3 := ((store.addResource s).1.addResource p).1.addResource_extends o
  have ho := ((store.addResource s).1.addResource p).1.addResource_get o
  refine ⟨rfl, h1.trans (h2.trans h3), getResourceQuad_eq_some.mpr ⟨?_, ?_, ?_, ho⟩⟩
  · exact (h1.trans (h2.trans h3)).getGraphElement hg
  · exact (h2.trans h3).getGraphElement hs
  · exact h3.getGraphElement hp

theorem Translated.push (h : Translated store acc r) (s p o : GraphElement N)
    (hg : acc.1.resources.getGraphElement g = some ge) :
    Translated store
      ((internTriple acc.1 g s p o).1, acc.2 ++ [(internTriple acc.1 g s p o).2])
      (r ∪ {⟨ge, s, p, o⟩}) := by
  obtain ⟨hgraphs, hext, hquad⟩ := internTriple_spec acc.1 g s p o hg
  have hw := h.weaken hgraphs hext
  refine ⟨hw.namedGraphs, hw.extended, ?_, ?_⟩
  · intro q hq
    rcases List.mem_append.mp hq with hq | hq
    · exact hw.interned q hq
    · obtain rfl := List.mem_singleton.mp hq
      exact Interned.of_eq_some hquad
  · rw [resolve_append, hw.resolved, resolve_singleton hquad]

variable (h : Translated store acc (tmp.resources.resolve done))

include h

theorem Translated.translateQuad {q : Quad}
    (hq : tmp.resources.Interned q)
    (hg : acc.1.resources.getGraphElement g = tmp.resources.getGraphElement q.tripleId) :
    Translated store (translateQuad tmp g acc q) (tmp.resources.resolve (done ++ [q])) := by
  obtain ⟨r, hr⟩ := Option.isSome_iff_exists.mp hq
  obtain ⟨hrg, hrs, hrp, hro⟩ := getResourceQuad_eq_some.mp hr
  rw [resolve_append, resolve_singleton hr]
  unfold Endpoint.translateQuad
  rw [hrs, hrp, hro]
  exact h.push r.subject r.predicate r.obj (hg.trans hrg)

theorem Translated.translateQuads
    {quads : List Quad} (hq : ∀ q ∈ quads, tmp.resources.Interned q) (hg : ∀ q ∈ quads,
      acc.1.resources.getGraphElement g = tmp.resources.getGraphElement q.tripleId) :
    Translated store (quads.foldl (Endpoint.translateQuad tmp g) acc)
      (tmp.resources.resolve (done ++ quads)) := by
  induction quads generalizing acc done with
  | nil => simpa using h
  | cons q quads ih =>
    have hq1 := hq q List.mem_cons_self
    have hg1 := hg q List.mem_cons_self
    have hstep := h.translateQuad hq1 hg1
    have hkeep : (Endpoint.translateQuad tmp g acc q).1.resources.getGraphElement g =
        acc.1.resources.getGraphElement g := by
      obtain ⟨r, hr⟩ := Option.isSome_iff_exists.mp hq1
      obtain ⟨hrg, hrs, hrp, hro⟩ := getResourceQuad_eq_some.mp hr
      obtain ⟨-, hext, -⟩ :=
        internTriple_spec acc.1 g r.subject r.predicate r.obj (hg1.trans hrg)
      rw [hg1, hrg]
      unfold Endpoint.translateQuad
      rw [hrs, hrp, hro]
      exact hext.getGraphElement (hg1.trans hrg)
    have hrest := ih hstep (fun q hm => hq q (List.mem_cons_of_mem _ hm))
      (fun q hm => hkeep.trans (hg q (List.mem_cons_of_mem _ hm)))
    simpa using hrest

omit h

theorem resolveTmpGraphId_spec (store tmp : Datastore N) {gid : GraphElementId}
    (hgid : tmp.resources.getGraphElement gid = some ge) :
    (resolveTmpGraphId store tmp gid).1.namedGraphs = store.namedGraphs ∧
    store.resources.Extends (resolveTmpGraphId store tmp gid).1.resources ∧
    (resolveTmpGraphId store tmp gid).1.resources.getGraphElement
      (resolveTmpGraphId store tmp gid).2 = some ge := by
  unfold resolveTmpGraphId
  split_ifs with h
  · refine ⟨rfl, Extends.refl _, ?_⟩
    rw [h] at hgid
    rw [← hgid]
    exact store.resources.defaultGraph.trans tmp.resources.defaultGraph.symm
  · rw [hgid]
    exact ⟨rfl, store.addResource_extends ge, store.addResource_get ge⟩

theorem mem_getGraph (tmp : Datastore N) (gid : GraphElementId) (q : Quad) :
    q ∈ tmp.namedGraphs.table.getGraph gid ↔ q ∈ tmp.namedGraphs ∧ q.tripleId = gid :=
  (tmp.namedGraphs.wellFormed.exactLookups.graph gid).mem q

include h

theorem Translated.translateGraph
    (htmp : tmp.Interned) (gid : GraphElementId) (hgid : gid ∈ tmp.namedGraphs.graphIds) :
    Translated store (translateGraph tmp acc gid)
      (tmp.resources.resolve (done ++ tmp.namedGraphs.table.getGraph gid)) := by
  obtain ⟨q, hq, hqg⟩ := (tmp.namedGraphs.mem_graphIds gid).mp hgid
  obtain ⟨r, hr⟩ := Option.isSome_iff_exists.mp (htmp q hq)
  have hge := (getResourceQuad_eq_some.mp hr).1
  rw [hqg] at hge
  obtain ⟨hgraphs, hext, hget⟩ := resolveTmpGraphId_spec acc.1 tmp hge
  refine (h.weaken hgraphs hext).translateQuads ?_ ?_
  · intro q hq
    exact htmp q ((mem_getGraph tmp gid q).mp hq).1
  · intro q hq
    rw [((mem_getGraph tmp gid q).mp hq).2]
    exact hget.trans hge.symm

theorem Translated.translateGraphs
    (htmp : tmp.Interned) (ids : List GraphElementId)
    (hids : ∀ gid ∈ ids, gid ∈ tmp.namedGraphs.graphIds) :
    Translated store (ids.foldl (Endpoint.translateGraph tmp) acc)
      (tmp.resources.resolve (done ++ ids.flatMap tmp.namedGraphs.table.getGraph)) := by
  induction ids generalizing acc done with
  | nil => simpa using h
  | cons gid ids ih =>
    have hstep := h.translateGraph htmp gid (hids gid List.mem_cons_self)
    have hrest := ih hstep fun g hg => hids g (List.mem_cons_of_mem _ hg)
    simpa using hrest

omit h

theorem translateToMainIds_spec (store : Datastore N) (htmp : tmp.Interned) :
    Translated store (translateToMainIds store tmp) tmp.resolved := by
  have hstart : Translated store (store, []) (tmp.resources.resolve []) := Translated.start store
  have h := hstart.translateGraphs htmp tmp.namedGraphs.graphIds fun _ hg => hg
  have heq : tmp.resources.resolve
      ([] ++ tmp.namedGraphs.graphIds.flatMap tmp.namedGraphs.table.getGraph) = tmp.resolved := by
    ext r
    simp only [List.nil_append, Datastore.resolved, mem_resolve, List.mem_flatMap,
      QuadStore.mem_quadList]
    refine exists_congr fun q => and_congr_left fun _ => ?_
    constructor
    · intro ⟨gid, _, hq⟩
      exact ((mem_getGraph tmp gid q).mp hq).1
    · intro hq
      exact ⟨q.tripleId, (tmp.namedGraphs.mem_graphIds _).mpr ⟨q, hq, rfl⟩,
        (mem_getGraph tmp _ q).mpr ⟨hq, rfl⟩⟩
  rw [← heq]
  exact h

def templateQuads (triples : List (GraphElement N × GraphElement N × GraphElement N)) :
    Finset (QuadResource N) :=
  (triples.map fun t => ⟨.iri defaultGraphIri, t.1, t.2.1, t.2.2⟩).toFinset

theorem Translated.groundAll (h : Translated store acc r)
    (triples : List (GraphElement N × GraphElement N × GraphElement N)) :
    Translated store (triples.foldl groundNext acc) (r ∪ templateQuads triples) := by
  induction triples generalizing acc r with
  | nil =>
    have hnil : r ∪ templateQuads [] = r := Finset.union_empty r
    rw [hnil]
    exact h
  | cons t triples ih =>
    have hstep : Translated store (groundNext acc t) _ :=
      h.push t.1 t.2.1 t.2.2 acc.1.resources.defaultGraph
    have hcons : r ∪ templateQuads (t :: triples) =
        r ∪ {⟨.iri defaultGraphIri, t.1, t.2.1, t.2.2⟩} ∪ templateQuads triples := by
      ext x
      simp [templateQuads]
    rw [hcons]
    exact ih hstep

theorem groundQuads_spec (store : Datastore N)
    (triples : List (GraphElement N × GraphElement N × GraphElement N)) :
    Translated store (groundQuads store triples) (templateQuads triples) := by
  have h := (Translated.start store).groundAll triples
  rw [Finset.empty_union] at h
  exact h

def moveTo (ge : GraphElement N) (r : QuadResource N) : QuadResource N := { r with graph := ge }

/-- The quads of one graph, moved into graph `g`. A quad with an element that is not interned is
left out. -/
theorem Translated.moveQuads (h : Translated store acc r)
    (hg : acc.1.resources.getGraphElement g = some ge) {quads : List Quad}
    (hq : ∀ q ∈ quads, (tmp.resources.getGraphElement q.tripleId).isSome) :
    Translated store (quads.foldl (Endpoint.translateQuad tmp g) acc)
      (r ∪ (tmp.resources.resolve quads).image (moveTo ge)) := by
  induction quads generalizing acc r with
  | nil =>
    have hnil : r ∪ (tmp.resources.resolve []).image (moveTo ge) = r := by simp [resolve]
    rw [hnil]
    exact h
  | cons q quads ih =>
    have hrest := fun q' hm => hq q' (List.mem_cons_of_mem q hm)
    obtain ⟨qg, hqg⟩ := Option.isSome_iff_exists.mp (hq q List.mem_cons_self)
    rw [List.foldl_cons]
    cases hr : tmp.resources.getResourceQuad q with
    | none =>
      have hskip : Endpoint.translateQuad tmp g acc q = acc := by
        unfold Endpoint.translateQuad
        split
        · next s p o hs hp ho =>
          have hsome : tmp.resources.getResourceQuad q = some ⟨qg, s, p, o⟩ :=
            getResourceQuad_eq_some.mpr ⟨hqg, hs, hp, ho⟩
          rw [hr] at hsome
          cases hsome
        · rfl
      have hsame : tmp.resources.resolve (q :: quads) = tmp.resources.resolve quads := by
        rw [resolve, List.filterMap_cons_none hr, resolve]
      rw [hskip, hsame]
      exact ih h hg hrest
    | some x =>
      obtain ⟨-, hs, hp, ho⟩ := getResourceQuad_eq_some.mp hr
      have hpush := h.push x.subject x.predicate x.obj hg
      obtain ⟨-, hext, -⟩ := internTriple_spec acc.1 g x.subject x.predicate x.obj hg
      have hstep : Endpoint.translateQuad tmp g acc q =
          ((internTriple acc.1 g x.subject x.predicate x.obj).1,
            acc.2 ++ [(internTriple acc.1 g x.subject x.predicate x.obj).2]) := by
        unfold Endpoint.translateQuad
        rw [hs, hp, ho]
      have hcons : tmp.resources.resolve (q :: quads) = {x} ∪ tmp.resources.resolve quads := by
        rw [← resolve_singleton hr, ← resolve_append, List.singleton_append]
      rw [hstep, hcons, Finset.image_union, Finset.image_singleton, ← Finset.union_assoc]
      exact ih hpush (hext.getGraphElement hg) hrest

theorem Translated.moveDefaultGraph (h : Translated store acc r) (tmp : Datastore N)
    (hg : acc.1.resources.getGraphElement g = some ge) :
    Translated store ((tmp.namedGraphs.table.getGraph defaultGraphElementId).foldl
        (Endpoint.translateQuad tmp g) acc)
      (r ∪ (tmp.resources.resolve (tmp.namedGraphs.table.getGraph defaultGraphElementId)).image
        (moveTo ge)) := by
  refine h.moveQuads hg fun q hq => ?_
  rw [((mem_getGraph tmp _ q).mp hq).2, Option.isSome_iff_exists]
  exact ⟨_, tmp.resources.defaultGraph⟩

end Endpoint

end RdfDatalog
