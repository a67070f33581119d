import RdfDatalog.Endpoint.AssertedUpdates
import RdfDatalog.Endpoint.Generation

namespace RdfDatalog.Endpoint

open DeltaBuffer GraphElementManager Datalog Datalog.IncrementalReasoner

variable {N : NativeTypes} {Expr : Type}

section Entries

variable {tmp : Datastore N}

/-- Entries that insert the quads of `R`, each of them, and no other quad. -/
structure Inserting (entries : List LogEntry) (R : Finset (QuadResource N)) : Prop where
  sound : ∀ entry ∈ entries, ∃ r ∈ R, entry.effect = .insert {r}
  complete : ∀ r ∈ R, ∃ entry ∈ entries, entry.effect = .insert {r}

variable {entries : List LogEntry} {R : Finset (QuadResource N)}

theorem Inserting.replay (h : Inserting entries R) (A : Finset (QuadResource N)) :
    replay A entries = A ∪ R := by
  ext x
  rw [mem_replay_inserts fun entry he => (h.sound entry he).imp fun _ hr => hr.2,
    Finset.mem_union]
  refine or_congr_right ⟨?_, h.complete x⟩
  intro ⟨entry, hentry, he⟩
  obtain ⟨r, hr, hr'⟩ := h.sound entry hentry
  have hxr : x = r := by simpa using he.symm.trans hr'
  exact hxr ▸ hr

theorem Inserting.replay_kept (h : Inserting entries R) (A : Finset (QuadResource N)) :
    Endpoint.replay A entries = A.filter (fun _ => false = false) ∪ R := by
  have hkept : A.filter (fun _ => false = false) = A := Finset.filter_true_of_mem fun _ _ => rfl
  rw [hkept]
  exact h.replay A

theorem quadEntry_moved (dataset : String) (graph : Option String) {q : Quad} {r : QuadResource N}
    (hr : tmp.resources.getResourceQuad q = some r) (hrec : Recordable r) :
    ∃ s p o, quadEntry .insertQuad dataset tmp graph q = some (.insertQuad dataset graph s p o) ∧
      (⟨logGraph graph, fromRepr s, fromRepr p, fromRepr o⟩ : QuadResource N) =
        moveTo (logGraph graph) r := by
  obtain ⟨-, hs, hp, ho⟩ := getResourceQuad_eq_some.mp hr
  refine ⟨toRepr r.subject, toRepr r.predicate, toRepr r.obj, ?_, ?_⟩
  · unfold quadEntry
    rw [hs, hp, ho]
  · rw [fromRepr_toRepr hrec.subject, fromRepr_toRepr hrec.predicate, fromRepr_toRepr hrec.obj]
    rfl

theorem inserting_moved (h : RecordableStore tmp) (dataset : String) (graph : Option String)
    {quads : List Quad} (hquads : ∀ q ∈ quads, q ∈ tmp.namedGraphs) :
    Inserting (quads.filterMap (quadEntry .insertQuad dataset tmp graph))
      ((tmp.resources.resolve quads).image (moveTo (logGraph graph))) := by
  constructor
  · intro entry hentry
    obtain ⟨q, hq, he⟩ := List.mem_filterMap.mp hentry
    obtain ⟨r, hr, hrec⟩ := h q (hquads q hq)
    obtain ⟨s, p, o, hquad, hres⟩ := quadEntry_moved dataset graph hr hrec
    obtain rfl := Option.some.inj (hquad.symm.trans he)
    refine ⟨_, Finset.mem_image_of_mem _ (mem_resolve.mpr ⟨q, hq, hr⟩), ?_⟩
    rw [← hres]
    rfl
  · intro x hx
    obtain ⟨r, hr, rfl⟩ := Finset.mem_image.mp hx
    obtain ⟨q, hq, hr⟩ := mem_resolve.mp hr
    obtain ⟨r', hr', hrec⟩ := h q (hquads q hq)
    cases hr.symm.trans hr'
    obtain ⟨s, p, o, hquad, hres⟩ := quadEntry_moved dataset graph hr hrec
    refine ⟨_, List.mem_filterMap.mpr ⟨q, hq, hquad⟩, ?_⟩
    rw [← hres]
    rfl

theorem inserting_dataset (h : RecordableStore tmp) (dataset : String) :
    Inserting (tmp.namedGraphs.quadList.filterMap fun q =>
      quadEntry .insertQuad dataset tmp (tmpGraphIri tmp q.tripleId) q) tmp.resolved := by
  obtain ⟨hsound, hcomplete⟩ :=
    dataEntries_exact h .insertQuad dataset (f := fun r => .insert {r}) fun _ _ _ _ => rfl
  have hmem (entry : LogEntry) : entry ∈ (tmp.namedGraphs.quadList.filterMap fun q =>
      quadEntry .insertQuad dataset tmp (tmpGraphIri tmp q.tripleId) q) ↔
        entry ∈ dataEntries .insertQuad dataset tmp := by
    rw [mem_dataEntries, List.mem_filterMap]
    rfl
  constructor
  · exact fun entry hentry => hsound entry ((hmem entry).mp hentry)
  · intro r hr
    obtain ⟨entry, hentry, he⟩ := hcomplete r hr
    exact ⟨entry, (hmem entry).mpr hentry, he⟩

end Entries

section Translation

theorem Translated.translateDatasetQuads {store tmp : Datastore N}
    {acc : Datastore N × List Quad} {done : List Quad}
    (h : Translated store acc (tmp.resources.resolve done)) {quads : List Quad}
    (hq : ∀ q ∈ quads, tmp.resources.Interned q) :
    Translated store (quads.foldl (translateDatasetQuad tmp) acc)
      (tmp.resources.resolve (done ++ quads)) := by
  induction quads generalizing acc done with
  | nil => simpa using h
  | cons q quads ih =>
    obtain ⟨r, hr⟩ := Option.isSome_iff_exists.mp (hq q List.mem_cons_self)
    have hgraph := (getResourceQuad_eq_some.mp hr).1
    have hinterned : Translated store ((acc.1.addResource r.graph).1, acc.2)
        (tmp.resources.resolve done) := h.weaken rfl (acc.1.addResource_extends r.graph)
    have hstep := hinterned.translateQuad (hq q List.mem_cons_self)
      ((acc.1.addResource_get r.graph).trans hgraph.symm)
    have hone : translateDatasetQuad tmp acc q =
        Endpoint.translateQuad tmp (acc.1.addResource r.graph).2
          ((acc.1.addResource r.graph).1, acc.2) q := by
      rw [translateDatasetQuad, hgraph]
    rw [← hone] at hstep
    have hrest := ih hstep fun q hm => hq q (List.mem_cons_of_mem _ hm)
    simpa using hrest

theorem translateDatasetQuads_spec (store : Datastore N) {tmp : Datastore N}
    (htmp : tmp.Interned) : Translated store (translateDatasetQuads tmp store) tmp.resolved := by
  have hstart : Translated store (store, []) (tmp.resources.resolve []) := Translated.start store
  have h := Translated.translateDatasetQuads hstart htmp
  rw [List.nil_append] at h
  exact h

theorem translateDefaultGraphQuads_spec (tmp : Datastore N) {store : Datastore N}
    {g : GraphElementId} {ge : GraphElement N} (hg : store.resources.getGraphElement g = some ge) :
    Translated store (translateDefaultGraphQuads tmp store g)
      ((tmp.resources.resolve (tmp.namedGraphs.table.getGraph defaultGraphElementId)).image
        (moveTo ge)) := by
  have hmove := (Translated.start store).moveDefaultGraph tmp hg
  rw [Finset.empty_union] at hmove
  exact hmove

end Translation

section Writes

/-- The entries of the write that are replayed into a store. -/
def GraphWrite.quadEntries (w : GraphWrite N) : List LogEntry :=
  w.entries.filterMap ChangelogEntry.quad?

/-- A write whose entries say what it does: it clears the quads that `cleared` tells and inserts
those of `added`. -/
structure GraphWrite.Means (w : GraphWrite N) (store : Datastore N)
    (cleared : QuadResource N → Bool) (added : Finset (QuadResource N)) : Prop where
  extends_ : store.resources.Extends w.store.resources
  clears : ∀ q r, w.store.resources.getResourceQuad q = some r →
    (cleared r = true ↔ w.clear = some q.tripleId)
  translates : Translated w.store (w.translate w.store) added
  replays : ∀ A : Finset (QuadResource N),
    replay A w.quadEntries = A.filter (fun r => cleared r = false) ∪ added

theorem filterMap_quad (entries : List LogEntry) :
    (entries.map ChangelogEntry.quad).filterMap ChangelogEntry.quad? = entries := by
  rw [List.filterMap_map]
  exact List.filterMap_some

theorem clears_graph {m : GraphElementManager N} {g : GraphElementId} {ge : GraphElement N}
    (hg : m.getGraphElement g = some ge) (q : Quad) (r : QuadResource N)
    (hr : m.getResourceQuad q = some r) :
    decide (r.graph = ge) = true ↔ some g = some q.tripleId := by
  rw [decide_eq_true_iff, graph_eq_iff hr hg, Option.some.injEq]
  exact eq_comm

theorem replay_clear (graph : Option String) (dataset : String) (entries : List LogEntry)
    {R : Finset (QuadResource N)} (h : Inserting entries R) (A : Finset (QuadResource N)) :
    replay A (.clearGraph dataset graph :: entries) =
      A.filter (fun r => decide (r.graph = logGraph graph) = false) ∪ R :=
  h.replay _

variable {env : ServerEnv N Expr} {store : Datastore N}

variable {store' : Datastore N} {params : GraphParams} {contentType : String} {w : GraphWrite N}

theorem uploadTo_means {tmp : Datastore N} (htmp : RecordableStore tmp)
    (hext : store.resources.Extends store'.resources) (graph : Option String) {g : GraphElementId}
    (hg : store'.resources.getGraphElement g = some (logGraph graph)) (response : Response) :
    ∃ added, (uploadTo env tmp graph g store' response).Means store (fun _ => false) added := by
  refine ⟨_, hext, fun q r _ => ?_, translateDefaultGraphQuads_spec tmp hg, fun A => ?_⟩
  · rw [uploadTo]
    exact iff_of_false Bool.false_ne_true (by simp)
  · rw [GraphWrite.quadEntries, uploadTo, uploadEntries, filterMap_quad]
    refine (inserting_moved htmp env.datasetName graph fun q hq => ?_).replay_kept A
    exact ((mem_getGraph tmp _ q).mp hq).1

theorem uploadUnnamed_means {tmp : Datastore N} (htmp : RecordableStore tmp) (fmt : UploadFormat)
    (nanos : Nat) :
    ∃ added, (uploadUnnamed env store tmp fmt nanos).Means store (fun _ => false) added := by
  rw [uploadUnnamed]
  split_ifs
  · refine ⟨tmp.resolved, .refl _, fun q r _ => iff_of_false Bool.false_ne_true (by simp),
      translateDatasetQuads_spec store htmp.interned, fun A => ?_⟩
    rw [GraphWrite.quadEntries, filterMap_quad]
    exact (inserting_dataset htmp env.datasetName).replay_kept A
  · have hgraph := store.addResource_get (.iri (freshGraphIri env nanos))
    have hspec := translateDefaultGraphQuads_spec tmp hgraph
    refine ⟨_, .refl _, fun q r _ => iff_of_false Bool.false_ne_true (by simp),
      ⟨hspec.namedGraphs, (store.addResource_extends _).trans hspec.extended, hspec.interned,
        hspec.resolved⟩, fun A => ?_⟩
    rw [GraphWrite.quadEntries, uploadEntries, filterMap_quad]
    refine (inserting_moved htmp env.datasetName (some (freshGraphIri env nanos))
      fun q hq => ?_).replay_kept A
    exact ((mem_getGraph tmp _ q).mp hq).1

theorem resolveWriteTarget_spec (hparams : params.default = true → params.graph = none)
    {target : GraphElementId × Bool} (h : resolveWriteTarget params store = .ok (store', target)) :
    store.resources.Extends store'.resources ∧
      store'.resources.getGraphElement target.1 = some (logGraph params.graph) := by
  rw [resolveWriteTarget] at h
  split_ifs at h with hdefault
  · cases h
    rw [hparams hdefault]
    exact ⟨.refl _, store.resources.defaultGraph⟩
  · cases hg : params.graph with
    | none =>
      rw [hg] at h
      cases h
    | some iri =>
      rw [hg] at h
      dsimp only at h
      split_ifs at h
      cases h
      exact ⟨store.addResource_extends (.iri iri), store.addResource_get (.iri iri)⟩

theorem putWrite_means {body : ByteArray} (hparams : params.default = true → params.graph = none)
    (hbody : ∀ fmt tmp, parseUpload env contentType body = .ok (fmt, tmp) → RecordableStore tmp)
    (h : putWrite env store params contentType body = .ok w) :
    ∃ cleared added, w.Means store cleared added := by
  obtain ⟨fmt, tmp, store', g, isNew, hparse, htarget, rfl⟩ := putWrite_shape h
  obtain ⟨hext, hg⟩ := resolveWriteTarget_spec hparams htarget
  refine ⟨fun r => decide (r.graph = logGraph params.graph), _, hext, clears_graph hg,
    translateDefaultGraphQuads_spec tmp hg, fun A => ?_⟩
  have hinserting : Inserting _ _ := inserting_moved (hbody fmt tmp hparse) env.datasetName
    params.graph fun q hq => ((mem_getGraph tmp defaultGraphElementId q).mp hq).1
  have hreplay := replay_clear params.graph env.datasetName _ hinserting A
  rw [← filterMap_quad (List.filterMap _ _)] at hreplay
  exact hreplay

theorem deleteGraph_spec {graph : Option String} {g : GraphElementId}
    (h : (match graph with
      | none => some defaultGraphElementId
      | some iri => existingGraph store iri) = some g) :
    store.resources.getGraphElement g = some (logGraph graph) := by
  cases graph with
  | none =>
    cases h
    exact store.resources.defaultGraph
  | some iri => exact (store.resources.exact _ _).mp (Option.filter_eq_some_iff.mp h).1

theorem deleteWrite_means (h : deleteWrite env store params = .ok w) :
    ∃ cleared added, w.Means store cleared added := by
  obtain ⟨graph, g, hfound, -, rfl⟩ := deleteWrite_shape h
  refine ⟨fun r => decide (r.graph = logGraph graph), ∅, .refl _,
    clears_graph (deleteGraph_spec hfound), Translated.start store, fun A => ?_⟩
  rw [Finset.union_empty]
  rfl

theorem postWrite_means {body : ByteArray} {createIfMissing : Bool} {nanos : Nat}
    (hbody : ∀ fmt tmp, parseUpload env contentType body = .ok (fmt, tmp) → RecordableStore tmp)
    (h : postWrite env store params contentType body createIfMissing nanos = .ok w) :
    ∃ cleared added, w.Means store cleared added := by
  obtain ⟨fmt, tmp, hparse, hw⟩ := postWrite_shape h
  have htmp := hbody fmt tmp hparse
  rcases hw with ⟨-, rfl⟩ | ⟨-, iri, g, -, hexists, rfl⟩ | ⟨-, iri, -, rfl⟩ | ⟨-, -, rfl⟩
  · exact ⟨_, uploadTo_means htmp (.refl _) none store.resources.defaultGraph .noContent⟩
  · have hget := (store.resources.exact _ _).mp (Option.filter_eq_some_iff.mp hexists).1
    exact ⟨_, uploadTo_means htmp (.refl _) (some iri) hget .noContent⟩
  · exact ⟨_, uploadTo_means htmp (store.addResource_extends (.iri iri)) (some iri)
      (store.addResource_get (.iri iri)) .created⟩
  · exact ⟨_, uploadUnnamed_means htmp fmt nanos⟩

end Writes

section Asserted

variable {env : ServerEnv N Expr} {s s' : AppState N Expr} {w : GraphWrite N}

theorem reasonOver_ok {programs : List (DatalogProgram Expr)} {netDeletes netInserts : List Quad}
    (h : reasonOver env s programs netDeletes netInserts = .ok s') :
    ∃ m, reasonDelta env.rules.reasoning ⟨programs, s.store.store.namedGraphs⟩ netDeletes
        netInserts = .ok m ∧
      s'.store.store = { s.store.store with namedGraphs := m.base } := by
  rw [reasonOver] at h
  dsimp only at h
  split at h
  · cases h
  · next m hrun =>
    cases h
    exact ⟨m, applyReasonerDelta_ok hrun, rfl⟩

theorem GraphWrite.mem_netDeletes (w : GraphWrite N) (q : Quad) :
    q ∈ w.netDeletes ↔ q ∈ w.store.namedGraphs ∧ w.clear = some q.tripleId := by
  rw [netDeletes, List.mem_filter, QuadStore.contains_iff]
  cases w.clear with
  | none => simp
  | some g =>
    dsimp only
    rw [mem_getGraph, Option.some.injEq]
    exact ⟨fun hq => ⟨hq.2, hq.1.2.symm⟩, fun hq => ⟨⟨hq.1, hq.2.symm⟩, hq.1⟩⟩

/-- What a write that succeeds leaves: the interned elements of its translation, and its net
delta on the asserted quads. -/
theorem writeQuads_status (hstore : s.store.store = w.store)
    (htranslate : (w.translate w.store).1.namedGraphs = w.store.namedGraphs)
    (htakes : TakesDelta env.rules.reasoning s.reasoner w.store.namedGraphs w.netDeletes
      w.netInserts)
    (h : writeQuads env s w.clear (w.translate s.store.store) = .ok s') :
    s'.store.store.resources = (w.translate w.store).1.resources ∧
      ∀ q, s'.store.store.namedGraphs.Extensional q ↔
        (w.store.namedGraphs.Extensional q ∧ q ∉ w.netDeletes) ∨ q ∈ w.netInserts := by
  obtain ⟨⟨store, generation⟩, reasoner, rulesets, transactions, changelog⟩ := s
  dsimp only at hstore htakes h
  subst hstore
  rw [writeQuads.eq_def] at h
  cases reasoner with
  | some programs =>
    dsimp only at h
    split at h
    · cases h
    · next s₁ hrun =>
      cases h
      obtain ⟨m, hrun, hstore'⟩ := reasonOver_ok hrun
      have hdelta : reasonDelta env.rules.reasoning ⟨programs, w.store.namedGraphs⟩ w.netDeletes
          w.netInserts = .ok m := by
        rw [← htranslate]
        exact hrun
      rw [hstore']
      exact ⟨rfl, fun q => reasonDelta_status htakes hdelta q⟩
  | none =>
    dsimp only at h
    cases h
    rw [VersionedStore.foldl_addQuad]
    dsimp only
    rw [foldl_addQuad_resources, foldl_addQuad_namedGraphs]
    refine ⟨rfl, fun q => ?_⟩
    have hadd (base : QuadStore) := extensional_foldl_addQuad base w.netInserts q
    refine (hadd _).trans ?_
    have hmem := w.mem_netDeletes q
    have htake := htakes q
    cases hclear : w.clear with
    | none =>
      rw [hclear] at hmem
      have hno : q ∉ w.netDeletes := fun hq => by cases (hmem.mp hq).2
      refine or_congr ?_ (and_iff_left_of_imp fun hq => htake hq hno)
      exact (and_iff_left hno).symm
    | some g =>
      rw [hclear] at hmem
      have hext := extensional_removeGraph w.store.namedGraphs g q
      have hder := w.store.namedGraphs.derived_removeGraph g q
      refine or_congr (hext.trans ?_) (and_iff_left_of_imp fun hq hd => ?_)
      · refine and_congr_right fun hq => not_congr ?_
        rw [hmem, Option.some.injEq]
        exact ⟨fun heq => ⟨hq.1, heq.symm⟩, fun hq => hq.2.symm⟩
      · obtain ⟨hd, hne⟩ := hder.mp hd
        refine htake hq (fun hmem' => ?_) hd
        exact hne (Option.some.inj (hmem.mp hmem').2).symm

variable {cleared : QuadResource N → Bool} {added : Finset (QuadResource N)}

theorem GraphWrite.asserted_eq {store : Datastore N}
    (hextends : store.resources.Extends w.store.resources) (hclears : ∀ q r,
      w.store.resources.getResourceQuad q = some r → (cleared r = true ↔ w.clear = some q.tripleId))
    (htranslates : Translated w.store (w.translate w.store) added) (hstore : store.Interned)
    (hinterns : w.OnlyInterns store) {ds : Datastore N}
    (hres : ds.resources = (w.translate w.store).1.resources) (hstatus : ∀ q,
      ds.namedGraphs.Extensional q ↔ (w.store.namedGraphs.Extensional q ∧ q ∉ w.netDeletes) ∨ q ∈
      w.netInserts) :
    ds.asserted = store.asserted.filter (fun r => cleared r = false) ∪ added := by
  have hgraphs := hinterns.store
  have hext := hextends.trans htranslates.extended
  -- the store with the new names, before and after the clear
  let named : Datastore N := ⟨store.namedGraphs, (w.translate w.store).1.resources⟩
  let kept : Datastore N :=
    ⟨w.netDeletes.foldl QuadStore.removeQuad store.namedGraphs, (w.translate w.store).1.resources⟩
  have hnamed : named.asserted = store.asserted :=
    Datastore.asserted_extends hstore hext fun q => Iff.rfl
  have hkeptStatus (q : Quad) : kept.namedGraphs.Extensional q ↔
      store.namedGraphs.Extensional q ∧ q ∉ w.netDeletes :=
    extensional_foldl_removeQuad store.namedGraphs w.netDeletes q
  have hkept : kept.asserted = named.asserted.filter (fun r => (!cleared r) = true) := by
    refine @Datastore.asserted_filter N named kept rfl (fun r => !cleared r) fun q r hr => ?_
    refine (hkeptStatus q).trans ?_
    refine and_congr_right fun hq => ?_
    obtain ⟨x, hx⟩ := Option.isSome_iff_exists.mp (hstore q hq.1)
    have hxr : x = r := Option.some.inj ((hext.getResourceQuad hx).symm.trans hr)
    have hcleared := hclears q r (hxr ▸ hextends.getResourceQuad hx)
    have hmem := w.mem_netDeletes q
    rw [hgraphs] at hmem
    rw [hmem, Bool.not_eq_true', ← Bool.not_eq_true, hcleared]
    exact ⟨fun hno heq => hno ⟨hq.1, heq⟩, fun hno hboth => hno hboth.2⟩
  have hadded : named.resources.resolve w.netInserts = added := htranslates.resolved
  have hedit : ds.asserted =
      (kept.asserted ∪ kept.resources.resolve w.netInserts) \ kept.resources.resolve [] := by
    refine @Datastore.asserted_edit N kept ds hres w.netInserts [] fun q => ?_
    rw [hstatus, hkeptStatus, hgraphs]
    exact (and_iff_left List.not_mem_nil).symm
  have hnil : kept.resources.resolve [] = ∅ := rfl
  rw [hedit, hnil, Finset.sdiff_empty, hkept, hnamed, hadded]
  simp only [Bool.not_eq_true']

theorem GraphWrite.Means.asserted_eq {store : Datastore N} (hmeans : w.Means store cleared added)
    (hstore : store.Interned) (hinterns : w.OnlyInterns store) {ds : Datastore N}
    (hres : ds.resources = (w.translate w.store).1.resources) (hstatus : ∀ q,
      ds.namedGraphs.Extensional q ↔ (w.store.namedGraphs.Extensional q ∧ q ∉ w.netDeletes) ∨ q ∈
      w.netInserts) :
    ds.asserted = store.asserted.filter (fun r => cleared r = false) ∪ added :=
  GraphWrite.asserted_eq hmeans.extends_ hmeans.clears hmeans.translates hstore hinterns hres
    hstatus

end Asserted

end RdfDatalog.Endpoint
