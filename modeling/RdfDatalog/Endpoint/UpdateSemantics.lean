import RdfDatalog.Endpoint.TrigParser
import RdfDatalog.Math.FallibleFold

namespace RdfDatalog.Endpoint

open DeltaBuffer GraphElementManager QuadStore

variable {N : NativeTypes}

/-- The request's buffers as sets of resolved quads. -/
def Pending.buffer (st : Pending N) : Buffer (QuadResource N) :=
  ⟨st.store.resolved, st.store.resources.resolve st.inserts,
    st.store.resources.resolve st.deletes⟩

structure Pending.Interned (st : Pending N) : Prop where
  store : st.store.Interned
  inserts : ∀ q ∈ st.inserts, st.store.resources.Interned q
  deletes : ∀ q ∈ st.deletes, st.store.resources.Interned q

def PreparedOp.Interned : PreparedOp N → Prop
  | .insertData tmp | .deleteData tmp => tmp.Interned
  | _ => True

def PreparedOp.isLoad : PreparedOp N → Bool
  | .loadGraph _ _ _ => true
  | _ => false

/-- What an operation means by itself, on the set of resolved quads it finds. A LOAD is not
covered. -/
def PreparedOp.plan (env : UpdateEnv N) (op : PreparedOp N) : Plan UpdateError (QuadResource N) :=
  fun view =>
    match op with
    | .insertData tmp => .ok (.insert tmp.resolved)
    | .deleteData tmp => .ok (.delete tmp.resolved)
    | .clearDefault | .dropDefault =>
      .ok (.clear fun r => decide (r.graph = .iri defaultGraphIri))
    | .clearAll | .dropAll => .ok (.clear fun _ => true)
    | .clearNamed | .dropNamed =>
      .ok (.clear fun r => decide (r.graph ≠ .iri defaultGraphIri))
    | .clearGraph iri | .dropGraph iri => .ok (.clear fun r => decide (r.graph = .iri iri))
    | .createGraph _ => .ok .skip
    | .patternUpdate deleteTemplate insertTemplate pattern prefixes =>
      match patternTriples env view deleteTemplate insertTemplate pattern prefixes with
      | .error e => .error (.other e)
      | .ok (toDelete, toInsert) =>
        .ok (.replace (templateQuads toDelete) (templateQuads toInsert))
    | .loadGraph _ _ _ => .ok .skip

variable {namedGraphs : QuadStore} {store : Datastore N} {st : Pending N}
  {ops : List (PreparedOp N)}

theorem resolved_eq_view (store : Datastore N) (inserts deletes : List Quad)
    (hmem : ∀ q, q ∈ namedGraphs ↔ (q ∈ store.namedGraphs ∨ q ∈ inserts) ∧ q ∉ deletes) :
    ({ store with namedGraphs } : Datastore N).resolved =
      (Pending.mk store inserts deletes).buffer.view := by
  ext r
  rw [Buffer.mem_view]
  simp only [Datastore.resolved, mem_resolve, mem_quadList, Pending.buffer, hmem]
  constructor
  · intro ⟨q, ⟨hq, hd⟩, hr⟩
    refine ⟨hq.imp (fun h => ⟨q, h, hr⟩) (fun h => ⟨q, h, hr⟩), ?_⟩
    intro ⟨q', hq', hr'⟩
    rw [getResourceQuad_inj hr hr'] at hd
    exact hd hq'
  · intro ⟨hq, hd⟩
    cases hq with
    | inl hq =>
      obtain ⟨q, hq, hr⟩ := hq
      exact ⟨q, ⟨Or.inl hq, fun h => hd ⟨q, h, hr⟩⟩, hr⟩
    | inr hq =>
      obtain ⟨q, hq, hr⟩ := hq
      exact ⟨q, ⟨Or.inr hq, fun h => hd ⟨q, h, hr⟩⟩, hr⟩

theorem viewStore_resolved (st : Pending N) : st.viewStore.resolved = st.buffer.view := by
  refine resolved_eq_view st.store st.inserts st.deletes fun q => ?_
  rw [mem_foldl_removeQuad, mem_foldl_addQuad]

theorem commitPending_resolved (st : Pending N) :
    (commitPending st).resolved = st.buffer.view := by
  have hfold : ∀ (l : List Quad) (ds : Datastore N),
      l.foldl Datastore.addQuad ds =
        { ds with namedGraphs := l.foldl QuadStore.addQuad ds.namedGraphs } := by
    intro l
    induction l with
    | nil => intro ds; rfl
    | cons q l ih => intro ds; exact ih _
  have hfold' : ∀ (l : List Quad) (ds : Datastore N),
      l.foldl Datastore.removeQuad ds =
        { ds with namedGraphs := l.foldl QuadStore.removeQuad ds.namedGraphs } := by
    intro l
    induction l with
    | nil => intro ds; rfl
    | cons q l ih => intro ds; exact ih _
  rw [commitPending, hfold, hfold']
  refine resolved_eq_view st.store st.inserts st.deletes fun q => ?_
  rw [mem_foldl_addQuad, mem_foldl_removeQuad]
  simp only [netDeletes, netInserts, List.mem_filter, List.mem_dedup, contains_iff,
    Bool.not_eq_eq_eq_not, Bool.not_true, List.contains_eq_mem, decide_eq_false_iff_not]
  tauto

variable {p : QuadResource N → Bool} {store' : Datastore N} {r : Finset (QuadResource N)}

theorem resolved_clear {cleared : GraphElementId → Prop}
    (hmem : ∀ q, q ∈ namedGraphs ↔ q ∈ store.namedGraphs ∧ ¬ cleared q.tripleId)
    (hp : ∀ q ∈ store.namedGraphs, ∀ r, store.resources.getResourceQuad q = some r → (p r = true ↔
      cleared q.tripleId)) :
    ({ store with namedGraphs } : Datastore N).resolved =
      store.resolved.filter (fun r => p r = false) := by
  ext r
  simp only [Datastore.resolved, mem_resolve, mem_quadList, hmem, Finset.mem_filter]
  constructor
  · intro ⟨q, ⟨hq, hc⟩, hr⟩
    refine ⟨⟨q, hq, hr⟩, ?_⟩
    rw [← Bool.not_eq_true, hp q hq r hr]
    exact hc
  · intro ⟨⟨q, hq, hr⟩, hpr⟩
    rw [← Bool.not_eq_true, hp q hq r hr] at hpr
    exact ⟨q, ⟨hq, hpr⟩, hr⟩

theorem removeGraphs_eq (store : Datastore N) (ids : List GraphElementId) :
    removeGraphs store ids =
      { store with namedGraphs := ids.foldl QuadStore.removeGraph store.namedGraphs } := by
  unfold removeGraphs
  induction ids generalizing store with
  | nil => rfl
  | cons g ids ih => exact ih _

theorem graph_eq_iff {m : GraphElementManager N} {q : Quad} {r : QuadResource N}
    {g : GraphElementId} {ge : GraphElement N} (hr : m.getResourceQuad q = some r)
    (hg : m.getGraphElement g = some ge) : r.graph = ge ↔ q.tripleId = g := by
  have hq := (getResourceQuad_eq_some.mp hr).1
  constructor
  · intro h
    exact getGraphElement_inj (h ▸ hq) hg
  · intro h
    rw [h, hg] at hq
    exact (Option.some.inj hq).symm

variable (h : st.Interned)

include h

theorem Pending.Interned.clear_spec (cleared : GraphElementId → Prop)
    (hmem : ∀ q, q ∈ namedGraphs ↔ q ∈ st.store.namedGraphs ∧ ¬ cleared q.tripleId)
    (hp : ∀ q ∈ st.store.namedGraphs, ∀ r, st.store.resources.getResourceQuad q = some r → (p r =
      true ↔ cleared q.tripleId)) :
    let st' := { st with store := { st.store with namedGraphs } }
    st'.Interned ∧ st'.buffer = st.buffer.apply (.clear p) := by
  refine ⟨⟨?_, h.inserts, h.deletes⟩, ?_⟩
  · intro q hq
    exact h.store q ((hmem q).mp hq).1
  · exact Buffer.ext (resolved_clear hmem hp) rfl rfl

theorem Pending.Interned.clearGraph_spec {g : GraphElementId}
    {ge : GraphElement N} (hg : st.store.resources.getGraphElement g = some ge) :
    let st' := { st with store := st.store.removeGraph g }
    st'.Interned ∧ st'.buffer = st.buffer.apply (.clear fun r => decide (r.graph = ge)) := by
  refine h.clear_spec (fun id => id = g) ?_ ?_
  · intro q
    exact st.store.namedGraphs.mem_removeGraph g q
  · intro q _ r hr
    rw [decide_eq_true_iff]
    exact graph_eq_iff hr hg

omit h

theorem resolved_extends (h : store.Interned) (hgraphs : store'.namedGraphs = store.namedGraphs)
    (hext : store.resources.Extends store'.resources) : store'.resolved = store.resolved := by
  unfold Datastore.resolved
  rw [hgraphs]
  exact resolve_extends hext h

include h

theorem Pending.Interned.grow (store : Datastore N) (inserts deletes : List Quad)
    (hgraphs : store.namedGraphs = st.store.namedGraphs)
    (hext : st.store.resources.Extends store.resources)
    (hi : ∀ q ∈ inserts, store.resources.Interned q)
    (hd : ∀ q ∈ deletes, store.resources.Interned q) :
    (Pending.mk store (st.inserts ++ inserts) (st.deletes ++ deletes)).Interned ∧
    (Pending.mk store (st.inserts ++ inserts) (st.deletes ++ deletes)).buffer =
      ⟨st.buffer.live, st.buffer.ins ∪ store.resources.resolve inserts,
        st.buffer.del ∪ store.resources.resolve deletes⟩ := by
  constructor
  · refine ⟨?_, ?_, ?_⟩
    · intro q hq
      change q ∈ store.namedGraphs at hq
      rw [hgraphs] at hq
      exact (h.store q hq).extends hext
    · intro q hq
      rcases List.mem_append.mp hq with hq | hq
      · exact (h.inserts q hq).extends hext
      · exact hi q hq
    · intro q hq
      rcases List.mem_append.mp hq with hq | hq
      · exact (h.deletes q hq).extends hext
      · exact hd q hq
  · have hlive := resolved_extends h.store hgraphs hext
    simp only [Pending.buffer, hlive, resolve_append, resolve_extends hext h.inserts,
      resolve_extends hext h.deletes]

theorem Pending.Interned.insertData_spec {quads : List Quad}
    (ht : Translated st.store (store, quads) r) :
    let st' := { st with store, inserts := st.inserts ++ quads }
    st'.Interned ∧ st'.buffer = st.buffer.apply (.insert r) := by
  have hgrow := h.grow store quads [] ht.namedGraphs ht.extended ht.interned (by simp)
  simp only [List.append_nil] at hgrow
  refine ⟨hgrow.1, hgrow.2.trans ?_⟩
  rw [ht.resolved]
  simp [Buffer.apply, resolve]

theorem Pending.Interned.deleteData_spec {quads : List Quad}
    (ht : Translated st.store (store, quads) r) :
    let st' := { st with
      store, deletes := st.deletes ++ quads.filter fun q =>
        store.namedGraphs.contains q || st.inserts.contains q }
    st'.Interned ∧ st'.buffer = st.buffer.apply (.delete r) := by
  have hgrow := h.grow store [] (quads.filter fun q =>
      store.namedGraphs.contains q || st.inserts.contains q) ht.namedGraphs ht.extended (by simp)
    fun q hq => ht.interned q (List.mem_filter.mp hq).1
  simp only [List.append_nil] at hgrow
  refine ⟨hgrow.1, hgrow.2.trans (Buffer.ext rfl (by simp [Buffer.apply, resolve]) ?_)⟩
  have hlive (q : Quad) (x : QuadResource N) (hx : store.resources.getResourceQuad q = some x) :
      x ∈ st.buffer.live ↔ q ∈ store.namedGraphs := by
    change x ∈ st.store.resolved ↔ _
    rw [← resolved_extends h.store ht.namedGraphs ht.extended]
    exact mem_resolve_iff_mem hx
  have hins (q : Quad) (x : QuadResource N) (hx : store.resources.getResourceQuad q = some x) :
      x ∈ st.buffer.ins ↔ q ∈ st.inserts := by
    change x ∈ st.store.resources.resolve st.inserts ↔ _
    rw [← resolve_extends ht.extended h.inserts, mem_resolve_iff_mem hx]
  have hr := ht.resolved
  ext x
  simp only [Buffer.apply, Finset.mem_union, Finset.mem_filter, ← hr, mem_resolve,
    List.mem_filter, Bool.or_eq_true, contains_iff, List.contains_eq_mem,
    decide_eq_true_eq]
  refine or_congr_right ?_
  constructor
  · rintro ⟨q, ⟨hq, hor⟩, hx⟩
    exact ⟨⟨q, hq, hx⟩, hor.imp (hlive q x hx).mpr (hins q x hx).mpr⟩
  · rintro ⟨⟨q, hq, hx⟩, hor⟩
    exact ⟨q, ⟨hq, hor.imp (hlive q x hx).mp (hins q x hx).mp⟩, hx⟩

theorem Pending.Interned.replace_spec {deletes inserts : List Quad}
    {d i : Finset (QuadResource N)} (hd : Translated st.store (store, deletes) d)
    (hi : Translated store (store', inserts) i) :
    let st' := Pending.mk store' (st.inserts ++ inserts) (st.deletes ++ deletes)
    st'.Interned ∧ st'.buffer = st.buffer.apply (.replace d i) := by
  have hgrow := h.grow store' inserts deletes (hi.namedGraphs.trans hd.namedGraphs)
      (hd.extended.trans hi.extended)
    hi.interned fun q hq => (hd.interned q hq).extends hi.extended
  refine ⟨hgrow.1, hgrow.2.trans ?_⟩
  rw [hi.resolved, resolve_extends hi.extended hd.interned, hd.resolved]
  rfl

theorem Pending.Interned.clearAll_spec :
    let st' := { st with store := removeGraphs st.store st.store.namedGraphs.graphIds }
    st'.Interned ∧ st'.buffer = st.buffer.apply (.clear fun _ => true) := by
  rw [removeGraphs_eq]
  refine h.clear_spec (fun _ => True) ?_ (by simp)
  intro q
  rw [mem_foldl_removeGraph, mem_graphIds]
  simp only [not_true_eq_false, and_false, iff_false, not_and, not_not]
  exact fun hq => ⟨q, hq, rfl⟩

theorem Pending.Interned.clearNamed_spec :
    let st' := { st with
      store := removeGraphs st.store
        (st.store.namedGraphs.graphIds.filter fun id => id ≠ defaultGraphElementId) }
    st'.Interned ∧
      st'.buffer = st.buffer.apply
        (.clear fun r => decide (r.graph ≠ .iri defaultGraphIri)) := by
  rw [removeGraphs_eq]
  refine h.clear_spec (fun id => id ≠ defaultGraphElementId) ?_ ?_
  · intro q
    rw [mem_foldl_removeGraph, List.mem_filter, mem_graphIds]
    refine and_congr_right fun hq => not_congr ?_
    rw [decide_eq_true_iff]
    exact ⟨And.right, fun hne => ⟨⟨q, hq, rfl⟩, hne⟩⟩
  · intro q _ r hr
    rw [decide_eq_true_iff]
    exact not_congr (graph_eq_iff hr st.store.resources.defaultGraph)

omit h

theorem Pending.Interned.clearUnknown_spec {iri : String}
    (hl : st.store.lookupNamedGraphId iri = none) :
    st.buffer = st.buffer.apply (.clear fun r => decide (r.graph = .iri iri)) := by
  refine Buffer.ext ?_ rfl rfl
  symm
  refine Finset.filter_true_of_mem fun r hr => ?_
  obtain ⟨q, -, hq⟩ := mem_resolve.mp hr
  rw [decide_eq_false_iff_not]
  intro hg
  have hget := (getResourceQuad_eq_some.mp hq).1
  rw [hg] at hget
  have hsome := (st.store.resources.exact _ _).mpr hget
  exact absurd (hsome.symm.trans hl) (by simp)

include h

theorem Pending.Interned.clearNamedGraph_spec (iri : String) :
    ∃ st', (match st.store.lookupNamedGraphId iri with
        | some id => Except.ok { st with store := st.store.removeGraph id }
        | none => .ok st : Except UpdateError (Pending N)) = .ok st' ∧
      st'.Interned ∧
      st'.buffer = st.buffer.apply (.clear fun r => decide (r.graph = .iri iri)) := by
  cases hl : st.store.lookupNamedGraphId iri with
  | none => exact ⟨st, rfl, h, clearUnknown_spec hl⟩
  | some id =>
    have hget := (st.store.resources.exact _ _).mp hl
    exact ⟨_, rfl, h.clearGraph_spec hget⟩

theorem Pending.Interned.createGraph_spec (iri : String) :
    let st' := { st with store := (st.store.addResource (.iri iri)).1 }
    st'.Interned ∧ st'.buffer = st.buffer := by
  have hext := st.store.addResource_extends (.iri iri)
  have hgrow := h.grow (st.store.addResource (.iri iri)).1 [] [] rfl hext (by simp) (by simp)
  simpa [resolve] using hgrow

omit h

variable (env : UpdateEnv N)

/-- What one operation of the request does: it fails where its meaning fails, and else its
meaning is the effect on the buffers. -/
theorem applyOp_refines (network : NetworkPolicy) (h : st.Interned)
    {op : PreparedOp N} (hop : op.Interned) (hload : op.isLoad = false) :
    match op.plan env st.buffer.view with
    | .error e => applyOp env network st op = .error e
    | .ok f => ∃ st', applyOp env network st op = .ok st' ∧ st'.Interned ∧
        st'.buffer = st.buffer.apply f := by
  cases op with
  | insertData tmp =>
    exact ⟨_, rfl, h.insertData_spec (translateToMainIds_spec st.store hop)⟩
  | deleteData tmp =>
    exact ⟨_, rfl, h.deleteData_spec (translateToMainIds_spec st.store hop)⟩
  | clearDefault | dropDefault => exact ⟨_, rfl, h.clearGraph_spec st.store.resources.defaultGraph⟩
  | clearAll | dropAll => exact ⟨_, rfl, h.clearAll_spec⟩
  | clearNamed | dropNamed => exact ⟨_, rfl, h.clearNamed_spec⟩
  | clearGraph iri | dropGraph iri => exact h.clearNamedGraph_spec iri
  | createGraph iri => exact ⟨_, rfl, h.createGraph_spec iri⟩
  | patternUpdate deleteTemplate insertTemplate pattern prefixes =>
    have hview := viewStore_resolved st
    simp only [PreparedOp.plan, applyOp, hview]
    cases patternTriples env st.buffer.view deleteTemplate insertTemplate pattern prefixes with
    | error e => rfl
    | ok triples =>
      have hd := groundQuads_spec st.store triples.1
      have hi := groundQuads_spec (groundQuads st.store triples.1).1 triples.2
      exact ⟨_, rfl, h.replace_spec hd hi⟩
  | loadGraph source into silent => simp [PreparedOp.isLoad] at hload

theorem applyOps_refines (network : NetworkPolicy) (h : st.Interned)
    (hops : ∀ op ∈ ops, op.Interned ∧ op.isLoad = false) {st' : Pending N}
    (hrun : applyOps env network st ops = .ok st') :
    st.buffer.run (ops.map (PreparedOp.plan env)) = .ok st'.buffer := by
  induction ops generalizing st with
  | nil =>
    obtain rfl := Except.ok.inj hrun
    rfl
  | cons op ops ih =>
    obtain ⟨hop, hload⟩ := hops op List.mem_cons_self
    have hstep := applyOp_refines env network h hop hload
    unfold applyOps at hrun
    simp only [List.map_cons, Buffer.run]
    cases hplan : op.plan env st.buffer.view with
    | error e =>
      rw [hplan] at hstep
      rw [hstep] at hrun
      cases hrun
    | ok f =>
      rw [hplan] at hstep
      obtain ⟨st₁, hst, hint, hbuf⟩ := hstep
      rw [hst] at hrun
      have hrest := ih hint (fun op hm => hops op (List.mem_cons_of_mem _ hm)) hrun
      rw [hbuf] at hrest
      exact hrest

theorem applyOps_of_run (network : NetworkPolicy) (h : st.Interned)
    (hops : ∀ op ∈ ops, op.Interned ∧ op.isLoad = false) {b : Buffer (QuadResource N)}
    (hrun : st.buffer.run (ops.map (PreparedOp.plan env)) = .ok b) :
    ∃ st', applyOps env network st ops = .ok st' ∧ st'.Interned ∧ st'.buffer = b := by
  induction ops generalizing st with
  | nil =>
    obtain rfl := Except.ok.inj hrun
    exact ⟨st, rfl, h, rfl⟩
  | cons op ops ih =>
    obtain ⟨hop, hload⟩ := hops op List.mem_cons_self
    have hstep := applyOp_refines env network h hop hload
    simp only [List.map_cons, Buffer.run] at hrun
    cases hplan : op.plan env st.buffer.view with
    | error e => simp [hplan] at hrun
    | ok f =>
      rw [hplan] at hstep hrun
      obtain ⟨st₁, hst, hint, hbuf⟩ := hstep
      simp only [← hbuf] at hrun
      have hrest := ih hint (fun op hm => hops op (List.mem_cons_of_mem _ hm)) hrun
      simpa [applyOps, hst] using hrest

/-- The operations of a request one after another, on the resolved quads. -/
def sequentialUpdate (env : UpdateEnv N) (s : Finset (QuadResource N))
    (ops : List (PreparedOp N)) : Except UpdateError (Finset (QuadResource N)) :=
  sequential s (ops.map (PreparedOp.plan env))

/-- Nothing buffered stands in the way of the operation: it does not insert a quad whose deletion
is buffered (or that it deletes itself), and clears no graph of a quad whose insertion is. -/
def Pending.NoConflict (env : UpdateEnv N) (st : Pending N) (op : PreparedOp N) : Prop :=
  ∀ f, op.plan env st.buffer.view = .ok f → st.buffer.Steady f

def Pending.start (store : Datastore N) : Pending N := ⟨store, [], []⟩

theorem Pending.start_view (store : Datastore N) :
    (Pending.start store).buffer.view = store.resolved := by
  ext r
  simp [Pending.start, Pending.buffer, Buffer.mem_view, resolve]

theorem Pending.start_interned (h : store.Interned) :
    (Pending.start store).Interned :=
  ⟨h, by simp [Pending.start], by simp [Pending.start]⟩

/-- The buffered request and the sequential one agree, for the request and every request it
starts with, exactly when no operation meets a conflict. -/
theorem commit_sequential_iff (network : NetworkPolicy) (hs : store.Interned)
    (hops : ∀ op ∈ ops, op.Interned ∧ op.isLoad = false) :
    (∀ pre, pre <+: ops → ∀ st, applyOps env network (Pending.start store) pre = .ok st →
      sequentialUpdate env store.resolved pre = .ok (commitPending st).resolved) ↔
    (∀ pre op suf, ops = pre ++ op :: suf → ∀ st,
      applyOps env network (Pending.start store) pre = .ok st → st.NoConflict env op) := by
  have hstart := Pending.start_interned hs
  have hpre {pre : List (PreparedOp N)} (h : pre <+: ops) :
      ∀ op ∈ pre, op.Interned ∧ op.isLoad = false := fun op hm => hops op (h.subset hm)
  have hiff := Buffer.steadyRun_iff (Pending.start store).buffer (ops.map (PreparedOp.plan env))
  rw [Buffer.steadyRun_iff_forall] at hiff
  constructor
  · intro h pre op suf hsplit st hst
    have hrun := applyOps_refines env network hstart
      (hpre ⟨op :: suf, hsplit.symm⟩) hst
    refine hiff.mpr ?_ (pre.map (PreparedOp.plan env)) (op.plan env)
      (suf.map (PreparedOp.plan env)) (by simp [hsplit]) _ hrun
    intro pre' hpre' b hb
    obtain ⟨pre₀, hpre₀, rfl⟩ := List.prefix_map_iff.mp hpre'
    obtain ⟨st', hst', -, rfl⟩ := applyOps_of_run env network hstart (hpre hpre₀) hb
    have hseq := h pre₀ hpre₀ st' hst'
    rwa [commitPending_resolved, sequentialUpdate, ← Pending.start_view] at hseq
  · intro h pre hp st hst
    have hrun := applyOps_refines env network hstart (hpre hp) hst
    rw [commitPending_resolved, sequentialUpdate, ← Pending.start_view]
    refine hiff.mp ?_ _ (hp.map _) _ hrun
    intro pre' p suf' hsplit b hb
    obtain ⟨pre₀, rest, rfl, rfl, hrest⟩ := List.map_eq_append_iff.mp hsplit
    obtain ⟨op, suf, rfl, rfl, -⟩ := List.map_eq_cons_iff.mp hrest
    obtain ⟨st', hst', -, rfl⟩ := applyOps_of_run env network hstart
      (hpre (List.prefix_append pre₀ (op :: suf))) hb
    exact h pre₀ op suf rfl st' hst'

theorem applyPreparedUpdate_eq_ok {env : UpdateEnv N} {network : NetworkPolicy}
    {result : Datastore N × List Quad × List Quad} :
    applyPreparedUpdate env network store ops = .ok result ↔
      ∃ st, applyOps env network (Pending.start store) ops = .ok st ∧
        result = (commitPending st, netInserts st, netDeletes st) := by
  rw [applyPreparedUpdate, ← Pending.start]
  cases applyOps env network (Pending.start store) ops with
  | error e =>
    constructor
    · intro h
      cases h
    · intro ⟨st, h, _⟩
      cases h
  | ok st =>
    constructor
    · intro h
      exact ⟨st, rfl, (Except.ok.inj h).symm⟩
    · intro ⟨st', h, hresult⟩
      cases h
      rw [hresult]

section Sample

/-- A query engine with no results, and no network. -/
def UpdateEnv.offline : UpdateEnv NativeTypes.text where
  evalWherePattern _ _ _ := .ok []
  parseTemplate _ _ := .ok []
  Document := Unit
  fetchRdf _ _ := .error "offline"
  parseFetched _ _ := .error "offline"

def sampleQuad : OxQuad := ⟨.namedNode "s", "p", .namedNode "o", .defaultGraph⟩

theorem sampleQuad_plain : sampleQuad.Plain := ⟨⟨"s", rfl⟩, .inl ⟨"o", rfl⟩, .inl rfl⟩

def sampleStore : Datastore NativeTypes.text := addOxQuad .new sampleQuad

theorem sampleStore_interned : sampleStore.Interned :=
  (recordableStore_new.addOxQuad sampleQuad_plain).interned

end Sample

end RdfDatalog.Endpoint
