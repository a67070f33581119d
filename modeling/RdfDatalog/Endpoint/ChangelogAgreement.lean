import RdfDatalog.Endpoint.Changelog

namespace RdfDatalog.Endpoint

open DeltaBuffer GraphElementManager

variable {N : NativeTypes}

/-- What a log entry means on the resolved quads. -/
def LogEntry.effect : LogEntry → Effect (QuadResource N)
  | .clearGraph _ graph => .clear fun r => decide (r.graph = logGraph graph)
  | .insertQuad _ graph s p o =>
    .insert {⟨logGraph graph, fromRepr s, fromRepr p, fromRepr o⟩}
  | .deleteQuad _ graph s p o =>
    .delete {⟨logGraph graph, fromRepr s, fromRepr p, fromRepr o⟩}

def replay (s : Finset (QuadResource N)) (entries : List LogEntry) : Finset (QuadResource N) :=
  entries.foldl (fun s entry => entry.effect.run s) s

theorem applyEntry_effect {ds : Datastore N} (h : ds.Interned) (entry : LogEntry) :
    (applyEntry ds entry).Interned ∧
      (applyEntry ds entry).resolved = entry.effect.run ds.resolved := by
  cases entry with
  | clearGraph dataset graph => exact applyEntry_clearGraph h dataset graph
  | insertQuad dataset graph s p o => exact applyEntry_insertQuad h dataset graph s p o
  | deleteQuad dataset graph s p o => exact applyEntry_deleteQuad h dataset graph s p o

theorem applyEntries_resolved {ds : Datastore N} (h : ds.Interned) (entries : List LogEntry) :
    (applyEntries ds entries).resolved = replay ds.resolved entries := by
  induction entries generalizing ds with
  | nil => rfl
  | cons entry entries ih =>
    obtain ⟨hint, hres⟩ := applyEntry_effect h entry
    have hrest := ih hint
    rw [hres] at hrest
    exact hrest

theorem replay_append (s : Finset (QuadResource N)) (l l' : List LogEntry) :
    replay s (l ++ l') = replay (replay s l) l' :=
  List.foldl_append

variable {l entries : List LogEntry} {tmp store : Datastore N}
  {trigParser : String → Except String (List OxQuad)} {dataset : String}
  {prepared : List (PreparedOp N)} {ops : List UpdateOp} {logged : List (List LogEntry)}

theorem mem_replay_inserts (hl : ∀ entry ∈ l, ∃ r : QuadResource N, entry.effect = .insert {r})
    (s : Finset (QuadResource N)) (x : QuadResource N) :
    x ∈ replay s l ↔ x ∈ s ∨ ∃ entry ∈ l, entry.effect = .insert {x} := by
  induction l generalizing s with
  | nil => simp [replay]
  | cons entry l ih =>
    obtain ⟨r, hr⟩ := hl entry List.mem_cons_self
    have hrest := ih (fun e he => hl e (List.mem_cons_of_mem _ he)) (entry.effect.run s)
    rw [replay, List.foldl_cons, ← replay, hrest]
    have hxr : x = r ↔ r = x := eq_comm
    simp only [hr, Effect.run, Finset.mem_union, Finset.mem_singleton, List.mem_cons,
      exists_eq_or_imp, Effect.insert.injEq, Finset.singleton_inj, or_assoc, hxr]

theorem mem_replay_of_drops {x : QuadResource N} {Drops : LogEntry → Prop}
    (hl : ∀ entry ∈ l, ∀ s : Finset (QuadResource N),
      x ∈ entry.effect.run s ↔ x ∈ s ∧ ¬ Drops entry) (s : Finset (QuadResource N)) :
    x ∈ replay s l ↔ x ∈ s ∧ ¬ ∃ entry ∈ l, Drops entry := by
  induction l generalizing s with
  | nil => simp [replay]
  | cons entry l ih =>
    have hrest := ih (fun e he => hl e (List.mem_cons_of_mem _ he)) (entry.effect.run s)
    rw [replay, List.foldl_cons, ← replay, hrest, hl entry List.mem_cons_self]
    simp only [List.mem_cons, exists_eq_or_imp, not_or, and_assoc]

theorem mem_replay_deletes (hl : ∀ entry ∈ l, ∃ r : QuadResource N, entry.effect = .delete {r})
    (s : Finset (QuadResource N)) (x : QuadResource N) :
    x ∈ replay s l ↔ x ∈ s ∧ ¬ ∃ entry ∈ l, entry.effect = .delete {x} := by
  refine mem_replay_of_drops (fun entry he s => ?_) s
  obtain ⟨r, hr⟩ := hl entry he
  rw [hr, Effect.run, Finset.mem_sdiff, Finset.mem_singleton, Effect.delete.injEq,
    Finset.singleton_inj, @eq_comm _ x]

theorem mem_replay_clears (hl : ∀ entry ∈ l, ∃ dataset graph, entry = .clearGraph dataset graph)
    (s : Finset (QuadResource N)) (x : QuadResource N) :
    x ∈ replay s l ↔
      x ∈ s ∧ ¬ ∃ dataset graph, .clearGraph dataset graph ∈ l ∧ x.graph = logGraph graph := by
  have hdrops : x ∈ replay s l ↔ x ∈ s ∧
      ¬ ∃ entry ∈ l, ∃ dataset graph, entry = .clearGraph dataset graph ∧
        x.graph = logGraph graph := by
    refine mem_replay_of_drops (fun entry he s => ?_) s
    obtain ⟨dataset, graph, rfl⟩ := hl entry he
    simp [LogEntry.effect, Effect.run]
  rw [hdrops]
  refine and_congr_right fun _ => not_congr ⟨?_, ?_⟩
  · rintro ⟨_, he, dataset, graph, rfl, hg⟩
    exact ⟨dataset, graph, he, hg⟩
  · rintro ⟨dataset, graph, he, hg⟩
    exact ⟨_, he, dataset, graph, rfl, hg⟩

theorem logGraph_tmpGraphIri {gid : GraphElementId} {iri : String}
    (h : tmp.resources.getGraphElement gid = some (.iri iri)) :
    (logGraph (tmpGraphIri tmp gid) : GraphElement N) = .iri iri := by
  unfold tmpGraphIri
  split_ifs with hd
  · rw [hd, show tmp.resources.getGraphElement defaultGraphElementId =
      some (.iri defaultGraphIri) from tmp.resources.defaultGraph] at h
    exact Option.some.inj h
  · simp [getNamedResource, h, logGraph]

theorem quadEntry_recordable (mk : QuadEntry) (dataset : String) {q : Quad} {r : QuadResource N}
    (hr : tmp.resources.getResourceQuad q = some r) (hrec : Recordable r) :
    ∃ graph s p o, quadEntry mk dataset tmp (tmpGraphIri tmp q.tripleId) q =
        some (mk dataset graph s p o) ∧
      (⟨logGraph graph, fromRepr s, fromRepr p, fromRepr o⟩ : QuadResource N) = r := by
  obtain ⟨hg, hs, hp, ho⟩ := getResourceQuad_eq_some.mp hr
  obtain ⟨iri, hiri⟩ := hrec.graph
  refine ⟨tmpGraphIri tmp q.tripleId, toRepr r.subject, toRepr r.predicate, toRepr r.obj, ?_, ?_⟩
  · unfold quadEntry
    rw [hs, hp, ho]
  · rw [logGraph_tmpGraphIri (hiri ▸ hg), fromRepr_toRepr hrec.subject,
      fromRepr_toRepr hrec.predicate, fromRepr_toRepr hrec.obj, ← hiri]

theorem mem_dataEntries (mk : QuadEntry) (dataset : String) (entry : LogEntry) :
    entry ∈ dataEntries mk dataset tmp ↔
      ∃ q ∈ tmp.namedGraphs,
        quadEntry mk dataset tmp (tmpGraphIri tmp q.tripleId) q = some entry := by
  unfold dataEntries
  simp only [List.mem_flatMap, List.mem_filterMap, mem_getGraph]
  constructor
  · intro ⟨gid, _, q, ⟨hq, hgid⟩, he⟩
    exact ⟨q, hq, hgid ▸ he⟩
  · intro ⟨q, hq, he⟩
    exact ⟨q.tripleId, (tmp.namedGraphs.mem_graphIds _).mpr ⟨q, hq, rfl⟩, q, ⟨hq, rfl⟩, he⟩

theorem dataEntries_exact (h : RecordableStore tmp) (mk : QuadEntry) (dataset : String)
    {f : QuadResource N → Effect (QuadResource N)} (hmk : ∀ graph s p o, (mk dataset graph s p
      o).effect = f ⟨logGraph graph, fromRepr s, fromRepr p, fromRepr o⟩) :
    (∀ entry ∈ dataEntries mk dataset tmp, ∃ r ∈ tmp.resolved, entry.effect = f r) ∧
    (∀ r ∈ tmp.resolved, ∃ entry ∈ dataEntries mk dataset tmp, entry.effect = f r) := by
  constructor
  · intro entry hentry
    obtain ⟨q, hq, he⟩ := (mem_dataEntries mk dataset entry).mp hentry
    obtain ⟨r, hr, hrec⟩ := h q hq
    obtain ⟨graph, s, p, o, hquad, hres⟩ := quadEntry_recordable mk dataset hr hrec
    obtain rfl := Option.some.inj (hquad.symm.trans he)
    exact ⟨r, mem_resolve.mpr ⟨q, hq, hr⟩, (hmk graph s p o).trans (congrArg f hres)⟩
  · intro r hmem
    obtain ⟨q, hq, hr⟩ := mem_resolve.mp hmem
    obtain ⟨r', hr', hrec⟩ := h q hq
    obtain rfl := Option.some.inj (hr.symm.trans hr')
    obtain ⟨graph, s, p, o, hquad, hres⟩ := quadEntry_recordable mk dataset hr hrec
    exact ⟨_, (mem_dataEntries mk dataset _).mpr ⟨q, hq, hquad⟩,
      (hmk graph s p o).trans (congrArg f hres)⟩

theorem replay_insertEntries (h : RecordableStore tmp) (dataset : String)
    (s : Finset (QuadResource N)) :
    replay s (dataEntries .insertQuad dataset tmp) = s ∪ tmp.resolved := by
  obtain ⟨hsound, hcomplete⟩ :=
    dataEntries_exact h .insertQuad dataset (f := fun r => .insert {r}) fun _ _ _ _ => rfl
  ext x
  rw [mem_replay_inserts fun entry he => (hsound entry he).imp fun _ hr => hr.2, Finset.mem_union]
  refine or_congr_right ⟨?_, fun hx => hcomplete x hx⟩
  intro ⟨entry, hentry, he⟩
  obtain ⟨r, hr, hr'⟩ := hsound entry hentry
  have hxr : x = r := by simpa using he.symm.trans hr'
  exact hxr ▸ hr

theorem replay_deleteEntries (h : RecordableStore tmp) (dataset : String)
    (s : Finset (QuadResource N)) :
    replay s (dataEntries .deleteQuad dataset tmp) = s \ tmp.resolved := by
  obtain ⟨hsound, hcomplete⟩ :=
    dataEntries_exact h .deleteQuad dataset (f := fun r => .delete {r}) fun _ _ _ _ => rfl
  ext x
  rw [mem_replay_deletes fun entry he => (hsound entry he).imp fun _ hr => hr.2, Finset.mem_sdiff]
  refine and_congr_right fun _ => not_congr ⟨?_, fun hx => hcomplete x hx⟩
  intro ⟨entry, hentry, he⟩
  obtain ⟨r, hr, hr'⟩ := hsound entry hentry
  have hxr : x = r := by simpa using he.symm.trans hr'
  exact hxr ▸ hr

def namedGraphElements (store : Datastore N) : Finset (GraphElement N) :=
  (store.resolved.image QuadResource.graph).erase (.iri defaultGraphIri)

theorem mem_namedGraphElements {g : GraphElement N} :
    g ∈ namedGraphElements store ↔
      g ≠ .iri defaultGraphIri ∧ ∃ r ∈ store.resolved, r.graph = g := by
  simp [namedGraphElements]

theorem mem_collectNamedGraphEntries (hs : store.Interned)
    (hgraphs : ∀ r ∈ store.resolved, ∃ iri, r.graph = .iri iri) (dataset : String)
    (g : GraphElement N) :
    (∃ d graph, .clearGraph d graph ∈ collectNamedGraphEntries dataset store ∧
      g = logGraph graph) ↔ g ∈ namedGraphElements store := by
  rw [mem_namedGraphElements]
  simp only [collectNamedGraphEntries, List.mem_filterMap, List.mem_filter, Option.map_eq_some_iff,
    LogEntry.clearGraph.injEq, QuadStore.mem_graphIds, decide_eq_true_eq]
  constructor
  · rintro ⟨d, graph, ⟨id, ⟨⟨q, hq, hid⟩, hne⟩, iri, hiri, _, hgraph⟩, hg⟩
    subst hid
    obtain ⟨r, hr⟩ := Option.isSome_iff_exists.mp (hs q hq)
    have hrg := (getResourceQuad_eq_some.mp hr).1
    have hget : store.resources.getGraphElement q.tripleId = some (.iri iri) := by
      unfold getNamedResource at hiri
      split at hiri
      · next i he => rw [he, Option.some.inj hiri]
      · cases hiri
    have hgr : g = r.graph := by
      rw [hg, ← hgraph]
      exact Option.some.inj (hget.symm.trans hrg)
    refine ⟨?_, r, mem_resolve.mpr ⟨q, hq, hr⟩, hgr.symm⟩
    rw [hgr]
    exact fun h => hne ((graph_eq_iff hr store.resources.defaultGraph).mp h)
  · rintro ⟨hne, r, hmem, hrg⟩
    obtain ⟨q, hq, hr⟩ := mem_resolve.mp hmem
    obtain ⟨iri, hiri⟩ := hgraphs r hmem
    have hget := (getResourceQuad_eq_some.mp hr).1
    rw [hiri] at hget
    refine ⟨dataset, some iri, ⟨q.tripleId, ⟨⟨q, hq, rfl⟩, ?_⟩, iri, ?_, rfl, rfl⟩, ?_⟩
    · intro h
      exact hne (hrg.symm.trans ((graph_eq_iff hr store.resources.defaultGraph).mpr h))
    · simp [getNamedResource, hget]
    · rw [← hrg, hiri]; rfl

/-- What the log records of an operation. A clear of several graphs is recorded as clears of the
graphs that the store held before the request. -/
def PreparedOp.loggedEffect (store : Datastore N) :
    PreparedOp N → Effect (QuadResource N)
  | .insertData tmp => .insert tmp.resolved
  | .deleteData tmp => .delete tmp.resolved
  | .clearDefault | .dropDefault => .clear fun r => decide (r.graph = .iri defaultGraphIri)
  | .clearAll | .dropAll =>
    .clear fun r => decide (r.graph = .iri defaultGraphIri ∨ r.graph ∈ namedGraphElements store)
  | .clearNamed | .dropNamed => .clear fun r => decide (r.graph ∈ namedGraphElements store)
  | .clearGraph iri | .dropGraph iri => .clear fun r => decide (r.graph = .iri iri)
  | _ => .skip

/-- The operations the changelog covers, with data blocks that have no blank node and no
embedded triple. -/
def UpdateOp.Logged (trigParser : String → Except String (List OxQuad)) : UpdateOp → Prop
  | .insertData content prefixes | .deleteData content prefixes =>
    ∀ quads, trigParser (dataBody content prefixes) = .ok quads → ∀ quad ∈ quads, quad.Plain
  | .loadGraph _ _ _ | .insertWhere _ _ _ | .deleteWhere _ _ _ | .deleteInsertWhere _ _ _ _ =>
    False
  | _ => True

/-- Stored ids are interned and graph names are IRIs. -/
structure IriGraphs (store : Datastore N) : Prop where
  interned : store.Interned
  graphs : ∀ r ∈ store.resolved, ∃ iri, r.graph = .iri iri

theorem replay_collectNamedGraphEntries (hs : IriGraphs store) (dataset : String)
    (s : Finset (QuadResource N)) :
    replay s (collectNamedGraphEntries dataset store) =
      s.filter (fun r => decide (r.graph ∈ namedGraphElements store) = false) := by
  ext x
  have hclear : ∀ entry ∈ collectNamedGraphEntries dataset store,
      ∃ dataset graph, entry = .clearGraph dataset graph := by
    intro entry hentry
    simp only [collectNamedGraphEntries, List.mem_filterMap, Option.map_eq_some_iff] at hentry
    obtain ⟨_, _, iri, _, he⟩ := hentry
    exact ⟨dataset, some iri, he.symm⟩
  rw [mem_replay_clears hclear, mem_collectNamedGraphEntries hs.interned hs.graphs,
    Finset.mem_filter, decide_eq_false_iff_not]

/-- The prepared operations of the changelog, each with its entries. -/
inductive Recorded (dataset : String) (store : Datastore N) :
    PreparedOp N → List LogEntry → Prop where
  | insertData {tmp : Datastore N} (h : RecordableStore tmp) :
    Recorded dataset store (.insertData tmp) (dataEntries .insertQuad dataset tmp)
  | deleteData {tmp : Datastore N} (h : RecordableStore tmp) :
    Recorded dataset store (.deleteData tmp) (dataEntries .deleteQuad dataset tmp)
  | clearDefault : Recorded dataset store .clearDefault [.clearGraph dataset none]
  | dropDefault : Recorded dataset store .dropDefault [.clearGraph dataset none]
  | clearNamed :
    Recorded dataset store .clearNamed (collectNamedGraphEntries dataset store)
  | dropNamed : Recorded dataset store .dropNamed (collectNamedGraphEntries dataset store)
  | clearAll : Recorded dataset store .clearAll
      (.clearGraph dataset none :: collectNamedGraphEntries dataset store)
  | dropAll : Recorded dataset store .dropAll
      (.clearGraph dataset none :: collectNamedGraphEntries dataset store)
  | clearGraph (iri : String) :
    Recorded dataset store (.clearGraph iri) [.clearGraph dataset (some iri)]
  | dropGraph (iri : String) :
    Recorded dataset store (.dropGraph iri) [.clearGraph dataset (some iri)]
  | createGraph (iri : String) : Recorded dataset store (.createGraph iri) []

theorem parsed_data {content : String} {prefixes : Prefixes} {α : Type} {f : Datastore N → α}
    {a : α} (hplain : ∀ quads, trigParser (dataBody content prefixes) = .ok quads → ∀ quad ∈ quads,
      quad.Plain) (h : (parseTurtleContent trigParser content prefixes).map f = .ok a) :
    ∃ tmp, RecordableStore tmp ∧ f tmp = a := by
  cases hp : parseTurtleContent (N := N) trigParser content prefixes with
  | error e =>
    rw [hp] at h
    cases h
  | ok tmp =>
    rw [hp] at h
    exact ⟨tmp, parseTurtleContent_recordable hplain hp, Except.ok.inj h⟩

theorem prepareOp_recorded {op : UpdateOp} (hop : op.Logged trigParser) {prepared : PreparedOp N}
    (h : prepareOp trigParser dataset store op = .ok (prepared, entries)) :
    Recorded dataset store prepared entries := by
  cases op with
  | insertData content prefixes =>
    obtain ⟨tmp, hrec, heq⟩ := parsed_data hop h
    obtain ⟨rfl, rfl⟩ := Prod.mk.inj heq
    exact .insertData hrec
  | deleteData content prefixes =>
    obtain ⟨tmp, hrec, heq⟩ := parsed_data hop h
    obtain ⟨rfl, rfl⟩ := Prod.mk.inj heq
    exact .deleteData hrec
  | loadGraph | insertWhere | deleteWhere | deleteInsertWhere => exact False.elim hop
  | _ =>
    obtain ⟨rfl, rfl⟩ := Prod.mk.inj (Except.ok.inj h)
    constructor

theorem Recorded.in_scope {prepared : PreparedOp N} (h : Recorded dataset store prepared entries) :
    prepared.Interned ∧ prepared.isLoad = false := by
  cases h with
  | insertData h | deleteData h => exact ⟨h.interned, rfl⟩
  | _ => exact ⟨trivial, rfl⟩

theorem Recorded.replay (hs : IriGraphs store) {prepared : PreparedOp N}
    (h : Recorded dataset store prepared entries) (s : Finset (QuadResource N)) :
    replay s entries = (prepared.loggedEffect store).run s := by
  have hnamed := replay_collectNamedGraphEntries hs dataset
  have hall : Endpoint.replay s
      (.clearGraph dataset none :: collectNamedGraphEntries dataset store) =
        s.filter (fun r => decide (r.graph = .iri defaultGraphIri ∨
          r.graph ∈ namedGraphElements store) = false) := by
    rw [Endpoint.replay, List.foldl_cons, ← Endpoint.replay, hnamed]
    ext x
    have hgraph : (logGraph none : GraphElement N) = .iri defaultGraphIri := rfl
    simp only [LogEntry.effect, Effect.run, Finset.mem_filter, decide_eq_false_iff_not, not_or,
      and_assoc, hgraph]
  cases h with
  | insertData h => exact replay_insertEntries h dataset s
  | deleteData h => exact replay_deleteEntries h dataset s
  | clearNamed | dropNamed => exact hnamed s
  | clearAll => exact hall
  | dropAll => exact hall
  | _ => rfl

theorem Recorded.plan {prepared : PreparedOp N} (h : Recorded dataset store prepared entries)
    (env : UpdateEnv N) {b : Buffer (QuadResource N)} (hb : b.live ⊆ store.resolved) :
    (prepared.plan env b.view).map b.apply =
      .ok (b.apply (prepared.loggedEffect store)) := by
  have hnamed : b.apply (.clear fun r => decide (r.graph ≠ .iri defaultGraphIri)) =
      b.apply (.clear fun r => decide (r.graph ∈ namedGraphElements store)) := by
    refine b.apply_clear_congr fun r hr => decide_eq_decide.mpr ?_
    rw [mem_namedGraphElements]
    exact ⟨fun hne => ⟨hne, r, hb hr, rfl⟩, And.left⟩
  have hall : b.apply (.clear fun _ => true) =
      b.apply (.clear fun r => decide (r.graph = .iri defaultGraphIri ∨
        r.graph ∈ namedGraphElements store)) := by
    refine b.apply_clear_congr fun r hr => (decide_eq_true ?_).symm
    rw [mem_namedGraphElements]
    by_cases hd : r.graph = .iri defaultGraphIri
    · exact Or.inl hd
    · exact Or.inr ⟨hd, r, hb hr, rfl⟩
  cases h with
  | clearNamed | dropNamed => exact congrArg Except.ok hnamed
  | clearAll | dropAll => exact congrArg Except.ok hall
  | _ => rfl

theorem prepareUpdate_cons {op : UpdateOp}
    (h : prepareUpdate trigParser dataset store (op :: ops) = .ok (prepared, entries)) :
    ∃ result rest, prepareOp trigParser dataset store op = .ok result ∧
      prepareUpdate trigParser dataset store ops = .ok rest ∧
      prepared = result.1 :: rest.1 ∧ entries = result.2 ++ rest.2 := by
  unfold prepareUpdate at h
  cases hp : prepareOp trigParser dataset store op with
  | error e => simp [hp] at h
  | ok result =>
    cases hr : prepareUpdate trigParser dataset store ops with
    | error e => simp [hp, hr] at h
    | ok rest =>
      simp only [hp, hr, Except.ok.injEq, Prod.mk.injEq] at h
      exact ⟨result, rest, rfl, rfl, h.1.symm, h.2.symm⟩

/-- What holds of each prepared operation with its entries holds of a request, operation by
operation. -/
theorem prepareUpdate_forall₂ {R : PreparedOp N → List LogEntry → Prop}
    (hops : ∀ op ∈ ops, ∀ prepared entries, prepareOp trigParser dataset store op = .ok (prepared,
      entries) → R prepared entries)
    (h : prepareUpdate trigParser dataset store ops = .ok (prepared, entries)) :
    ∃ logged : List (List LogEntry),
      List.Forall₂ R prepared logged ∧ entries = logged.flatten := by
  induction ops generalizing prepared entries with
  | nil =>
    obtain ⟨rfl, rfl⟩ := Prod.mk.inj (Except.ok.inj h)
    exact ⟨[], .nil, rfl⟩
  | cons op ops ih =>
    obtain ⟨result, rest, hp, hr, rfl, rfl⟩ := prepareUpdate_cons h
    obtain ⟨logged, hlogged, hflat⟩ := ih (fun op hm => hops op (List.mem_cons_of_mem _ hm)) hr
    refine ⟨result.2 :: logged, .cons (hops op List.mem_cons_self _ _ hp) hlogged, ?_⟩
    rw [hflat, List.flatten_cons]

theorem prepareUpdate_recorded (hops : ∀ op ∈ ops, op.Logged trigParser)
    (h : prepareUpdate trigParser dataset store ops = .ok (prepared, entries)) :
    ∃ logged : List (List LogEntry),
      List.Forall₂ (Recorded dataset store) prepared logged ∧ entries = logged.flatten :=
  prepareUpdate_forall₂ (fun op hm _ _ hp => prepareOp_recorded (hops op hm) hp) h

theorem replay_flatten (hs : IriGraphs store)
    (h : List.Forall₂ (Recorded dataset store) prepared logged) (s : Finset (QuadResource N)) :
    sequential s (prepared.map fun op _ => (.ok (op.loggedEffect store) :
      Except UpdateError (Effect (QuadResource N)))) = .ok (replay s logged.flatten) := by
  induction h generalizing s with
  | nil => rfl
  | @cons op entries prepared logged hop _ ih =>
    rw [List.flatten_cons, replay_append, hop.replay hs]
    exact ih _

theorem Recorded.refines (h : List.Forall₂ (Recorded dataset store) prepared logged)
    (env : UpdateEnv N) :
    List.Forall₂ (fun p q => ∀ b : Buffer (QuadResource N), b.live ⊆ store.resolved →
        (p b.view).map b.apply = (q b.view).map b.apply)
      (prepared.map (PreparedOp.plan env))
      (prepared.map fun op _ => (.ok (op.loggedEffect store) :
        Except UpdateError (Effect (QuadResource N)))) := by
  induction h with
  | nil => exact .nil
  | cons hop _ ih => exact .cons (fun b hb => hop.plan env hb) ih

/-- No buffered operation stands in the way of what the log records: no logged insertion of a
quad whose deletion is buffered, no logged clear of a graph with a buffered insertion. -/
def Pending.LogSteady (store : Datastore N) (st : Pending N) (op : PreparedOp N) : Prop :=
  st.buffer.Steady (op.loggedEffect store)

theorem Recorded.all_in_scope (h : List.Forall₂ (Recorded dataset store) prepared logged) :
    ∀ op ∈ prepared, op.Interned ∧ op.isLoad = false := by
  induction h with
  | nil => simp
  | cons hop _ ih =>
    intro op hmem
    cases List.mem_cons.mp hmem with
    | inl heq => exact heq ▸ hop.in_scope
    | inr hmem => exact ih op hmem

abbrev loggedPlan (store : Datastore N) (op : PreparedOp N) :
    Plan UpdateError (QuadResource N) :=
  fun _ => .ok (op.loggedEffect store)

theorem applyOps_logged_iff (hs : store.Interned)
    (h : List.Forall₂ (Recorded dataset store) prepared logged) (env : UpdateEnv N)
    (network : NetworkPolicy) (b : Buffer (QuadResource N)) :
    (Pending.start store).buffer.run (prepared.map (loggedPlan store)) = .ok b ↔
      ∃ st, applyOps env network (Pending.start store) prepared = .ok st ∧ st.buffer = b := by
  have hstart := Pending.start_interned hs
  have hscope := Recorded.all_in_scope h
  have hlive : (Pending.start store).buffer.live ⊆ store.resolved := Finset.Subset.refl _
  have hcongr := Buffer.run_congr hlive (Recorded.refines h env)
  have heq : (Pending.start store).buffer.run (prepared.map (loggedPlan store)) =
      (Pending.start store).buffer.run (prepared.map (PreparedOp.plan env)) := hcongr.symm
  rw [heq]
  constructor
  · intro hrun
    obtain ⟨st, hst, -, hb⟩ := applyOps_of_run env network hstart hscope hrun
    exact ⟨st, hst, hb⟩
  · intro ⟨st, hst, hb⟩
    rw [← hb]
    exact applyOps_refines env network hstart hscope hst

theorem prepareUpdate_take
    (h : prepareUpdate trigParser dataset store ops = .ok (prepared, entries)) (n : Nat) :
    ∃ entries', prepareUpdate trigParser dataset store (ops.take n) =
      .ok (prepared.take n, entries') := by
  induction ops generalizing prepared entries n with
  | nil =>
    obtain ⟨rfl, rfl⟩ := Prod.mk.inj (Except.ok.inj h)
    exact ⟨[], by simp [prepareUpdate]⟩
  | cons op ops ih =>
    cases n with
    | zero => exact ⟨[], rfl⟩
    | succ n =>
      obtain ⟨result, rest, hp, hr, rfl, rfl⟩ := prepareUpdate_cons h
      obtain ⟨entries', hentries⟩ := ih hr n
      exact ⟨result.2 ++ entries', by simp [prepareUpdate, hp, hentries]⟩

theorem commitPending_agrees_iff (env : UpdateEnv N) (network : NetworkPolicy)
    (hs : IriGraphs store) (hops : ∀ op ∈ ops, op.Logged trigParser)
    (hprep : prepareUpdate trigParser dataset store ops = .ok (prepared, entries)) :
    (∀ pre, pre <+: ops → ∀ prepared' entries' st,
      prepareUpdate trigParser dataset store pre = .ok (prepared', entries') →
      applyOps env network (Pending.start store) prepared' = .ok st →
      (applyEntries store entries').resolved = (commitPending st).resolved) ↔
    (∀ pre op suf, prepared = pre ++ op :: suf → ∀ st,
      applyOps env network (Pending.start store) pre = .ok st → st.LogSteady store op) := by
  have hview := Pending.start_view store
  have hprefix {pre : List UpdateOp} (hpre : pre <+: ops) {prepared' : List (PreparedOp N)}
      {entries' : List LogEntry}
      (hprep' : prepareUpdate trigParser dataset store pre = .ok (prepared', entries')) :
      ∃ logged', List.Forall₂ (Recorded dataset store) prepared' logged' ∧
        (applyEntries store entries').resolved = replay store.resolved logged'.flatten := by
    obtain ⟨logged', hrec, hflat⟩ :=
      prepareUpdate_recorded (fun op hm => hops op (hpre.subset hm)) hprep'
    exact ⟨logged', hrec, hflat ▸ applyEntries_resolved hs.interned entries'⟩
  have hiff := Buffer.steadyRun_iff (Pending.start store).buffer
    (prepared.map (loggedPlan store))
  rw [Buffer.steadyRun_iff_forall, hview] at hiff
  constructor
  · intro h pre op suf hsplit st hst
    have hpre : prepared.take pre.length = pre := by simp [hsplit]
    obtain ⟨entries', hprep'⟩ := prepareUpdate_take hprep pre.length
    rw [hpre] at hprep'
    obtain ⟨logged', hrec', -⟩ := hprefix (List.take_prefix _ ops) hprep'
    have hrun := (applyOps_logged_iff hs.interned hrec' env network st.buffer).mpr ⟨st, hst, rfl⟩
    refine hiff.mpr ?_ (pre.map (loggedPlan store)) (loggedPlan store op)
      (suf.map (loggedPlan store)) (by simp [hsplit]) _ hrun _ rfl
    intro plans hplans b hb
    obtain ⟨pre₀, hpre₀, rfl⟩ := List.prefix_map_iff.mp hplans
    have htake : prepared.take pre₀.length = pre₀ := (List.prefix_iff_eq_take.mp hpre₀).symm
    obtain ⟨entries₀, hprep₀⟩ := prepareUpdate_take hprep pre₀.length
    rw [htake] at hprep₀
    obtain ⟨logged₀, hrec₀, hres₀⟩ := hprefix (List.take_prefix _ ops) hprep₀
    obtain ⟨st₀, hst₀, rfl⟩ := (applyOps_logged_iff hs.interned hrec₀ env network b).mp hb
    have hagree := h _ (List.take_prefix _ ops) pre₀ entries₀ st₀ hprep₀ hst₀
    rw [replay_flatten hs hrec₀, ← hres₀, hagree, commitPending_resolved]
  · intro h pre hpre prepared' entries' st hprep' hst
    obtain ⟨logged', hrec', hres'⟩ := hprefix hpre hprep'
    have hpre' : ∃ n, prepared' = prepared.take n := by
      refine ⟨pre.length, ?_⟩
      obtain ⟨entries₁, hprep₁⟩ := prepareUpdate_take hprep pre.length
      rw [← List.prefix_iff_eq_take.mp hpre, hprep'] at hprep₁
      exact (Prod.mk.inj (Except.ok.inj hprep₁)).1
    obtain ⟨n, rfl⟩ := hpre'
    have hrun := (applyOps_logged_iff hs.interned hrec' env network st.buffer).mpr ⟨st, hst, rfl⟩
    have hseq := hiff.mp ?_ _ ((List.take_prefix n prepared).map (loggedPlan store)) _ hrun
    · rw [replay_flatten hs hrec'] at hseq
      rw [hres', commitPending_resolved]
      exact Except.ok.inj hseq
    · intro plans p plans' hsplit b hb e he
      obtain ⟨pre₀, rest, rfl, rfl, hrest⟩ := List.map_eq_append_iff.mp hsplit
      obtain ⟨op, suf, rfl, rfl, -⟩ := List.map_eq_cons_iff.mp hrest
      obtain rfl := Except.ok.inj he
      have htake : (pre₀ ++ op :: suf).take pre₀.length = pre₀ := by simp
      obtain ⟨entries₀, hprep₀⟩ := prepareUpdate_take hprep pre₀.length
      rw [htake] at hprep₀
      obtain ⟨logged₀, hrec₀, -⟩ := hprefix (List.take_prefix _ ops) hprep₀
      obtain ⟨st₀, hst₀, rfl⟩ := (applyOps_logged_iff hs.interned hrec₀ env network b).mp hb
      exact h pre₀ op suf rfl st₀ hst₀

/-- The changelog and the memory agree, for the request and every request it starts with,
exactly when no operation meets a buffered one in its way. -/
theorem changelog_agrees_iff (env : UpdateEnv N) (network : NetworkPolicy)
    {trigParser : String → Except String (List OxQuad)} {dataset : String} {store : Datastore N}
    (hs : IriGraphs store) {ops : List UpdateOp} (hops : ∀ op ∈ ops, op.Logged trigParser)
    {prepared : List (PreparedOp N)} {entries : List LogEntry}
    (hprep : prepareUpdate trigParser dataset store ops = .ok (prepared, entries)) :
    (∀ pre, pre <+: ops → ∀ prepared' entries' result,
      prepareUpdate trigParser dataset store pre = .ok (prepared', entries') →
      applyPreparedUpdate env network store prepared' = .ok result →
      (applyEntries store entries').resolved = result.1.resolved) ↔
    (∀ pre op suf, prepared = pre ++ op :: suf → ∀ st,
      applyOps env network (Pending.start store) pre = .ok st → st.LogSteady store op) := by
  rw [← commitPending_agrees_iff env network hs hops hprep]
  constructor
  · intro h pre hpre prepared' entries' st hprep' hst
    exact h pre hpre prepared' entries' _ hprep' (applyPreparedUpdate_eq_ok.mpr ⟨st, hst, rfl⟩)
  · intro h pre hpre prepared' entries' result hprep' hresult
    obtain ⟨st, hst, rfl⟩ := applyPreparedUpdate_eq_ok.mp hresult
    exact h pre hpre prepared' entries' st hprep' hst

section Sample

/-- A parser that reads every data block as the sample quad. -/
def sampleParser : String → Except String (List OxQuad) := fun _ => .ok [sampleQuad]

theorem sampleStore_iriGraphs : IriGraphs sampleStore := by
  refine ⟨sampleStore_interned, ?_⟩
  intro r hr
  obtain ⟨q, hq, hr⟩ := mem_resolve.mp hr
  have hrec := recordableStore_new.addOxQuad (N := .text) sampleQuad_plain
  obtain ⟨r', hr', hrec'⟩ := hrec q hq
  cases hr.symm.trans hr'
  exact hrec'.graph

theorem sample_logged {content : String} {prefixes : Prefixes} :
    ∀ quads, sampleParser (dataBody content prefixes) = .ok quads → ∀ quad ∈ quads, quad.Plain := by
  intro quads h quad hquad
  cases h
  rw [List.mem_singleton.mp hquad]
  exact sampleQuad_plain

/-- CLEAR DEFAULT and then INSERT DATA: the changelog and the memory agree. -/
theorem changelog_agrees_iff_insert : ∃ prepared entries,
    prepareUpdate sampleParser "ds" sampleStore [.clearDefault, .insertData "" ∅] =
      .ok (prepared, entries) ∧
    ∀ pre, pre <+: [UpdateOp.clearDefault, .insertData "" ∅] → ∀ prepared' entries' result,
      prepareUpdate sampleParser "ds" sampleStore pre = .ok (prepared', entries') →
      applyPreparedUpdate .offline .deny sampleStore prepared' = .ok result →
      (applyEntries sampleStore entries').resolved = result.1.resolved := by
  refine ⟨_, _, rfl, ?_⟩
  refine (changelog_agrees_iff .offline .deny sampleStore_iriGraphs ?_ rfl).mpr ?_
  · intro op hop
    rcases List.mem_pair.mp hop with rfl | rfl
    · trivial
    · exact sample_logged
  · intro pre op suf hsplit st hst
    match pre, hsplit with
    | [], hsplit =>
      cases hsplit
      cases hst
      intro x hx
      cases hx
    | [_], hsplit =>
      cases hsplit
      cases hst
      exact Finset.disjoint_empty_right _
    | _ :: _ :: pre, hsplit => simp at hsplit

/-- DELETE DATA of a stored quad and then INSERT DATA of the same quad: the changelog keeps the
quad, the memory does not. -/
theorem changelog_keeps_reinserted : ∃ prepared entries result,
    prepareUpdate sampleParser "ds" sampleStore [.deleteData "" ∅, .insertData "" ∅] =
      .ok (prepared, entries) ∧
    applyPreparedUpdate .offline .deny sampleStore prepared = .ok result ∧
    result.1.resolved = ∅ ∧ (applyEntries sampleStore entries).resolved ≠ ∅ := by
  obtain ⟨p, hprep, result, hres, hagree⟩ :
      ∃ p, prepareUpdate sampleParser "ds" sampleStore [.deleteData "" ∅, .insertData "" ∅] =
          .ok p ∧
        ∃ result, applyPreparedUpdate .offline .deny sampleStore p.1 = .ok result ∧
          result.1.resolved = ∅ ∧ (applyEntries sampleStore p.2).resolved ≠ ∅ := by decide
  exact ⟨p.1, p.2, result, hprep, hres, hagree⟩

end Sample

end RdfDatalog.Endpoint
