import RdfDatalog.Datalog.Containment
import RdfDatalog.Endpoint.ReasonedUpdates
import RdfDatalog.Endpoint.TransactionOwnership

namespace RdfDatalog.Endpoint

open Datalog Datalog.IncrementalReasoner GraphElementManager GroundProgram

variable {N : NativeTypes} {Expr : Type}

section Instances

/-- The triple `x rdf:type owl:Nothing` in the default graph. -/
def IsInstance (m : GraphElementManager N) (q : Quad) : Prop :=
  q.tripleId = defaultGraphElementId ∧ m.getGraphElement q.predicate = some (.iri rdfType) ∧
    m.getGraphElement q.obj = some (.iri owlNothing)

/-- The default graph has no instance of `owl:Nothing`. -/
def NoInstance (store : Datastore N) : Prop :=
  ∀ q ∈ store.namedGraphs, ¬ IsInstance store.resources q

theorem IsInstance.of_extends {m m' : GraphElementManager N} (h : m.Extends m') {q : Quad}
    (hq : m.Interned q) (hinstance : IsInstance m' q) : IsInstance m q := by
  obtain ⟨r, hr⟩ := Option.isSome_iff_exists.mp hq
  obtain ⟨hgraph, hpredicate, hobj⟩ := hinstance
  obtain ⟨-, -, hp, ho⟩ := getResourceQuad_eq_some.mp hr
  refine ⟨hgraph, ?_, ?_⟩
  · rw [hp, ← h.getGraphElement hp]
    exact hpredicate
  · rw [ho, ← h.getGraphElement ho]
    exact hobj

theorem NoInstance.extends {store store' : Datastore N} (h : NoInstance store)
    (hinterned : store.Interned) (hgraphs : store'.namedGraphs.quads ⊆ store.namedGraphs.quads)
    (hext : store.resources.Extends store'.resources) : NoInstance store' :=
  fun q hq hinstance => h q (hgraphs hq) (hinstance.of_extends hext (hinterned q (hgraphs hq)))

theorem checkOwlNothing_isEmpty_iff (env : ServerEnv N Expr) (store : Datastore N)
    {maxViolations : Nat} (hmax : 0 < maxViolations) (maxProps : Nat) :
    (checkOwlNothing env store maxViolations maxProps).isEmpty = true ↔ NoInstance store := by
  have hid (iri : String) (i : GraphElementId) : store.lookupNamedGraphId iri = some i ↔
      store.resources.getGraphElement i = some (.iri iri) := store.resources.exact _ _
  rw [checkOwlNothing]
  cases htype : store.lookupNamedGraphId rdfType with
  | none =>
    refine iff_of_true rfl fun q hq hinstance => ?_
    rw [(hid _ _).mpr hinstance.2.1] at htype
    cases htype
  | some t =>
    cases hnothing : store.lookupNamedGraphId owlNothing with
    | none =>
      refine iff_of_true rfl fun q hq hinstance => ?_
      rw [(hid _ _).mpr hinstance.2.2] at hnothing
      cases hnothing
    | some n =>
      have ht := (hid _ _).mp htype
      have hn := (hid _ _).mp hnothing
      have hlists := store.namedGraphs.wellFormed.exactLookups.withObjectPredicate n t
      have hmem (q : Quad) : q ∈ store.namedGraphs.table.getQuadsWithObjectPredicate n t ↔
          q ∈ store.namedGraphs ∧ q.obj = n ∧ q.predicate = t := hlists.mem q
      dsimp only
      rw [List.isEmpty_iff, List.map_eq_nil_iff, List.take_eq_nil_iff,
        or_iff_right hmax.ne', List.filter_eq_nil_iff]
      constructor
      · intro h q hq ⟨hgraph, hpredicate, hobj⟩
        refine h q ((hmem q).mpr ⟨hq, ?_, ?_⟩) (decide_eq_true hgraph)
        · exact getGraphElement_inj hobj hn
        · exact getGraphElement_inj hpredicate ht
      · intro h q hq hgraph
        obtain ⟨hstored, rfl, rfl⟩ := (hmem q).mp hq
        exact h q hstored ⟨of_decide_eq_true hgraph, ht, hn⟩

end Instances

section Heads

variable {m m' : GraphElementManager N} {rules : List (Rule Expr)}

/-- The constants of the heads are names of the store. -/
def InternedHeads (m : GraphElementManager N) (rules : List (Rule Expr)) : Prop :=
  ∀ r ∈ rules, ∀ head, r.head = .normalHead head →
    ∀ t ∈ [head.graph, head.subject, head.predicate, head.object], ∀ id, t = .resource id →
      (m.getGraphElement id).isSome

theorem InternedHeads.extends (h : InternedHeads m rules) (hext : m.Extends m') :
    InternedHeads m' rules := by
  intro r hr head hhead t ht id hid
  obtain ⟨e, he⟩ := Option.isSome_iff_exists.mp (h r hr head hhead t ht id hid)
  rw [hext.getGraphElement he]
  rfl

theorem interned_iff {q : Quad} : m.Interned q ↔
    (m.getGraphElement q.tripleId).isSome ∧ (m.getGraphElement q.subject).isSome ∧
      (m.getGraphElement q.predicate).isSome ∧ (m.getGraphElement q.obj).isSome := by
  constructor
  · intro h
    obtain ⟨r, hr⟩ := Option.isSome_iff_exists.mp h
    obtain ⟨hg, hs, hp, ho⟩ := getResourceQuad_eq_some.mp hr
    simp [hg, hs, hp, ho]
  · intro ⟨hg, hs, hp, ho⟩
    obtain ⟨g, hg⟩ := Option.isSome_iff_exists.mp hg
    obtain ⟨s, hs⟩ := Option.isSome_iff_exists.mp hs
    obtain ⟨p, hp⟩ := Option.isSome_iff_exists.mp hp
    obtain ⟨o, ho⟩ := Option.isSome_iff_exists.mp ho
    exact Option.isSome_iff_exists.mpr ⟨⟨g, s, p, o⟩, getResourceQuad_eq_some.mpr ⟨hg, hs, hp, ho⟩⟩

theorem interned_of_bound {env : ReasonerEnv Expr} {r : Rule Expr} {sub : Substitution}
    (hg : r.Grounds env sub) (hread : ∀ q ∈ r.witnesses sub, m.Interned q) {v : String}
    {id : GraphElementId} (hv : sub v = some id) : (m.getGraphElement id).isSome := by
  obtain ⟨p, hp, hvp⟩ := (hg.dom v).mp (hv ▸ rfl)
  obtain ⟨q, hq⟩ := hg.exists_witness hp
  have hinterned := interned_iff.mp (hread q ⟨p, hp, hq⟩)
  obtain ⟨hgraph, hsubject, hpredicate, hobject⟩ := applySubstitutionQuad_eq_some.mp hq
  have hterm (t : Term) {i : GraphElementId} (ht : v ∈ t.getVariables)
      (hi : applySubstitutionResource sub t = some i) : i = id := by
    cases t with
    | resource x => cases ht
    | var x =>
      obtain rfl := List.mem_singleton.mp ht
      exact Option.some.inj (hi.symm.trans hv)
  obtain ⟨t, ht, hvt⟩ := List.mem_flatMap.mp hvp
  simp only [List.mem_cons, List.not_mem_nil, or_false] at ht
  rcases ht with rfl | rfl | rfl | rfl
  · rw [← hterm _ hvt hgraph]
    exact hinterned.1
  · rw [← hterm _ hvt hsubject]
    exact hinterned.2.1
  · rw [← hterm _ hvt hpredicate]
    exact hinterned.2.2.1
  · rw [← hterm _ hvt hobject]
    exact hinterned.2.2.2

theorem InternedHeads.closedUnder (h : InternedHeads m rules) (env : ReasonerEnv Expr) :
    GroundProgram.ClosedUnder (clausesOf env rules) {q | m.Interned q} := by
  intro c ⟨r, hr, sub, q, hg, hhead, hc⟩ hpos
  subst hc
  have hread : ∀ w ∈ r.witnesses sub, m.Interned w := fun w hw => hpos hw
  have hresolved (head : QuadPattern) (hh : r.head = .normalHead head) (t : Term)
      (ht : t ∈ [head.graph, head.subject, head.predicate, head.object]) {id : GraphElementId}
      (hid : applySubstitutionResource sub t = some id) : (m.getGraphElement id).isSome := by
    cases t with
    | resource x =>
      cases hid
      exact h r hr head hh _ ht id rfl
    | var x => exact interned_of_bound hg hread hid
  show m.Interned q
  rw [Rule.headQuad] at hhead
  cases hh : r.head with
  | contradiction =>
    rw [hh] at hhead
    cases hhead
  | normalHead head =>
    rw [hh] at hhead
    obtain ⟨hgraph, hsubject, hpredicate, hobject⟩ := applySubstitutionQuad_eq_some.mp hhead
    rw [interned_iff]
    exact ⟨hresolved head hh _ (by simp) hgraph, hresolved head hh _ (by simp) hsubject,
      hresolved head hh _ (by simp) hpredicate, hresolved head hh _ (by simp) hobject⟩

/-- The pattern stands for no instance of `owl:Nothing`. -/
def RefutesInstance (m : GraphElementManager N) (head : QuadPattern) : Prop :=
  (∃ id, head.graph = .resource id ∧ id ≠ defaultGraphElementId) ∨
  (∃ id e, head.predicate = .resource id ∧ m.getGraphElement id = some e ∧ e ≠ .iri rdfType) ∨
  ∃ id e, head.object = .resource id ∧ m.getGraphElement id = some e ∧ e ≠ .iri owlNothing

/-- No rule derives an instance of `owl:Nothing`. -/
def HarmlessRules (m : GraphElementManager N) (rules : List (Rule Expr)) : Prop :=
  ∀ r ∈ rules, ∀ head, r.head = .normalHead head → RefutesInstance m head

theorem HarmlessRules.extends (h : HarmlessRules m rules) (hext : m.Extends m') :
    HarmlessRules m' rules := by
  intro r hr head hhead
  rcases h r hr head hhead with hgraph | ⟨id, e, hp, he, hne⟩ | ⟨id, e, ho, he, hne⟩
  · exact .inl hgraph
  · exact .inr (.inl ⟨id, e, hp, hext.getGraphElement he, hne⟩)
  · exact .inr (.inr ⟨id, e, ho, hext.getGraphElement he, hne⟩)

theorem HarmlessRules.closedUnder (h : HarmlessRules m rules) (env : ReasonerEnv Expr) :
    GroundProgram.ClosedUnder (clausesOf env rules) {q | ¬ IsInstance m q} := by
  rintro c ⟨r, hr, sub, q, -, hhead, rfl⟩ _ ⟨hgraph, hpredicate, hobj⟩
  have hterm {t : Term} {id i : GraphElementId} (ht : t = .resource id)
      (hi : applySubstitutionResource sub t = some i) : id = i := by
    subst ht
    exact Option.some.inj hi
  rw [Rule.headQuad] at hhead
  cases hh : r.head with
  | contradiction =>
    rw [hh] at hhead
    cases hhead
  | normalHead head =>
    rw [hh] at hhead
    obtain ⟨hg, -, hp, ho⟩ := applySubstitutionQuad_eq_some.mp hhead
    rcases h r hr head hh with ⟨id, hid, hne⟩ | ⟨id, e, hid, he, hne⟩ | ⟨id, e, hid, he, hne⟩
    · exact hne ((hterm hid hg).trans hgraph)
    · rw [hterm hid hp] at he
      exact hne (Option.some.inj (he.symm.trans hpredicate))
    · rw [hterm hid ho] at he
      exact hne (Option.some.inj (he.symm.trans hobj))

end Heads

section Uploads

/-- The document says of nothing that it is an instance of `owl:Nothing`. -/
def HarmlessData (tmp : Datastore N) : Prop :=
  ∀ q ∈ tmp.namedGraphs, ¬ (tmp.resources.getGraphElement q.predicate = some (.iri rdfType) ∧
    tmp.resources.getGraphElement q.obj = some (.iri owlNothing))

/-- Quads in the names of the store, none of them an instance of `owl:Nothing`. -/
def HarmlessQuads (acc : Datastore N × List Quad) : Prop :=
  ∀ q ∈ acc.2, acc.1.resources.Interned q ∧ ¬ IsInstance acc.1.resources q

variable {acc : Datastore N × List Quad} {store tmp : Datastore N}

theorem HarmlessQuads.extends (h : HarmlessQuads acc)
    (hext : acc.1.resources.Extends store.resources) :
    HarmlessQuads (store, acc.2) := by
  intro q hq
  obtain ⟨hinterned, hno⟩ := h q hq
  exact ⟨hinterned.extends hext, fun hinstance => hno (hinstance.of_extends hext hinterned)⟩

theorem HarmlessQuads.translateQuad (htmp : HarmlessData tmp) (h : HarmlessQuads acc)
    {g : GraphElementId} {ge : GraphElement N} (hg : acc.1.resources.getGraphElement g = some ge)
    {q : Quad} (hq : q ∈ tmp.namedGraphs) : HarmlessQuads (Endpoint.translateQuad tmp g acc q) := by
  unfold Endpoint.translateQuad
  split
  · next s p o hs hp ho =>
    obtain ⟨-, hext, hres⟩ := internTriple_spec acc.1 g s p o hg
    intro x hx
    rcases List.mem_append.mp hx with hx | hx
    · exact h.extends hext x hx
    · rw [List.mem_singleton.mp hx]
      refine ⟨.of_eq_some hres, fun ⟨_, hpredicate, hobj⟩ => htmp q hq ?_⟩
      obtain ⟨-, -, hp', ho'⟩ := getResourceQuad_eq_some.mp hres
      rw [hp, ho]
      exact ⟨hp'.symm.trans hpredicate, ho'.symm.trans hobj⟩
  · exact h

theorem harmless_translateDefaultGraphQuads (htmp : HarmlessData tmp) {g : GraphElementId}
    {ge : GraphElement N} (hg : store.resources.getGraphElement g = some ge) :
    HarmlessQuads (translateDefaultGraphQuads tmp store g) := by
  have hfold (quads : List Quad) (hquads : ∀ q ∈ quads, q ∈ tmp.namedGraphs)
      {acc : Datastore N × List Quad} (hacc : HarmlessQuads acc)
      (hg : acc.1.resources.getGraphElement g = some ge) :
      HarmlessQuads (quads.foldl (Endpoint.translateQuad tmp g) acc) := by
    induction quads generalizing acc with
    | nil => exact hacc
    | cons q quads ih =>
      refine ih (fun q hm => hquads q (List.mem_cons_of_mem _ hm))
        (hacc.translateQuad htmp hg (hquads q List.mem_cons_self)) ?_
      exact (translateQuad_extends tmp g acc q).getGraphElement hg
  exact hfold _ (fun q hq => ((mem_getGraph tmp _ q).mp hq).1)
    (fun q hq => absurd hq List.not_mem_nil) hg

theorem harmless_translateDatasetQuads (htmp : HarmlessData tmp) :
    HarmlessQuads (translateDatasetQuads tmp store) := by
  have hfold (quads : List Quad) (hquads : ∀ q ∈ quads, q ∈ tmp.namedGraphs)
      {acc : Datastore N × List Quad} (hacc : HarmlessQuads acc) :
      HarmlessQuads (quads.foldl (translateDatasetQuad tmp) acc) := by
    induction quads generalizing acc with
    | nil => exact hacc
    | cons q quads ih =>
      refine ih (fun q hm => hquads q (List.mem_cons_of_mem _ hm)) ?_
      unfold translateDatasetQuad
      split
      · exact hacc
      · next graph _ =>
        exact (hacc.extends (acc.1.addResource_extends graph)).translateQuad htmp
          (acc.1.addResource_get graph) (hquads q List.mem_cons_self)
  exact hfold _ (fun q hq => hq) fun q hq => absurd hq List.not_mem_nil

end Uploads

section Delta

variable {r : Reasoning Expr} (hf : r.env.FixedFilters)
include hf

variable {m m' : IncrementalReasoner Expr}

theorem reasonDelta_subset {deletes inserts : List Quad} {X : Set Quad}
    (hs : OrderedStrata (activeStrata m.programs))
    (hX : GroundProgram.ClosedUnder (clausesOf r.env (activeStrata m.programs).flatten) X)
    (hbase : m.base.quads ⊆ X) (hinserts : ∀ q ∈ inserts, q ∈ X)
    (h : reasonDelta r m deletes inserts = .ok m') : m'.base.quads ⊆ X := by
  obtain ⟨m₁, n, hrun, hinsert⟩ := reasonDelta_ok h
  have hstrata := (applyDeletions_status hrun).1
  have hdeleted := applyDeletions_subset hf hs hX hbase hrun
  rcases hinsert with ⟨-, rfl⟩ | ⟨-, h⟩
  · exact hdeleted
  · refine applyInsertions_subset hf ?_ ?_ hdeleted hinserts h
    · rw [hstrata]
      exact hs
    · rw [hstrata]
      exact hX

/-- A ruleset as it is loaded: in strata, and its heads in the names of the store. -/
structure LiveRules (m : GraphElementManager N) (programs : List (DatalogProgram Expr)) : Prop where
  ordered : OrderedStrata (activeStrata programs)
  heads : InternedHeads m (activeStrata programs).flatten

omit hf in
theorem LiveRules.extends {m m' : GraphElementManager N} {programs : List (DatalogProgram Expr)}
    (h : LiveRules m programs) (hext : m.Extends m') : LiveRules m' programs :=
  ⟨h.ordered, h.heads.extends hext⟩

theorem LiveRules.reasonDelta {names : GraphElementManager N} {deletes inserts : List Quad}
    (hlive : LiveRules names m.programs) (hbase : ∀ q ∈ m.base, names.Interned q)
    (hinserts : ∀ q ∈ inserts, names.Interned q)
    (h : Endpoint.reasonDelta r m deletes inserts = .ok m') :
    LiveRules names m'.programs ∧ ∀ q ∈ m'.base, names.Interned q := by
  refine ⟨?_, reasonDelta_subset hf hlive.ordered (hlive.heads.closedUnder r.env) hbase hinserts h⟩
  have hstrata := reasonDelta_strata h
  constructor
  · rw [hstrata]
    exact hlive.ordered
  · rw [hstrata]
    exact hlive.heads

end Delta

/-- A dataset with live rules, all its quads in interned ids, and no instance of `owl:Nothing`. -/
structure Guarded (store : Datastore N)
    (reasoner : Option (List (DatalogProgram Expr))) : Prop where
  live : ∃ programs, reasoner = some programs ∧ LiveRules store.resources programs
  interned : store.Interned
  free : NoInstance store

theorem Guarded.grow {store store' : Datastore N} {reasoner : Option (List (DatalogProgram Expr))}
    (h : Guarded store reasoner) (hgraphs : store'.namedGraphs.quads ⊆ store.namedGraphs.quads)
    (hext : store.resources.Extends store'.resources) : Guarded store' reasoner := by
  obtain ⟨programs, hreasoner, hlive⟩ := h.live
  exact ⟨⟨programs, hreasoner, hlive.extends hext⟩,
    fun q hq => (h.interned q (hgraphs hq)).extends hext,
    h.free.extends h.interned hgraphs hext⟩

end RdfDatalog.Endpoint
