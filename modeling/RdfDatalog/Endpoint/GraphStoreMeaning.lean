import RdfDatalog.Endpoint.DurableWrites

namespace RdfDatalog.Endpoint

open GraphElementManager Datalog

variable {N : NativeTypes} {Expr : Type}

/-- What a graph store request uploads: quads of the parsed body, and the graph that they go to
where it is not their own. -/
structure Upload (N : NativeTypes) where
  tmp : Datastore N
  quads : List Quad
  graph : Option IriReference

namespace Upload

variable (u : Upload N)

def place (t : TermQuad N) : TermQuad N :=
  match u.graph with
  | none => t
  | some iri => { t with graph := .iri iri }

def placeResource (r : QuadResource N) : QuadResource N :=
  match u.graph with
  | none => r
  | some iri => moveTo (.iri iri) r

/-- The quads of terms that the body stands for. -/
def terms : Set (TermQuad N) :=
  {t | ∃ r ∈ u.tmp.resources.resolve u.quads, ∃ t', u.tmp.resources.ResolvesQuad r t' ∧
    t = u.place t'}

/-- The elements of the body stand for the same terms in another store: the ids in its triple
terms are right there too. -/
def Kept (m : GraphElementManager N) : Prop :=
  ∀ r ∈ u.tmp.resources.resolve u.quads, ∀ t, u.tmp.resources.ResolvesQuad r t →
    m.ResolvesQuad r t

variable {u}

theorem placed {m : GraphElementManager N} {r : QuadResource N} {t : TermQuad N}
    (h : m.ResolvesQuad r t) : m.ResolvesQuad (u.placeResource r) (u.place t) := by
  rw [placeResource, place]
  cases u.graph with
  | none => exact h
  | some iri => exact ⟨.iri iri, h.subject, h.predicate, h.obj⟩

theorem resolves_of_plain {m m' : GraphElementManager N} {e : GraphElement N} {t : RdfTerm N}
    (he : ∀ k, e ≠ .tripleTerm k) (h : m.Resolves e t) : m'.Resolves e t := by
  cases h with
  | iri i => exact .iri i
  | blank n => exact .blank n
  | literal l => exact .literal l
  | tripleTerm _ _ _ _ _ _ => exact absurd rfl (he _)

theorem kept_of_plain (h : ∀ r ∈ u.tmp.resources.resolve u.quads,
    ∀ e ∈ [r.graph, r.subject, r.predicate, r.obj], ∀ k, e ≠ .tripleTerm k)
    (m : GraphElementManager N) : u.Kept m := by
  intro r hr t ht
  have hr := h r hr
  exact ⟨resolves_of_plain (hr _ (by simp)) ht.graph, resolves_of_plain (hr _ (by simp)) ht.subject,
    resolves_of_plain (hr _ (by simp)) ht.predicate, resolves_of_plain (hr _ (by simp)) ht.obj⟩

theorem terms_finite : u.terms.Finite := by
  have hfinite : {t' | ∃ r ∈ u.tmp.resources.resolve u.quads,
      u.tmp.resources.ResolvesQuad r t'}.Finite := by
    have hunion : {t' | ∃ r ∈ u.tmp.resources.resolve u.quads, u.tmp.resources.ResolvesQuad r t'} =
        ⋃ r ∈ (u.tmp.resources.resolve u.quads : Set (QuadResource N)),
          {t' | u.tmp.resources.ResolvesQuad r t'} := by
      ext t'
      simp
    rw [hunion]
    refine (Finset.finite_toSet _).biUnion fun r _ => Set.Subsingleton.finite ?_
    exact fun t ht t' ht' => ht.unique ht'
  refine (hfinite.image u.place).subset ?_
  intro t ⟨r, hr, t', ht', heq⟩
  exact ⟨t', ⟨r, hr, ht'⟩, heq.symm⟩

end Upload

/-- The name of the graph that a request is for. -/
def GraphParams.target (params : GraphParams) : IriReference :=
  if params.default then defaultGraphIri else params.graph.getD defaultGraphIri

def Request.upload (env : ServerEnv N Expr) : Request → Option (Upload N)
  | .gspPut params contentType body =>
    match parseUpload env contentType body with
    | .error _ => none
    | .ok (_, tmp) =>
      some ⟨tmp, tmp.namedGraphs.table.getGraph defaultGraphElementId, some params.target⟩
  | .gspPost params contentType body _ nanos =>
    match parseUpload env contentType body with
    | .error _ => none
    | .ok (fmt, tmp) =>
      if params.default || params.graph.isSome then
        some ⟨tmp, tmp.namedGraphs.table.getGraph defaultGraphElementId, some params.target⟩
      else if fmt = .triG || fmt = .nQuads || fmt = .jsonLd then
        some ⟨tmp, tmp.namedGraphs.quadList, none⟩
      else
        some ⟨tmp, tmp.namedGraphs.table.getGraph defaultGraphElementId,
          some (freshGraphIri env nanos)⟩
  | .gspDelete params => some ⟨.new, [], some params.target⟩
  | _ => none

/-- The graph whose quads the request replaces. -/
def Request.replaced : Request → Option IriReference
  | .gspPut params _ _ | .gspDelete params => some params.target
  | _ => none

/-- The new store holds the uploaded quads, up to blank nodes, and those of the old one in the
graphs that are not replaced. -/
structure Written (old new : Datastore N) (replaced : Option IriReference)
    (upload : Set (TermQuad N)) (ρ : Nat → Nat) : Prop where
  resolves : ∀ r ∈ new.asserted, ∃ t, new.resources.ResolvesQuad r t
  terms : new.assertedTerms =
    {t ∈ old.assertedTerms | some t.graph ≠ replaced.map .iri} ∪ TermQuad.rename ρ '' upload
  injective : Set.InjOn ρ (TermQuad.blanksOf upload)

/-- A write that replaces no graph is a merge: the blank nodes of the upload are renamed apart from
those of the store. -/
def Request.Done (request : Request) (old new : Datastore N) (upload : Set (TermQuad N)) : Prop :=
  ∃ ρ, Written old new request.replaced upload ρ ∧
    (request.replaced = none → ∀ n ∈ TermQuad.blanksOf upload, ¬ old.BlankOccurs (ρ n))

section Meaning

theorem resolvesQuad_graph_iff {m : GraphElementManager N} {r : QuadResource N} {t : TermQuad N}
    (h : m.ResolvesQuad r t) (replaced : Option IriReference) :
    some r.graph = replaced.map .iri ↔ some t.graph = replaced.map .iri := by
  cases replaced with
  | none => exact iff_of_false (by simp) (by simp)
  | some iri =>
    rw [Option.map_some, Option.map_some, Option.some.injEq, Option.some.injEq]
    have hgraph := h.graph
    constructor
    · intro heq
      rw [heq] at hgraph
      generalize t.graph = g at hgraph
      cases hgraph
      rfl
    · intro heq
      rw [heq] at hgraph
      generalize r.graph = g at hgraph
      cases hgraph
      rfl

variable {old new : Datastore N} {u : Upload N} (hold : old.Resolvable)
  (hupload : ∀ r ∈ u.tmp.resources.resolve u.quads, ∃ t, u.tmp.resources.ResolvesQuad r t)
  (hext : old.resources.Extends new.resources) (hkept : u.Kept new.resources)
include hold hupload hext hkept

theorem writes_of_asserted {replaced : Option IriReference}
    (h : new.asserted = old.asserted.filter
        (fun r => decide (some r.graph = replaced.map .iri) = false) ∪
      (u.tmp.resources.resolve u.quads).image u.placeResource) :
    (∀ r ∈ new.asserted, ∃ t, new.resources.ResolvesQuad r t) ∧
      new.assertedTerms =
        {t ∈ old.assertedTerms | some t.graph ≠ replaced.map .iri} ∪ u.terms := by
  have hcases {r : QuadResource N} (hr : r ∈ new.asserted) :
      (∃ t ∈ old.assertedTerms, some t.graph ≠ replaced.map .iri ∧
          new.resources.ResolvesQuad r t) ∨
        ∃ t ∈ u.terms, new.resources.ResolvesQuad r t := by
    rw [h, Finset.mem_union, Finset.mem_filter, Finset.mem_image] at hr
    rcases hr with ⟨hr, hkeep⟩ | ⟨r₀, hr₀, rfl⟩
    · obtain ⟨t, ht⟩ := hold.exists_term (old.asserted_subset_resolved hr)
      refine .inl ⟨t, ⟨r, hr, ht⟩, ?_, ht.extends hext⟩
      exact mt (resolvesQuad_graph_iff ht replaced).mpr (of_decide_eq_false hkeep)
    · obtain ⟨t, ht⟩ := hupload r₀ hr₀
      exact .inr ⟨u.place t, ⟨r₀, hr₀, t, ht, rfl⟩, Upload.placed (hkept r₀ hr₀ t ht)⟩
  constructor
  · intro r hr
    rcases hcases hr with ⟨t, _, _, ht⟩ | ⟨t, _, ht⟩
    · exact ⟨t, ht⟩
    · exact ⟨t, ht⟩
  · ext t
    constructor
    · intro ⟨r, hr, ht⟩
      rcases hcases hr with ⟨t', hmem, hgraph, ht'⟩ | ⟨t', hmem, ht'⟩
      · cases ht.unique ht'
        exact .inl ⟨hmem, hgraph⟩
      · cases ht.unique ht'
        exact .inr hmem
    · intro hmem
      rcases hmem with ⟨⟨r, hr, ht⟩, hgraph⟩ | ⟨r, hr, t', ht', rfl⟩
      · refine ⟨r, ?_, ht.extends hext⟩
        rw [h, Finset.mem_union, Finset.mem_filter]
        refine .inl ⟨hr, decide_eq_false ?_⟩
        exact mt (resolvesQuad_graph_iff ht replaced).mp hgraph
      · refine ⟨u.placeResource r, ?_, Upload.placed (hkept r hr t' ht')⟩
        rw [h, Finset.mem_union]
        exact .inr (Finset.mem_image_of_mem _ hr)

theorem done_iff {request : Request}
    (h : new.asserted = old.asserted.filter
        (fun r => decide (some r.graph = request.replaced.map .iri) = false) ∪
      (u.tmp.resources.resolve u.quads).image u.placeResource) :
    request.Done old new u.terms ↔
      (request.replaced = none → ∀ n ∈ TermQuad.blanksOf u.terms, ¬ old.BlankOccurs n) := by
  obtain ⟨hresolves, hterms⟩ := writes_of_asserted hold hupload hext hkept h
  constructor
  · intro ⟨ρ, hwrites, hfresh⟩ hmerge
    refine TermQuad.apart_of_merge Upload.terms_finite ?_ hwrites.injective (hfresh hmerge)
      (hterms.symm.trans hwrites.terms)
    intro n ⟨t, ht, hn⟩
    exact Datastore.blankOccurs_of_assertedTerms ⟨t, ht.1, hn⟩
  · intro hapart
    refine ⟨id, ⟨hresolves, ?_, Set.injOn_id _⟩, hapart⟩
    rw [hterms]
    congr 1
    ext t
    simp

end Meaning

section Requests

variable {env : ServerEnv N Expr} {store : Datastore N} {w : GraphWrite N} {u : Upload N}

/-- A write that does to its graph what the request asks for. -/
structure GraphWrite.For (w : GraphWrite N) (store : Datastore N) (replaced : Option IriReference)
    (u : Upload N) : Prop where
  extends_ : store.resources.Extends w.store.resources
  clears : ∀ q r, w.store.resources.getResourceQuad q = some r →
    (some r.graph = replaced.map .iri ↔ w.clear = some q.tripleId)
  translates : Translated w.store (w.translate w.store)
    ((u.tmp.resources.resolve u.quads).image u.placeResource)

theorem clears_replaced {m : GraphElementManager N} {g : GraphElementId} {iri : IriReference}
    (hg : m.getGraphElement g = some (.iri iri)) (q : Quad) (r : QuadResource N)
    (hr : m.getResourceQuad q = some r) :
    some r.graph = (some iri).map .iri ↔ some g = some q.tripleId := by
  rw [← clears_graph hg q r hr, decide_eq_true_iff, Option.map_some, Option.some.injEq]

theorem clears_none (q : Quad) (r : QuadResource N) :
    some r.graph = (none : Option IriReference).map .iri ↔ none = some q.tripleId :=
  iff_of_false (by simp) (by simp)

theorem translated_target {m : Datastore N} {tmp : Datastore N} {g : GraphElementId}
    {iri : IriReference} (hg : m.resources.getGraphElement g = some (.iri iri)) :
    Translated m (translateDefaultGraphQuads tmp m g)
      ((tmp.resources.resolve (tmp.namedGraphs.table.getGraph defaultGraphElementId)).image
        (Upload.placeResource ⟨tmp, tmp.namedGraphs.table.getGraph defaultGraphElementId,
          some iri⟩)) :=
  translateDefaultGraphQuads_spec tmp hg

variable {params : GraphParams}

theorem putWrite_for {contentType : String} {body : ByteArray}
    (hw : putWrite env store params contentType body = .ok w)
    (hu : (Request.gspPut params contentType body).upload env = some u) :
    w.For store (some params.target) u := by
  obtain ⟨fmt, tmp, store', g, isNew, hparse, htarget, rfl⟩ := putWrite_shape hw
  simp only [Request.upload, hparse, Option.some.injEq] at hu
  subst hu
  have hspec : store.resources.Extends store'.resources ∧
      store'.resources.getGraphElement g = some (.iri params.target) := by
    rw [resolveWriteTarget] at htarget
    rw [GraphParams.target]
    split_ifs at htarget with hdefault
    · cases htarget
      rw [if_pos hdefault]
      exact ⟨.refl _, store.resources.defaultGraph⟩
    · rw [if_neg hdefault]
      cases hgraph : params.graph with
      | none =>
        rw [hgraph] at htarget
        cases htarget
      | some iri =>
        rw [hgraph] at htarget
        dsimp only at htarget
        split_ifs at htarget
        cases htarget
        exact ⟨store.addResource_extends (.iri iri), store.addResource_get (.iri iri)⟩
  exact ⟨hspec.1, clears_replaced hspec.2, translated_target hspec.2⟩

theorem deleteWrite_for (hw : deleteWrite env store params = .ok w)
    (hu : (Request.gspDelete params).upload env = some u) :
    w.For store (some params.target) u := by
  obtain ⟨graph, g, hfound, htarget, rfl⟩ := deleteWrite_shape hw
  cases hu
  have hspec : store.resources.getGraphElement g = some (.iri params.target) := by
    have hgraph := deleteGraph_spec hfound
    rw [deleteTarget] at htarget
    rw [GraphParams.target]
    split_ifs at htarget with hdefault
    · cases htarget
      rw [if_pos hdefault]
      exact hgraph
    · rw [if_neg hdefault]
      cases hparam : params.graph with
      | none =>
        rw [hparam] at htarget
        cases htarget
      | some iri =>
        rw [hparam] at htarget
        dsimp only at htarget
        split_ifs at htarget
        cases htarget
        exact hgraph
  exact ⟨.refl _, clears_replaced hspec, Translated.start store⟩

theorem uploadTo_for {tmp store' : Datastore N} {graph : Option String} {g : GraphElementId}
    {iri : IriReference} {response : Response}
    (hext : store.resources.Extends store'.resources)
    (hg : store'.resources.getGraphElement g = some (.iri iri)) :
    (uploadTo env tmp graph g store' response).For store none
      ⟨tmp, tmp.namedGraphs.table.getGraph defaultGraphElementId, some iri⟩ :=
  ⟨hext, fun q r _ => clears_none q r, translated_target hg⟩

theorem postWrite_for {contentType : String} {body : ByteArray}
    {createIfMissing : Bool} {nanos : Nat}
    (hw : postWrite env store params contentType body createIfMissing nanos = .ok w)
    (hu : (Request.gspPost params contentType body createIfMissing nanos).upload env = some u)
    (htmp : u.tmp.Interned) : w.For store none u := by
  obtain ⟨fmt, tmp, hparse, hshape⟩ := postWrite_shape hw
  simp only [Request.upload, hparse] at hu
  rcases hshape with ⟨hdefault, rfl⟩ | ⟨hdefault, iri, g, hgraph, hexists, rfl⟩ |
    ⟨hdefault, iri, hgraph, rfl⟩ | ⟨hdefault, hgraph, rfl⟩
  · have htarget : params.target = defaultGraphIri := if_pos hdefault
    rw [hdefault, Bool.true_or, if_pos rfl, htarget] at hu
    cases hu
    exact uploadTo_for (.refl _) store.resources.defaultGraph
  · have htarget : params.target = iri := by
      rw [GraphParams.target, hdefault, hgraph]
      rfl
    rw [hdefault, hgraph, Option.isSome_some, Bool.or_true, if_pos rfl, htarget] at hu
    cases hu
    exact uploadTo_for (.refl _) ((store.resources.exact _ _).mp
      (Option.filter_eq_some_iff.mp hexists).1)
  · have htarget : params.target = iri := by
      rw [GraphParams.target, hdefault, hgraph]
      rfl
    rw [hdefault, hgraph, Option.isSome_some, Bool.or_true, if_pos rfl, htarget] at hu
    cases hu
    exact uploadTo_for (store.addResource_extends (.iri iri)) (store.addResource_get (.iri iri))
  · rw [hdefault, hgraph, Option.isSome_none, Bool.or_false, if_neg Bool.false_ne_true] at hu
    rw [uploadUnnamed]
    split_ifs at hu ⊢
    · cases hu
      refine ⟨.refl _, fun q r _ => clears_none q r, ?_⟩
      have himage : (tmp.resources.resolve tmp.namedGraphs.quadList).image
          (Upload.placeResource ⟨tmp, tmp.namedGraphs.quadList, none⟩) = tmp.resolved :=
        Finset.image_id
      rw [himage]
      exact translateDatasetQuads_spec store htmp
    · cases hu
      have hspec := @translated_target N _ tmp _ _
        (store.addResource_get (.iri (freshGraphIri env nanos)))
      exact ⟨.refl _, fun q r _ => clears_none q r,
        hspec.namedGraphs, (store.addResource_extends _).trans hspec.extended, hspec.interned,
        hspec.resolved⟩

theorem graphWrite_for {request : Request} (hw : request.graphWrite env store = some (.ok w))
    (hu : request.upload env = some u) (htmp : u.tmp.Interned) :
    w.For store request.replaced u := by
  cases request with
  | gspPut params contentType body => exact putWrite_for (Option.some.inj hw) hu
  | gspPost params contentType body createIfMissing nanos =>
    exact postWrite_for (Option.some.inj hw) hu htmp
  | gspDelete params => exact deleteWrite_for (Option.some.inj hw) hu
  | _ => cases hw

theorem Request.upload_quads {request : Request} (hu : request.upload env = some u) (q : Quad)
    (hq : q ∈ u.quads) : q ∈ u.tmp.namedGraphs := by
  cases request with
  | gspPut params contentType body =>
    rw [Request.upload] at hu
    split at hu
    · cases hu
    · next parsed hparse =>
      cases hu
      exact ((mem_getGraph _ _ q).mp hq).1
  | gspPost params contentType body createIfMissing nanos =>
    rw [Request.upload] at hu
    cases hparse : parseUpload env contentType body with
    | error response =>
      rw [hparse] at hu
      cases hu
    | ok parsed =>
      rw [hparse] at hu
      dsimp only at hu
      split_ifs at hu
      · cases hu
        exact ((mem_getGraph _ _ q).mp hq).1
      · cases hu
        exact (QuadStore.mem_quadList _ q).mp hq
      · cases hu
        exact ((mem_getGraph _ _ q).mp hq).1
  | gspDelete params =>
    cases hu
    cases hq
  | _ => cases hu

theorem Upload.exists_term (hupload : u.tmp.Resolvable)
    (hquads : ∀ q ∈ u.quads, q ∈ u.tmp.namedGraphs) {r : QuadResource N}
    (hr : r ∈ u.tmp.resources.resolve u.quads) : ∃ t, u.tmp.resources.ResolvesQuad r t := by
  obtain ⟨q, hq, hqr⟩ := mem_resolve.mp hr
  obtain ⟨r', t, hr', ht⟩ := hupload q (hquads q hq)
  cases hqr.symm.trans hr'
  exact ⟨t, ht⟩

theorem GraphWrite.run_ok {s s' : AppState N Expr} {response : Response}
    (hinterns : w.OnlyInterns s.store.store) (hrun : w.run env s = (response, s'))
    (hsuccess : response.Success) : ∃ s₁ : AppState N Expr, s₁.store.store = w.store ∧
      s₁.reasoner = s.reasoner ∧
        writeQuads env s₁ w.clear (w.translate s₁.store.store) = .ok s' := by
  rw [GraphWrite.run] at hrun
  cases hlog : logBatch env (s.withStore w.store) w.entries with
  | error failed =>
    rw [hlog] at hrun
    cases hrun
    rw [logBatch] at hlog
    split at hlog
    · cases hlog
    · split at hlog
      · cases hlog
        exact absurd hsuccess (Response.not_success (by omega))
      · cases hlog
  | ok s₁ =>
    have hlogged := logBatch_ok hlog
    have hstore : s₁.store.store = w.store := by
      rw [hlogged]
      rfl
    have hreasoner : s₁.reasoner = s.reasoner := by
      rw [hlogged]
      rfl
    have hfails := @writeQuads_fails N Expr env s₁ w hstore (hinterns.translate w.store)
    rw [hlog] at hrun
    dsimp only at hrun
    refine ⟨s₁, hstore, hreasoner, ?_⟩
    cases hwrite : writeQuads env s₁ w.clear (w.translate s₁.store.store) with
    | error failed =>
      rw [hwrite] at hfails hrun
      cases hrun
      exact absurd hsuccess hfails.1
    | ok s₂ =>
      rw [hwrite] at hrun
      cases hrun
      rfl

variable [DecidableEq Expr] {s s' : AppState N Expr} {response : Response} {request : Request}

theorem graphStore_asserted (hw : request.graphWrite env s.store.store = some (.ok w))
    (hu : request.upload env = some u) (hstore : s.store.store.Interned)
    (hupload : u.tmp.Interned)
    (htakes : TakesDelta env.rules.reasoning s.reasoner w.store.namedGraphs w.netDeletes
      w.netInserts)
    (hrun : handle env s request = (response, s')) (hsuccess : response.Success) :
    s'.store.store.resources = (w.translate w.store).1.resources ∧
      s.store.store.resources.Extends s'.store.store.resources ∧
      s'.store.store.asserted = s.store.store.asserted.filter
          (fun r => decide (some r.graph = request.replaced.map .iri) = false) ∪
        (u.tmp.resources.resolve u.quads).image u.placeResource := by
  have hinterns := graphWrite_onlyInterns hw
  have hfor := graphWrite_for hw hu hupload
  rw [handle_graphWrite env s hw, answer] at hrun
  obtain ⟨s₁, hstore₁, hreasoner, hwrite⟩ := GraphWrite.run_ok hinterns hrun hsuccess
  rw [← hreasoner] at htakes
  obtain ⟨hres, hstatus⟩ :=
    writeQuads_status hstore₁ (hinterns.translate w.store) htakes hwrite
  refine ⟨hres, ?_, ?_⟩
  · rw [hres]
    exact hfor.extends_.trans hfor.translates.extended
  · refine GraphWrite.asserted_eq hfor.extends_ (fun q r hr => ?_) hfor.translates hstore hinterns
      hres hstatus
    rw [decide_eq_true_iff]
    exact hfor.clears q r hr

/-- A graph store request that succeeds: a PUT leaves the graph of its body in place of the old
one, a DELETE none, and a POST leaves the merge of the two iff no blank node of the body is numbered
as one of the store. All other graphs stay as they are. -/
theorem graphStore_done_iff (hw : request.graphWrite env s.store.store = some (.ok w))
    (hu : request.upload env = some u) (hstore : s.store.store.Resolvable)
    (hupload : u.tmp.Resolvable) (hkept : u.Kept (w.translate w.store).1.resources)
    (htakes : TakesDelta env.rules.reasoning s.reasoner w.store.namedGraphs w.netDeletes
      w.netInserts)
    (hrun : handle env s request = (response, s')) (hsuccess : response.Success) :
    request.Done s.store.store s'.store.store u.terms ↔
      (request.replaced = none →
        ∀ n ∈ TermQuad.blanksOf u.terms, ¬ s.store.store.BlankOccurs n) := by
  obtain ⟨hres, hext, hasserted⟩ :=
    graphStore_asserted hw hu hstore.interned hupload.interned htakes hrun hsuccess
  rw [← hres] at hkept
  exact done_iff hstore (fun r hr => Upload.exists_term hupload (Request.upload_quads hu) hr) hext
    hkept hasserted

end Requests

section Sample

/-- One triple about a blank node. -/
def blankDocument : Datastore NativeTypes.text :=
  addOxQuad .new ⟨.blankNode "x", "p", .namedNode "o", .defaultGraph⟩

def blankServer : ServerEnv NativeTypes.text Empty :=
  { dataServer with parseRdfBody := fun _ _ => .ok blankDocument }

/-- The body of the upload is not empty. -/
def blankPost : Request := .gspPost ⟨true, none⟩ "text/turtle" ⟨#[95]⟩ false 0

def blankUpload : Upload NativeTypes.text :=
  ⟨blankDocument, [⟨0, 1, 2, 3⟩], some defaultGraphIri⟩

theorem rdfUploadFormat_turtle : rdfUploadFormat "text/turtle" = some .turtle := by
  decide

theorem blankPost_upload : blankPost.upload blankServer = some blankUpload := by
  have hquads : blankDocument.namedGraphs.table.getGraph defaultGraphElementId =
      [⟨0, 1, 2, 3⟩] := by decide
  rw [blankPost, Request.upload, parseUpload, rdfUploadFormat_turtle]
  change some (Upload.mk blankDocument
    (blankDocument.namedGraphs.table.getGraph defaultGraphElementId) (some defaultGraphIri)) = _
  rw [hquads]
  rfl

theorem blankPost_graphWrite (store : Datastore NativeTypes.text) :
    blankPost.graphWrite blankServer store =
      some (.ok (uploadTo blankServer blankDocument none defaultGraphElementId store
        .noContent)) := by
  rw [blankPost, Request.graphWrite, postWrite, parseUpload, rdfUploadFormat_turtle]
  rfl

theorem blankDocument_resolves : blankDocument.resources.ResolvesQuad
    ⟨.iri defaultGraphIri, .nodeOrEdge (.anonymousBlankNode 1), .iri "p", .iri "o"⟩
    ⟨.iri defaultGraphIri, .blank 1, .iri "p", .iri "o"⟩ :=
  ⟨.iri _, .blank 1, .iri "p", .iri "o"⟩

theorem blankDocument_resolvable : blankDocument.Resolvable := by
  intro q hq
  have hmem := (QuadStore.mem_quadList _ q).mpr hq
  have hquads : blankDocument.namedGraphs.quadList = [⟨0, 1, 2, 3⟩] := by decide
  rw [hquads, List.mem_singleton] at hmem
  subst hmem
  exact ⟨_, _, by decide, blankDocument_resolves⟩

theorem blankUpload_kept (m : GraphElementManager NativeTypes.text) : blankUpload.Kept m := by
  have hquads : blankUpload.tmp.resources.resolve blankUpload.quads =
      {⟨.iri defaultGraphIri, .nodeOrEdge (.anonymousBlankNode 1), .iri "p", .iri "o"⟩} := by
    decide
  refine Upload.kept_of_plain (fun r hr e he k => ?_) m
  rw [hquads, Finset.mem_singleton] at hr
  subst hr
  simp only [List.mem_cons, List.not_mem_nil, or_false] at he
  rcases he with rfl | rfl | rfl | rfl <;> simp

theorem blankDocument_occurs : blankDocument.BlankOccurs 1 := by
  have hmem : (⟨.iri defaultGraphIri, .nodeOrEdge (.anonymousBlankNode 1), .iri "p", .iri "o"⟩ :
      QuadResource NativeTypes.text) ∈ blankDocument.resolved := by decide
  exact ⟨_, hmem, _, blankDocument_resolves, by decide⟩

theorem blankUpload_blank : 1 ∈ TermQuad.blanksOf blankUpload.terms := by
  have hterm : (⟨.iri defaultGraphIri, .blank 1, .iri "p", .iri "o"⟩ :
      TermQuad NativeTypes.text) ∈ blankUpload.terms :=
    ⟨_, by decide, _, blankDocument_resolves, rfl⟩
  exact ⟨_, hterm, by decide⟩

/-- A blank node, the second that the store has made, is named in the default graph and in another
one. -/
def namedStore : Datastore NativeTypes.text :=
  let made := (GraphElementManager.new.createUnnamedAnonResource).1.createUnnamedAnonResource
  let (graph, g) := made.1.addResource (.iri "urn:g")
  let (resources, name) := graph.addResource (.iri "name")
  ⟨(QuadStore.new.addQuad ⟨0, made.2, name, 0⟩).addQuad ⟨g, made.2, name, 0⟩, resources⟩

/-- The subject of every stored quad is the blank node with the number `n`. -/
def AboutBlank (ds : Datastore NativeTypes.text) (n : Nat) : Prop :=
  ∀ q ∈ ds.namedGraphs.quadList, ∃ g p o : IriReference, ds.resources.getResourceQuad q =
    some ⟨.iri g, .nodeOrEdge (.anonymousBlankNode n), .iri p, .iri o⟩

theorem resolvesQuad_aboutBlank (m : GraphElementManager NativeTypes.text) (g p o : IriReference)
    (n : Nat) : m.ResolvesQuad ⟨.iri g, .nodeOrEdge (.anonymousBlankNode n), .iri p, .iri o⟩
      ⟨.iri g, .blank n, .iri p, .iri o⟩ :=
  ⟨.iri g, .blank n, .iri p, .iri o⟩

theorem AboutBlank.resolvable {ds : Datastore NativeTypes.text} {n : Nat} (h : AboutBlank ds n) :
    ds.Resolvable := by
  intro q hq
  obtain ⟨g, p, o, hr⟩ := h q ((QuadStore.mem_quadList _ q).mpr hq)
  exact ⟨_, _, hr, resolvesQuad_aboutBlank _ g p o n⟩

theorem AboutBlank.occurs {ds : Datastore NativeTypes.text} {n k : Nat} (h : AboutBlank ds n)
    (hk : ds.BlankOccurs k) : k = n := by
  obtain ⟨r, hr, t, ht, hblank⟩ := hk
  obtain ⟨q, hq, hqr⟩ := mem_resolve.mp hr
  obtain ⟨g, p, o, hr⟩ := h q hq
  cases hr.symm.trans hqr
  rw [ht.unique (resolvesQuad_aboutBlank _ g p o n)] at hblank
  simpa [TermQuad.blanks, RdfTerm.blanks] using hblank

theorem namedStore_about : AboutBlank namedStore 2 := by
  have hquads : namedStore.namedGraphs.quadList = [⟨0, 2, 4, 0⟩, ⟨3, 2, 4, 0⟩] := by decide
  intro q hq
  rw [hquads] at hq
  simp only [List.mem_cons, List.not_mem_nil, or_false] at hq
  rcases hq with rfl | rfl
  · exact ⟨defaultGraphIri, "name", defaultGraphIri, by decide⟩
  · exact ⟨"urn:g", "name", defaultGraphIri, by decide⟩

theorem blankUpload_blanks {n : Nat} (h : n ∈ TermQuad.blanksOf blankUpload.terms) : n = 1 := by
  obtain ⟨t, ⟨r, hr, t', ht', rfl⟩, hn⟩ := h
  have hresolved : blankUpload.tmp.resources.resolve blankUpload.quads =
      {⟨.iri defaultGraphIri, .nodeOrEdge (.anonymousBlankNode 1), .iri "p", .iri "o"⟩} := by
    decide
  rw [hresolved, Finset.mem_singleton] at hr
  subst hr
  rw [ht'.unique blankDocument_resolves] at hn
  simpa [Upload.place, blankUpload, TermQuad.blanks, RdfTerm.blanks] using hn

/-- The blank node of the body is not the one of the store. -/
theorem graphStore_done_blank :
    ∃ s', handle blankServer ⟨⟨namedStore, 0⟩, none, ∅, ∅, none⟩ blankPost = (.noContent, s') ∧
      blankPost.Done namedStore s'.store.store blankUpload.terms := by
  have hstatus : (handle blankServer ⟨⟨namedStore, 0⟩, none, ∅, ∅, none⟩ blankPost).1 =
      .noContent := by decide
  have hderived : ∀ q ∈ namedStore.namedGraphs.quadList, ¬ namedStore.namedGraphs.Derived q := by
    decide
  have htakes (inserts deletes : List Quad) : TakesDelta blankServer.rules.reasoning none
      namedStore.namedGraphs deletes inserts :=
    fun q _ _ hd => hderived q ((QuadStore.mem_quadList _ q).mpr hd.mem) hd
  refine ⟨_, Prod.ext hstatus rfl, ?_⟩
  refine (graphStore_done_iff (blankPost_graphWrite namedStore) blankPost_upload
    namedStore_about.resolvable blankDocument_resolvable (blankUpload_kept _) (htakes _ _)
    (Prod.ext hstatus rfl) Response.noContent_success).mpr ?_
  intro _ n hn hold
  have hone := blankUpload_blanks hn
  have htwo := namedStore_about.occurs hold
  omega

/-- Posting the same document again adds nothing, as its blank node is taken for the one that is
there. -/
theorem graphStore_captures_blank :
    ∃ s', handle blankServer ⟨⟨blankDocument, 0⟩, none, ∅, ∅, none⟩ blankPost =
        (.noContent, s') ∧
      ¬ blankPost.Done blankDocument s'.store.store blankUpload.terms := by
  have hstatus : (handle blankServer ⟨⟨blankDocument, 0⟩, none, ∅, ∅, none⟩ blankPost).1 =
      .noContent := by decide
  have hderived : ∀ q ∈ blankDocument.namedGraphs.quadList,
      ¬ blankDocument.namedGraphs.Derived q := by decide
  have htakes (inserts deletes : List Quad) : TakesDelta blankServer.rules.reasoning none
      blankDocument.namedGraphs deletes inserts :=
    fun q _ _ hd => hderived q ((QuadStore.mem_quadList _ q).mpr hd.mem) hd
  refine ⟨_, Prod.ext hstatus rfl, fun hdone => ?_⟩
  obtain ⟨-, hext, hasserted⟩ := graphStore_asserted (blankPost_graphWrite blankDocument)
    blankPost_upload blankDocument_resolvable.interned blankDocument_resolvable.interned
    (htakes _ _) (Prod.ext hstatus rfl) Response.noContent_success
  have hterms : ∀ r ∈ blankUpload.tmp.resources.resolve blankUpload.quads,
      ∃ t, blankUpload.tmp.resources.ResolvesQuad r t := fun r hr =>
    Upload.exists_term blankDocument_resolvable (Request.upload_quads blankPost_upload) hr
  have hapart := (done_iff blankDocument_resolvable hterms hext (blankUpload_kept _)
    hasserted).mp hdone rfl
  exact hapart 1 blankUpload_blank blankDocument_occurs

end Sample

end RdfDatalog.Endpoint
