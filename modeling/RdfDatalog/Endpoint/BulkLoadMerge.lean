import RdfDatalog.Endpoint.BulkLoad
import RdfDatalog.Endpoint.GraphStoreMeaning
import RdfDatalog.Endpoint.SentData
import RdfDatalog.Store.NamedNodes

namespace RdfDatalog.Endpoint

open Datalog Datalog.IncrementalReasoner GraphElementManager GroundProgram

variable {N : NativeTypes} {Expr Multipart Mapping Documents : Type}

/-- The store that a multipart body gives rise to. -/
def generated {Input : Type} (read : Multipart → Except Refusal Input)
    (generate : Input → Except String (Datastore N)) (multipart : Multipart) :
    Option (Upload N) :=
  match read multipart with
  | .error _ => none
  | .ok input =>
    match generate input with
    | .error _ => none
    | .ok tmp => some ⟨tmp, tmp.namedGraphs.quadList, none⟩

/-- What the request loads, if its body can be read. -/
def BulkRequest.loaded (bulk : BulkEnv N Multipart Mapping Documents) (env : ServerEnv N Expr) :
    BulkRequest Multipart → Option (Upload N)
  | .upload graph _ body =>
    match uploadGraph graph, env.parseRdfBody body .turtle with
    | .ok graphIri, .ok tmp =>
      some ⟨tmp, tmp.namedGraphs.table.getGraph defaultGraphElementId,
        some (graphIri.getD defaultGraphIri)⟩
    | _, _ => none
  | .rml _ multipart => generated bulk.materializeMultipart bulk.applyRmlMapping multipart
  | .ottr _ multipart => generated bulk.parseMultipartDocuments bulk.expandDocuments multipart

/-- The store with the names of an upload, and the quads of the upload in its ids. -/
def Upload.translated (u : Upload N) (store : Datastore N) : Datastore N × List Quad :=
  match u.graph with
  | none => u.quads.foldl (translateDatasetQuad u.tmp) (store, [])
  | some iri =>
    let (store, g) := store.addResource (.iri iri)
    u.quads.foldl (translateQuad u.tmp g) (store, [])

/-- The new store asserts what the old one did and an upload, whose blank nodes are renamed apart
from those of the old store. -/
def Merges (old new : Datastore N) (upload : Set (TermQuad N)) : Prop :=
  ∃ ρ, Written old new none upload ρ ∧
    ∀ n ∈ TermQuad.blanksOf upload, ¬ old.BlankOccurs (ρ n)

/-- The stored quads are the closure of the asserted ones under the rules in force, where negation
finds the stored quads. -/
def DatasetCells.Closed (env : ReasonerEnv Expr) (cells : DatasetCells N Expr) : Prop :=
  IsStable (clausesOf env (activeStrata (cells.reasoner.getD [])).flatten)
    {q | cells.store.store.namedGraphs.Extensional q} cells.store.quads

/-- Quads that can be added without the rules: no rule comes to fire whose head is missing, and
every stored quad still follows, the added quads read as facts and as what negation finds. -/
structure Unnoticed (env : ReasonerEnv Expr) (rules : List (Rule Expr)) (s : QuadStore)
    (inserts : List Quad) : Prop where
  saturated : ∀ c ∈ clausesOf env rules, c.Active (s.quads ∪ {q | q ∈ inserts}) →
    c.head ∈ s.quads ∪ {q | q ∈ inserts}
  supported : s.quads ⊆ closure (clausesOf env rules) (s.quads ∪ {q | q ∈ inserts})
    ({q | s.Extensional q} ∪ {q | q ∈ inserts})

section Copy

/-- What a bulk load leaves of the cells of its dataset. -/
structure Loaded (u : Upload N) (cells cells' : DatasetCells N Expr) : Prop where
  resources : cells'.store.store.resources = (u.translated cells.store.store).1.resources
  namedGraphs : cells'.store.store.namedGraphs =
    (u.translated cells.store.store).2.foldl QuadStore.addQuad cells.store.store.namedGraphs
  reasoner : cells'.reasoner = cells.reasoner

theorem Copied.loaded {u : Upload N} {cells cells' : DatasetCells N Expr}
    (h : Copied cells.store.store.namedGraphs cells'.store (u.translated cells.store.store))
    (hreasoner : cells'.reasoner = cells.reasoner) : Loaded u cells cells' :=
  ⟨h.resources, h.namedGraphs, hreasoner⟩

theorem uploadTarget_eq (store : Datastore N) (graphIri : Option String) :
    uploadTarget store graphIri = store.addResource (.iri (graphIri.getD defaultGraphIri)) := by
  cases graphIri with
  | some iri => rfl
  | none =>
    obtain ⟨namedGraphs, resources⟩ := store
    have hdefault := addResource_of_get resources.defaultGraph
    change (_, _) = ((⟨namedGraphs, (resources.addResource (.iri defaultGraphIri)).1⟩ :
      Datastore N), (resources.addResource (.iri defaultGraphIri)).2)
    rw [hdefault]

variable {bulk : BulkEnv N Multipart Mapping Documents} {env : ServerEnv N Expr}
  {S S' : ServerState N Expr} {response : Response} {cell : Nat} {u : Upload N}

theorem logBatch_refused {s : AppState N Expr} {entries : List ChangelogEntry}
    (h : logBatch env s entries = .error response) : ¬ response.Success := by
  have hstatus := logBatch_error h
  rw [Response.Success]
  omega

theorem uploadTurtle_success {s s' : AppState N Expr} {graph : Option String}
    {contentType : String} {body : ByteArray}
    (hrun : uploadTurtle env s graph contentType body = (response, s'))
    (hsuccess : response.Success)
    (hu : (BulkRequest.upload graph contentType body).loaded bulk env = some u) :
    Copied s.store.store.namedGraphs s'.store (u.translated s.store.store) ∧
      s'.reasoner = s.reasoner := by
  rw [uploadTurtle] at hrun
  split_ifs at hrun
  · cases hrun
    exact absurd hsuccess (Response.not_success (by decide))
  · cases hrun
    exact absurd hsuccess (Response.not_success (by decide))
  rw [BulkRequest.loaded] at hu
  cases hgraph : uploadGraph graph with
  | error failed =>
    rw [hgraph] at hu
    cases hu
  | ok graphIri =>
    rw [hgraph] at hrun hu
    cases hparse : env.parseRdfBody body .turtle with
    | error e =>
      rw [hparse] at hu
      cases hu
    | ok tmp =>
      rw [hparse] at hrun hu
      cases hu
      dsimp only at hrun
      cases hlog : logBatch env s (uploadEntries env tmp graphIri) with
      | error failed =>
        rw [hlog] at hrun
        cases hrun
        exact absurd hsuccess (logBatch_refused hlog)
      | ok s₁ =>
        rw [hlog] at hrun
        have hlogged := logBatch_ok hlog
        subst hlogged
        cases hrun
        refine ⟨?_, rfl⟩
        change Copied _ (List.foldl _ _ _) (List.foldl _ _ _)
        rw [uploadTarget_eq]
        exact Copied.triples (fun _ _ => rfl) ⟨rfl, rfl⟩ _ _

theorem generatedPost_success {Input : Type} {what : String}
    {read : Multipart → Except Refusal Input} {generate : Input → Except String (Datastore N)}
    {name : String} {multipart : Multipart}
    (hrun : generatedPost what read generate env S name multipart = (response, S'))
    (hsuccess : response.Success) (hcell : S.getEntry name = some cell)
    (hu : generated read generate multipart = some u) :
    Loaded u (S.cells cell) (S'.cells cell) := by
  rw [generatedPost] at hrun
  split_ifs at hrun
  · cases hrun
    exact absurd hsuccess (Response.not_success (by decide))
  rw [hcell] at hrun
  rw [generated] at hu
  dsimp only at hrun
  cases hread : read multipart with
  | error refusal =>
    rw [hread] at hu
    cases hu
  | ok input =>
    rw [hread] at hrun hu
    dsimp only at hrun hu
    cases hgenerate : generate input with
    | error e =>
      rw [hgenerate] at hu
      cases hu
    | ok tmp =>
      rw [hgenerate] at hrun hu
      cases hu
      dsimp only at hrun
      cases hlog : logBatch env (S.datasetState cell) (generatedEntries name tmp) with
      | error failed =>
        rw [hlog] at hrun
        cases hrun
        exact absurd hsuccess (logBatch_refused hlog)
      | ok s₁ =>
        rw [hlog] at hrun
        have hlogged := logBatch_ok hlog
        subst hlogged
        cases hrun
        rw [ServerState.put_cells_self]
        refine Copied.loaded ?_ rfl
        exact Copied.quads ⟨rfl, rfl⟩ _

variable {request : BulkRequest Multipart}

theorem BulkRequest.run_loaded (hrun : request.run bulk env S = (response, S'))
    (hsuccess : response.Success) (hcell : request.cell S = some cell)
    (hu : request.loaded bulk env = some u) :
    Loaded u (S.cells cell) (S'.cells cell) := by
  cases request with
  | upload graph contentType body =>
    cases hcell
    rw [BulkRequest.run] at hrun
    cases hupload : uploadTurtle env (S.datasetState rootCell) graph contentType body with
    | mk response' s' =>
      rw [hupload] at hrun
      cases hrun
      obtain ⟨hcopied, hreasoner⟩ := uploadTurtle_success hupload hsuccess hu
      rw [ServerState.put_cells_self]
      exact Copied.loaded hcopied hreasoner
  | rml | ottr => exact generatedPost_success hrun hsuccess hcell hu

variable (hu : request.loaded bulk env = some u)

include hu

theorem BulkRequest.loaded_shape :
    (u.graph = none ∧ u.quads = u.tmp.namedGraphs.quadList) ∨
      ∃ iri, u.graph = some iri ∧
        u.quads = u.tmp.namedGraphs.table.getGraph defaultGraphElementId := by
  have hgenerated {Input : Type} {read : Multipart → Except Refusal Input}
      {generate : Input → Except String (Datastore N)} {multipart : Multipart}
      (h : generated read generate multipart = some u) :
      u.graph = none ∧ u.quads = u.tmp.namedGraphs.quadList := by
    rw [generated] at h
    split at h
    · cases h
    · split at h
      · cases h
      · cases h
        exact ⟨rfl, rfl⟩
  cases request with
  | upload graph contentType body =>
    rw [BulkRequest.loaded] at hu
    split at hu
    · cases hu
      exact .inr ⟨_, rfl, rfl⟩
    · cases hu
  | rml | ottr => exact .inl (hgenerated hu)

theorem BulkRequest.loaded_quads (q : Quad)
    (hq : q ∈ u.quads) :
    q ∈ u.tmp.namedGraphs := by
  rcases BulkRequest.loaded_shape hu with ⟨-, hquads⟩ | ⟨iri, -, hquads⟩
  · rw [hquads] at hq
    exact (QuadStore.mem_quadList _ q).mp hq
  · rw [hquads] at hq
    exact ((mem_getGraph _ _ q).mp hq).1

theorem BulkRequest.translated_spec (htmp : u.tmp.Interned)
    (store : Datastore N) :
    Translated store (u.translated store)
      ((u.tmp.resources.resolve u.quads).image u.placeResource) := by
  have hshape := BulkRequest.loaded_shape hu
  obtain ⟨tmp, quads, graph⟩ := u
  dsimp only at hshape
  rcases hshape with ⟨rfl, rfl⟩ | ⟨iri, rfl, rfl⟩
  · have himage : (tmp.resources.resolve tmp.namedGraphs.quadList).image
        (Upload.placeResource ⟨tmp, tmp.namedGraphs.quadList, none⟩) = tmp.resolved :=
      Finset.image_id
    rw [himage]
    exact translateDatasetQuads_spec store htmp
  · have hspec := @translated_target N _ tmp _ _ (store.addResource_get (.iri iri))
    exact ⟨hspec.namedGraphs, (store.addResource_extends _).trans hspec.extended, hspec.interned,
      hspec.resolved⟩

omit hu

end Copy

section Meaning

theorem mem_assertedTerms {ds : Datastore N} {t : TermQuad N} :
    t ∈ ds.assertedTerms ↔ ∃ q, ds.namedGraphs.Extensional q ∧ ds.resources.StandsFor q t := by
  constructor
  · intro ⟨r, hr, ht⟩
    obtain ⟨q, hq, hqr⟩ := Datastore.mem_asserted.mp hr
    exact ⟨q, hq, r, hqr, ht⟩
  · intro ⟨q, hq, r, hqr, ht⟩
    exact ⟨r, Datastore.mem_asserted.mpr ⟨q, hq, hqr⟩, ht⟩

variable {u : Upload N} {cells cells' : DatasetCells N Expr}

/-- The upload in the ids of the store, when the ids in its triple terms are right there. -/
structure Upload.Taken (u : Upload N) (store : Datastore N) : Prop where
  translated : Translated store (u.translated store)
    ((u.tmp.resources.resolve u.quads).image u.placeResource)
  resolvable : ∀ r ∈ u.tmp.resources.resolve u.quads, ∃ t, u.tmp.resources.ResolvesQuad r t
  kept : u.Kept (u.translated store).1.resources

namespace Upload.Taken

variable {store : Datastore N} (h : u.Taken store)
include h

theorem exists_standsFor {q : Quad} (hq : q ∈ (u.translated store).2) :
    ∃ t ∈ u.terms, (u.translated store).1.resources.StandsFor q t := by
  obtain ⟨r, hr⟩ := Option.isSome_iff_exists.mp (h.translated.interned q hq)
  have hmem : r ∈ (u.tmp.resources.resolve u.quads).image u.placeResource := by
    rw [← h.translated.resolved]
    exact mem_resolve.mpr ⟨q, hq, hr⟩
  obtain ⟨r', hr', rfl⟩ := Finset.mem_image.mp hmem
  obtain ⟨t, ht⟩ := h.resolvable r' hr'
  exact ⟨u.place t, ⟨r', hr', t, ht, rfl⟩, _, hr, Upload.placed (h.kept r' hr' t ht)⟩

theorem mem_terms {t : TermQuad N} : t ∈ u.terms ↔
    ∃ q ∈ (u.translated store).2, (u.translated store).1.resources.StandsFor q t := by
  constructor
  · intro ⟨r, hr, t', ht', heq⟩
    have hmem : u.placeResource r ∈
        (u.translated store).1.resources.resolve (u.translated store).2 := by
      rw [h.translated.resolved]
      exact Finset.mem_image_of_mem _ hr
    obtain ⟨q, hq, hqr⟩ := mem_resolve.mp hmem
    rw [heq]
    exact ⟨q, hq, _, hqr, Upload.placed (h.kept r hr t' ht')⟩
  · intro ⟨q, hq, ht⟩
    obtain ⟨t', ht', hstands⟩ := h.exists_standsFor hq
    rw [ht.unique hstands]
    exact ht'

end Upload.Taken

namespace Loaded

variable (h : Loaded u cells cells')

include h in
theorem extensional (q : Quad) :
    cells'.store.store.namedGraphs.Extensional q ↔ cells.store.store.namedGraphs.Extensional q ∨
      (q ∈ (u.translated cells.store.store).2 ∧ ¬ cells.store.store.namedGraphs.Derived q) := by
  rw [h.namedGraphs]
  exact extensional_foldl_addQuad _ _ q

/-- The terms of the quads that the load asserts: a quad that is stored as derived stays derived. -/
def newTerms (u : Upload N) (store : Datastore N) : Set (TermQuad N) :=
  {t | ∃ q ∈ (u.translated store).2, ¬ store.namedGraphs.Derived q ∧
    (u.translated store).1.resources.StandsFor q t}

include h in
theorem assertedTerms_eq (hold : cells.store.store.Resolvable)
    (htaken : u.Taken cells.store.store) : cells'.store.store.assertedTerms =
      cells.store.store.assertedTerms ∪ newTerms u cells.store.store := by
  have hext := htaken.translated.extended
  ext t
  rw [Set.mem_union, mem_assertedTerms, mem_assertedTerms, h.resources]
  constructor
  · intro ⟨q, hq, ht⟩
    rcases (h.extensional q).mp hq with hq | ⟨hq, hderived⟩
    · obtain ⟨r, t', hr, ht'⟩ := hold q hq.1
      have hstands : cells.store.store.resources.StandsFor q t' := ⟨r, hr, ht'⟩
      rw [ht.unique (hstands.extends hext)]
      exact .inl ⟨q, hq, hstands⟩
    · exact .inr ⟨q, hq, hderived, ht⟩
  · intro hmem
    rcases hmem with ⟨q, hq, ht⟩ | ⟨q, hq, hderived, ht⟩
    · exact ⟨q, (h.extensional q).mpr (.inl hq), ht.extends hext⟩
    · exact ⟨q, (h.extensional q).mpr (.inr ⟨hq, hderived⟩), ht⟩

theorem newTerms_subset {store : Datastore N} (htaken : u.Taken store) :
    newTerms u store ⊆ u.terms := by
  intro t ⟨q, hq, _, ht⟩
  exact htaken.mem_terms.mpr ⟨q, hq, ht⟩

include h

theorem resolves (hold : cells.store.store.Resolvable)
    (htaken : u.Taken cells.store.store) :
    ∀ r ∈ cells'.store.store.asserted, ∃ t, cells'.store.store.resources.ResolvesQuad r t := by
  intro r hr
  obtain ⟨q, hq, hqr⟩ := Datastore.mem_asserted.mp hr
  rw [h.resources] at hqr ⊢
  rcases (h.extensional q).mp hq with hq | ⟨hq, -⟩
  · obtain ⟨r', t, hr', ht⟩ := hold q hq.1
    have hext := htaken.translated.extended
    cases (hext.getResourceQuad hr').symm.trans hqr
    exact ⟨t, ht.extends hext⟩
  · obtain ⟨t, -, r', hr', ht⟩ := htaken.exists_standsFor hq
    cases hr'.symm.trans hqr
    exact ⟨t, ht⟩

/-- The copies are a merge iff the blank nodes are apart by their numbers and no copy is of a
derived quad. -/
theorem merges_iff (hold : cells.store.store.Resolvable)
    (htaken : u.Taken cells.store.store) :
    Merges cells.store.store cells'.store.store u.terms ↔
      (∀ n ∈ TermQuad.blanksOf u.terms, ¬ cells.store.store.BlankOccurs n) ∧
      ∀ q ∈ (u.translated cells.store.store).2, ¬ cells.store.store.namedGraphs.Derived q := by
  have hterms := h.assertedTerms_eq hold htaken
  have hall (A : Set (TermQuad N)) :
      {t ∈ A | some t.graph ≠ (none : Option IriReference).map .iri} = A := by
    ext t
    simp
  constructor
  · intro ⟨ρ, hwritten, hfresh⟩
    have hmerge := hterms.symm.trans hwritten.terms
    rw [hall] at hmerge
    obtain ⟨hapart, hwhole⟩ := TermQuad.whole_of_merge Upload.terms_finite
      (fun n hn => Datastore.blankOccurs_of_assertedTerms hn) hwritten.injective hfresh
      (newTerms_subset htaken) hmerge
    refine ⟨hapart, fun q hq hderived => ?_⟩
    obtain ⟨t, ht, hstands⟩ := htaken.exists_standsFor hq
    have hnew : t ∈ cells'.store.store.assertedTerms := by
      rw [hterms]
      exact hwhole ht
    obtain ⟨q', hq', hstands'⟩ := mem_assertedTerms.mp hnew
    rw [h.resources] at hstands'
    rw [hstands'.inj hstands] at hq'
    rcases (h.extensional q).mp hq' with hold' | ⟨-, hno⟩
    · exact hold'.2 hderived
    · exact hno hderived
  · intro ⟨hapart, hderived⟩
    refine ⟨id, ⟨h.resolves hold htaken, ?_, Set.injOn_id _⟩, hapart⟩
    have hnew : newTerms u cells.store.store = u.terms := by
      apply (newTerms_subset htaken).antisymm
      intro t ht
      obtain ⟨q, hq, hstands⟩ := htaken.mem_terms.mp ht
      exact ⟨q, hq, hderived q hq, hstands⟩
    have hid : TermQuad.rename id '' u.terms = u.terms := by
      ext t
      simp
    rw [hall, hterms, hnew, hid]

theorem closed_iff {env : ReasonerEnv Expr}
    (hderived : ∀ q ∈ (u.translated cells.store.store).2,
      ¬ cells.store.store.namedGraphs.Derived q) :
    cells'.Closed env ↔ Unnoticed env (activeStrata (cells.reasoner.getD [])).flatten
      cells.store.store.namedGraphs (u.translated cells.store.store).2 := by
  have hquads : cells'.store.quads =
      cells.store.quads ∪ {q | q ∈ (u.translated cells.store.store).2} := by
    ext q
    rw [VersionedStore.quads, h.namedGraphs]
    exact QuadStore.mem_foldl_addQuad ..
  have hasserted : {q | cells'.store.store.namedGraphs.Extensional q} =
      {q | cells.store.store.namedGraphs.Extensional q} ∪
        {q | q ∈ (u.translated cells.store.store).2} := by
    ext q
    refine (h.extensional q).trans (or_congr_right ?_)
    exact and_iff_left_of_imp fun hq => hderived q hq
  have hsub : {q | cells.store.store.namedGraphs.Extensional q} ∪
      {q | q ∈ (u.translated cells.store.store).2} ⊆
      cells.store.quads ∪ {q | q ∈ (u.translated cells.store.store).2} :=
    Set.union_subset_union_left _ fun q hq => hq.1
  rw [DatasetCells.Closed, h.reasoner, hquads, hasserted, IsStable.iff_closed hsub]
  constructor
  · intro ⟨hclosed, hfollows⟩
    exact ⟨hclosed, Set.subset_union_left.trans hfollows⟩
  · intro ⟨hclosed, hfollows⟩
    refine ⟨hclosed, Set.union_subset hfollows ?_⟩
    exact Set.subset_union_right.trans (subset_closure _ _ _)

omit h

end Loaded

/-- A bulk load that succeeds leaves the merge of the dataset and what it loads, closed under the
rules in force, iff the blank nodes are numbered apart, no quad is stored as derived and the rules
have nothing to do with the new quads. -/
theorem bulkLoad_merges_iff {bulk : BulkEnv N Multipart Mapping Documents} {env : ServerEnv N Expr}
    {S S' : ServerState N Expr} {request : BulkRequest Multipart} {response : Response}
    {cell : Nat} (hrun : request.run bulk env S = (response, S')) (hsuccess : response.Success)
    (hcell : request.cell S = some cell) (hu : request.loaded bulk env = some u)
    (hstore : (S.cells cell).store.store.Resolvable) (hupload : u.tmp.Resolvable)
    (hkept : u.Kept (u.translated (S.cells cell).store.store).1.resources) :
    (Merges (S.cells cell).store.store (S'.cells cell).store.store u.terms ∧
      (S'.cells cell).Closed env.rules.reasoning.env) ↔
    ((∀ n ∈ TermQuad.blanksOf u.terms, ¬ (S.cells cell).store.store.BlankOccurs n) ∧
      (∀ q ∈ (u.translated (S.cells cell).store.store).2,
        ¬ (S.cells cell).store.store.namedGraphs.Derived q) ∧
      Unnoticed env.rules.reasoning.env (activeStrata ((S.cells cell).reasoner.getD [])).flatten
        (S.cells cell).store.store.namedGraphs (u.translated (S.cells cell).store.store).2) := by
  have hloaded := BulkRequest.run_loaded hrun hsuccess hcell hu
  have htaken : u.Taken (S.cells cell).store.store :=
    ⟨BulkRequest.translated_spec hu hupload.interned _,
      fun r hr => Upload.exists_term hupload (BulkRequest.loaded_quads hu) hr, hkept⟩
  rw [hloaded.merges_iff hstore htaken, ← and_assoc]
  exact and_congr_right fun h => hloaded.closed_iff h.2

end Meaning

section Sample

def blankBulk : BulkEnv NativeTypes.text Unit Unit Unit :=
  ⟨fun _ => .ok (), fun _ => .ok blankDocument, fun _ => .ok (), fun _ => .ok blankDocument⟩

def blankLoad : BulkRequest Unit := .upload none "text/turtle" ⟨#[]⟩

/-- A server whose root dataset holds `store`, with the rules of `reasoner` in force. -/
def serverWith (store : Datastore NativeTypes.text)
    (reasoner : Option (List (DatalogProgram Empty))) : ServerState NativeTypes.text Empty :=
  .start ⟨⟨store, 0⟩, reasoner, ∅⟩ none

theorem blankLoad_loaded : blankLoad.loaded blankBulk blankServer = some blankUpload := by
  have hquads : blankDocument.namedGraphs.table.getGraph defaultGraphElementId =
      [⟨0, 1, 2, 3⟩] := by decide
  change some (Upload.mk blankDocument
    (blankDocument.namedGraphs.table.getGraph defaultGraphElementId) (some defaultGraphIri)) = _
  rw [hquads]
  rfl

theorem blankLoad_ok (store : Datastore NativeTypes.text)
    (reasoner : Option (List (DatalogProgram Empty))) :
    (blankLoad.run blankBulk blankServer (serverWith store reasoner)).1 =
      .text 200 "Data uploaded successfully" := by
  have hturtle : isTurtle "text/turtle" = true := by decide
  rw [blankLoad, BulkRequest.run, uploadTurtle, if_neg (by decide), hturtle, if_neg (by decide)]
  rfl

/-- The instances of a rule with one atom in its body. -/
theorem mem_clausesOf_unaryRule {head p : GraphElementId} {c : Clause Quad} :
    c ∈ clausesOf .plain [unaryRule head [p] []] ↔
      ∃ k, c = ⟨unaryQuad head k, {unaryQuad p k}, ∅⟩ := by
  let bound (k : GraphElementId) : Substitution := Function.update emptySubstitution "x" (some k)
  have hclause (k : GraphElementId) {sub : Substitution} (hsub : sub "x" = some k) :
      (unaryRule head [p] []).headQuad sub = some (unaryQuad head k) ∧
        (unaryRule head [p] []).clause sub (unaryQuad head k) =
          ⟨unaryQuad head k, {unaryQuad p k}, ∅⟩ := by
    have hquad (r : GraphElementId) :
        applySubstitutionQuad sub (unaryPattern r) = some (unaryQuad r k) := by
      simp [applySubstitutionQuad, unaryPattern, unaryQuad, applySubstitutionResource, hsub]
    refine ⟨hquad head, ?_⟩
    rw [Rule.clause, GroundProgram.Clause.mk.injEq]
    refine ⟨rfl, ?_, ?_⟩
    · ext q
      simp [Rule.witnesses, unaryRule, hquad, eq_comm]
    · ext q
      simp [Rule.blockers, unaryRule]
  constructor
  · rintro ⟨r, hr, sub, h, -, hhead, rfl⟩
    rw [List.mem_singleton] at hr
    subst hr
    cases hsub : sub "x" with
    | none =>
      simp [Rule.headQuad, unaryRule, unaryPattern, applySubstitutionQuad,
        applySubstitutionResource, hsub] at hhead
    | some k =>
      obtain ⟨hquad, hclause⟩ := hclause k hsub
      cases hquad.symm.trans hhead
      exact ⟨k, hclause⟩
  · rintro ⟨k, rfl⟩
    obtain ⟨hhead, hclause⟩ := hclause k (show bound k "x" = some k by simp [bound])
    refine ⟨_, List.mem_singleton_self _, bound k, _,
      ⟨.inl (by simp [unaryRule, Rule.positivePatterns]), ?_, rfl⟩, hhead, hclause.symm⟩
    intro v
    by_cases hv : v = "x" <;>
      simp [bound, hv, unaryRule, unaryPattern, emptySubstitution, Rule.positivePatterns,
        QuadPattern.getVariables, Term.getVariables]

/-- What has a name is known. -/
def knownRule : Rule Empty := unaryRule 5 [4] []

def knownStore : Datastore NativeTypes.text :=
  { namedStore with resources := (namedStore.resources.addResource (.iri "known")).1 }

/-- The dataset of the rule in force: what it derives is stored. -/
theorem knownRule_run : ∃ m : IncrementalReasoner Empty,
    IncrementalReasoner.new .plain [knownRule] knownStore.namedGraphs = .ok m ∧
      m.activeRules = [knownRule] ∧
      m.base.quadList = [⟨0, 2, 4, 0⟩, ⟨3, 2, 4, 0⟩, ⟨0, 2, 5, 0⟩] ∧
      (∀ q ∈ m.base.quadList, m.base.Derived q ↔ q = ⟨0, 2, 5, 0⟩) ∧
      (blankUpload.translated ⟨m.base, knownStore.resources⟩).2 = [⟨0, 1, 6, 7⟩] := by decide

theorem knownStore_about {base : QuadStore}
    (hquads : base.quadList = [⟨0, 2, 4, 0⟩, ⟨3, 2, 4, 0⟩, ⟨0, 2, 5, 0⟩]) :
    AboutBlank ⟨base, knownStore.resources⟩ 2 := by
  have hall : ∀ q ∈ [(⟨0, 2, 4, 0⟩ : Quad), ⟨3, 2, 4, 0⟩, ⟨0, 2, 5, 0⟩], ∃ g p o : IriReference,
      knownStore.resources.getResourceQuad q =
        some ⟨.iri g, .nodeOrEdge (.anonymousBlankNode 2), .iri p, .iri o⟩ := by
    simp only [List.forall_mem_cons, List.not_mem_nil, false_imp_iff, implies_true, and_true]
    exact ⟨⟨defaultGraphIri, "name", defaultGraphIri, by decide⟩,
      ⟨"urn:g", "name", defaultGraphIri, by decide⟩,
      ⟨defaultGraphIri, "known", defaultGraphIri, by decide⟩⟩
  exact fun q hq => hall q (hquads ▸ hq)

/-- The rule has nothing to do with the new quad. -/
theorem knownRule_unnoticed {s : QuadStore} {q : Quad}
    (hquads : s.quadList = [⟨0, 2, 4, 0⟩, ⟨3, 2, 4, 0⟩, ⟨0, 2, 5, 0⟩])
    (hderived : ∀ q ∈ s.quadList, s.Derived q ↔ q = ⟨0, 2, 5, 0⟩) (hq : q = ⟨0, 1, 6, 7⟩) :
    Unnoticed .plain [knownRule] s [q] := by
  have hmem (x : Quad) : x ∈ s.quads ↔
      x ∈ [(⟨0, 2, 4, 0⟩ : Quad), ⟨3, 2, 4, 0⟩, ⟨0, 2, 5, 0⟩] := by
    rw [← hquads]
    exact (QuadStore.mem_quadList s x).symm
  have hasserted (x : Quad) (hx : x ∈ s.quads) (hne : x ≠ ⟨0, 2, 5, 0⟩) : s.Extensional x :=
    ⟨hx, fun hd => hne ((hderived x ((QuadStore.mem_quadList s x).mpr hx)).mp hd)⟩
  constructor
  · intro c hc hactive
    obtain ⟨k, rfl⟩ := mem_clausesOf_unaryRule.mp hc
    have hbody : unaryQuad 4 k ∈ s.quads ∪ {x | x ∈ [q]} := hactive.1 rfl
    have htwo : k = 2 := by
      rcases hbody with hold | hnew
      · simpa [hmem, unaryQuad] using hold
      · simp [hq, unaryQuad] at hnew
    rw [htwo]
    exact .inl ((hmem _).mpr (by decide))
  · intro x hx
    by_cases hne : x = ⟨0, 2, 5, 0⟩
    · rw [hne]
      have hname : unaryQuad 4 2 ∈ s.quads := (hmem _).mpr (by decide)
      refine GroundProgram.head_mem_closure (mem_clausesOf_unaryRule.mpr ⟨2, rfl⟩) ?_ ?_
      · rintro a rfl
        exact subset_closure _ _ _ (.inl (hasserted _ hname (by decide)))
      · rintro a ⟨⟩
    · exact subset_closure _ _ _ (.inl (hasserted x hx hne))

theorem bulkLoad_merges_known : ∃ m : IncrementalReasoner Empty,
    IncrementalReasoner.new .plain [knownRule] knownStore.namedGraphs = .ok m ∧
    unaryQuad 5 2 ∈ m.base ∧ ∃ S', blankLoad.run blankBulk blankServer
        (serverWith ⟨m.base, knownStore.resources⟩ (some m.programs)) =
      (.text 200 "Data uploaded successfully", S') ∧
    Merges ⟨m.base, knownStore.resources⟩ (S'.cells rootCell).store.store blankUpload.terms ∧
      (S'.cells rootCell).Closed .plain := by
  obtain ⟨m, hnew, hactive, hquads, hderived, hinserts⟩ := knownRule_run
  have habout := knownStore_about hquads
  refine ⟨m, hnew, (QuadStore.mem_quadList _ _).mp (hquads ▸ by decide), _,
    Prod.ext (blankLoad_ok _ _) rfl, ?_⟩
  refine (bulkLoad_merges_iff (Prod.ext (blankLoad_ok _ _) rfl)
    (Response.success (show 200 < 400 by decide)) (show blankLoad.cell _ = some rootCell from rfl)
    blankLoad_loaded habout.resolvable
    blankDocument_resolvable (blankUpload_kept _)).mpr ⟨?_, ?_, ?_⟩
  · intro n hn hold
    have hone := blankUpload_blanks hn
    have htwo := habout.occurs hold
    omega
  · intro q hq hd
    have hstored := (QuadStore.mem_quadList _ q).mpr hd.mem
    have hq' : q ∈ [(⟨0, 1, 6, 7⟩ : Quad)] := hinserts ▸ hq
    rw [List.mem_singleton.mp hq'] at hstored
    have hall : (⟨0, 1, 6, 7⟩ : Quad) ∉ m.base.quadList := hquads ▸ by decide
    exact hall hstored
  · have hunnoticed := knownRule_unnoticed hquads hderived rfl
    rw [← hinserts, ← hactive] at hunnoticed
    exact hunnoticed

/-- The same document loaded again: its blank node is taken for the one that is there. -/
theorem bulkLoad_captures_blank : ∃ S',
    blankLoad.run blankBulk blankServer (serverWith blankDocument none) =
      (.text 200 "Data uploaded successfully", S') ∧
    ¬ Merges ((serverWith blankDocument none).cells rootCell).store.store
      (S'.cells rootCell).store.store blankUpload.terms := by
  refine ⟨_, Prod.ext (blankLoad_ok blankDocument none) rfl, fun hmerges => ?_⟩
  have hloaded := BulkRequest.run_loaded (Prod.ext (blankLoad_ok blankDocument none) rfl)
    (Response.success (show 200 < 400 by decide)) rfl blankLoad_loaded
  have htaken : blankUpload.Taken blankDocument :=
    ⟨BulkRequest.translated_spec blankLoad_loaded blankDocument_resolvable.interned _,
      fun r hr => Upload.exists_term blankDocument_resolvable
        (BulkRequest.loaded_quads blankLoad_loaded) hr, blankUpload_kept _⟩
  have hapart := ((hloaded.merges_iff blankDocument_resolvable htaken).mp hmerges).1
  exact hapart 1 blankUpload_blank blankDocument_occurs

end Sample

end RdfDatalog.Endpoint
