import RdfDatalog.Endpoint.Router

namespace RdfDatalog.Endpoint

open Datalog Datalog.IncrementalReasoner

variable {N : NativeTypes} {Expr : Type}

/-- What a graph store request comes to once its arguments are accepted: the entries that it logs,
the graph that it clears, and the quads that it writes. Its graph name is interned in `store`. -/
structure GraphWrite (N : NativeTypes) where
  store : Datastore N
  entries : List ChangelogEntry
  clear : Option GraphElementId
  translate : Datastore N → Datastore N × List Quad
  response : Response

namespace GraphWrite

def run (env : ServerEnv N Expr) (s : AppState N Expr) (w : GraphWrite N) :
    Response × AppState N Expr :=
  match logBatch env (s.withStore w.store) w.entries with
  | .error failed => (failed, s.withStore w.store)
  | .ok s =>
    match writeQuads env s w.clear (w.translate s.store.store) with
    | .error failed => failed
    | .ok s => (w.response, s)

/-- The quads that a loaded reasoner is told to delete. -/
def netDeletes (w : GraphWrite N) : List Quad :=
  (match w.clear with
    | none => []
    | some graphId => w.store.namedGraphs.table.getGraph graphId).filter
      w.store.namedGraphs.contains

def netInserts (w : GraphWrite N) : List Quad := (w.translate w.store).2

/-- Apart from the write itself the request only interns names. -/
structure OnlyInterns (w : GraphWrite N) (store : Datastore N) : Prop where
  store : w.store.namedGraphs = store.namedGraphs
  translate : ∀ store, (w.translate store).1.namedGraphs = store.namedGraphs

end GraphWrite

section Writes

variable (env : ServerEnv N Expr) (store : Datastore N)

def putWrite (params : GraphParams) (contentType : String) (body : ByteArray) :
    Except Response (GraphWrite N) :=
  if env.readOnly then .error readOnlyResponse
  else
    match parseUpload env contentType body with
    | .error response => .error response
    | .ok (_, tmp) =>
      match resolveWriteTarget params store with
      | .error response => .error response
      | .ok (store, graphId, isNew) =>
        .ok ⟨store, .quad (.clearGraph env.datasetName params.graph) ::
            uploadEntries env tmp params.graph, some graphId,
          fun store => translateDefaultGraphQuads tmp store graphId,
          if isNew then .created else .noContent⟩

def deleteWrite (params : GraphParams) : Except Response (GraphWrite N) :=
  if env.readOnly then .error readOnlyResponse
  else
    match deleteTarget params with
    | .error response => .error response
    | .ok graphIri =>
      match (match graphIri with
        | none => some defaultGraphElementId
        | some iri => existingGraph store iri) with
      | none => .error graphNotFound
      | some graphId =>
        .ok ⟨store, [.quad (.clearGraph env.datasetName graphIri)], some graphId,
          fun store => (store, []), .noContent⟩

def uploadTo (tmp : Datastore N) (graph : Option String) (graphId : GraphElementId)
    (store : Datastore N) (response : Response) : GraphWrite N :=
  ⟨store, uploadEntries env tmp graph, none,
    fun store => translateDefaultGraphQuads tmp store graphId, response⟩

/-- An upload that names no graph: into the graphs of the body, or into a new one. -/
def uploadUnnamed (tmp : Datastore N) (fmt : UploadFormat) (nanos : Nat) : GraphWrite N :=
  if fmt = .triG || fmt = .nQuads || fmt = .jsonLd then
    ⟨store, (tmp.namedGraphs.quadList.filterMap fun q =>
        quadEntry .insertQuad env.datasetName tmp (tmpGraphIri tmp q.tripleId) q).map .quad,
      none, translateDatasetQuads tmp, .noContent⟩
  else
    ⟨store, uploadEntries env tmp (some (freshGraphIri env nanos)), none,
      fun store =>
        let (store, graphId) := store.addResource (.iri (freshGraphIri env nanos))
        translateDefaultGraphQuads tmp store graphId, .created⟩

def postWrite (params : GraphParams) (contentType : String) (body : ByteArray)
    (createIfMissing : Bool) (nanos : Nat) : Except Response (GraphWrite N) :=
  if env.readOnly then .error readOnlyResponse
  else if (rdfUploadFormat contentType).isNone then .error unsupportedUpload
  else if body.isEmpty then .error .noContent
  else
    match parseUpload env contentType body with
    | .error response => .error response
    | .ok (fmt, tmp) =>
      if params.default then
        .ok (uploadTo env tmp none defaultGraphElementId store .noContent)
      else
        match params.graph with
        | some iri =>
          if !isAbsoluteIri iri then .error notAbsolute
          else
            match existingGraph store iri with
            | some graphId => .ok (uploadTo env tmp (some iri) graphId store .noContent)
            | none =>
              if !createIfMissing then .error graphNotFound
              else
                let (store, graphId) := store.addResource (.iri iri)
                .ok (uploadTo env tmp (some iri) graphId store .created)
        | none => .ok (uploadUnnamed env store tmp fmt nanos)

end Writes

def Request.graphWrite (env : ServerEnv N Expr) (store : Datastore N) :
    Request → Option (Except Response (GraphWrite N))
  | .gspPut params contentType body => some (putWrite env store params contentType body)
  | .gspPost params contentType body createIfMissing nanos =>
    some (postWrite env store params contentType body createIfMissing nanos)
  | .gspDelete params => some (deleteWrite env store params)
  | _ => none

section Equations

variable (env : ServerEnv N Expr) (s : AppState N Expr)

/-- A request that is refused answers at once. -/
def answer : Except Response (GraphWrite N) → Response × AppState N Expr
  | .error response => (response, s)
  | .ok w => w.run env s

theorem gspPut_eq (params : GraphParams) (contentType : String) (body : ByteArray) :
    gspPut env s params contentType body =
      answer env s (putWrite env s.store.store params contentType body) := by
  rw [gspPut, putWrite]
  split_ifs
  · rfl
  · cases parseUpload env contentType body with
    | error response => rfl
    | ok upload =>
      dsimp only
      cases resolveWriteTarget params s.store.store with
      | error response => rfl
      | ok target => rfl

theorem gspDelete_eq (params : GraphParams) :
    gspDelete env s params = answer env s (deleteWrite env s.store.store params) := by
  rw [gspDelete, deleteWrite]
  split_ifs
  · rfl
  · cases deleteTarget params with
    | error response => rfl
    | ok graphIri =>
      dsimp only
      cases graphIri with
      | none => rfl
      | some iri =>
        dsimp only
        cases existingGraph s.store.store iri with
        | none => rfl
        | some graphId => rfl

theorem gspPost_eq (params : GraphParams) (contentType : String) (body : ByteArray)
    (createIfMissing : Bool) (nanos : Nat) :
    gspPost env s params contentType body createIfMissing nanos =
      answer env s (postWrite env s.store.store params contentType body createIfMissing nanos) := by
  rw [gspPost, postWrite]
  by_cases hread : env.readOnly = true
  · rw [if_pos hread, if_pos hread]
    rfl
  rw [if_neg hread, if_neg hread]
  by_cases hformat : (rdfUploadFormat contentType).isNone = true
  · rw [if_pos hformat, if_pos hformat]
    rfl
  rw [if_neg hformat, if_neg hformat]
  by_cases hempty : body.isEmpty = true
  · rw [if_pos hempty, if_pos hempty]
    rfl
  rw [if_neg hempty, if_neg hempty]
  cases parseUpload env contentType body with
  | error response => rfl
  | ok upload =>
    dsimp only
    by_cases hdefault : params.default = true
    · rw [if_pos hdefault, if_pos hdefault]
      rfl
    rw [if_neg hdefault, if_neg hdefault]
    cases params.graph with
    | none =>
      dsimp only [answer, uploadUnnamed]
      split_ifs
      · rfl
      · rfl
    | some iri =>
      dsimp only
      by_cases habsolute : (!isAbsoluteIri iri) = true
      · rw [if_pos habsolute, if_pos habsolute]
        rfl
      rw [if_neg habsolute, if_neg habsolute]
      cases existingGraph s.store.store iri with
      | some graphId => rfl
      | none =>
        dsimp only
        split_ifs
        · rfl
        · rfl

theorem handle_graphWrite [DecidableEq Expr] {request : Request}
    {outcome : Except Response (GraphWrite N)}
    (h : request.graphWrite env s.store.store = some outcome) :
    handle env s request = answer env s outcome := by
  cases request with
  | gspPut params contentType body =>
    cases h
    exact gspPut_eq env s params contentType body
  | gspPost params contentType body createIfMissing nanos =>
    cases h
    exact gspPost_eq env s params contentType body createIfMissing nanos
  | gspDelete params =>
    cases h
    exact gspDelete_eq env s params
  | _ => cases h

end Equations

section Interning

theorem translateDefaultGraphQuads_namedGraphs (src dst : Datastore N) (g : GraphElementId) :
    (translateDefaultGraphQuads src dst g).1.namedGraphs = dst.namedGraphs :=
  translateQuads_namedGraphs src g _ _

theorem translateDatasetQuads_namedGraphs (src dst : Datastore N) :
    (translateDatasetQuads src dst).1.namedGraphs = dst.namedGraphs := by
  have hfold (quads : List Quad) (acc : Datastore N × List Quad) :
      (quads.foldl (translateDatasetQuad src) acc).1.namedGraphs = acc.1.namedGraphs := by
    induction quads generalizing acc with
    | nil => rfl
    | cons q quads ih =>
      rw [List.foldl_cons, ih, translateDatasetQuad]
      split
      · rfl
      · exact translateQuads_namedGraphs src _ [q] _
  exact hfold _ _

variable {store : Datastore N} {params : GraphParams} {env : ServerEnv N Expr}
  {contentType : String} {body : ByteArray} {w : GraphWrite N}

theorem uploadTo_onlyInterns (env : ServerEnv N Expr) (tmp : Datastore N) (graph : Option String)
    (graphId : GraphElementId) {store' : Datastore N} (response : Response)
    (hstore : store'.namedGraphs = store.namedGraphs) :
    (uploadTo env tmp graph graphId store' response).OnlyInterns store :=
  ⟨hstore, fun store => translateDefaultGraphQuads_namedGraphs tmp store graphId⟩

theorem uploadUnnamed_onlyInterns (env : ServerEnv N Expr) (store tmp : Datastore N)
    (fmt : UploadFormat) (nanos : Nat) :
    (uploadUnnamed env store tmp fmt nanos).OnlyInterns store := by
  rw [uploadUnnamed]
  split_ifs
  · exact ⟨rfl, translateDatasetQuads_namedGraphs tmp⟩
  · exact ⟨rfl, fun store => translateDefaultGraphQuads_namedGraphs tmp _ _⟩

theorem resolveWriteTarget_namedGraphs {store' : Datastore N} {target : GraphElementId × Bool}
    (h : resolveWriteTarget params store = .ok (store', target)) :
    store'.namedGraphs = store.namedGraphs := by
  rw [resolveWriteTarget] at h
  split_ifs at h
  · cases h
    rfl
  · split at h
    · next iri hg =>
      dsimp only at h
      split_ifs at h
      cases h
      rfl
    · cases h

theorem putWrite_shape (h : putWrite env store params contentType body = .ok w) :
    ∃ fmt tmp store' graphId isNew, parseUpload env contentType body = .ok (fmt, tmp) ∧
      resolveWriteTarget params store = .ok (store', graphId, isNew) ∧
      w = ⟨store', .quad (.clearGraph env.datasetName params.graph) ::
          uploadEntries env tmp params.graph, some graphId,
        fun store => translateDefaultGraphQuads tmp store graphId,
        if isNew then .created else .noContent⟩ := by
  rw [putWrite] at h
  split_ifs at h
  cases hparse : parseUpload env contentType body with
  | error response =>
    rw [hparse] at h
    cases h
  | ok upload =>
    obtain ⟨fmt, tmp⟩ := upload
    rw [hparse] at h
    dsimp only at h
    cases htarget : resolveWriteTarget params store with
    | error response =>
      rw [htarget] at h
      cases h
    | ok target =>
      obtain ⟨store', graphId, isNew⟩ := target
      rw [htarget] at h
      cases h
      exact ⟨fmt, tmp, store', graphId, isNew, rfl, rfl, rfl⟩

theorem deleteWrite_shape (h : deleteWrite env store params = .ok w) :
    ∃ graph graphId, (match graph with
        | none => some defaultGraphElementId
        | some iri => existingGraph store iri) = some graphId ∧
      deleteTarget params = .ok graph ∧
      w = ⟨store, [.quad (.clearGraph env.datasetName graph)], some graphId,
        fun store => (store, []), .noContent⟩ := by
  rw [deleteWrite] at h
  split_ifs at h
  cases htarget : deleteTarget params with
  | error response =>
    rw [htarget] at h
    cases h
  | ok graph =>
    rw [htarget] at h
    dsimp only at h
    split at h
    · cases h
    · next graphId hfound =>
      cases h
      exact ⟨graph, graphId, hfound, rfl, rfl⟩

/-- The shapes of a POST: into the default graph, an existing one, a new one, or none that it
names. -/
theorem postWrite_shape {createIfMissing : Bool} {nanos : Nat}
    (h : postWrite env store params contentType body createIfMissing nanos = .ok w) :
    ∃ fmt tmp, parseUpload env contentType body = .ok (fmt, tmp) ∧
      ((params.default = true ∧
          w = uploadTo env tmp none defaultGraphElementId store .noContent) ∨
        (params.default = false ∧ ∃ iri graphId, params.graph = some iri ∧
          existingGraph store iri = some graphId ∧
          w = uploadTo env tmp (some iri) graphId store .noContent) ∨
        (params.default = false ∧ ∃ iri, params.graph = some iri ∧
          w = uploadTo env tmp (some iri) (store.addResource (.iri iri)).2
            (store.addResource (.iri iri)).1 .created) ∨
        (params.default = false ∧ params.graph = none ∧
          w = uploadUnnamed env store tmp fmt nanos)) := by
  rw [postWrite] at h
  by_cases hread : env.readOnly = true
  · rw [if_pos hread] at h
    cases h
  rw [if_neg hread] at h
  by_cases hformat : (rdfUploadFormat contentType).isNone = true
  · rw [if_pos hformat] at h
    cases h
  rw [if_neg hformat] at h
  by_cases hempty : body.isEmpty = true
  · rw [if_pos hempty] at h
    cases h
  rw [if_neg hempty] at h
  cases hparse : parseUpload env contentType body with
  | error response =>
    rw [hparse] at h
    cases h
  | ok upload =>
    obtain ⟨fmt, tmp⟩ := upload
    refine ⟨fmt, tmp, rfl, ?_⟩
    rw [hparse] at h
    dsimp only at h
    by_cases hdefault : params.default = true
    · rw [if_pos hdefault] at h
      cases h
      exact .inl ⟨hdefault, rfl⟩
    rw [if_neg hdefault] at h
    have hfalse : params.default = false := by simpa using hdefault
    cases hg : params.graph with
    | none =>
      rw [hg] at h
      cases h
      exact .inr (.inr (.inr ⟨hfalse, rfl, rfl⟩))
    | some iri =>
      rw [hg] at h
      dsimp only at h
      by_cases habsolute : (!isAbsoluteIri iri) = true
      · rw [if_pos habsolute] at h
        cases h
      rw [if_neg habsolute] at h
      cases hexists : existingGraph store iri with
      | some graphId =>
        rw [hexists] at h
        cases h
        exact .inr (.inl ⟨hfalse, iri, graphId, rfl, hexists, rfl⟩)
      | none =>
        rw [hexists] at h
        dsimp only at h
        split_ifs at h
        cases h
        exact .inr (.inr (.inl ⟨hfalse, iri, rfl, rfl⟩))

theorem putWrite_onlyInterns (h : putWrite env store params contentType body = .ok w) :
    w.OnlyInterns store := by
  obtain ⟨_, _, _, _, _, -, htarget, rfl⟩ := putWrite_shape h
  exact ⟨resolveWriteTarget_namedGraphs htarget,
    fun store => translateDefaultGraphQuads_namedGraphs _ store _⟩

theorem deleteWrite_onlyInterns (h : deleteWrite env store params = .ok w) :
    w.OnlyInterns store := by
  obtain ⟨_, _, -, -, rfl⟩ := deleteWrite_shape h
  exact ⟨rfl, fun _ => rfl⟩

theorem postWrite_onlyInterns {createIfMissing : Bool} {nanos : Nat}
    (h : postWrite env store params contentType body createIfMissing nanos = .ok w) :
    w.OnlyInterns store := by
  obtain ⟨_, _, -, hw⟩ := postWrite_shape h
  rcases hw with ⟨-, rfl⟩ | ⟨-, _, _, -, -, rfl⟩ | ⟨-, _, -, rfl⟩ | ⟨-, -, rfl⟩
  · exact uploadTo_onlyInterns env _ _ _ _ rfl
  · exact uploadTo_onlyInterns env _ _ _ _ rfl
  · exact uploadTo_onlyInterns env _ _ _ _ rfl
  · exact uploadUnnamed_onlyInterns env store _ _ nanos

theorem graphWrite_onlyInterns {request : Request} (h : request.graphWrite env store = some (.ok w))
    : w.OnlyInterns store := by
  cases request with
  | gspPut params contentType body => exact putWrite_onlyInterns (Option.some.inj h)
  | gspPost params contentType body createIfMissing nanos =>
    exact postWrite_onlyInterns (Option.some.inj h)
  | gspDelete params => exact deleteWrite_onlyInterns (Option.some.inj h)
  | _ => cases h

end Interning

end RdfDatalog.Endpoint
