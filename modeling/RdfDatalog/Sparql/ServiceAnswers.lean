import RdfDatalog.Sparql.Federation

namespace RdfDatalog.Sparql

variable {N : NativeTypes} {env : FederationEnv N}
  {fetch : ServiceKey → Except FetchFailure (List (SolutionRow N))}

section PreResolution

variable {handles : List (ServiceKey × Bool)} {results map : ServiceResults N} {key : ServiceKey}

theorem lookup_mergeCall (byKey : AList fun _ : ServiceKey => Bool) (call : ServiceKey × Bool)
    (key : ServiceKey) : (mergeCall byKey call).lookup key =
      if key = call.1 then some ((byKey.lookup call.1).getD true && call.2)
      else byKey.lookup key := by
  unfold mergeCall
  by_cases h : key = call.1
  · subst h
    rw [if_pos rfl]
    cases byKey.lookup call.1 with
    | none | some => exact AList.lookup_insert _
  · rw [if_neg h]
    cases byKey.lookup call.1 with
    | none | some => exact AList.lookup_insert_ne h

theorem isSome_lookup_foldl_mergeCall (calls : List (ServiceKey × Bool))
    (byKey : AList fun _ : ServiceKey => Bool) :
    ((calls.foldl mergeCall byKey).lookup key).isSome ↔
      (byKey.lookup key).isSome ∨ ∃ silent, (key, silent) ∈ calls := by
  induction calls generalizing byKey with
  | nil => simp
  | cons call calls ih =>
    rw [List.foldl_cons, ih, lookup_mergeCall]
    by_cases h : key = call.1
    · rw [if_pos h]
      exact iff_of_true (.inl rfl) (.inr ⟨call.2, by simp [h]⟩)
    · have hcall (silent : Bool) : (key, silent) ≠ call := fun heq => h (congrArg Prod.fst heq)
      simp [h, hcall]

theorem lookup_foldl_mergeCall_false (calls : List (ServiceKey × Bool))
    (byKey : AList fun _ : ServiceKey => Bool) :
    (calls.foldl mergeCall byKey).lookup key = some false ↔
      byKey.lookup key = some false ∨ (key, false) ∈ calls := by
  induction calls generalizing byKey with
  | nil => simp
  | cons call calls ih =>
    rw [List.foldl_cons, ih, lookup_mergeCall, List.mem_cons, ← or_assoc]
    refine or_congr_left ?_
    obtain ⟨name, silent⟩ := call
    by_cases h : key = name
    · subst h
      cases hold : byKey.lookup key with
      | none => cases silent <;> simp
      | some allSilent => cases silent <;> cases allSilent <;> simp
    · simp [h]

variable {calls : List (ServiceKey × Bool)}

theorem exists_mem_of_enumerates (h : Enumerates (mergeCalls calls) handles) :
    (∃ silent, (key, silent) ∈ handles) ↔ ∃ silent, (key, silent) ∈ calls := by
  have hsome := @isSome_lookup_foldl_mergeCall key calls ∅
  rw [AList.lookup_empty, Option.isSome_none, Option.isSome_iff_exists] at hsome
  simp only [h key, mergeCalls, hsome, Bool.false_eq_true, false_or]

theorem mem_false_of_enumerates (h : Enumerates (mergeCalls calls) handles) :
    (key, false) ∈ handles ↔ (key, false) ∈ calls := by
  rw [h key, mergeCalls, lookup_foldl_mergeCall_false, AList.lookup_empty]
  simp

theorem exists_enumerates (byKey : AList fun _ : ServiceKey => Bool) :
    ∃ handles, Enumerates byKey handles := by
  refine ⟨byKey.entries.map fun entry => (entry.1, entry.2), fun key silent => ?_⟩
  rw [List.mem_map, ← Option.mem_def, AList.mem_lookup_iff]
  constructor
  · intro ⟨entry, hentry, heq⟩
    cases heq
    exact hentry
  · exact fun hentry => ⟨⟨key, silent⟩, hentry, rfl⟩

theorem lookup_collectOrFirstError
    (h : collectOrFirstError (preResolveServices fetch handles) map = .ok results)
    (key : ServiceKey) : results.lookup key =
      (if ∃ silent, (key, silent) ∈ handles then (fetch key).toOption else none).or
        (map.lookup key) := by
  classical
  induction handles generalizing map with
  | nil =>
    cases h
    simp
  | cons handle handles ih =>
    obtain ⟨name, silent⟩ := handle
    have hmem : (∃ silent', (key, silent') ∈ (name, silent) :: handles) ↔
        key = name ∨ ∃ silent', (key, silent') ∈ handles := by
      simp only [List.mem_cons, Prod.mk.injEq]
      constructor
      · rintro ⟨silent', ⟨hkey, _⟩ | htail⟩
        · exact .inl hkey
        · exact .inr ⟨silent', htail⟩
      · rintro (hkey | ⟨silent', htail⟩)
        · exact ⟨silent, .inl ⟨hkey, rfl⟩⟩
        · exact ⟨silent', .inr htail⟩
    rw [preResolveServices, List.map_cons] at h
    cases hfetch : fetch name with
    | ok fetched =>
      rw [hfetch, collectOrFirstError] at h
      rw [ih h]
      by_cases hkey : key = name
      · rw [hkey, AList.lookup_insert, hfetch]
        split <;> simp [Except.toOption]
      · rw [AList.lookup_insert_ne hkey]
        simp [hkey]
    | error failure =>
      rw [hfetch, collectOrFirstError] at h
      cases silent with
      | false => cases h
      | true =>
        rw [if_pos rfl] at h
        rw [ih h]
        by_cases hkey : key = name
        · rw [hkey, hfetch]
          simp [Except.toOption]
        · simp [hkey]

theorem collectOrFirstError_ok
    (h : ∀ key, (key, false) ∈ handles → ∃ rows, fetch key = .ok rows) :
    ∃ results, collectOrFirstError (preResolveServices fetch handles) map = .ok results := by
  induction handles generalizing map with
  | nil => exact ⟨map, rfl⟩
  | cons handle handles ih =>
    obtain ⟨name, silent⟩ := handle
    have htail : ∀ key, (key, false) ∈ handles → ∃ rows, fetch key = .ok rows :=
      fun key hkey => h key (.tail _ hkey)
    rw [preResolveServices, List.map_cons]
    cases hfetch : fetch name with
    | ok fetched => exact ih htail
    | error failure =>
      cases silent with
      | true => exact ih htail
      | false =>
        obtain ⟨rows, hrows⟩ := h name List.mem_cons_self
        rw [hfetch] at hrows
        cases hrows

theorem lookup_preResolved {components : List (QueryComponent N)}
    (hhandles : Enumerates (mergeCalls (collectServiceCalls env components)) handles)
    (h : collectOrFirstError (preResolveServices fetch handles) ∅ = .ok results)
    {rows : List (SolutionRow N)} : results.lookup key = some rows ↔
      (∃ node ∈ collectServiceNodes components, node.key env = some key) ∧
        fetch key = .ok rows := by
  classical
  have hcalls : (∃ silent, (key, silent) ∈ collectServiceCalls env components) ↔
      ∃ node ∈ collectServiceNodes components, node.key env = some key := by
    constructor
    · intro ⟨silent, hmem⟩
      obtain ⟨node, hnode, hcall⟩ := List.mem_filterMap.mp hmem
      obtain ⟨key', hkey', heq⟩ := Option.map_eq_some_iff.mp hcall
      cases heq
      exact ⟨node, hnode, hkey'⟩
    · intro ⟨node, hnode, hkey⟩
      exact ⟨node.silent, List.mem_filterMap.mpr ⟨node, hnode, by rw [hkey]; rfl⟩⟩
  rw [lookup_collectOrFirstError h key, AList.lookup_empty, Option.or_none, ← hcalls,
    ← exists_mem_of_enumerates hhandles]
  by_cases hin : ∃ silent, (key, silent) ∈ handles
  · rw [if_pos hin, and_iff_right hin]
    cases hfetch : fetch key with
    | ok | error => simp [Except.toOption]
  · rw [if_neg hin]
    exact iff_of_false nofun fun h => hin h.1

end PreResolution

section Answers

variable {ctx : Context N} {results : ServiceResults N} {node : ServiceNode N}

/-- The rows that the endpoint of a SERVICE component returned for its body. -/
def ServiceNode.Returned (env : FederationEnv N)
    (fetch : ServiceKey → Except FetchFailure (List (SolutionRow N))) (node : ServiceNode N)
    (rows : List (SolutionRow N)) : Prop :=
  ∃ key, node.key env = some key ∧ fetch key = .ok rows

def ServiceNode.JoinedWith (ctx : Context N) (node : ServiceNode N) (rows : List (PartialSub N)) :
    Prop :=
  ∀ ag budget solutions,
    evalComponent ctx (.service node.endpoint node.inner node.silent) ag budget solutions =
      joinRows ctx.store.toDatastore solutions rows

/-- A SERVICE component is joined with what its endpoint returned; a SILENT one without an answer
is joined with nothing. -/
def ServiceNode.Answered (env : FederationEnv N)
    (fetch : ServiceKey → Except FetchFailure (List (SolutionRow N))) (ctx : Context N)
    (node : ServiceNode N) : Prop :=
  (∃ rows, node.Returned env fetch rows ∧ node.JoinedWith ctx (rows.map solutionRowToPartial)) ∨
    (node.silent = true ∧ (∀ rows, ¬ node.Returned env fetch rows) ∧ node.JoinedWith ctx [])

theorem joinRows_singleton_empty (ds : Datastore N) (rows : List (PartialSub N)) :
    joinRows ds [∅] rows = rows := by
  have hmerge (row : PartialSub N) : mergeSolutions ds ∅ row = some row := by
    have hcompatible : compatible ds row ∅ = true := by
      simp [compatible, agree]
    rw [mergeSolutions, if_pos hcompatible, Finmap.union_empty]
  simp [joinRows, hmerge]

theorem joinedWith_iff {rows : List (PartialSub N)} : node.JoinedWith ctx rows ↔
    joinedRows ctx.lib.preResolvedServiceResults node = rows := by
  constructor
  · intro h
    have hjoin := h (.fixed defaultGraphElementId) none [∅]
    rw [evalComponent_service, joinRows_singleton_empty, joinRows_singleton_empty] at hjoin
    exact hjoin
  · intro h ag budget solutions
    rw [evalComponent_service, h]

end Answers

section Policy

variable {ctx : Context N} {results : ServiceResults N} {network : NetworkPolicy}
  {query : Query N}

theorem executeInner_fetches (hnetwork : network.fetches = true) :
    (∃ result, executeInner env ctx network results query = .ok result) ↔
      ∀ node ∈ collectServiceNodes (whereClauseOf query), node.silent = false →
        ((node.key env).bind results.lookup).isSome = true := by
  have hall : ((collectServiceNodes (whereClauseOf query)).all fun node =>
      node.silent || ((node.key env).bind results.lookup).isSome) = true ↔
      ∀ node ∈ collectServiceNodes (whereClauseOf query), node.silent = false →
        ((node.key env).bind results.lookup).isSome = true := by
    rw [List.all_eq_true]
    refine forall₂_congr fun node _ => ?_
    cases node.silent <;> simp
  rw [← hall]
  unfold executeInner checkNetworkPolicy
  cases network with
  | deny | ignore => cases hnetwork
  | allow | allowList =>
    dsimp only
    split
    · next h => exact iff_of_true ⟨_, rfl⟩ h
    · next h => exact iff_of_false nofun h

/-- Without network access a query is rejected if the walk of its pattern finds a call that is not
SILENT. -/
theorem executeInner_deny :
    (∃ endpoint, executeInner env ctx .deny results query = .error (.serviceDenied endpoint)) ↔
      ∃ node ∈ collectServiceNodes (whereClauseOf query), node.silent = false := by
  unfold executeInner checkNetworkPolicy
  dsimp only
  cases hfind : (collectServiceNodes (whereClauseOf query)).find? fun node => !node.silent with
  | none =>
    rw [List.find?_eq_none] at hfind
    refine iff_of_false nofun fun ⟨node, hnode, hsilent⟩ => ?_
    have hfound := hfind node hnode
    rw [hsilent] at hfound
    exact hfound rfl
  | some node =>
    have hsilent : (!node.silent) = true :=
      @List.find?_some _ (fun node => !node.silent) node _ hfind
    refine iff_of_true ⟨_, rfl⟩ ⟨node, List.mem_of_find?_eq_some hfind, ?_⟩
    simpa using hsilent

end Policy

section Federation

variable {query : Query N}

/-- No call that the evaluation reaches goes unanswered without an error. -/
structure NeverSilentlyEmpty (env : FederationEnv N)
    (fetch : ServiceKey → Except FetchFailure (List (SolutionRow N))) (ctx : Context N)
    (query : Query N) (reach : Reach ctx query) : Prop where
  answered : ∀ network handles results result, network.fetches = true →
    Enumerates (mergeCalls (collectServiceCalls env (whereClauseOf query))) handles →
    collectOrFirstError (preResolveServices fetch handles) ∅ = .ok results →
    executeInner env ctx network results query = .ok result →
    ∀ node ∈ queryServices query,
      reach.reached (ctx.withServices env results).lib.preResolvedServiceResults node.endpoint
        node.inner → node.Answered env fetch (ctx.withServices env results)
  denied : (∃ node ∈ queryServices query, node.silent = false) → ∀ results,
    ∃ endpoint, executeInner env ctx .deny results query = .error (.serviceDenied endpoint)

/-- The rows of the calls that the walk of the pattern finds. -/
def foundRows (env : FederationEnv N)
    (fetch : ServiceKey → Except FetchFailure (List (SolutionRow N))) (query : Query N) :
    ServiceRows N := fun endpoint inner =>
  (serviceKey env endpoint inner).bind fun key =>
    if ∃ found ∈ collectServiceNodes (whereClauseOf query), found.key env = some key then
      (fetch key).toOption.map fun rows => rows.map solutionRowToPartial
    else none

/-- The walk of the pattern finds what matters: where it lets the query pass, each call that is
reached with the rows it finds and has an answer with rows is also made at a place it finds, and
each such call without an answer is SILENT; and it finds a call that is not SILENT if there is
one. -/
structure WalkFinds (env : FederationEnv N)
    (fetch : ServiceKey → Except FetchFailure (List (SolutionRow N))) {ctx : Context N}
    (query : Query N) (reach : Reach ctx query) : Prop where
  calls : (∀ node ∈ collectServiceNodes (whereClauseOf query), node.silent = false →
      ∃ rows, node.Returned env fetch rows) →
    ∀ node ∈ queryServices query,
      reach.reached (foundRows env fetch query) node.endpoint node.inner →
      (∃ rows, node.Returned env fetch rows ∧ (rows = [] ∨
        ∃ found ∈ collectServiceNodes (whereClauseOf query), found.key env = node.key env)) ∨
      (node.silent = true ∧ ∀ rows, ¬ node.Returned env fetch rows)
  notSilent : (∃ node ∈ queryServices query, node.silent = false) →
    ∃ node ∈ collectServiceNodes (whereClauseOf query), node.silent = false

variable {fetch : ServiceKey → Except FetchFailure (List (SolutionRow N))} {ctx : Context N}
  {network : NetworkPolicy} {handles : List (ServiceKey × Bool)} {results : ServiceResults N}

variable {node : ServiceNode N} {rows : List (SolutionRow N)}

variable
    (hhandles : Enumerates (mergeCalls (collectServiceCalls env (whereClauseOf query))) handles)

include hhandles

variable (hresults : collectOrFirstError (preResolveServices fetch handles) ∅ = .ok results)

include hresults

theorem withServices_eq_foundRows :
    (ctx.withServices env results).lib.preResolvedServiceResults = foundRows env fetch query := by
  funext endpoint inner
  change ((serviceKey env endpoint inner).bind results.lookup).map _ = _
  unfold foundRows
  cases serviceKey env endpoint inner with
  | none => rfl
  | some key =>
    rw [Option.bind_some, Option.bind_some]
    have hlookup : results.lookup key =
        if ∃ found ∈ collectServiceNodes (whereClauseOf query), found.key env = some key then
          (fetch key).toOption
        else none := by
      ext rows
      rw [lookup_preResolved hhandles hresults]
      split_ifs with hfound
      · rw [and_iff_right hfound]
        cases fetch key with
        | ok | error => simp [Except.toOption]
      · exact iff_of_false (fun h => hfound h.1) (by simp)
    rw [hlookup]
    split_ifs <;> rfl

theorem joinedWith_withServices (hreturned : node.Returned env fetch rows) :
    node.JoinedWith (ctx.withServices env results) (rows.map solutionRowToPartial) ↔
      rows = [] ∨
        ∃ found ∈ collectServiceNodes (whereClauseOf query), found.key env = node.key env := by
  obtain ⟨key, hkey, hrows⟩ := hreturned
  have hkey' : serviceKey env node.endpoint node.inner = some key := hkey
  rw [joinedWith_iff, withServices_eq_foundRows hhandles hresults, joinedRows, foundRows, hkey',
    hkey, Option.bind_some, hrows]
  split_ifs with hfound
  · exact iff_of_true rfl (.inr hfound)
  · rw [or_iff_left hfound]
    exact eq_comm.trans List.map_eq_nil_iff

theorem joinedWith_nil (hreturned : ∀ rows, ¬ node.Returned env fetch rows) :
    node.JoinedWith (ctx.withServices env results) [] := by
  rw [joinedWith_iff, withServices_eq_foundRows hhandles hresults, joinedRows, foundRows]
  cases hkey : serviceKey env node.endpoint node.inner with
  | none => rfl
  | some key =>
    rw [Option.bind_some]
    split_ifs
    · cases hrows : fetch key with
      | ok rows => exact absurd ⟨key, hkey, hrows⟩ (hreturned rows)
      | error failure => rfl
    · rfl

omit hresults

omit hhandles

variable {reach : Reach ctx query}

theorem executeInner_preResolved (hnetwork : network.fetches = true)
    (hhandles : Enumerates (mergeCalls (collectServiceCalls env (whereClauseOf query))) handles)
    (hresults : collectOrFirstError (preResolveServices fetch handles) ∅ = .ok results) :
    (∃ result, executeInner env ctx network results query = .ok result) ↔
      ∀ node ∈ collectServiceNodes (whereClauseOf query), node.silent = false →
        ∃ rows, node.Returned env fetch rows := by
  rw [executeInner_fetches hnetwork]
  refine forall₂_congr fun node hnode => forall_congr' fun _ => ?_
  rw [Option.isSome_iff_exists]
  refine exists_congr fun rows => ?_
  rw [Option.bind_eq_some_iff]
  refine exists_congr fun key => and_congr_right fun hkey => ?_
  rw [lookup_preResolved hhandles hresults]
  exact and_iff_right ⟨node, hnode, hkey⟩

def answeringRows (env : FederationEnv N)
    (fetch : ServiceKey → Except FetchFailure (List (SolutionRow N))) (endpoint : Term N)
    (inner : List (QueryComponent N)) : Option (List (PartialSub N)) :=
  (serviceKey env endpoint inner).bind fun key =>
    (fetch key).toOption.map fun rows => rows.map solutionRowToPartial

section Samples

def Library.plain : Library NativeTypes.text where
  functionValue _ _ := none
  functionBool _ _ := none
  arithmetic _ _ _ := none
  binaryValue _ _ _ := none
  negate _ := none
  valuesEqual a b := a = b
  compareGraphElements _ _ := none
  compareGraphElementsTotal _ _ := .eq
  graphElementToString _ := none
  sumValues _ := none
  divideByCount _ _ := none
  preResolvedServiceResults _ _ := none

def Context.plain : Context NativeTypes.text :=
  ⟨⟨Datastore.new, QuadStore.new⟩, Library.plain, 0⟩

def FederationEnv.plain : FederationEnv NativeTypes.text where
  serviceBodyToSparqlText _ := "SELECT * WHERE \x7b \x7d"
  debugTerm _ := "endpoint"

def remoteCall : ServiceNode NativeTypes.text :=
  ⟨.constant (.iri "http://example.org/sparql"), [], false⟩

/-- `ASK WHERE (FILTER NOT EXISTS (SERVICE endpoint ()))` -/
def askNotExistsService : Query NativeTypes.text :=
  .ask [] [.filter (.notExists [.service remoteCall.endpoint remoteCall.inner remoteCall.silent])]

theorem not_answered_remoteCall :
    ¬ remoteCall.Answered FederationEnv.plain (fun _ => .ok [∅])
      (Context.plain.withServices FederationEnv.plain ∅) := by
  rintro (⟨rows, ⟨_, _, hrows⟩, hjoined⟩ | ⟨hsilent, _⟩)
  · cases hrows
    have hempty : ([] : List (PartialSub NativeTypes.text)) = _ := joinedWith_iff.mp hjoined
    cases hempty
  · cases hsilent

/-- The row of the remote call, and nothing for any other. -/
def remoteRows : ServiceRows NativeTypes.text
  | .constant (.nodeOrEdge (.iri iri)), [] =>
    if iri = "http://example.org/sparql" then some [∅] else none
  | _, _ => none

theorem reached_remoteCall (reach : Reach Context.plain askNotExistsService) :
    reach.reached (fun _ _ => none) remoteCall.endpoint remoteCall.inner := by
  by_contra hnot
  have hsame := reach.determines (fun _ _ => none) remoteRows fun endpoint inner hreached => by
    unfold remoteRows
    split
    · split_ifs with hiri
      · subst hiri
        exact absurd hreached hnot
      · rfl
    · rfl
  have hanswer : QueryResult.ask (N := NativeTypes.text) false = .ask true := hsame
  cases hanswer

end Samples

end Federation

end RdfDatalog.Sparql
