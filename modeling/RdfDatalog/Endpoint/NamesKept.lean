import RdfDatalog.Endpoint.DurableWrites
import RdfDatalog.Endpoint.DatasetRoutes

namespace RdfDatalog.Endpoint

open Datalog Datalog.IncrementalReasoner GraphElementManager

variable {N : NativeTypes} {Expr : Type}

section Translation

theorem internTriple_extends (store : Datastore N) (g : GraphElementId) (s p o : GraphElement N) :
    store.resources.Extends (internTriple store g s p o).1.resources := by
  have hs := store.addResource_extends s
  have hp := (store.addResource s).1.addResource_extends p
  have ho := ((store.addResource s).1.addResource p).1.addResource_extends o
  exact hs.trans (hp.trans ho)

theorem translateQuad_extends (tmp : Datastore N) (g : GraphElementId)
    (acc : Datastore N × List Quad) (q : Quad) :
    acc.1.resources.Extends (translateQuad tmp g acc q).1.resources := by
  unfold translateQuad
  split
  · exact internTriple_extends acc.1 g _ _ _
  · rfl

theorem foldl_extends {α : Type} {f : Datastore N × List Quad → α → Datastore N × List Quad}
    (hf : ∀ (acc : Datastore N × List Quad) a, acc.1.resources.Extends (f acc a).1.resources)
    (as : List α)
    (acc : Datastore N × List Quad) : acc.1.resources.Extends (as.foldl f acc).1.resources := by
  induction as generalizing acc with
  | nil => rfl
  | cons a as ih => exact (hf acc a).trans (ih (f acc a))

theorem translateGraph_extends (tmp : Datastore N) (acc : Datastore N × List Quad)
    (gid : GraphElementId) : acc.1.resources.Extends (translateGraph tmp acc gid).1.resources := by
  have hgraph : acc.1.resources.Extends (resolveTmpGraphId acc.1 tmp gid).1.resources := by
    rw [resolveTmpGraphId]
    split_ifs
    · rfl
    · split
      · exact acc.1.addResource_extends _
      · rfl
  exact hgraph.trans (foldl_extends (translateQuad_extends tmp _) _
    ((resolveTmpGraphId acc.1 tmp gid).1, acc.2))

theorem translateToMainIds_extends (store tmp : Datastore N) :
    store.resources.Extends (translateToMainIds store tmp).1.resources :=
  foldl_extends (translateGraph_extends tmp) _ (store, [])

theorem translateDefaultGraphQuads_extends (tmp store : Datastore N) (g : GraphElementId) :
    store.resources.Extends (translateDefaultGraphQuads tmp store g).1.resources :=
  foldl_extends (translateQuad_extends tmp g) _ (store, [])

theorem translateDatasetQuads_extends (tmp store : Datastore N) :
    store.resources.Extends (translateDatasetQuads tmp store).1.resources := by
  refine foldl_extends (fun acc q => ?_) _ (store, [])
  unfold translateDatasetQuad
  split
  · rfl
  · next graph _ =>
    have hgraph := acc.1.addResource_extends graph
    exact hgraph.trans (translateQuad_extends tmp _ ((acc.1.addResource graph).1, acc.2) q)

end Translation

section Updates

variable {env : UpdateEnv N} {network : NetworkPolicy} {st st' : Pending N}

theorem applyOp_keepsNames {op : PreparedOp N} (h : applyOp env network st op = .ok st') :
    st.store.resources.Extends st'.store.resources := by
  cases op with
  | insertData tmp | deleteData tmp =>
    cases h
    exact translateToMainIds_extends st.store tmp
  | loadGraph source into silent =>
    rcases applyOp_loadGraph h with ⟨-, rfl⟩ | ⟨tmp, -, rfl⟩
    · rfl
    · exact loadFetched_extends st.store tmp into
  | _ => exact applyOp_extends (by trivial) rfl h

theorem applyOps_keepsNames {ops : List (PreparedOp N)} :
    (∀ st', applyOps env network st ops = .ok st' →
      st.store.resources.Extends st'.store.resources) ∧
    ∀ e store, applyOps env network st ops = .error (e, store) →
      st.store.resources.Extends store.resources := by
  induction ops generalizing st with
  | nil =>
    refine ⟨fun st' h => ?_, fun e store h => ?_⟩
    · cases h
      rfl
    · cases h
  | cons op ops ih =>
    rw [applyOps]
    cases hop : applyOp env network st op with
    | error e =>
      refine ⟨fun st' h => ?_, fun e store h => ?_⟩
      · cases h
      · cases h
        rfl
    | ok st₁ =>
      have hstep := applyOp_keepsNames hop
      obtain ⟨hok, herror⟩ := @ih st₁
      exact ⟨fun st' h => hstep.trans (hok st' h), fun e store h => hstep.trans (herror e store h)⟩

theorem applyReasonedUpdate_keepsNames {r : Reasoning Expr} {dataset dataset' : Dataset N Expr}
    {ops : List (PreparedOp N)} :
    (∀ delta, applyReasonedUpdate env network r dataset ops = .ok (dataset', delta) →
      dataset.1.resources.Extends dataset'.1.resources) ∧
    ∀ e, applyReasonedUpdate env network r dataset ops = .error (e, dataset') →
      dataset.1.resources.Extends dataset'.1.resources := by
  obtain ⟨store, reasoner⟩ := dataset
  have hnames := @applyOps_keepsNames N env network ⟨store, [], []⟩ ops
  rw [applyReasonedUpdate]
  cases hops : applyOps env network ⟨store, [], []⟩ ops with
  | error failed =>
    refine ⟨fun delta h => ?_, fun e h => ?_⟩
    · cases h
    · cases h
      exact hnames.2 _ _ hops
  | ok st =>
    have hstore : store.resources.Extends (commitPending st).resources := by
      rw [commitPending_resources]
      exact hnames.1 st hops
    dsimp only
    cases reasoner with
    | none =>
      refine ⟨fun delta h => ?_, fun e h => ?_⟩
      · cases h
        exact hstore
      · cases h
    | some programs =>
      dsimp only
      cases applyReasonerDelta r ⟨programs, (commitPending st).namedGraphs⟩ (netDeletes st)
          (netInserts st) with
      | error failed =>
        refine ⟨fun delta h => ?_, fun e h => ?_⟩
        · cases h
        · cases h
          exact hstore
      | ok m =>
        refine ⟨fun delta h => ?_, fun e h => ?_⟩
        · cases h
          exact hstore
        · cases h

theorem collectData_keepsNames {ops : List (PreparedOp N)} :
    (∀ st', collectData st ops = .ok st' → st.store.resources.Extends st'.store.resources) ∧
    ∀ store, collectData st ops = .error store → st.store.resources.Extends store.resources := by
  induction ops generalizing st with
  | nil =>
    refine ⟨fun st' h => ?_, fun store h => ?_⟩
    · cases h
      rfl
    · cases h
  | cons op ops ih =>
    cases op with
    | insertData tmp | deleteData tmp =>
      have hstep := translateToMainIds_extends st.store tmp
      exact ⟨fun st' h => hstep.trans (ih.1 st' h), fun store h => hstep.trans (ih.2 store h)⟩
    | _ =>
      refine ⟨fun st' h => ?_, fun store h => ?_⟩
      · cases h
      · cases h
        rfl

end Updates

section Handlers

/-- The request only adds names to the store. -/
def AppState.KeepsNames (s s' : AppState N Expr) : Prop :=
  s.store.store.resources.Extends s'.store.store.resources

theorem AppState.KeepsNames.trans {s s' s'' : AppState N Expr} (h : s.KeepsNames s')
    (h' : s'.KeepsNames s'') : s.KeepsNames s'' := Extends.trans h h'

theorem AppState.KeepsNames.of_eq {s s' : AppState N Expr}
    (h : s'.store.store.resources = s.store.store.resources) : s.KeepsNames s' := by
  rw [AppState.KeepsNames, h]

variable (env : ServerEnv N Expr) (s : AppState N Expr)

theorem AppState.OnlyReasons.keepsNames {s s' : AppState N Expr} (h : s.OnlyReasons s') :
    s.KeepsNames s' := .of_eq h.resources

variable (prepared : List (PreparedOp N))

theorem applyReasonedUpdate_names :
    match applyReasonedUpdate env.update env.network env.rules.reasoning
        (s.store.store, s.reasoner) prepared with
    | .error (_, store, _) => s.store.store.resources.Extends store.resources
    | .ok ((store, _), _) => s.store.store.resources.Extends store.resources := by
  have hnames {dataset' : Dataset N Expr} := @applyReasonedUpdate_keepsNames N Expr env.update
    env.network env.rules.reasoning (s.store.store, s.reasoner) dataset' prepared
  cases hrun : applyReasonedUpdate env.update env.network env.rules.reasoning
      (s.store.store, s.reasoner) prepared with
  | error failed => exact hnames.2 _ hrun
  | ok result => exact hnames.1 _ hrun

theorem applyUpdate_keepsNames :
    s.KeepsNames (applyUpdate env s prepared).2 := by
  have hnames := applyReasonedUpdate_names env s prepared
  rw [applyUpdate]
  cases hrun : applyReasonedUpdate env.update env.network env.rules.reasoning
      (s.store.store, s.reasoner) prepared with
  | error failed =>
    obtain ⟨e, store, reasoner⟩ := failed
    rw [hrun] at hnames
    cases e with
    | contradiction | other => exact hnames
  | ok result =>
    rw [hrun] at hnames
    have hstored (store : VersionedStore N) (reasoner : Option (List (DatalogProgram Expr)))
        (hstore : s.store.store.resources.Extends store.store.resources) :
        s.KeepsNames { s with store, reasoner } := hstore
    exact (hstored _ _ hnames).trans (checkConstraints_only env _ _ _).keepsNames

theorem applyDatasetUpdate_keepsNames :
    s.KeepsNames (applyDatasetUpdate env s prepared).2 := by
  have hnames := applyReasonedUpdate_names env s prepared
  rw [applyDatasetUpdate]
  cases hrun : applyReasonedUpdate env.update env.network env.rules.reasoning
      (s.store.store, s.reasoner) prepared with
  | error failed =>
    rw [hrun] at hnames
    exact hnames
  | ok result =>
    obtain ⟨⟨store, reasoner⟩, netInserts, netDeletes⟩ := result
    rw [hrun] at hnames
    dsimp only at hnames ⊢
    cases reasoner with
    | none => exact hnames
    | some programs =>
      dsimp only
      split_ifs
      · exact hnames
      · have hstored (store : VersionedStore N) (reasoner : Option (List (DatalogProgram Expr)))
            (hstore : s.store.store.resources.Extends store.store.resources) :
            s.KeepsNames { s with store, reasoner } := hstore
        exact (hstored _ _ hnames).trans (revertDelta_only _ netInserts netDeletes).keepsNames

theorem logBatch_keepsNames {s' : AppState N Expr} {entries : List ChangelogEntry}
    (h : logBatch env s entries = .ok s') : s.KeepsNames s' := by
  rw [logBatch_ok h]
  exact .of_eq rfl

theorem checkedUpdate_keepsNames
    {apply : AppState N Expr → List (PreparedOp N) → Response × AppState N Expr}
    (happly : ∀ (s : AppState N Expr) prepared, s.KeepsNames (apply s prepared).2)
    (updateStr : String)
    (ifMatch : Option String) : s.KeepsNames (checkedUpdate env apply s updateStr ifMatch).2 := by
  rcases checkedUpdate_cases env apply s updateStr ifMatch with
    ⟨response, heq, -⟩ | ⟨ops, prepared, entries, s₁, -, -, hlog, heq⟩
  · rw [heq]
    exact .of_eq rfl
  · rw [heq]
    exact (logBatch_keepsNames env s hlog).trans (happly s₁ prepared)

theorem runTransactionalUpdate_keepsNames (updateStr txId : String) :
    s.KeepsNames (runTransactionalUpdate env s updateStr txId).2 := by
  rcases runTransactionalUpdate_cases env s updateStr txId with
    heq | ⟨ops, prepared, entries, -, -, ⟨store, hcollect, heq⟩ | ⟨st, hcollect, heq⟩⟩
  · rw [heq]
    exact .of_eq rfl
  · rw [heq]
    exact collectData_keepsNames.2 store hcollect
  · have hst : s.KeepsNames (s.withStore st.store) := collectData_keepsNames.1 st hcollect
    rcases heq with heq | ⟨tx, -, heq⟩
    · rw [heq]
      exact hst
    · rw [heq]
      exact hst

theorem transactionCommit_keepsNames (txId : String) :
    s.KeepsNames (transactionCommit env s txId).2 := by
  rcases transactionCommit_only env s txId with heq | ⟨tx, -, heq | honly⟩
  · rw [heq]
    exact .of_eq rfl
  · rw [heq]
    exact .of_eq rfl
  · exact .of_eq (honly.resources.trans (tx.write_resources s.store))

end Handlers

section GraphStore

variable {env : ServerEnv N Expr} {store : Datastore N} {w : GraphWrite N}

/-- A write only interns names, before it is logged and when it is translated. -/
structure GraphWrite.KeepsNames (w : GraphWrite N) (store : Datastore N) : Prop where
  store : store.resources.Extends w.store.resources
  translate : ∀ store : Datastore N, store.resources.Extends (w.translate store).1.resources

theorem uploadTo_keepsNames (tmp : Datastore N) (graph : Option String)
    (graphId : GraphElementId) {store' : Datastore N} (response : Response)
    (hstore : store.resources.Extends store'.resources) :
    (uploadTo env tmp graph graphId store' response).KeepsNames store :=
  ⟨hstore, fun store => translateDefaultGraphQuads_extends tmp store graphId⟩

theorem uploadUnnamed_keepsNames (tmp : Datastore N) (fmt : UploadFormat) (nanos : Nat) :
    (uploadUnnamed env store tmp fmt nanos).KeepsNames store := by
  rw [uploadUnnamed]
  split_ifs
  · exact ⟨.refl _, translateDatasetQuads_extends tmp⟩
  · refine ⟨.refl _, fun store => ?_⟩
    have hgraph := store.addResource_extends (.iri (freshGraphIri env nanos))
    exact hgraph.trans (translateDefaultGraphQuads_extends tmp _ _)

theorem resolveWriteTarget_extends {params : GraphParams} {store' : Datastore N}
    {target : GraphElementId × Bool} (h : resolveWriteTarget params store = .ok (store', target)) :
    store.resources.Extends store'.resources := by
  rw [resolveWriteTarget] at h
  split_ifs at h
  · cases h
    rfl
  · split at h
    · next iri hg =>
      dsimp only at h
      split_ifs at h
      cases h
      exact store.addResource_extends (.iri iri)
    · cases h

theorem graphWrite_keepsNames {request : Request}
    (h : request.graphWrite env store = some (.ok w)) : w.KeepsNames store := by
  cases request with
  | gspPut params contentType body =>
    obtain ⟨_, tmp, store', graphId, _, -, htarget, rfl⟩ := putWrite_shape (Option.some.inj h)
    exact ⟨resolveWriteTarget_extends htarget,
      fun store => translateDefaultGraphQuads_extends tmp store graphId⟩
  | gspPost params contentType body createIfMissing nanos =>
    obtain ⟨_, tmp, -, hw⟩ := postWrite_shape (Option.some.inj h)
    rcases hw with ⟨-, rfl⟩ | ⟨-, iri, graphId, -, -, rfl⟩ | ⟨-, iri, -, rfl⟩ | ⟨-, -, rfl⟩
    · exact uploadTo_keepsNames tmp none _ _ (.refl _)
    · exact uploadTo_keepsNames tmp (some iri) _ _ (.refl _)
    · exact uploadTo_keepsNames tmp (some iri) _ _ (store.addResource_extends (.iri iri))
    · exact uploadUnnamed_keepsNames tmp _ nanos
  | gspDelete params =>
    obtain ⟨_, graphId, -, -, rfl⟩ := deleteWrite_shape (Option.some.inj h)
    exact ⟨.refl _, fun store => .refl _⟩
  | _ => cases h

variable (env) (s : AppState N Expr)

theorem answer_keepsNames {outcome : Except Response (GraphWrite N)}
    (h : ∀ w, outcome = .ok w → w.KeepsNames s.store.store) :
    s.KeepsNames (answer env s outcome).2 := by
  cases outcome with
  | error response => exact .of_eq rfl
  | ok w =>
    have hw := h w rfl
    have hstore : s.KeepsNames (s.withStore w.store) := hw.store
    rw [answer, GraphWrite.run]
    cases hlog : logBatch env (s.withStore w.store) w.entries with
    | error failed => exact hstore
    | ok s₁ =>
      have hlogged := hstore.trans (logBatch_keepsNames env _ hlog)
      have htranslated : s₁.KeepsNames (s₁.withStore (w.translate s₁.store.store).1) :=
        hw.translate s₁.store.store
      have honly := writeQuads_only env s₁ w.clear (w.translate s₁.store.store)
      dsimp only
      cases hwrite : writeQuads env s₁ w.clear (w.translate s₁.store.store) with
      | error | ok =>
        rw [hwrite] at honly
        exact (hlogged.trans htranslated).trans honly.keepsNames

end GraphStore

section Rules

variable [DecidableEq Expr]

theorem applyAndRecord_resources {α : Type} (env : RulesEnv N Expr)
    (resources : GraphElementManager N) (entry : DatasetEntry Expr)
    (combined : List (Rule Expr)) (record : RulesetMap Expr → RulesetMap Expr) (result : α) :
    (applyAndRecord env resources entry combined record result).2.1 = resources := by
  rw [applyAndRecord]
  cases applyCombinedRuleset env.reasoning.env entry combined with
  | error e => rfl
  | ok entry => rfl

theorem applyReplaceRulesetText_extends {env : RulesEnv N Expr} (hparse : env.Interns)
    (resources : GraphElementManager N) (entry : DatasetEntry Expr) (text : String) :
    resources.Extends (applyReplaceRulesetText env resources entry text).2.1 := by
  have hext := hparse text resources
  rw [applyReplaceRulesetText]
  cases hrun : env.parse text resources with
  | mk resources' parsed =>
    rw [hrun] at hext
    cases parsed with
    | error e => exact hext
    | ok rules =>
      dsimp only
      rw [applyAndRecord_resources]
      exact hext

theorem applySetNamedRulesetText_extends {env : RulesEnv N Expr} (hparse : env.Interns)
    (resources : GraphElementManager N) (entry : DatasetEntry Expr) (rulesetId text : String) :
    resources.Extends (applySetNamedRulesetText env resources entry rulesetId text).2.1 := by
  have hext := hparse text resources
  rw [applySetNamedRulesetText]
  cases hrun : env.parse text resources with
  | mk resources' parsed =>
    rw [hrun] at hext
    cases parsed with
    | error e => exact hext
    | ok rules =>
      dsimp only
      rw [applyAndRecord_resources]
      exact hext

theorem applyDeleteNamedRuleset_resources (env : RulesEnv N Expr)
    (resources : GraphElementManager N) (entry : DatasetEntry Expr) (rulesetId : String) :
    (applyDeleteNamedRuleset env resources entry rulesetId).2.1 = resources := by
  rw [applyDeleteNamedRuleset]
  cases entry.rulesets.lookup rulesetId with
  | none => rfl
  | some removed => exact applyAndRecord_resources env _ _ _ _ _

variable {env : ServerEnv N Expr} (s : AppState N Expr)

omit [DecidableEq Expr] in
theorem finishRules_keepsNames {α : Type} (conflict : String) {outcome : RulesetOutcome N Expr α}
    (log : ChangelogEntry) (respond : α → Response)
    (h : s.store.store.resources.Extends outcome.2.1) :
    s.KeepsNames (finishRules env s conflict outcome log respond).2 := by
  obtain ⟨changelog, hstate⟩ := finishRules_state env s conflict outcome log respond
  rw [hstate]
  exact h

theorem handle_keepsNames (hparse : env.rules.Interns) (request : Request) :
    s.KeepsNames (handle env s request).2 := by
  cases request with
  | update updateStr ifMatch =>
    exact checkedUpdate_keepsNames env s (applyUpdate_keepsNames env) updateStr ifMatch
  | transactionBegin | transactionalQuery => exact .of_eq rfl
  | transactionalUpdate updateStr txId =>
    exact runTransactionalUpdate_keepsNames env s updateStr txId
  | transactionCommit txId => exact transactionCommit_keepsNames env s txId
  | transactionRollback txId =>
    rw [handle, transactionRollback]
    cases s.transactions.lookup txId with
    | none | some => exact .of_eq rfl
  | gspPut params contentType body =>
    rw [handle, gspPut_eq]
    refine answer_keepsNames env s fun w hw => ?_
    have hwrite : Request.graphWrite env s.store.store (.gspPut params contentType body) =
        some (.ok w) := congrArg some hw
    exact graphWrite_keepsNames hwrite
  | gspPost params contentType body createIfMissing nanos =>
    rw [handle, gspPost_eq]
    refine answer_keepsNames env s fun w hw => ?_
    have hwrite : Request.graphWrite env s.store.store
        (.gspPost params contentType body createIfMissing nanos) = some (.ok w) :=
      congrArg some hw
    exact graphWrite_keepsNames hwrite
  | gspDelete params =>
    rw [handle, gspDelete_eq]
    refine answer_keepsNames env s fun w hw => ?_
    have hwrite : Request.graphWrite env s.store.store (.gspDelete params) = some (.ok w) :=
      congrArg some hw
    exact graphWrite_keepsNames hwrite
  | rulesPost contentType body =>
    rw [handle, datasetRulesPost]
    cases rulesText env contentType body with
    | error response => exact .of_eq rfl
    | ok text =>
      have hext := applyReplaceRulesetText_extends hparse s.store.store.resources s.entry text
      exact finishRules_keepsNames s _ _ _ hext
  | rulesIdPost rulesetId contentType body =>
    rw [handle, datasetRulesIdPost]
    cases rulesText env contentType body with
    | error response => exact .of_eq rfl
    | ok text =>
      have hext := applySetNamedRulesetText_extends hparse s.store.store.resources s.entry
        rulesetId text
      exact finishRules_keepsNames s _ _ _ hext
  | rulesIdDelete rulesetId =>
    have hext : s.store.store.resources.Extends (applyDeleteNamedRuleset env.rules
        s.store.store.resources s.entry rulesetId).2.1 := by
      rw [applyDeleteNamedRuleset_resources]
    rw [handle, datasetRulesIdDelete]
    by_cases hread : env.readOnly = true
    · rw [if_pos hread]
      exact .of_eq rfl
    rw [if_neg hread]
    split
    · next heq =>
      rw [heq] at hext
      exact hext
    · exact finishRules_keepsNames s _ _ _ hext

end Rules

end RdfDatalog.Endpoint
