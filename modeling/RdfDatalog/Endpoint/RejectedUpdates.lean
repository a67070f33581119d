import RdfDatalog.Endpoint.ViolationRollback

namespace RdfDatalog.Endpoint

open Datalog Datalog.IncrementalReasoner FallibleFold

variable {N : NativeTypes} {Expr : Type}

/-- A request whose net delta is checked for instances of `owl:Nothing`. -/
inductive CheckedRequest where
  | runUpdate (updateStr : String) (ifMatch : Option String)
  | datasetUpdatePost (updateStr : String) (ifMatch : Option String)
  | transactionCommit (txId : String)

namespace CheckedRequest

def answer (env : ServerEnv N Expr) (s : AppState N Expr) :
    CheckedRequest → Response × AppState N Expr
  | runUpdate updateStr ifMatch => Endpoint.runUpdate env s updateStr ifMatch
  | datasetUpdatePost updateStr ifMatch => Endpoint.datasetUpdatePost env s updateStr ifMatch
  | transactionCommit txId => Endpoint.transactionCommit env s txId

/-- What an update comes to: the store that its operations leave, and its net delta. -/
def updateDelta (env : ServerEnv N Expr) (s : AppState N Expr) (updateStr : String) :
    Option (Datastore N × List Quad × List Quad) :=
  match env.parseUpdate updateStr with
  | .error _ => none
  | .ok ops =>
    match prepareUpdate env.trigParser env.datasetName s.store.store ops with
    | .error _ => none
    | .ok (prepared, _) =>
      match applyOps env.update env.network ⟨s.store.store, [], []⟩ prepared with
      | .error _ => none
      | .ok st => some (st.store, netDeletes st, netInserts st)

/-- What a commit comes to, at the generation at which its transaction began. -/
def commitDelta (s : AppState N Expr) (txId : String) :
    Option (Datastore N × List Quad × List Quad) :=
  match s.transactions.lookup txId with
  | none => none
  | some tx =>
    if s.store.generation ≠ tx.snapshotGeneration then none
    else some (s.store.store, tx.netDeletes s.store.store, tx.netInserts s.store.store)

/-- The store when the net delta is written to it, the net deletions and the net insertions. -/
def delta (env : ServerEnv N Expr) (s : AppState N Expr) :
    CheckedRequest → Option (Datastore N × List Quad × List Quad)
  | runUpdate updateStr _ | datasetUpdatePost updateStr _ => updateDelta env s updateStr
  | transactionCommit txId => commitDelta s txId

/-- Whether the reasoner is told when a violation is taken back. -/
def tellsReasoner : CheckedRequest → Bool
  | datasetUpdatePost _ _ => false
  | _ => true

end CheckedRequest

section Shapes

variable {env : ServerEnv N Expr} {s : AppState N Expr} {programs : List (DatalogProgram Expr)}
  {deletes inserts : List Quad}

theorem revertDelta_namedGraphs (s : AppState N Expr) (netInserts netDeletes : List Quad) :
    (revertDelta s netInserts netDeletes).store.store.namedGraphs =
      netDeletes.foldl QuadStore.addQuad
        (netInserts.foldl QuadStore.removeQuad s.store.store.namedGraphs) := by
  rw [revertDelta, VersionedStore.foldl_removeQuad, VersionedStore.foldl_addQuad]
  dsimp only
  rw [foldl_addQuad_namedGraphs, foldl_removeQuad_namedGraphs]

variable {m : IncrementalReasoner Expr} {request : CheckedRequest} {prepared : List (PreparedOp N)}
  {st : Pending N}

theorem applyReasonerDelta_of_ok {r : Reasoning Expr} {m' : IncrementalReasoner Expr}
    (h : reasonDelta r m deletes inserts = .ok m') :
    applyReasonerDelta r m deletes inserts = .ok m' := by
  rw [applyReasonerDelta, h]

theorem checkConstraints_rejected (hreasoner : s.reasoner = some programs)
    (h : (checkConstraints env s inserts deletes).1.status = 409) :
    ∃ m₂, reasonDelta env.rules.reasoning
        (edited ⟨programs, s.store.store.namedGraphs⟩ inserts deletes) inserts deletes = .ok m₂ ∧
      (checkConstraints env s inserts deletes).2.reasoner = some m₂.programs ∧
      (checkConstraints env s inserts deletes).2.store.store.namedGraphs = m₂.base := by
  have hrevert := revertDelta_namedGraphs s inserts deletes
  rw [checkConstraints, hreasoner] at h ⊢
  dsimp only at h ⊢
  by_cases hempty : (checkOwlNothing env s.store.store 10 10).isEmpty = true
  · rw [if_pos hempty] at h
    cases h
  rw [if_neg hempty] at h ⊢
  rw [reasonOver] at h ⊢
  dsimp only at h ⊢
  rw [hrevert] at h ⊢
  cases hrun : applyReasonerDelta env.rules.reasoning ⟨programs, deletes.foldl QuadStore.addQuad
      (inserts.foldl QuadStore.removeQuad s.store.store.namedGraphs)⟩ inserts deletes with
  | error e =>
    rw [hrun] at h
    cases h
  | ok m₂ => exact ⟨m₂, applyReasonerDelta_ok hrun, rfl, rfl⟩

theorem netInserts_disjoint (st : Pending N) : ∀ q ∈ netInserts st, q ∉ netDeletes st := by
  intro q hq hdel
  have hins := (List.mem_filter.mp hq).2
  have hmem : q ∈ st.deletes := List.mem_dedup.mp (List.mem_filter.mp hdel).1
  simp [hmem] at hins

theorem updateDelta_eq_some {updateStr : String} {store : Datastore N}
    (h : CheckedRequest.updateDelta env s updateStr = some (store, deletes, inserts)) :
    ∃ ops prepared entries st, env.parseUpdate updateStr = .ok ops ∧
      prepareUpdate env.trigParser env.datasetName s.store.store ops = .ok (prepared, entries) ∧
      applyOps env.update env.network ⟨s.store.store, [], []⟩ prepared = .ok st ∧
      store = st.store ∧ deletes = netDeletes st ∧ inserts = netInserts st := by
  rw [CheckedRequest.updateDelta] at h
  cases hparse : env.parseUpdate updateStr with
  | error e =>
    rw [hparse] at h
    cases h
  | ok ops =>
    rw [hparse] at h
    dsimp only at h
    cases hprepare : prepareUpdate env.trigParser env.datasetName s.store.store ops with
    | error e =>
      rw [hprepare] at h
      cases h
    | ok prepared =>
      rw [hprepare] at h
      dsimp only at h
      split at h
      · cases h
      · next st hops =>
        cases h
        exact ⟨ops, prepared.1, prepared.2, st, rfl, hprepare, hops, rfl, rfl, rfl⟩

theorem commitDelta_eq_some {txId : String} {store : Datastore N}
    (h : CheckedRequest.commitDelta s txId = some (store, deletes, inserts)) :
    ∃ tx, s.transactions.lookup txId = some tx ∧ s.store.generation = tx.snapshotGeneration ∧
      store = s.store.store ∧ deletes = tx.netDeletes s.store.store ∧
      inserts = tx.netInserts s.store.store := by
  rw [CheckedRequest.commitDelta] at h
  cases htx : s.transactions.lookup txId with
  | none =>
    rw [htx] at h
    cases h
  | some tx =>
    rw [htx] at h
    dsimp only at h
    split_ifs at h with hgeneration
    cases h
    exact ⟨tx, rfl, not_not.mp hgeneration, rfl, rfl, rfl⟩

theorem CheckedRequest.delta_disjoint {store : Datastore N}
    (h : request.delta env s = some (store, deletes, inserts)) : ∀ q ∈ inserts, q ∉ deletes := by
  have hupdate {updateStr : String}
      (h : updateDelta env s updateStr = some (store, deletes, inserts)) :
      ∀ q ∈ inserts, q ∉ deletes := by
    obtain ⟨_, _, _, st, -, -, -, -, rfl, rfl⟩ := updateDelta_eq_some h
    exact netInserts_disjoint st
  cases request with
  | runUpdate | datasetUpdatePost => exact hupdate h
  | transactionCommit txId =>
    obtain ⟨tx, -, -, -, rfl, rfl⟩ := commitDelta_eq_some h
    intro q hins hdel
    have hno := ((tx.mem_netInserts _ q).mp hins).2
    exact hno ((tx.mem_netDeletes _ q).mp hdel)

theorem applyReasonedUpdate_accepted {env : UpdateEnv N} {network : NetworkPolicy}
    {r : Reasoning Expr} {store : Datastore N} {m₁ : IncrementalReasoner Expr}
    (hops : applyOps env network ⟨store, [], []⟩ prepared = .ok st) (h₁ : reasonDelta r (edited
      ⟨programs, st.store.namedGraphs⟩ (netDeletes st) (netInserts st)) (netDeletes st) (netInserts
      st) = .ok m₁) :
    applyReasonedUpdate env network r (store, some programs) prepared =
      .ok (({ commitPending st with namedGraphs := m₁.base }, some m₁.programs), netInserts st,
        netDeletes st) := by
  have hcommit : (⟨programs, (commitPending st).namedGraphs⟩ : IncrementalReasoner Expr) =
      edited ⟨programs, st.store.namedGraphs⟩ (netDeletes st) (netInserts st) := by
    rw [commitPending_namedGraphs, edited]
  rw [applyReasonedUpdate, hops]
  dsimp only
  rw [hcommit, applyReasonerDelta_of_ok h₁]

/-- What a rejected request leaves: the reasoner after it was told to take the delta back, or only
the store without the delta. -/
def RejectedAs (env : ServerEnv N Expr) (s' : AppState N Expr) (tells : Bool)
    (m₁ : IncrementalReasoner Expr) (deletes inserts : List Quad) : Prop :=
  if tells then ∃ m₂, reasonDelta env.rules.reasoning (edited m₁ inserts deletes) inserts deletes =
      .ok m₂ ∧ s'.reasoner = some m₂.programs ∧ s'.store.store.namedGraphs = m₂.base
  else s'.reasoner = some m₁.programs ∧
    s'.store.store.namedGraphs = (edited m₁ inserts deletes).base

variable {m₁ : IncrementalReasoner Expr} {store : Datastore N}

theorem reasonOver_of_ok (h : reasonDelta env.rules.reasoning ⟨programs, s.store.store.namedGraphs⟩
      deletes inserts = .ok m) :
    ∃ s', reasonOver env s programs deletes inserts = .ok s' ∧ s'.reasoner = some m.programs ∧
      s'.store.store.namedGraphs = m.base := by
  rw [reasonOver]
  dsimp only
  rw [applyReasonerDelta_of_ok h]
  exact ⟨_, rfl, rfl, rfl⟩

theorem checkConstraints_rejectedAs (hreasoner : s.reasoner = some m₁.programs)
    (hstore : s.store.store.namedGraphs = m₁.base)
    (h : (checkConstraints env s inserts deletes).1.status = 409) :
    RejectedAs env (checkConstraints env s inserts deletes).2 true m₁ deletes inserts := by
  have hrejected := checkConstraints_rejected hreasoner h
  rw [hstore] at hrejected
  rw [RejectedAs, if_pos rfl]
  exact hrejected

section Updates

variable (hreasoner : s.reasoner = some programs)
  (hops : applyOps env.update env.network ⟨s.store.store, [], []⟩ prepared = .ok st)
  (h₁ : reasonDelta env.rules.reasoning (edited ⟨programs, st.store.namedGraphs⟩ (netDeletes st)
    (netInserts st)) (netDeletes st) (netInserts st) = .ok m₁)
include hreasoner hops h₁

theorem applyUpdate_rejected
    (h : (applyUpdate env s prepared).1.status = 409) :
    RejectedAs env (applyUpdate env s prepared).2 true m₁ (netDeletes st) (netInserts st) := by
  have hrun := applyReasonedUpdate_accepted hops h₁
  rw [applyUpdate, hreasoner, hrun] at h ⊢
  exact checkConstraints_rejectedAs rfl rfl h

theorem applyDatasetUpdate_rejected
    (h : (applyDatasetUpdate env s prepared).1.status = 409) :
    RejectedAs env (applyDatasetUpdate env s prepared).2 false m₁ (netDeletes st)
      (netInserts st) := by
  have hrun := applyReasonedUpdate_accepted hops h₁
  rw [applyDatasetUpdate, hreasoner, hrun] at h ⊢
  dsimp only at h ⊢
  split_ifs at h with hempty
  · cases h
  · rw [if_neg hempty, RejectedAs, if_neg Bool.false_ne_true]
    dsimp only
    rw [revertDelta_namedGraphs]
    exact ⟨rfl, rfl⟩

end Updates

theorem transactionCommit_rejected {txId : String} {tx : OpenTransaction}
    (hreasoner : s.reasoner = some programs) (htx : s.transactions.lookup txId = some tx)
    (hgeneration : s.store.generation = tx.snapshotGeneration)
    (h₁ : reasonDelta env.rules.reasoning
      (edited ⟨programs, s.store.store.namedGraphs⟩ (tx.netDeletes s.store.store)
        (tx.netInserts s.store.store))
      (tx.netDeletes s.store.store) (tx.netInserts s.store.store) = .ok m₁)
    (h : (transactionCommit env s txId).1.status = 409) :
    RejectedAs env (transactionCommit env s txId).2 true m₁ (tx.netDeletes s.store.store)
      (tx.netInserts s.store.store) := by
  obtain ⟨store, reasoner, rulesets, transactions, changelog⟩ := s
  dsimp only at hreasoner htx hgeneration h₁
  rw [transactionCommit] at h ⊢
  by_cases hread : env.readOnly = true
  · rw [if_pos hread] at h
    cases h
  rw [if_neg hread] at h ⊢
  dsimp only at h ⊢
  rw [htx] at h ⊢
  dsimp only at h ⊢
  rw [if_neg (not_not.mpr hgeneration), hreasoner] at h ⊢
  let s : AppState N Expr :=
    ⟨tx.write store, some programs, rulesets, transactions.erase txId, changelog⟩
  have hover : reasonDelta env.rules.reasoning ⟨programs, s.store.store.namedGraphs⟩
      (tx.netDeletes store.store) (tx.netInserts store.store) = .ok m₁ := by
    rw [show s.store.store.namedGraphs = _ from tx.write_namedGraphs store]
    exact h₁
  obtain ⟨s', hrun, hprograms, hstore⟩ := reasonOver_of_ok hover
  dsimp only at h ⊢
  rw [hrun] at h ⊢
  exact checkConstraints_rejectedAs hprograms hstore h

/-- A request whose delta the reasoner accepts is rejected with 409 only for a violation, and this
is what it leaves. -/
theorem CheckedRequest.rejected (hreasoner : s.reasoner = some programs)
    (hdelta : request.delta env s = some (store, deletes, inserts)) (h₁ : reasonDelta
      env.rules.reasoning (edited ⟨programs, store.namedGraphs⟩ deletes inserts) deletes inserts =
      .ok m₁) (h : (request.answer env s).1.status = 409) :
    RejectedAs env (request.answer env s).2 request.tellsReasoner m₁ deletes inserts := by
  cases request with
  | runUpdate updateStr ifMatch =>
    obtain ⟨ops, prepared, entries, st, hops, hprepare, hrun, rfl, rfl, rfl⟩ :=
      updateDelta_eq_some hdelta
    rw [answer] at h ⊢
    rcases runUpdate_cases env s updateStr ifMatch with
      ⟨response, heq, hstatus⟩ | ⟨ops', prepared', entries', s₁, hops', hprepare', hlog, heq⟩
    · rw [heq] at h
      rw [h] at hstatus
      simp at hstatus
    · cases hops.symm.trans hops'
      cases hprepare.symm.trans hprepare'
      rw [logBatch_ok hlog] at heq
      rw [heq] at h ⊢
      exact applyUpdate_rejected hreasoner hrun h₁ h
  | datasetUpdatePost updateStr ifMatch =>
    obtain ⟨ops, prepared, entries, st, hops, hprepare, hrun, rfl, rfl, rfl⟩ :=
      updateDelta_eq_some hdelta
    rw [answer] at h ⊢
    rcases datasetUpdatePost_cases env s updateStr ifMatch with
      ⟨response, heq, hstatus⟩ | ⟨ops', prepared', entries', s₁, hops', hprepare', hlog, heq⟩
    · rw [heq] at h
      rw [h] at hstatus
      simp at hstatus
    · cases hops.symm.trans hops'
      cases hprepare.symm.trans hprepare'
      rw [logBatch_ok hlog] at heq
      rw [heq] at h ⊢
      exact applyDatasetUpdate_rejected hreasoner hrun h₁ h
  | transactionCommit txId =>
    obtain ⟨tx, htx, hgeneration, rfl, rfl, rfl⟩ := commitDelta_eq_some hdelta
    exact transactionCommit_rejected hreasoner htx hgeneration h₁ h

end Shapes

end RdfDatalog.Endpoint
