import RdfDatalog.Endpoint.GraphStoreMeaning
import RdfDatalog.Endpoint.GuardedRequests

namespace RdfDatalog.Endpoint

open Datalog Datalog.IncrementalReasoner GraphElementManager GroundProgram

variable {N : NativeTypes} {Expr : Type}

/-- A graph store request whose document states no instance of `owl:Nothing`, to a dataset whose
rules derive none. -/
structure Harmless (env : ServerEnv N Expr) (s : AppState N Expr) (request : Request) : Prop where
  data : ∀ u, request.upload env = some u → HarmlessData u.tmp
  rules : ∀ programs, s.reasoner = some programs →
    HarmlessRules s.store.store.resources (activeStrata programs).flatten

section Writes

variable {env : ServerEnv N Expr} {store : Datastore N} {request : Request} {w : GraphWrite N}

theorem uploadUnnamed_harmless {tmp : Datastore N} (htmp : HarmlessData tmp) (fmt : UploadFormat)
    (nanos : Nat) : HarmlessQuads ((uploadUnnamed env store tmp fmt nanos).translate store) := by
  rw [uploadUnnamed]
  split_ifs
  · exact harmless_translateDatasetQuads htmp
  · exact harmless_translateDefaultGraphQuads htmp (store.addResource_get _)

theorem resolveWriteTarget_get {params : GraphParams} {store' : Datastore N}
    {target : GraphElementId × Bool} (h : resolveWriteTarget params store = .ok (store', target)) :
    (store'.resources.getGraphElement target.1).isSome := by
  rw [resolveWriteTarget] at h
  split_ifs at h with hdefault
  · cases h
    exact Option.isSome_iff_exists.mpr ⟨_, store.resources.defaultGraph⟩
  · split at h
    · next iri hg =>
      dsimp only at h
      split_ifs at h
      cases h
      exact Option.isSome_iff_exists.mpr ⟨_, store.addResource_get (.iri iri)⟩
    · cases h

theorem graphWrite_harmless (hdata : ∀ u, request.upload env = some u → HarmlessData u.tmp)
    (h : request.graphWrite env store = some (.ok w)) : HarmlessQuads (w.translate w.store) := by
  cases request with
  | gspPut params contentType body =>
    obtain ⟨fmt, tmp, store', graphId, isNew, hparse, htarget, rfl⟩ :=
      putWrite_shape (Option.some.inj h)
    obtain ⟨ge, hge⟩ := Option.isSome_iff_exists.mp (resolveWriteTarget_get htarget)
    refine harmless_translateDefaultGraphQuads ?_ hge
    rw [Request.upload, hparse] at hdata
    exact hdata _ rfl
  | gspPost params contentType body createIfMissing nanos =>
    obtain ⟨fmt, tmp, hparse, hw⟩ := postWrite_shape (Option.some.inj h)
    have htmp : HarmlessData tmp := by
      rw [Request.upload, hparse] at hdata
      dsimp only at hdata
      split_ifs at hdata
      · exact hdata _ rfl
      · exact hdata _ rfl
      · exact hdata _ rfl
    rcases hw with ⟨-, rfl⟩ | ⟨-, iri, graphId, -, hexists, rfl⟩ | ⟨-, iri, -, rfl⟩ | ⟨-, -, rfl⟩
    · exact harmless_translateDefaultGraphQuads htmp store.resources.defaultGraph
    · obtain ⟨hlookup, -⟩ := Option.filter_eq_some_iff.mp hexists
      exact harmless_translateDefaultGraphQuads htmp ((store.resources.exact _ _).mp hlookup)
    · exact harmless_translateDefaultGraphQuads htmp (store.addResource_get _)
    · have hstore : (uploadUnnamed env store tmp fmt nanos).store = store := by
        rw [uploadUnnamed]
        split_ifs
        · rfl
        · rfl
      rw [hstore]
      exact uploadUnnamed_harmless htmp fmt nanos
  | gspDelete params =>
    obtain ⟨graph, graphId, -, -, rfl⟩ := deleteWrite_shape (Option.some.inj h)
    exact fun q hq => absurd hq List.not_mem_nil
  | _ => cases h

end Writes

section Handlers

variable {env : ServerEnv N Expr} {s s' : AppState N Expr}

def AppState.Guarded (s : AppState N Expr) : Prop := Endpoint.Guarded s.store.store s.reasoner

theorem reasonOver_eq_ok {programs : List (DatalogProgram Expr)} {netDeletes netInserts : List Quad}
    (h : reasonOver env s programs netDeletes netInserts = .ok s') :
    ∃ m, reasonDelta env.rules.reasoning ⟨programs, s.store.store.namedGraphs⟩ netDeletes
        netInserts = .ok m ∧
      s'.store.store = { s.store.store with namedGraphs := m.base } ∧
      s'.reasoner = some m.programs := by
  obtain ⟨m, hrun, hstore⟩ := reasonOver_ok h
  refine ⟨m, hrun, hstore, ?_⟩
  rw [reasonOver] at h
  dsimp only at h
  rw [applyReasonerDelta_of_ok hrun] at h
  cases h
  rfl

theorem logBatch_guarded {entries : List ChangelogEntry} (hs : s.Guarded)
    (h : logBatch env s entries = .ok s') : s'.Guarded := by
  rw [logBatch_ok h]
  exact hs

theorem runTransactionalUpdate_reasoner (env : ServerEnv N Expr) (s : AppState N Expr)
    (updateStr txId : String) : (runTransactionalUpdate env s updateStr txId).2.reasoner =
      s.reasoner := by
  rcases runTransactionalUpdate_cases env s updateStr txId with
    heq | ⟨ops, prepared, entries, -, -, ⟨store, -, heq⟩ | ⟨st, -, heq | ⟨tx, -, heq⟩⟩⟩
  · rw [heq]
  all_goals
    rw [heq]
    rfl

theorem runTransactionalUpdate_guarded (hs : s.Guarded) (updateStr txId : String) :
    (runTransactionalUpdate env s updateStr txId).2.Guarded := by
  have hquads := (runTransactionalUpdate_quads env s updateStr txId).2
  rw [AppState.Guarded, runTransactionalUpdate_reasoner]
  exact hs.grow hquads.le (runTransactionalUpdate_keepsNames env s updateStr txId)

variable (hf : env.rules.reasoning.env.FixedFilters)
include hf

theorem checkedUpdate_guarded (hs : s.Guarded) {updateStr : String} {ifMatch : Option String}
    {apply : AppState N Expr → List (PreparedOp N) → Response × AppState N Expr}
    (happly : AppliesChecked env apply)
    (h : (checkedUpdate env apply s updateStr ifMatch).1.Success) :
    (checkedUpdate env apply s updateStr ifMatch).2.Guarded := by
  rcases checkedUpdate_cases env apply s updateStr ifMatch with
    ⟨response, heq, -⟩ | ⟨ops, prepared, entries, s₁, -, hprepare, hlog, heq⟩
  · rw [heq]
    exact hs
  · rw [heq] at h ⊢
    obtain ⟨dataset', inserts, deletes, hrun, hstore, hreasoner, hchecked⟩ := happly _ _ h
    rw [AppState.Guarded, hstore, hreasoner]
    exact (logBatch_guarded hs hlog).update hf (prepareUpdate_interned hprepare) hrun hchecked

theorem transactionCommit_guarded (hs : s.Guarded) {txId : String}
    (hinterned : ∀ tx, s.transactions.lookup txId = some tx →
      ∀ q ∈ tx.pendingInserts, s.store.store.resources.Interned q)
    (h : (transactionCommit env s txId).1.Success) : (transactionCommit env s txId).2.Guarded := by
  obtain ⟨store, reasoner, rulesets, transactions, changelog⟩ := s
  obtain ⟨programs, hreasoner, hlive⟩ := hs.live
  dsimp only at hreasoner
  subst hreasoner
  rw [transactionCommit] at h ⊢
  by_cases hread : env.readOnly = true
  · rw [if_pos hread]
    exact hs
  rw [if_neg hread] at h ⊢
  dsimp only at hinterned h ⊢
  cases htx : transactions.lookup txId with
  | none => exact hs
  | some tx =>
    rw [htx] at h
    dsimp only at h ⊢
    by_cases hgeneration : store.generation ≠ tx.snapshotGeneration
    · rw [if_pos hgeneration]
      exact hs
    rw [if_neg hgeneration] at h ⊢
    let s₁ : AppState N Expr :=
      ⟨tx.write store, some programs, rulesets, transactions.erase txId, changelog⟩
    cases hrun : reasonOver env s₁ programs (tx.netDeletes store.store)
        (tx.netInserts store.store) with
    | error failed =>
      obtain ⟨e, s₂⟩ := failed
      rw [hrun] at h
      exact absurd h e.not_success
    | ok s₂ =>
      rw [hrun] at h
      dsimp only at h ⊢
      rcases checkConstraints_cases env s₂ (tx.netInserts store.store)
        (tx.netDeletes store.store) with ⟨hpass, heq⟩ | ⟨-, hfails⟩
      · rw [heq]
        obtain ⟨m, hdelta, hstore, hprograms⟩ := reasonOver_eq_ok hrun
        have hnames := tx.write_resources store
        have hinserts : ∀ q ∈ tx.netInserts store.store, store.store.resources.Interned q :=
          fun q hq => hinterned tx htx q ((tx.mem_netInserts _ q).mp hq).1
        have hbase : ∀ q ∈ (tx.write store).store.namedGraphs,
            store.store.resources.Interned q := by
          intro q hq
          rw [tx.write_namedGraphs, QuadStore.mem_foldl_addQuad,
            QuadStore.mem_foldl_removeQuad] at hq
          rcases hq with hq | hq
          · exact hs.interned q hq.1
          · exact hinserts q hq
        obtain ⟨hlive', hbase'⟩ := hlive.reasonDelta hf (m := ⟨programs, _⟩) hbase hinserts hdelta
        have hres : s₂.store.store.resources = store.store.resources := by
          rw [hstore]
          exact hnames
        refine ⟨⟨m.programs, hprograms, ?_⟩, fun q hq => ?_, ?_⟩
        · rw [hres]
          exact hlive'
        · rw [hres]
          rw [hstore] at hq
          exact hbase' q hq
        · rw [← checkOwlNothing_isEmpty_iff env _ (show 0 < 10 by decide) 10, List.isEmpty_iff]
          by_contra hno
          exact hpass ⟨hprograms ▸ rfl, hno⟩
      · exact absurd h hfails

theorem graphWrite_guarded (hs : s.Guarded) {request : Request}
    {outcome : Except Response (GraphWrite N)}
    (hw : request.graphWrite env s.store.store = some outcome) (hharmless : Harmless env s request)
    (h : (answer env s outcome).1.Success) : (answer env s outcome).2.Guarded := by
  cases outcome with
  | error response => exact hs
  | ok w =>
    have hinterns := graphWrite_onlyInterns hw
    have hkeeps := graphWrite_keepsNames hw
    have hquads := graphWrite_harmless hharmless.data hw
    obtain ⟨programs, hreasoner, hlive⟩ := hs.live
    obtain ⟨s₁, hstore₁, hreasoner₁, hwrite⟩ := GraphWrite.run_ok hinterns rfl h
    have hext : s.store.store.resources.Extends (w.translate w.store).1.resources :=
      hkeeps.store.trans (hkeeps.translate w.store)
    have hgraphs : (w.translate w.store).1.namedGraphs = s.store.store.namedGraphs :=
      (hinterns.translate w.store).trans hinterns.store
    have hinterned : ∀ q ∈ s.store.store.namedGraphs,
        (w.translate w.store).1.resources.Interned q :=
      fun q hq => (hs.interned q hq).extends hext
    obtain ⟨⟨store, generation⟩, reasoner, rulesets, transactions, changelog⟩ := s₁
    dsimp only at hstore₁ hreasoner₁ hwrite
    subst hstore₁
    rw [hreasoner₁.trans hreasoner] at hwrite
    rw [writeQuads.eq_def] at hwrite
    dsimp only at hwrite
    split at hwrite
    · cases hwrite
    · next s₂ hrun =>
      obtain ⟨m, hdelta, hstore, hprograms⟩ := reasonOver_eq_ok hrun
      have hafter : (answer env s (.ok w)).2 = s₂ := (Except.ok.inj hwrite).symm
      have hnames : s₂.store.store.resources = (w.translate w.store).1.resources := by
        rw [hstore]
        rfl
      have hstart :
          (AppState.withStore ⟨⟨w.store, generation⟩, some programs, rulesets, transactions,
          changelog⟩ (w.translate w.store).1).store.store.namedGraphs =
            s.store.store.namedGraphs := hgraphs
      rw [hstart] at hdelta
      have hlive' := hlive.extends hext
      obtain ⟨hlive₂, hbase₂⟩ := hlive'.reasonDelta hf (m := ⟨programs, _⟩) hinterned
        (fun q hq => (hquads q hq).1) hdelta
      have hfree : ∀ q ∈ m.base, ¬ IsInstance (w.translate w.store).1.resources q := by
        refine reasonDelta_subset hf (m := ⟨programs, _⟩) hlive.ordered
          (((hharmless.rules programs hreasoner).extends hext).closedUnder _) (fun q hq => ?_)
          (fun q hq => (hquads q hq).2) hdelta
        exact fun hinstance => hs.free q hq (hinstance.of_extends hext (hs.interned q hq))
      rw [hafter]
      refine ⟨⟨m.programs, hprograms, ?_⟩, fun q hq => ?_, fun q hq => ?_⟩
      · rw [hnames]
        exact hlive₂
      · rw [hnames]
        rw [hstore] at hq
        exact hbase₂ q hq
      · rw [hnames]
        rw [hstore] at hq
        exact hfree q hq

end Handlers

end RdfDatalog.Endpoint
