import RdfDatalog.Endpoint.GraphWrite

namespace RdfDatalog.Endpoint

open Datalog Datalog.IncrementalReasoner VersionedStore

variable {N : NativeTypes} {Expr : Type}

/-- Only the quads and the reasoner differ. -/
structure AppState.SameBooks (s s' : AppState N Expr) : Prop where
  rulesets : s'.rulesets = s.rulesets
  transactions : s'.transactions = s.transactions
  changelog : s'.changelog = s.changelog

namespace AppState.SameBooks

@[refl] theorem refl (s : AppState N Expr) : s.SameBooks s := ⟨rfl, rfl, rfl⟩

theorem trans {s s' s'' : AppState N Expr} (h : s.SameBooks s') (h' : s'.SameBooks s'') :
    s.SameBooks s'' :=
  ⟨h'.rulesets.trans h.rulesets, h'.transactions.trans h.transactions,
    h'.changelog.trans h.changelog⟩

end AppState.SameBooks

/-- Only the stored quads and the reasoner differ. -/
structure AppState.OnlyReasons (s s' : AppState N Expr) : Prop extends s.SameBooks s' where
  resources : s'.store.store.resources = s.store.store.resources

@[refl] theorem AppState.OnlyReasons.refl (s : AppState N Expr) : s.OnlyReasons s := ⟨.refl s, rfl⟩

theorem AppState.OnlyReasons.trans {s s' s'' : AppState N Expr} (h : s.OnlyReasons s')
    (h' : s'.OnlyReasons s'') : s.OnlyReasons s'' :=
  ⟨h.toSameBooks.trans h'.toSameBooks, h'.resources.trans h.resources⟩

theorem reasonOver_only (env : ServerEnv N Expr) (s : AppState N Expr)
    (programs : List (DatalogProgram Expr)) (netDeletes netInserts : List Quad) :
    match reasonOver env s programs netDeletes netInserts with
    | .error (_, s') => s.OnlyReasons s'
    | .ok s' => s.OnlyReasons s' := by
  rw [reasonOver]
  dsimp only
  cases applyReasonerDelta env.rules.reasoning ⟨programs, s.store.store.namedGraphs⟩ netDeletes
      netInserts with
  | error e => exact ⟨⟨rfl, rfl, rfl⟩, rfl⟩
  | ok m => exact ⟨⟨rfl, rfl, rfl⟩, rfl⟩

theorem revertDelta_only (s : AppState N Expr) (netInserts netDeletes : List Quad) :
    s.OnlyReasons (revertDelta s netInserts netDeletes) := by
  refine ⟨⟨rfl, rfl, rfl⟩, ?_⟩
  rw [revertDelta, foldl_removeQuad, foldl_addQuad]
  dsimp only
  rw [foldl_addQuad_resources, foldl_removeQuad_resources]

theorem checkConstraints_only (env : ServerEnv N Expr) (s : AppState N Expr)
    (netInserts netDeletes : List Quad) :
    s.OnlyReasons (checkConstraints env s netInserts netDeletes).2 := by
  rw [checkConstraints]
  cases s.reasoner with
  | none => rfl
  | some programs =>
    dsimp only
    split_ifs
    · rfl
    have hrevert := revertDelta_only s netInserts netDeletes
    have hover := reasonOver_only env (revertDelta s netInserts netDeletes) programs netInserts
      netDeletes
    cases hrun : reasonOver env (revertDelta s netInserts netDeletes) programs netInserts
        netDeletes with
    | error e =>
      rw [hrun] at hover
      exact hrevert.trans hover
    | ok s' =>
      rw [hrun] at hover
      exact hrevert.trans hover

theorem applyUpdate_books (env : ServerEnv N Expr) (s : AppState N Expr)
    (prepared : List (PreparedOp N)) : s.SameBooks (applyUpdate env s prepared).2 := by
  rw [applyUpdate]
  cases applyReasonedUpdate env.update env.network env.rules.reasoning
      (s.store.store, s.reasoner) prepared with
  | error failed =>
    obtain ⟨e, store, reasoner⟩ := failed
    cases e with
    | contradiction | other => exact ⟨rfl, rfl, rfl⟩
  | ok result =>
    have hstored (store : VersionedStore N) (reasoner : Option (List (DatalogProgram Expr))) :
        s.SameBooks { s with store, reasoner } := ⟨rfl, rfl, rfl⟩
    exact (hstored _ _).trans (checkConstraints_only env _ _ _).toSameBooks

theorem writeQuads_only (env : ServerEnv N Expr) (s : AppState N Expr)
    (clear : Option GraphElementId) (translated : Datastore N × List Quad) :
    match writeQuads env s clear translated with
    | .error (_, s') => (s.withStore translated.1).OnlyReasons s'
    | .ok s' => (s.withStore translated.1).OnlyReasons s' := by
  obtain ⟨store, reasoner, rulesets, transactions, changelog⟩ := s
  rw [writeQuads.eq_def]
  cases reasoner with
  | none =>
    refine ⟨⟨rfl, rfl, rfl⟩, ?_⟩
    rw [foldl_addQuad]
    dsimp only
    rw [foldl_addQuad_resources]
    rfl
  | some programs =>
    have hover (existing : List Quad) := reasonOver_only env (AppState.withStore
      ⟨store, some programs, rulesets, transactions, changelog⟩ translated.1) programs existing
        translated.2
    dsimp only
    generalize List.filter _ _ = existing
    have honly := hover existing
    cases hrun : reasonOver env _ programs existing translated.2 with
    | error | ok =>
      rw [hrun] at honly
      exact honly

theorem logBatch_ok {env : ServerEnv N Expr} {s s' : AppState N Expr}
    {entries : List ChangelogEntry} (h : logBatch env s entries = .ok s') :
    s' = { s with changelog := s.changelog.map (· ++ entries) } := by
  obtain ⟨store, reasoner, rulesets, transactions, changelog⟩ := s
  rw [logBatch] at h
  cases changelog with
  | none =>
    cases h
    rfl
  | some log =>
    dsimp only at h
    split at h
    · cases h
    · next u happend =>
      cases h
      rfl

section Transactions

variable (env : ServerEnv N Expr) (s : AppState N Expr)

theorem runUpdate_transactions (updateStr : String) (ifMatch : Option String) :
    (runUpdate env s updateStr ifMatch).2.transactions = s.transactions := by
  rcases runUpdate_cases env s updateStr ifMatch with
    ⟨response, heq, -⟩ | ⟨ops, prepared, entries, s₁, -, -, hlog, heq⟩
  · rw [heq]
  · have hbooks := (applyUpdate_books env s₁ prepared).transactions
    rw [logBatch_ok hlog] at hbooks
    rw [heq, logBatch_ok hlog]
    exact hbooks

theorem answer_transactions (outcome : Except Response (GraphWrite N)) :
    (answer env s outcome).2.transactions = s.transactions := by
  cases outcome with
  | error response => rfl
  | ok w =>
    rw [answer, GraphWrite.run]
    cases hlog : logBatch env (s.withStore w.store) w.entries with
    | error failed => rfl
    | ok s₁ =>
      have htransactions : s₁.transactions = s.transactions := by
        rw [logBatch_ok hlog]
        rfl
      have hbooks := writeQuads_only env s₁ w.clear (w.translate s₁.store.store)
      dsimp only
      cases hwrite : writeQuads env s₁ w.clear (w.translate s₁.store.store) with
      | error | ok =>
        rw [hwrite] at hbooks
        exact hbooks.transactions.trans htransactions

/-- A change of the rules is that of the entry, and what it logs. -/
theorem finishRules_state {α : Type} (env : ServerEnv N Expr) (s : AppState N Expr)
    (conflict : String) (outcome : RulesetOutcome N Expr α) (log : ChangelogEntry)
    (respond : α → Response) : ∃ changelog, (finishRules env s conflict outcome log respond).2 =
      { s.withEntry outcome.2.1 outcome.2.2 with changelog } := by
  rw [finishRules]
  obtain ⟨result, resources, entry⟩ := outcome
  cases result with
  | error e =>
    cases e with
    | parse | conflict => exact ⟨_, rfl⟩
  | ok result =>
    dsimp only
    cases hlog : logBatch env (s.withEntry resources entry) [log] with
    | error response => exact ⟨_, rfl⟩
    | ok s' =>
      dsimp only
      rw [logBatch_ok hlog]
      exact ⟨_, rfl⟩

theorem finishRules_transactions {α : Type} (conflict : String) (outcome : RulesetOutcome N Expr α)
    (log : ChangelogEntry) (respond : α → Response) :
    (finishRules env s conflict outcome log respond).2.transactions = s.transactions := by
  obtain ⟨changelog, hstate⟩ := finishRules_state env s conflict outcome log respond
  rw [hstate]
  rfl

/-- The transaction that a request opens, fills or closes. -/
def Request.txId? : Request → Option String
  | .transactionBegin txId | .transactionalUpdate _ txId | .transactionCommit txId
  | .transactionRollback txId => some txId
  | _ => none

theorem runTransactionalUpdate_transactions (updateStr txId : String) :
    (runTransactionalUpdate env s updateStr txId).2.transactions = s.transactions ∨
      ∃ tx st, s.transactions.lookup txId = some tx ∧
        (runTransactionalUpdate env s updateStr txId).2.transactions =
          s.transactions.insert txId (OpenTransaction.buffer tx (N := N) st) := by
  rcases runTransactionalUpdate_cases env s updateStr txId with
    heq | ⟨ops, prepared, entries, -, -, ⟨store, -, heq⟩ | ⟨st, -, heq | ⟨tx, hlookup, heq⟩⟩⟩
  · rw [heq]
    exact .inl rfl
  · rw [heq]
    exact .inl rfl
  · rw [heq]
    exact .inl rfl
  · rw [heq]
    exact .inr ⟨tx, st, hlookup, rfl⟩

/-- A commit does nothing, closes the transaction, or writes it and hands the write to the
reasoner. -/
theorem transactionCommit_only (txId : String) :
    (transactionCommit env s txId).2 = s ∨ ∃ tx, s.transactions.lookup txId = some tx ∧
      ((transactionCommit env s txId).2 = { s with transactions := s.transactions.erase txId } ∨
        AppState.OnlyReasons
          { s with store := tx.write s.store, transactions := s.transactions.erase txId }
          (transactionCommit env s txId).2) := by
  obtain ⟨store, reasoner, rulesets, transactions, changelog⟩ := s
  rw [transactionCommit]
  by_cases hread : env.readOnly = true
  · rw [if_pos hread]
    exact .inl rfl
  rw [if_neg hread]
  cases hlookup : transactions.lookup txId with
  | none => exact .inl rfl
  | some tx =>
    refine .inr ⟨tx, rfl, ?_⟩
    dsimp only
    by_cases hgeneration : store.generation ≠ tx.snapshotGeneration
    · rw [if_pos hgeneration]
      exact .inl rfl
    rw [if_neg hgeneration]
    refine .inr ?_
    cases reasoner with
    | none => rfl
    | some programs =>
      let s : AppState N Expr :=
        ⟨tx.write store, some programs, rulesets, transactions.erase txId, changelog⟩
      have hover := reasonOver_only env s programs (tx.netDeletes store.store)
        (tx.netInserts store.store)
      dsimp only
      cases hrun : reasonOver env s programs (tx.netDeletes store.store)
          (tx.netInserts store.store) with
      | error e =>
        rw [hrun] at hover
        exact hover
      | ok s' =>
        rw [hrun] at hover
        exact hover.trans (checkConstraints_only env s' _ _)

theorem transactionCommit_transactions (txId : String) :
    (transactionCommit env s txId).2.transactions = s.transactions ∨
      (transactionCommit env s txId).2.transactions = s.transactions.erase txId := by
  rcases transactionCommit_only env s txId with heq | ⟨tx, -, heq | honly⟩
  · exact .inl (congrArg AppState.transactions heq)
  · exact .inr (congrArg AppState.transactions heq)
  · exact .inr honly.transactions

theorem handle_transactions [DecidableEq Expr] {request : Request} {txId : String}
    (h : request.txId? ≠ some txId) :
    (handle env s request).2.transactions.lookup txId = s.transactions.lookup txId := by
  have hne {txId' : String} (hid : (some txId' : Option String) ≠ some txId) : txId ≠ txId' :=
    fun heq => hid (congrArg some heq.symm)
  cases request with
  | update updateStr ifMatch =>
    rw [handle, runUpdate_transactions]
  | transactionBegin txId' => exact AList.lookup_insert_ne (hne h)
  | transactionalQuery queryStr txId' => rfl
  | transactionalUpdate updateStr txId' =>
    rw [handle]
    rcases runTransactionalUpdate_transactions env s updateStr txId' with heq | ⟨tx, st, _, heq⟩
    · rw [heq]
    · rw [heq]
      exact AList.lookup_insert_ne (hne h)
  | transactionCommit txId' =>
    rw [handle]
    rcases transactionCommit_transactions env s txId' with heq | heq
    · rw [heq]
    · rw [heq]
      exact AList.lookup_erase_ne (hne h)
  | transactionRollback txId' =>
    rw [handle, transactionRollback]
    cases s.transactions.lookup txId' with
    | none => rfl
    | some tx => exact AList.lookup_erase_ne (hne h)
  | gspPut params contentType body =>
    rw [handle, gspPut_eq, answer_transactions]
  | gspPost params contentType body createIfMissing nanos =>
    rw [handle, gspPost_eq, answer_transactions]
  | gspDelete params =>
    rw [handle, gspDelete_eq, answer_transactions]
  | rulesPost contentType body =>
    rw [handle, datasetRulesPost]
    cases rulesText env contentType body with
    | error response => rfl
    | ok text =>
      dsimp only
      rw [finishRules_transactions]
  | rulesIdPost rulesetId contentType body =>
    rw [handle, datasetRulesIdPost]
    cases rulesText env contentType body with
    | error response => rfl
    | ok text =>
      dsimp only
      rw [finishRules_transactions]
  | rulesIdDelete rulesetId =>
    rw [handle, datasetRulesIdDelete]
    by_cases hread : env.readOnly = true
    · rw [if_pos hread]
    rw [if_neg hread]
    split
    · rfl
    · rw [finishRules_transactions]

end Transactions

end RdfDatalog.Endpoint
