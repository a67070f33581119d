import RdfDatalog.Endpoint.SentData

namespace RdfDatalog.Endpoint

open Datalog Datalog.IncrementalReasoner GraphElementManager ServerState

variable {N : NativeTypes} {Expr : Type} [DecidableEq Expr]

omit [DecidableEq Expr] in
/-- The cells that a request works on, and the request as its handler sees it. -/
def ServerState.target (S : ServerState N Expr) : RoutedRequest → Option (Nat × Request)
  | .root request => if request.hasRootRoute then some (rootCell, request) else none
  | .dataset name request =>
    if request.hasDatasetRoute then (S.getEntry name).map fun cell => (cell, request) else none
  | _ => none

theorem dispatch_target (env : ServerEnv N Expr) {S : ServerState N Expr} {request : RoutedRequest}
    {cell : Nat} {inner : Request} (h : S.target request = some (cell, inner)) :
    ∃ name, dispatch env S request =
      ((handle (env.named name) (S.datasetState cell) inner).1,
        S.put cell (handle (env.named name) (S.datasetState cell) inner).2) := by
  cases request with
  | root request =>
    rw [ServerState.target] at h
    split_ifs at h with hroute
    cases h
    refine ⟨env.datasetName, ?_⟩
    rw [dispatch, if_pos hroute]
    rfl
  | dataset name request =>
    rw [ServerState.target] at h
    split_ifs at h with hroute
    cases hentry : S.getEntry name with
    | none =>
      rw [hentry] at h
      cases h
    | some found =>
      rw [hentry] at h
      cases h
      refine ⟨inner.loggedName name, ?_⟩
      rw [dispatch, if_pos hroute]
      dsimp only
      rw [hentry]
  | _ => cases h

theorem dispatch_untargeted (env : ServerEnv N Expr) {S : ServerState N Expr} {request : Request} :
    (S.target (.root request) = none → (dispatch env S (.root request)).2 = S) ∧
      ∀ name, S.target (.dataset name request) = none →
        (dispatch env S (.dataset name request)).2 = S := by
  refine ⟨fun h => ?_, fun name h => ?_⟩
  · rw [ServerState.target] at h
    split_ifs at h with hroute
    rw [dispatch, if_neg hroute]
  · rw [ServerState.target] at h
    split_ifs at h with hroute
    · rw [dispatch, if_pos hroute]
      dsimp only
      rw [Option.map_eq_none_iff.mp h]
    · rw [dispatch, if_neg hroute]

def SendsTo (env : ServerEnv N Expr) (S : ServerState N Expr) (cell : Nat)
    (request : RoutedRequest) (txId : String) (kind : BlockKind) (t : TermQuad N) : Prop :=
  ∃ updateStr, S.target request = some (cell, .transactionalUpdate updateStr txId) ∧
    Sends env updateStr kind t

/-- What was sent with the id of a transaction to the dataset with these cells. -/
def SentTo (env : ServerEnv N Expr) (S : ServerState N Expr) (requests : List RoutedRequest)
    (cell : Nat) (txId : String) (kind : BlockKind) (t : TermQuad N) : Prop :=
  ∃ pre request suf, requests = pre ++ request :: suf ∧
    SendsTo env (run env S pre) cell request txId kind t

/-- While the transaction is open, an update of it without embedded triples that goes to the
default dataset unless it sends nothing, and a query that goes there unless nothing was buffered
to insert. -/
def Confined (env : ServerEnv N Expr) (S : ServerState N Expr) (request : RoutedRequest) : Prop :=
  ∀ cell inner, S.target request = some (cell, inner) →
    match inner with
    | .transactionalUpdate updateStr txId => (S.transactions.lookup txId).isSome →
      NoEmbeddedTriples env updateStr ∧
        (cell = rootCell ∨ ∀ kind (t : TermQuad N), ¬ Sends env updateStr kind t)
    | .transactionalQuery _ txId => ∀ tx, S.transactions.lookup txId = some tx →
      cell = rootCell ∨ tx.pendingInserts = []
    | _ => True

def ConfinedRun (env : ServerEnv N Expr) (S : ServerState N Expr)
    (requests : List RoutedRequest) : Prop :=
  ∀ pre request suf, requests = pre ++ request :: suf → Confined env (run env S pre) request

/-- The interned elements of the default dataset. -/
def ServerState.rootNames (S : ServerState N Expr) : GraphElementManager N :=
  (S.cells rootCell).store.store.resources

def ServerState.rootStore (S : ServerState N Expr) : Datastore N := (S.cells rootCell).store.store

/-- What a transaction holds was sent with its id. -/
def OpenTransaction.Holds (tx : OpenTransaction) (m : GraphElementManager N)
    (sent : BlockKind → TermQuad N → Prop) : Prop :=
  AllSent m (sent .insert) tx.pendingInserts ∧ AllSent m (sent .delete) tx.pendingDeletes

theorem OpenTransaction.Holds.mono {tx : OpenTransaction} {m m' : GraphElementManager N}
    {sent sent' : BlockKind → TermQuad N → Prop} (h : tx.Holds m sent) (hnames : m.Extends m')
    (hsent : ∀ kind t, sent kind t → sent' kind t) : tx.Holds m' sent' :=
  ⟨h.1.mono hnames (hsent .insert) fun _ hq => hq, h.2.mono hnames (hsent .delete) fun _ hq => hq⟩

/-- Every open transaction holds what was sent with its id. -/
def Owned (sent : String → BlockKind → TermQuad N → Prop) (S : ServerState N Expr) : Prop :=
  ∀ txId tx, S.transactions.lookup txId = some tx →
    AllSent S.rootNames (sent txId .insert) tx.pendingInserts ∧
      AllSent S.rootNames (sent txId .delete) tx.pendingDeletes

section Steps

variable {env : ServerEnv N Expr} {S : ServerState N Expr}

variable {sent : String → BlockKind → TermQuad N → Prop} {tx : OpenTransaction}
  {request : RoutedRequest}

omit [DecidableEq Expr] in
theorem Owned.mono {sent' : String → BlockKind → TermQuad N → Prop} {S' : ServerState N Expr}
    (h : Owned sent S) (hnames : S.rootNames.Extends S'.rootNames)
    (hsent : ∀ txId kind t, sent txId kind t → sent' txId kind t) (hopen : ∀ txId tx,
      S'.transactions.lookup txId = some tx → S.transactions.lookup txId = some tx) :
    Owned sent' S' := by
  intro txId tx htx
  have hholds : tx.Holds S.rootNames (sent txId) := h txId tx (hopen txId tx htx)
  exact hholds.mono hnames (hsent txId)

omit [DecidableEq Expr] in
theorem lookup_foldl_erase {t : TransactionRegistry} {txIds : List String} {txId : String}
    {tx : OpenTransaction} (h : (txIds.foldl (fun t id => t.erase id) t).lookup txId = some tx) :
    t.lookup txId = some tx := by
  induction txIds generalizing t with
  | nil => exact h
  | cons id txIds ih =>
    have hrest := ih h
    by_cases heq : txId = id
    · rw [heq, AList.lookup_erase] at hrest
      cases hrest
    · rwa [AList.lookup_erase_ne heq] at hrest

omit [DecidableEq Expr] in
theorem logRegistry_ok {S' : ServerState N Expr} {entry : ChangelogEntry}
    (h : logRegistry env S entry = .ok S') :
    S' = { S with changelog := S.changelog.map (· ++ [entry]) } := by
  obtain ⟨cells, next, fresh, registry, transactions, changelog⟩ := S
  rw [logRegistry] at h
  cases changelog with
  | none =>
    cases h
    rfl
  | some log =>
    dsimp only at h
    split at h
    · cases h
    · next u happend =>
      cases h
      rfl

omit [DecidableEq Expr] in
theorem datasetUpdatePost_transactions (env : ServerEnv N Expr) (s : AppState N Expr)
    (updateStr : String) (ifMatch : Option String) :
    (datasetUpdatePost env s updateStr ifMatch).2.transactions = s.transactions := by
  rcases datasetUpdatePost_cases env s updateStr ifMatch with
    ⟨response, heq, -⟩ | ⟨ops, prepared, entries, s₁, -, -, hlog, heq⟩
  · rw [heq]
  · have hs₁ : s₁.transactions = s.transactions := by rw [logBatch_ok hlog]
    rw [heq, ← hs₁, applyDatasetUpdate]
    cases applyReasonedUpdate env.update env.network env.rules.reasoning
        (s₁.store.store, s₁.reasoner) prepared with
    | error failed => rfl
    | ok result =>
      obtain ⟨⟨store, reasoner⟩, netInserts, netDeletes⟩ := result
      cases reasoner with
      | none => rfl
      | some programs =>
        dsimp only
        split_ifs
        · rfl
        · rfl

omit [DecidableEq Expr] in
theorem runTransactionalUpdate_open {s : AppState N Expr} {updateStr txId : String}
    (h : (runTransactionalUpdate env s updateStr txId).2.transactions.lookup txId = some tx) :
    s.transactions.lookup txId = some tx ∨
      ∃ tx₀ ops prepared entries st, s.transactions.lookup txId = some tx₀ ∧
        env.parseUpdate updateStr = .ok ops ∧
        prepareUpdate env.trigParser env.datasetName s.store.store ops = .ok (prepared, entries) ∧
        collectData ⟨s.store.store, [], []⟩ prepared = .ok st ∧ tx = tx₀.buffer st ∧
        (runTransactionalUpdate env s updateStr txId).2.store.store.resources =
          st.store.resources := by
  rcases runTransactionalUpdate_cases env s updateStr txId with
    heq | ⟨ops, prepared, entries, hparse, hprepare, ⟨store, -, heq⟩ |
      ⟨st, hcollect, heq | ⟨tx₀, hlookup, heq⟩⟩⟩
  · rw [heq] at h
    exact .inl h
  · rw [heq] at h
    exact .inl h
  · rw [heq] at h
    exact .inl h
  · rw [heq, AList.lookup_insert] at h
    exact .inr ⟨tx₀, ops, prepared, entries, st, hlookup, hparse, hprepare, hcollect,
      (Option.some.inj h).symm, congrArg (·.store.store.resources) heq⟩

omit [DecidableEq Expr] in
theorem rootNames_put_of {cell : Nat} {s : AppState N Expr}
    (h : (S.datasetState cell).KeepsNames s) :
    S.rootNames.Extends (S.put cell s).rootNames := by
  by_cases hcell : cell = rootCell
  · subst hcell
    rw [ServerState.rootNames, ServerState.rootNames, put_cells_self]
    exact h
  · rw [ServerState.rootNames, ServerState.rootNames,
      put_cells_of_ne S _ (Ne.symm hcell)]

theorem rootNames_put (hparse : env.rules.Interns) (cell : Nat) (name : String)
    (inner : Request) : S.rootNames.Extends
      (S.put cell (handle (env.named name) (S.datasetState cell) inner).2).rootNames :=
  rootNames_put_of (@handle_keepsNames N Expr _ (env.named name) _ hparse inner)

omit [DecidableEq Expr] in
theorem owned_buffer (h : Owned sent S) {m : GraphElementManager N} (hnames : S.rootNames.Extends m)
    {txId updateStr : String} (htx : S.transactions.lookup txId = some tx) {st : Pending N}
    (hinserts : AllSent m (Sends env updateStr .insert) st.inserts)
    (hdeletes : AllSent m (Sends env updateStr .delete) st.deletes)
    (sent' : BlockKind → TermQuad N → Prop) (hsent : ∀ kind t, sent txId kind t → sent' kind t)
    (hsends : ∀ kind t, Sends env updateStr kind t → sent' kind t) :
    (tx.buffer st).Holds m sent' := by
  have hholds : tx.Holds S.rootNames (sent txId) := h txId tx htx
  obtain ⟨hins', hdel'⟩ := hholds.mono hnames hsent
  have hnew := hinserts.mono (.refl m) (hsends .insert) fun _ hq => hq
  exact ⟨hins'.append hnew, hdel'.append
    (hdeletes.mono (.refl m) (hsends .delete) fun q hq => List.mem_of_mem_filter hq)⟩

/-- What was sent before, or is by `request`. -/
def SentNow (env : ServerEnv N Expr) (S : ServerState N Expr)
    (sent : String → BlockKind → TermQuad N → Prop) (request : RoutedRequest) (txId : String)
    (kind : BlockKind) (t : TermQuad N) : Prop :=
  sent txId kind t ∨ SendsTo env S rootCell request txId kind t

theorem owned_handle (hparse : env.rules.Interns) (h : Owned sent S)
    (hconfined : Confined env S request) {cell : Nat} {inner : Request}
    (htarget : S.target request = some (cell, inner)) (name : String) :
    Owned (SentNow env S sent request)
      (S.put cell (handle (env.named name) (S.datasetState cell) inner).2) := by
  have hnames := rootNames_put (S := S) hparse cell name inner
  intro txId tx htx
  rw [put_transactions] at htx
  have hsame (hopen : S.transactions.lookup txId = some tx) : tx.Holds
      (S.put cell (handle (env.named name) (S.datasetState cell) inner).2).rootNames
      (SentNow env S sent request txId) := by
    have hholds : tx.Holds S.rootNames (sent txId) := h txId tx hopen
    exact hholds.mono hnames fun _ _ => .inl
  by_cases hbegin : inner = .transactionBegin txId
  · subst hbegin
    have hnew : tx = ⟨(S.cells cell).store.generation, [], []⟩ := by
      rw [handle, transactionBegin, beginTransaction, AList.lookup_insert] at htx
      exact (Option.some.inj htx).symm
    subst hnew
    exact ⟨fun q hq => absurd hq List.not_mem_nil, fun q hq => absurd hq List.not_mem_nil⟩
  by_cases hupdate : ∃ updateStr, inner = .transactionalUpdate updateStr txId
  · obtain ⟨updateStr, rfl⟩ := hupdate
    rw [handle] at htx
    rcases runTransactionalUpdate_open htx with hopen |
      ⟨tx₁, ops, prepared, entries, st, htx₁, hops, hprepare, hcollect, rfl, hresources⟩
    · exact hsame hopen
    · have hisSome : (S.transactions.lookup txId).isSome :=
        Option.isSome_iff_exists.mpr ⟨tx₁, htx₁⟩
      obtain ⟨hplain, hroot⟩ := hconfined cell _ htarget hisSome
      obtain ⟨hinserts, hdeletes⟩ := collectData_sent hops hplain hprepare hcollect
      rcases hroot with rfl | hnothing
      · have hroot : (S.put rootCell (handle (env.named name) (S.datasetState rootCell)
            (.transactionalUpdate updateStr txId)).2).rootNames = st.store.resources := by
          rw [ServerState.rootNames, put_cells_self]
          exact hresources
        rw [hroot] at hnames ⊢
        exact owned_buffer h hnames htx₁ hinserts hdeletes (SentNow env S sent request txId)
          (fun _ _ => .inl) fun kind t hsends => .inr ⟨updateStr, htarget, hsends⟩
      · have hnone {m : GraphElementManager N} {kind : BlockKind} {quads : List Quad}
            (hquads : AllSent st.store.resources (Sends env updateStr kind) quads) :
            AllSent m (Sends env updateStr kind) quads := by
          intro q hq
          obtain ⟨t, ht, -⟩ := hquads q hq
          exact absurd ht (hnothing kind t)
        exact owned_buffer h hnames htx₁ (hnone hinserts) (hnone hdeletes)
          (SentNow env S sent request txId) (fun _ _ => .inl)
          fun kind t hsends => absurd hsends (hnothing kind t)
  · refine hsame ?_
    by_cases hid : inner.txId? = some txId
    · cases inner with
      | transactionBegin txId' =>
        cases hid
        exact absurd rfl hbegin
      | transactionalUpdate updateStr txId' =>
        cases hid
        exact absurd ⟨updateStr, rfl⟩ hupdate
      | transactionCommit txId' =>
        cases hid
        rcases transactionCommit_transactions (env.named name) (S.datasetState cell) txId with
          heq | heq
        · rwa [handle, heq] at htx
        · rw [handle, heq, AList.lookup_erase] at htx
          cases htx
      | transactionRollback txId' =>
        cases hid
        rw [handle, transactionRollback] at htx
        cases hlookup : (S.datasetState cell).transactions.lookup txId with
        | none =>
          rw [hlookup] at htx
          exact htx
        | some tx₁ =>
          rw [hlookup] at htx
          dsimp only at htx
          rw [AList.lookup_erase] at htx
          cases htx
      | _ => cases hid
    · rwa [handle_transactions (env.named name) (S.datasetState cell) hid] at htx

theorem owned_dispatch (hparse : env.rules.Interns) (h : Owned sent S)
    (hconfined : Confined env S request) :
    Owned (SentNow env S sent request) (dispatch env S request).2 := by
  have hkept {S' : ServerState N Expr} (hnames : S.rootNames.Extends S'.rootNames)
      (hopen : ∀ txId tx, S'.transactions.lookup txId = some tx →
        S.transactions.lookup txId = some tx) : Owned (SentNow env S sent request) S' :=
    h.mono hnames (fun _ _ _ => .inl) hopen
  have hsame := hkept (.refl _) fun _ _ htx => htx
  cases htarget : S.target request with
  | some target =>
    obtain ⟨cell, inner⟩ := target
    obtain ⟨name, heq⟩ := dispatch_target env htarget
    rw [heq]
    exact owned_handle hparse h hconfined htarget name
  | none =>
    cases request with
    | root request =>
      rw [(dispatch_untargeted env).1 htarget]
      exact hsame
    | dataset name request =>
      rw [(dispatch_untargeted env).2 name htarget]
      exact hsame
    | datasetUpdate name updateStr ifMatch =>
      rw [dispatch]
      cases hentry : S.getEntry name with
      | none => exact hsame
      | some cell =>
        dsimp only
        have hupdate := checkedUpdate_keepsNames (env.named (canonical name)) (S.datasetState cell)
          (applyDatasetUpdate_keepsNames (env.named (canonical name))) updateStr ifMatch
        have hbooks := datasetUpdatePost_transactions (env.named (canonical name))
          (S.datasetState cell) updateStr ifMatch
        refine hkept (rootNames_put_of hupdate) fun txId tx htx => ?_
        rw [put_transactions, hbooks] at htx
        exact htx
    | createDataset dbName =>
      rw [dispatch, adminCreateDataset]
      split_ifs
      · exact hsame
      · exact hsame
      · cases hlog : logRegistry env S (.createDataset (canonical dbName)) with
        | error response => exact hsame
        | ok S' =>
          rw [logRegistry_ok hlog]
          refine hkept ?_ fun _ _ htx => htx
          have hne : rootCell ≠ S.next := Nat.ne_of_lt S.fresh
          rw [ServerState.rootNames, ServerState.rootNames]
          dsimp only
          rw [Function.update_of_ne hne]
    | deleteDataset name =>
      rw [dispatch, adminDeleteDataset]
      split_ifs
      · exact hsame
      · cases hlog : logRegistry env S (.deleteDataset name) with
        | error response => exact hsame
        | ok S' =>
          rw [logRegistry_ok hlog]
          exact hkept (.refl _) fun _ _ htx => htx
    | purgeStale txIds => exact hkept (.refl _) fun _ _ htx => lookup_foldl_erase htx

theorem run_append (env : ServerEnv N Expr) (S : ServerState N Expr)
    (pre suf : List RoutedRequest) : run env S (pre ++ suf) = run env (run env S pre) suf :=
  List.foldl_append

theorem owned_run (hparse : env.rules.Interns) (hopen : S.transactions = ∅)
    {requests : List RoutedRequest} (hconfined : ConfinedRun env S requests) :
    Owned (SentTo env S requests rootCell) (run env S requests) := by
  induction requests using List.reverseRecOn with
  | nil =>
    intro txId tx htx
    change S.transactions.lookup txId = some tx at htx
    rw [hopen] at htx
    cases htx
  | append_singleton requests request ih =>
    have hprefix : ConfinedRun env S requests := by
      intro pre request' suf hsplit
      refine hconfined pre request' (suf ++ [request]) ?_
      rw [hsplit, List.append_assoc]
      rfl
    have hstep := owned_dispatch hparse (ih hprefix) (hconfined requests request [] rfl)
    rw [run_append]
    refine hstep.mono (.refl _) (fun txId kind t hsent => ?_) fun _ _ htx => htx
    rcases hsent with ⟨pre, request', suf, rfl, hsends⟩ | hsends
    · refine ⟨pre, request', suf ++ [request], ?_, hsends⟩
      rw [List.append_assoc]
      rfl
    · exact ⟨requests, request, [], rfl, hsends⟩

end Steps

section Commits

omit [DecidableEq Expr]

/-- The table after a delta, and after the reasoner, if there is one, has taken it. -/
def DeltaApplied (r : Reasoning Expr) (reasoner : Option (List (DatalogProgram Expr)))
    (base base' : QuadStore) (deletes inserts : List Quad) : Prop :=
  let written := inserts.foldl QuadStore.addQuad (deletes.foldl QuadStore.removeQuad base)
  match reasoner with
  | none => base' = written
  | some programs => ∃ m, reasonDelta r ⟨programs, written⟩ deletes inserts = .ok m ∧ base' = m.base

variable {env : ServerEnv N Expr}

theorem checkConstraints_noContent {s : AppState N Expr} {netInserts netDeletes : List Quad}
    (h : (checkConstraints env s netInserts netDeletes).1.status = 204) :
    (checkConstraints env s netInserts netDeletes).2 = s := by
  rw [checkConstraints] at h ⊢
  cases hreasoner : s.reasoner with
  | none => rfl
  | some programs =>
    rw [hreasoner] at h
    dsimp only at h ⊢
    by_cases hempty : (checkOwlNothing env s.store.store 10 10).isEmpty = true
    · rw [if_pos hempty]
    rw [if_neg hempty] at h
    split at h
    · cases h
    · next s' hrun =>
      cases h

theorem transactionCommit_applied {s : AppState N Expr} {txId : String}
    (h : (transactionCommit env s txId).1.status = 204) :
    ∃ tx, s.transactions.lookup txId = some tx ∧
      DeltaApplied env.rules.reasoning s.reasoner s.store.store.namedGraphs
        (transactionCommit env s txId).2.store.store.namedGraphs
        (tx.netDeletes s.store.store) (tx.netInserts s.store.store) := by
  obtain ⟨tx, htx, hgeneration⟩ := transactionCommit_noContent h
  refine ⟨tx, htx, ?_⟩
  obtain ⟨store, reasoner, rulesets, transactions, changelog⟩ := s
  rw [transactionCommit] at h ⊢
  by_cases hread : env.readOnly = true
  · rw [if_pos hread] at h
    cases h
  rw [if_neg hread] at h ⊢
  dsimp only at h htx hgeneration ⊢
  rw [htx] at h ⊢
  dsimp only at h ⊢
  rw [if_neg (not_not.mpr hgeneration)] at h ⊢
  cases reasoner with
  | none => exact tx.write_namedGraphs store
  | some programs =>
    let s : AppState N Expr :=
      ⟨tx.write store, some programs, rulesets, transactions.erase txId, changelog⟩
    dsimp only at h ⊢
    cases hrun : reasonOver env s programs (tx.netDeletes store.store)
        (tx.netInserts store.store) with
    | error e =>
      rw [hrun] at h
      obtain ⟨e, s'⟩ := e
      cases e with
      | contradiction msg => cases h
      | rollbackFailed msg => cases h
    | ok s' =>
      rw [hrun] at h
      dsimp only at h ⊢
      rw [checkConstraints_noContent h]
      obtain ⟨m, hm, hstore⟩ := reasonOver_ok hrun
      rw [tx.write_namedGraphs] at hm
      exact ⟨m, hm, congrArg Datastore.namedGraphs hstore⟩

end Commits

/-- A commit that wrote to the default dataset only, by a delta of quads that were sent to it, and
what the reasoner of the dataset makes of that delta. -/
structure CommitsSent (env : ServerEnv N Expr) (sent : BlockKind → TermQuad N → Prop)
    (S S' : ServerState N Expr) : Prop where
  others : ∀ cell, cell ≠ rootCell → S'.cells cell = S.cells cell
  names : S.rootNames.Extends S'.rootNames
  delta : ∃ deletes inserts, AllSent S.rootNames (sent .delete) deletes ∧
    AllSent S.rootNames (sent .insert) inserts ∧
    DeltaApplied env.rules.reasoning (S.cells rootCell).reasoner
      (S.cells rootCell).store.store.namedGraphs (S'.cells rootCell).store.store.namedGraphs
      deletes inserts

/-- In a confined run from a server without open transactions, a commit that succeeds writes
exactly sent quads and no other dataset, and what a query in a transaction adds to the quads that
it reads is known to the store it reads. -/
theorem transactions_confined (env : ServerEnv N Expr) (S : ServerState N Expr)
    (requests : List RoutedRequest) (hparse : env.rules.Interns) (hopen : S.transactions = ∅)
    (hconfined : ConfinedRun env S requests) :
    (∀ txId, (dispatch env (run env S requests) (.root (.transactionCommit txId))).1.status = 204 →
      CommitsSent env (SentTo env S requests rootCell txId) (run env S requests)
        (dispatch env (run env S requests) (.root (.transactionCommit txId))).2) ∧
    ∀ request cell queryStr txId tx, Confined env (run env S requests) request →
      (run env S requests).target request = some (cell, .transactionalQuery queryStr txId) →
      (run env S requests).transactions.lookup txId = some tx →
      ∀ q ∈ tx.pendingInserts,
        ((run env S requests).cells cell).store.store.resources.Interned q := by
  have howned := owned_run hparse hopen hconfined
  generalize run env S requests = live at howned
  refine ⟨fun txId hstatus => ?_, fun request cell queryStr txId tx hrequest htarget htx q hq => ?_⟩
  · obtain ⟨name, heq⟩ := dispatch_target env
      (show live.target (.root (.transactionCommit txId)) = some (rootCell, _) from rfl)
    rw [heq] at hstatus ⊢
    obtain ⟨tx, htx, happlied⟩ := transactionCommit_applied hstatus
    obtain ⟨hinserts, hdeletes⟩ := howned txId tx htx
    refine ⟨fun cell hcell => ServerState.put_cells_of_ne live _ hcell,
      rootNames_put hparse rootCell name _, tx.netDeletes live.rootStore,
      tx.netInserts live.rootStore, hdeletes.mono (.refl _) (fun _ ht => ht) fun q hq => ?_,
      hinserts.mono (.refl _) (fun _ ht => ht) fun q hq => ?_, ?_⟩
    · exact ((tx.mem_netDeletes _ q).mp hq).1
    · exact ((tx.mem_netInserts _ q).mp hq).1
    · rw [ServerState.put_cells_self]
      exact happlied
  · rcases hrequest cell _ htarget tx htx with rfl | hnil
    · obtain ⟨t, -, hstands⟩ := (howned txId tx htx).1 q hq
      exact hstands.interned
    · rw [hnil] at hq
      cases hq

section Sample

/-- A server just started, with an empty default dataset. -/
def emptyServer : ServerState NativeTypes.text Empty := .start .new none

/-- A transaction whose update names the default dataset. -/
def ownRequests : List RoutedRequest :=
  [.root (.transactionBegin "t"), .dataset "/ds" (.transactionalUpdate "" "t")]

theorem confinedRun_own : ConfinedRun insertServer emptyServer ownRequests := by
  have hplain : NoEmbeddedTriples insertServer "" := by
    intro kind content prefixes _ quads hquads quad hquad
    cases hquads
    rw [List.mem_singleton.mp hquad]
    rfl
  have hentry : (run insertServer emptyServer [.root (.transactionBegin "t")]).getEntry "/ds" =
      some rootCell := by decide
  intro pre request suf hsplit cell inner htarget
  cases pre with
  | nil =>
    cases hsplit
    cases htarget
    trivial
  | cons first pre =>
    cases pre with
    | nil =>
      cases hsplit
      have hroute : (Request.transactionalUpdate "" "t").hasDatasetRoute = true := rfl
      have hcell : some (cell, inner) = some (rootCell, .transactionalUpdate "" "t") := by
        rw [← htarget, ServerState.target, if_pos hroute]
        exact congrArg (Option.map fun cell => (cell, _)) hentry
      cases hcell
      exact fun _ => ⟨hplain, .inl rfl⟩
    | cons second pre => simp [ownRequests] at hsplit

theorem transactions_confined_own :
    (dispatch insertServer (run insertServer emptyServer ownRequests)
      (.root (.transactionCommit "t"))).1.status = 204 ∧
    CommitsSent insertServer (SentTo insertServer emptyServer ownRequests rootCell "t")
      (run insertServer emptyServer ownRequests)
      (dispatch insertServer (run insertServer emptyServer ownRequests)
        (.root (.transactionCommit "t"))).2 := by
  have hstatus : (dispatch insertServer (run insertServer emptyServer ownRequests)
      (.root (.transactionCommit "t"))).1.status = 204 := by decide
  exact ⟨hstatus, (transactions_confined insertServer emptyServer ownRequests
    (fun _ m => .refl m) rfl confinedRun_own).1 "t" hstatus⟩

/-- The same update sent to another dataset: the commit writes its ids into the default dataset,
which does not know them. -/
theorem transactions_mixed :
    let live :=
      run insertServer emptyServer [.createDataset "/other", .root (.transactionBegin "t"),
      .dataset "other" (.transactionalUpdate "" "t")]
    let commit := dispatch insertServer live (.root (.transactionCommit "t"))
    commit.1.status = 204 ∧
    (∃ q ∈ commit.2.rootStore.namedGraphs, ¬ commit.2.rootNames.Interned q) ∧
    ∀ sent, ¬ CommitsSent insertServer sent live commit.2 := by
  intro live commit
  let q : Quad := ⟨0, 1, 2, 3⟩
  have hstatus : commit.1.status = 204 := by decide
  have hstored : q ∈ commit.2.rootStore.namedGraphs := by decide
  have hbefore : q ∉ live.rootStore.namedGraphs := by decide
  have hunknown : (live.rootNames.getResourceQuad q).isSome = false := by decide
  have hafter : (commit.2.rootNames.getResourceQuad q).isSome = false := by decide
  refine ⟨hstatus, ⟨q, hstored, fun hinterned => ?_⟩, fun sent hcommits => ?_⟩
  · rw [Interned, hafter] at hinterned
    cases hinterned
  · obtain ⟨deletes, inserts, -, hinserts, happlied⟩ := hcommits.delta
    have hnone : (live.cells rootCell).reasoner = none := rfl
    rw [hnone] at happlied
    have hwritten : q ∈ inserts.foldl QuadStore.addQuad
        (deletes.foldl QuadStore.removeQuad live.rootStore.namedGraphs) := happlied ▸ hstored
    rw [QuadStore.mem_foldl_addQuad, QuadStore.mem_foldl_removeQuad] at hwritten
    rcases hwritten with ⟨hq, -⟩ | hq
    · exact hbefore hq
    · obtain ⟨t, -, hstands⟩ := hinserts q hq
      have hinterned := hstands.interned
      rw [Interned, hunknown] at hinterned
      cases hinterned

end Sample

end RdfDatalog.Endpoint
