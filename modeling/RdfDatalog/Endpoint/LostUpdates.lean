import RdfDatalog.Endpoint.Generation

namespace RdfDatalog.Endpoint

section Transactions

variable {N : NativeTypes} {Expr : Type} [DecidableEq Expr]

theorem serve_append (env : ServerEnv N Expr) (s : AppState N Expr) (pre suf : List Request) :
    serve env s (pre ++ suf) = serve env (serve env s pre) suf := List.foldl_append

variable {txId : String} {tx : OpenTransaction} {requests : List Request}

theorem handle_openTransaction (env : ServerEnv N Expr) (s : AppState N Expr) {request : Request}
    (hbegin : request ≠ .transactionBegin txId)
    (h : (handle env s request).2.transactions.lookup txId = some tx) :
    ∃ tx₀, s.transactions.lookup txId = some tx₀ ∧
      (tx = tx₀ ∨ ∃ st : Pending N, tx = tx₀.buffer st) := by
  have hclosed (heq : (handle env s request).2.transactions = s.transactions ∨
        (handle env s request).2.transactions = s.transactions.erase txId) :
      s.transactions.lookup txId = some tx := by
    rcases heq with heq | heq
    · rwa [heq] at h
    · rw [heq, AList.lookup_erase] at h
      cases h
  by_cases hid : request.txId? = some txId
  · cases request with
    | transactionBegin txId' =>
      cases hid
      exact absurd rfl hbegin
    | transactionalUpdate updateStr txId' =>
      cases hid
      rcases runTransactionalUpdate_transactions env s updateStr txId with
        heq | ⟨tx₀, st, htx₀, heq⟩
      · rw [handle, heq] at h
        exact ⟨tx, h, .inl rfl⟩
      · rw [handle, heq, AList.lookup_insert] at h
        exact ⟨tx₀, htx₀, .inr ⟨st, (Option.some.inj h).symm⟩⟩
    | transactionCommit txId' =>
      cases hid
      exact ⟨tx, hclosed (transactionCommit_transactions env s txId), .inl rfl⟩
    | transactionRollback txId' =>
      cases hid
      refine ⟨tx, hclosed ?_, .inl rfl⟩
      rw [handle, transactionRollback]
      cases s.transactions.lookup txId with
      | none => exact .inl rfl
      | some tx => exact .inr rfl
    | _ => cases hid
  · rw [handle_transactions env s hid] at h
    exact ⟨tx, h, .inl rfl⟩

theorem serve_snapshot (env : ServerEnv N Expr) (s : AppState N Expr)
    (hbegin : .transactionBegin txId ∉ requests)
    (h : (serve env s requests).transactions.lookup txId = some tx) :
    ∃ tx₀, s.transactions.lookup txId = some tx₀ ∧
      tx.snapshotGeneration = tx₀.snapshotGeneration := by
  induction requests generalizing s with
  | nil => exact ⟨tx, h, rfl⟩
  | cons request requests ih =>
    rw [List.mem_cons, not_or] at hbegin
    obtain ⟨tx₁, htx₁, hsnapshot⟩ := ih _ hbegin.2 h
    obtain ⟨tx₀, htx₀, hkept⟩ := handle_openTransaction env s (fun heq => hbegin.1 heq.symm) htx₁
    refine ⟨tx₀, htx₀, hsnapshot.trans ?_⟩
    rcases hkept with rfl | ⟨st, rfl⟩
    · rfl
    · rfl

theorem serve_transactions (env : ServerEnv N Expr) (s : AppState N Expr)
    (h : ∀ r ∈ requests, r.txId? ≠ some txId) :
    (serve env s requests).transactions.lookup txId = s.transactions.lookup txId := by
  induction requests generalizing s with
  | nil => rfl
  | cons request requests ih =>
    have hstep := handle_transactions env s (h request List.mem_cons_self)
    exact (ih _ fun r hr => h r (List.mem_cons_of_mem request hr)).trans hstep

omit [DecidableEq Expr] in
theorem transactionCommit_noContent {env : ServerEnv N Expr} {s : AppState N Expr}
    (h : (transactionCommit env s txId).1.status = 204) :
    ∃ tx, s.transactions.lookup txId = some tx ∧ s.store.generation = tx.snapshotGeneration := by
  rw [transactionCommit] at h
  by_cases hread : env.readOnly = true
  · rw [if_pos hread] at h
    cases h
  rw [if_neg hread] at h
  cases hlookup : s.transactions.lookup txId with
  | none =>
    rw [hlookup] at h
    cases h
  | some tx =>
    refine ⟨tx, rfl, ?_⟩
    by_contra hgeneration
    rw [hlookup] at h
    dsimp only at h
    rw [if_pos hgeneration] at h
    cases h

omit [DecidableEq Expr] in
theorem runUpdate_noContent {env : ServerEnv N Expr} {s : AppState N Expr} {updateStr : String}
    {ifMatch : Option String} (h : (runUpdate env s updateStr ifMatch).1.status = 204) :
    ifMatchHolds s ifMatch = true := by
  rw [runUpdate] at h
  by_cases hread : env.readOnly = true
  · rw [if_pos hread] at h
    cases h
  rw [if_neg hread] at h
  cases hparse : env.parseUpdate updateStr with
  | error e =>
    rw [hparse] at h
    cases h
  | ok ops =>
    rw [hparse] at h
    dsimp only at h
    by_contra hmatch
    rw [if_pos (by simpa using hmatch)] at h
    cases h

end Transactions

open Datalog Datalog.IncrementalReasoner VersionedStore

variable {N : NativeTypes} {Expr : Type}

section Runs

variable [DecidableEq Expr]

/-- The request changes the quads past the counter: it hands quads to a loaded reasoner from the
graph store, or it puts another ruleset in force. -/
def PastCounter (env : ServerEnv N Expr) (s : AppState N Expr) (request : Request) : Prop :=
  (∃ w, request.graphWrite env s.store.store = some (.ok w) ∧ w.Reasons env s) ∨
    ∃ call combined, request.rulesetCall env = some call ∧
      call.combined env.rules s.rulesetState = some combined ∧ ChangesRules s.entry combined

variable {env : ServerEnv N Expr} {s : AppState N Expr} {request : Request}

theorem answer_counted {outcome : Except Response (GraphWrite N)}
    (houtcome : request.graphWrite env s.store.store = some outcome)
    (h : ¬ PastCounter env s request) : s.store.Counted (answer env s outcome).2.store := by
  cases outcome with
  | error response => rfl
  | ok w =>
    have hw := graphWrite_onlyInterns houtcome
    exact w.run_counted hw fun hreasons => h (.inl ⟨w, houtcome, hreasons⟩)

theorem rulesetCall_counted (call : RulesetCall) (hcall : request.rulesetCall env = some call)
    (h : ¬ PastCounter env s request) : s.store.Counted (handle env s request).2.store := by
  have hquads := @RulesetCall.apply_quads N Expr _ env.rules s.rulesetState call
    fun combined hc hchanges => h (.inr ⟨call, combined, hcall, hc, hchanges⟩)
  rw [handle_rulesetCall s hcall]
  exact ⟨le_rfl, fun _ => hquads⟩

theorem handle_counted (h : ¬ PastCounter env s request) :
    s.store.Counted (handle env s request).2.store := by
  cases request with
  | update updateStr ifMatch => exact runUpdate_counted env s updateStr ifMatch
  | transactionBegin txId => rfl
  | transactionalQuery queryStr txId => rfl
  | transactionalUpdate updateStr txId =>
    obtain ⟨hgeneration, hquads⟩ := runTransactionalUpdate_quads env s updateStr txId
    exact ⟨hgeneration.ge, fun _ => hquads⟩
  | transactionCommit txId => exact transactionCommit_counted env s txId
  | transactionRollback txId =>
    rw [handle, transactionRollback]
    cases s.transactions.lookup txId with
    | none => rfl
    | some tx => rfl
  | gspPut | gspPost | gspDelete =>
    rw [handle_graphWrite env s rfl]
    exact answer_counted rfl h
  | rulesPost contentType body =>
    cases htext : rulesText env contentType body with
    | error response =>
      rw [handle, datasetRulesPost, htext]
    | ok text =>
      refine rulesetCall_counted (.replace text) ?_ h
      rw [Request.rulesetCall, htext]
      rfl
  | rulesIdPost rulesetId contentType body =>
    cases htext : rulesText env contentType body with
    | error response =>
      rw [handle, datasetRulesIdPost, htext]
    | ok text =>
      refine rulesetCall_counted (.setNamed rulesetId text) ?_ h
      rw [Request.rulesetCall, htext]
      rfl
  | rulesIdDelete rulesetId =>
    by_cases hread : env.readOnly = true
    · rw [handle, datasetRulesIdDelete, if_pos hread]
    · refine rulesetCall_counted (.deleteNamed rulesetId) ?_ h
      rw [Request.rulesetCall, if_neg hread]

/-- No request of the run changes the quads past the counter. -/
def RunCounted (env : ServerEnv N Expr) (s : AppState N Expr) (requests : List Request) : Prop :=
  ∀ pre request suf, requests = pre ++ request :: suf →
    ¬ PastCounter env (serve env s pre) request

theorem RunCounted.counted {requests : List Request} (h : RunCounted env s requests) :
    s.store.Counted (serve env s requests).store := by
  induction requests generalizing s with
  | nil => rfl
  | cons request requests ih =>
    have hstep := handle_counted (h [] request requests rfl)
    refine hstep.trans (ih fun pre request' suf hsplit => ?_)
    exact h (request :: pre) request' suf (congrArg (request :: ·) hsplit)

theorem RunCounted.suffix {pre suf : List Request} (h : RunCounted env s (pre ++ suf)) :
    RunCounted env (serve env s pre) suf := by
  intro pre' request suf' hsplit
  rw [← serve_append]
  refine h (pre ++ pre') request suf' ?_
  rw [hsplit, List.append_assoc]

theorem RunCounted.initial {pre suf : List Request} (h : RunCounted env s (pre ++ suf)) :
    RunCounted env s pre := by
  intro pre' request suf' hsplit
  refine h pre' request (suf' ++ suf) ?_
  rw [hsplit, List.append_assoc]
  rfl

/-- In a run without such requests each change of the quads is counted, so that a commit and an
If-Match update succeed only on the content that they were prepared for. -/
theorem serve_counted (env : ServerEnv N Expr) (s : AppState N Expr) (requests : List Request)
    (h : ∀ pre request suf, requests = pre ++ request :: suf →
      ¬ PastCounter env (serve env s pre) request) :
    (∀ pre request suf, requests = pre ++ request :: suf →
      (serve env s (pre ++ [request])).quads ≠ (serve env s pre).quads →
        (serve env s pre).store.generation <
          (serve env s (pre ++ [request])).store.generation) ∧
    (∀ pre txId mid suf,
      requests = pre ++ .transactionBegin txId :: mid ++ .transactionCommit txId :: suf →
      .transactionBegin txId ∉ mid →
      (handle env (serve env s (pre ++ .transactionBegin txId :: mid))
        (.transactionCommit txId)).1.status = 204 →
      (serve env s (pre ++ .transactionBegin txId :: mid)).quads = (serve env s pre).quads) ∧
    ∀ pre mid updateStr ifMatch suf,
      requests = pre ++ mid ++ .update updateStr (some ifMatch) :: suf →
      ifMatchValue ifMatch = toString (serve env s pre).store.generation →
      (handle env (serve env s (pre ++ mid)) (.update updateStr (some ifMatch))).1.status = 204 →
      (serve env s (pre ++ mid)).quads = (serve env s pre).quads := by
  have hrun : RunCounted env s requests := h
  refine ⟨fun pre request suf hsplit hne => ?_, fun pre txId mid suf hsplit hbegin hstatus => ?_,
    fun pre mid updateStr ifMatch suf hsplit hmatch hstatus => ?_⟩
  · have hstep := handle_counted (h pre request suf hsplit)
    rw [serve_append] at hne ⊢
    exact hstep.lt hne
  · rw [hsplit] at hrun
    have hmid := hrun.initial.suffix
    obtain ⟨tx, htx, hgeneration⟩ := transactionCommit_noContent hstatus
    rw [serve_append] at htx hgeneration ⊢
    obtain ⟨tx₀, htx₀, hsnapshot⟩ := serve_snapshot env
      (handle env (serve env s pre) (.transactionBegin txId)).2 hbegin htx
    have hbegun : tx₀.snapshotGeneration = (serve env s pre).store.generation := by
      have hinsert : (some (⟨(serve env s pre).store.generation, [], []⟩ : OpenTransaction)) =
          some tx₀ := (AList.lookup_insert _).symm.trans htx₀
      rw [← Option.some.inj hinsert]
    exact hmid.counted.same (hgeneration.trans (hsnapshot.trans hbegun))
  · rw [hsplit] at hrun
    have hmid := hrun.initial.suffix
    have hholds := of_decide_eq_true (runUpdate_noContent hstatus)
    rw [serve_append] at hholds ⊢
    exact hmid.counted.same (toString_injective (hholds.symm.trans hmatch))

end Runs

section Sample

/-- A server whose clients send empty bodies. -/
def sampleServer : ServerEnv NativeTypes.text Empty where
  update := .offline
  network := .deny
  rules := sampleRulesEnv
  parseUpdate _ := .ok []
  trigParser _ := .ok []
  parseRdfBody _ _ := .ok .new
  evalQuery _ _ := .text 200 ""
  display _ := ""
  appendBatch _ _ := .ok ()
  readOnly := false
  datasetName := "ds"
  baseIri := "http://localhost"

/-- One stored quad, and no rules yet. -/
def sampleState : AppState NativeTypes.text Empty :=
  ⟨⟨⟨storeOf [unaryQuad 1 0], .new⟩, 0⟩, none, ∅, ∅, none⟩

/-- A server whose clients insert one quad and count the quads. -/
def insertServer : ServerEnv NativeTypes.text Empty :=
  { sampleServer with
    parseUpdate := fun _ => .ok [.insertData "" ∅]
    trigParser := fun _ => .ok [sampleQuad]
    evalQuery := fun store _ => .text 200 (toString store.namedGraphs.quadList.length) }

/-- A server whose clients delete or insert the sample quad. -/
def dataServer : ServerEnv NativeTypes.text Empty :=
  { insertServer with
    parseUpdate := fun updateStr =>
      .ok [if updateStr = "delete" then .deleteData "" ∅ else .insertData "" ∅] }

/-- A store without quads. -/
def emptyState : AppState NativeTypes.text Empty := ⟨⟨.new, 0⟩, none, ∅, ∅, none⟩

theorem serve_counted_commit :
    let inserted := serve dataServer emptyState [.update "insert" none]
    let buffered := serve dataServer inserted
      [.transactionBegin "a", .transactionalUpdate "delete" "a"]
    let committed := serve dataServer buffered [.transactionCommit "a"]
    emptyState.store.generation < inserted.store.generation ∧
      buffered.quads = inserted.quads ∧ buffered.store.generation < committed.store.generation := by
  intro inserted buffered committed
  have hplain (s : AppState NativeTypes.text Empty) (request : Request)
      (hmem : request ∈ [.update "insert" none, .transactionBegin "a",
        .transactionalUpdate "delete" "a", .transactionCommit "a"]) :
      ¬ PastCounter dataServer s request := by
    simp only [List.mem_cons, List.not_mem_nil, or_false] at hmem
    rintro (⟨_, hw, _⟩ | ⟨_, _, hc, _⟩)
    · rcases hmem with rfl | rfl | rfl | rfl <;> cases hw
    · rcases hmem with rfl | rfl | rfl | rfl <;> cases hc
  have hrun := serve_counted dataServer emptyState
    [.update "insert" none, .transactionBegin "a", .transactionalUpdate "delete" "a",
      .transactionCommit "a"] fun pre request suf hsplit =>
      hplain _ request (hsplit ▸ List.mem_append_right pre List.mem_cons_self)
  have hempty : ⟨0, 1, 2, 3⟩ ∉ emptyState.store.store.namedGraphs := by decide
  have hinserted : ⟨0, 1, 2, 3⟩ ∈ inserted.store.store.namedGraphs := by decide
  have hbuffered : ⟨0, 1, 2, 3⟩ ∈ buffered.store.store.namedGraphs := by decide
  have hcommitted : ⟨0, 1, 2, 3⟩ ∉ committed.store.store.namedGraphs := by decide
  refine ⟨hrun.1 [] _ _ rfl fun hsame => hempty ?_, hrun.2.1 [.update "insert" none] "a"
    [.transactionalUpdate "delete" "a"] [] rfl (by simp) (by decide),
    hrun.1 [.update "insert" none, .transactionBegin "a", .transactionalUpdate "delete" "a"] _ []
      rfl fun hsame => hcommitted ?_⟩
  · exact (Set.ext_iff.mp hsame _).mp hinserted
  · exact (Set.ext_iff.mp hsame _).mpr hbuffered

/-- Rules that are loaded while a transaction is open derive a quad, and the transaction commits all
the same. -/
theorem handle_commit_unaware :
    let before := serve sampleServer sampleState [.transactionBegin "a"]
    let after := serve sampleServer sampleState [.transactionBegin "a", .rulesPost "" .empty]
    after.quads ≠ before.quads ∧ after.store.generation = before.store.generation ∧
      (handle sampleServer after (.transactionCommit "a")).1.status = 204 := by
  have hderived : unaryQuad 3 0 ∈ (serve sampleServer sampleState
      [.transactionBegin "a", .rulesPost "" .empty]).store.store.namedGraphs := by decide
  have habsent : unaryQuad 3 0 ∉
      (serve sampleServer sampleState [.transactionBegin "a"]).store.store.namedGraphs := by
    decide
  refine ⟨fun hsame => habsent ?_, by decide, by decide⟩
  exact (Set.ext_iff.mp hsame (unaryQuad 3 0)).mp hderived

end Sample

end RdfDatalog.Endpoint
