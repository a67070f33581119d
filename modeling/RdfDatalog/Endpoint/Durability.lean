import RdfDatalog.Endpoint.LoggedWrites
import RdfDatalog.Endpoint.RulesetFailures

namespace RdfDatalog.Endpoint

open DeltaBuffer GraphElementManager Datalog Datalog.IncrementalReasoner

variable {N : NativeTypes} {Expr : Type}

namespace AppState

def asserted (s : AppState N Expr) : Finset (QuadResource N) := s.store.store.asserted

/-- The entries of the changelog that are replayed into a store. -/
def quadLog (s : AppState N Expr) : List LogEntry :=
  (s.changelog.getD []).filterMap ChangelogEntry.quad?

/-- What a restart finds: the changelog replayed over the store that was loaded before. -/
def replayed (origin : Datastore N) (s : AppState N Expr) : Finset (QuadResource N) :=
  (applyEntries origin s.quadLog).resolved

theorem replayed_append {origin : Datastore N} (horigin : origin.Interned) {s s' : AppState N Expr}
    {entries : List LogEntry} (h : s'.quadLog = s.quadLog ++ entries) :
    s'.replayed origin = replay (s.replayed origin) entries := by
  rw [replayed, replayed, applyEntries_resolved horigin, applyEntries_resolved horigin, h,
    replay_append]

end AppState

def Response.Success (r : Response) : Prop := r.status < 400

theorem Response.success {r : Response} (h : r.status < 400) : r.Success := h

theorem Response.noContent_success : Response.noContent.Success := by
  show 204 < 400
  omega

theorem Response.not_success {status : Nat} {body : String} (h : 400 ≤ status) :
    ¬ (Response.text status body).Success := Nat.not_lt.mpr h

/-- A request keeps the changelog and the asserted quads in step: after a success the replay gives
the asserted quads, after an error those from before. -/
def Durable [DecidableEq Expr] (env : ServerEnv N Expr) (origin : Datastore N)
    (s : AppState N Expr) (request : Request) : Prop :=
  let (response, s') := handle env s request
  (response.Success → s'.replayed origin = s'.asserted) ∧
    (¬ response.Success → s'.replayed origin = s.asserted)

section Log

variable {env : ServerEnv N Expr}

/-- The changelog takes every batch. -/
def ServerEnv.Appends (env : ServerEnv N Expr) : Prop :=
  ∀ log entries, env.appendBatch log entries = .ok ()

theorem logBatch_eq (happend : env.Appends) (s : AppState N Expr)
    (entries : List ChangelogEntry) :
    logBatch env s entries = .ok { s with changelog := s.changelog.map (· ++ entries) } := by
  obtain ⟨store, reasoner, rulesets, transactions, changelog⟩ := s
  cases changelog with
  | none => rfl
  | some log =>
    rw [logBatch]
    dsimp only
    rw [happend]
    rfl

variable {s' : AppState N Expr}

theorem quadLog_append {s : AppState N Expr} {log entries : List ChangelogEntry}
    (hlog : s.changelog = some log) (h : s'.changelog = s.changelog.map (· ++ entries)) :
    s'.quadLog = s.quadLog ++ entries.filterMap ChangelogEntry.quad? := by
  rw [AppState.quadLog, AppState.quadLog, h, hlog]
  exact List.filterMap_append

theorem quadLog_of_books {s : AppState N Expr} (h : s.SameBooks s') :
    s'.quadLog = s.quadLog := by
  rw [AppState.quadLog, h.changelog, AppState.quadLog]

end Log

section Updates

variable {env : ServerEnv N Expr} {s : AppState N Expr}

/-- The operations of an update and their entries, once the request is accepted. -/
def acceptedUpdate (env : ServerEnv N Expr) (s : AppState N Expr) (updateStr : String)
    (ifMatch : Option String) : Except Response (List (PreparedOp N) × List LogEntry) :=
  if env.readOnly then .error readOnlyResponse
  else
    match env.parseUpdate updateStr with
    | .error e => .error (.text 400 ("Update parse error: " ++ e))
    | .ok ops =>
      if !ifMatchHolds s ifMatch then .error (.text 412 "Precondition Failed: ETag mismatch")
      else
        match prepareUpdate env.trigParser env.datasetName s.store.store ops with
        | .error e => .error (.text 400 ("Update prepare error: " ++ e))
        | .ok accepted => .ok accepted

theorem runUpdate_eq (env : ServerEnv N Expr) (s : AppState N Expr) (updateStr : String)
    (ifMatch : Option String) :
    runUpdate env s updateStr ifMatch = match acceptedUpdate env s updateStr ifMatch with
      | .error response => (response, s)
      | .ok (prepared, entries) => match logBatch env s (entries.map .quad) with
        | .error response => (response, s)
        | .ok s => applyUpdate env s prepared := by
  rw [runUpdate, acceptedUpdate]
  by_cases hread : env.readOnly = true
  · rw [if_pos hread, if_pos hread]
  rw [if_neg hread, if_neg hread]
  cases env.parseUpdate updateStr with
  | error e => rfl
  | ok ops =>
    dsimp only
    by_cases hmatch : (!ifMatchHolds s ifMatch) = true
    · rw [if_pos hmatch, if_pos hmatch]
    rw [if_neg hmatch, if_neg hmatch]
    cases prepareUpdate env.trigParser env.datasetName s.store.store ops with
    | error e => rfl
    | ok accepted => rfl

variable {ifMatch : Option String}

theorem acceptedUpdate_error {updateStr : String} {response : Response}
    (h : acceptedUpdate env s updateStr ifMatch = .error response) : ¬ response.Success := by
  rw [acceptedUpdate] at h
  by_cases hread : env.readOnly = true
  · rw [if_pos hread] at h
    cases h
    exact Response.not_success (by decide)
  rw [if_neg hread] at h
  split at h
  · cases h
    exact Response.not_success (by decide)
  · split at h
    · cases h
      exact Response.not_success (by decide)
    · split at h
      · cases h
        exact Response.not_success (by decide)
      · cases h

theorem acceptedUpdate_ok {updateStr : String} {prepared : List (PreparedOp N)}
    {entries : List LogEntry} (h : acceptedUpdate env s updateStr ifMatch = .ok (prepared, entries))
    :
    ∃ ops, prepareUpdate env.trigParser env.datasetName s.store.store ops =
      .ok (prepared, entries) := by
  rw [acceptedUpdate] at h
  by_cases hread : env.readOnly = true
  · rw [if_pos hread] at h
    cases h
  rw [if_neg hread] at h
  split at h
  · cases h
  · next ops _ =>
    split at h
    · cases h
    · split at h
      · cases h
      · next hprep =>
        cases h
        exact ⟨ops, hprep⟩

/-- The operations fail, or the reasoner or the constraint check rejects them. -/
def UpdateFails (env : ServerEnv N Expr) (s : AppState N Expr) (prepared : List (PreparedOp N)) :
    Prop :=
  match applyReasonedUpdate env.update env.network env.rules.reasoning
      (s.store.store, s.reasoner) prepared with
  | .error _ => True
  | .ok ((store, reasoner), _) => reasoner.isSome ∧ checkOwlNothing env store 10 10 ≠ []

theorem checkConstraints_cases (env : ServerEnv N Expr) (s : AppState N Expr)
    (netInserts netDeletes : List Quad) :
    (¬ (s.reasoner.isSome ∧ checkOwlNothing env s.store.store 10 10 ≠ []) ∧
        checkConstraints env s netInserts netDeletes = (.noContent, s)) ∨
      (s.reasoner.isSome ∧ checkOwlNothing env s.store.store 10 10 ≠ []) ∧
        ¬ (checkConstraints env s netInserts netDeletes).1.Success := by
  obtain ⟨store, reasoner, rulesets, transactions, changelog⟩ := s
  rw [checkConstraints]
  cases reasoner with
  | none => exact .inl ⟨fun h => Bool.false_ne_true h.1, rfl⟩
  | some programs =>
    dsimp only
    by_cases hempty : (checkOwlNothing env store.store 10 10).isEmpty = true
    · rw [if_pos hempty]
      exact .inl ⟨fun h => h.2 (List.isEmpty_iff.mp hempty), rfl⟩
    · rw [if_neg hempty]
      refine .inr ⟨⟨rfl, fun hnil => hempty (List.isEmpty_iff.mpr hnil)⟩, ?_⟩
      split
      · exact Response.not_success (by decide)
      · exact Response.not_success (by decide)

theorem applyUpdate_cases (env : ServerEnv N Expr) (s : AppState N Expr)
    (prepared : List (PreparedOp N)) :
    (UpdateFails env s prepared ∧ ¬ (applyUpdate env s prepared).1.Success) ∨
      ¬ UpdateFails env s prepared ∧ (applyUpdate env s prepared).1.Success ∧
        ∃ dataset' inserts deletes, applyReasonedUpdate env.update env.network
            env.rules.reasoning (s.store.store, s.reasoner) prepared =
          .ok (dataset', inserts, deletes) ∧
          (applyUpdate env s prepared).2.store.store = dataset'.1 := by
  rw [applyUpdate, UpdateFails]
  cases applyReasonedUpdate env.update env.network env.rules.reasoning
      (s.store.store, s.reasoner) prepared with
  | error failed =>
    obtain ⟨e, store, reasoner⟩ := failed
    refine .inl ⟨trivial, ?_⟩
    cases e with
    | contradiction | other => exact Response.not_success (by decide)
  | ok result =>
    obtain ⟨⟨store, reasoner⟩, inserts, deletes⟩ := result
    dsimp only
    generalize hs : (⟨_, reasoner, _, _, _⟩ : AppState N Expr) = s₁
    have hreasoner : s₁.reasoner = reasoner := by rw [← hs]
    have hstore : s₁.store.store = store := by rw [← hs]
    have hcases := checkConstraints_cases env s₁ inserts deletes
    rw [hreasoner, hstore] at hcases
    rcases hcases with ⟨hpass, heq⟩ | ⟨hreject, hfails⟩
    · refine .inr ⟨hpass, ?_, (store, reasoner), inserts, deletes, rfl, ?_⟩
      · rw [heq]
        exact Response.noContent_success
      · rw [heq]
        exact hstore
    · exact .inl ⟨hreject, hfails⟩

end Updates

/-- What a write request comes to: the entries that it logs, whether it is answered with an error,
and whether it does what its entries say if not. -/
structure WritePlan where
  logged : List LogEntry
  fails : Prop
  keeps : Prop

/-- The answer and the state after a write are as planned. -/
structure WritePlan.Describes (plan : WritePlan) (s : AppState N Expr)
    (result : Response × AppState N Expr) : Prop where
  success : result.1.Success ↔ ¬ plan.fails
  logs : result.2.quadLog = s.quadLog ++ plan.logged
  asserts : ¬ plan.fails → plan.keeps → result.2.asserted = replay s.asserted plan.logged

theorem WritePlan.Describes.refused {plan : WritePlan} {s : AppState N Expr} {response : Response}
    (hfails : plan.fails) (hlogged : plan.logged = []) (h : ¬ response.Success) :
    plan.Describes s (response, s) := by
  refine ⟨iff_of_false h (not_not_intro hfails), ?_, fun hok => absurd hfails hok⟩
  rw [hlogged, List.append_nil]

theorem asserted_congr {ds ds' : Datastore N} (hres : ds'.resources = ds.resources)
    (hsame : ∀ q, ds'.namedGraphs.Extensional q ↔ ds.namedGraphs.Extensional q) :
    ds'.asserted = ds.asserted := by
  ext r
  rw [Datastore.mem_asserted, Datastore.mem_asserted, hres]
  exact exists_congr fun q => and_congr_left fun _ => hsame q

section Commits

variable {env : ServerEnv N Expr} {s : AppState N Expr}

def ReasonerRejects (r : Reasoning Expr) (reasoner : Option (List (DatalogProgram Expr)))
    (base : QuadStore) (netDeletes netInserts : List Quad) : Prop :=
  ∃ programs e, reasoner = some programs ∧
    reasonDelta r ⟨programs, base⟩ netDeletes netInserts = .error e

/-- It takes the delta, after which `owl:Nothing` has instances. -/
def Violates (env : ServerEnv N Expr) (reasoner : Option (List (DatalogProgram Expr)))
    (store : Datastore N) (netDeletes netInserts : List Quad) : Prop :=
  ∃ programs m, reasoner = some programs ∧
    reasonDelta env.rules.reasoning ⟨programs, store.namedGraphs⟩ netDeletes netInserts = .ok m ∧
      checkOwlNothing env { store with namedGraphs := m.base } 10 10 ≠ []

/-- A commit of no open transaction, in a conflict, or of a delta that is rejected. -/
def CommitFails (env : ServerEnv N Expr) (s : AppState N Expr) (txId : String) : Prop :=
  env.readOnly = true ∨ s.transactions.lookup txId = none ∨
    ∃ tx, s.transactions.lookup txId = some tx ∧
      (s.store.generation ≠ tx.snapshotGeneration ∨
        ReasonerRejects env.rules.reasoning s.reasoner (tx.write s.store).store.namedGraphs
          (tx.netDeletes s.store.store) (tx.netInserts s.store.store) ∨
        Violates env s.reasoner (tx.write s.store).store (tx.netDeletes s.store.store)
          (tx.netInserts s.store.store))

/-- The transaction changes nothing that is asserted. -/
def CommitKeeps (env : ServerEnv N Expr) (s : AppState N Expr) (txId : String) : Prop :=
  ∀ tx, s.transactions.lookup txId = some tx →
    (∀ q ∈ tx.netDeletes s.store.store, ¬ s.store.store.namedGraphs.Extensional q) ∧
      (∀ q ∈ tx.netInserts s.store.store, s.store.store.namedGraphs.Extensional q) ∧
      TakesDelta env.rules.reasoning s.reasoner (tx.write s.store).store.namedGraphs
        (tx.netDeletes s.store.store) (tx.netInserts s.store.store)

/-- A commit logs nothing. -/
def commitPlan (env : ServerEnv N Expr) (s : AppState N Expr) (txId : String) : WritePlan :=
  ⟨[], CommitFails env s txId, CommitKeeps env s txId⟩

theorem OpenTransaction.write_status (tx : OpenTransaction) (v : VersionedStore N) (q : Quad) :
    (tx.write v).store.namedGraphs.Extensional q ↔
      (v.store.namedGraphs.Extensional q ∧ q ∉ tx.netDeletes v.store) ∨
        (q ∈ tx.netInserts v.store ∧ ¬ (tx.write v).store.namedGraphs.Derived q) := by
  rw [tx.write_namedGraphs]
  have hadd := extensional_foldl_addQuad ((tx.netDeletes v.store).foldl QuadStore.removeQuad
    v.store.namedGraphs) (tx.netInserts v.store) q
  rw [extensional_foldl_removeQuad] at hadd
  rw [QuadStore.derived_foldl_addQuad]
  exact hadd

theorem OpenTransaction.write_keeps {tx : OpenTransaction} {v : VersionedStore N}
    (hdeletes : ∀ q ∈ tx.netDeletes v.store, ¬ v.store.namedGraphs.Extensional q)
    (hinserts : ∀ q ∈ tx.netInserts v.store, v.store.namedGraphs.Extensional q) (q : Quad) :
    (tx.write v).store.namedGraphs.Extensional q ↔ v.store.namedGraphs.Extensional q := by
  rw [tx.write_status]
  constructor
  · intro hq
    exact hq.elim And.left fun hq => hinserts q hq.1
  · exact fun hq => .inl ⟨hq, fun hmem => hdeletes q hmem hq⟩

variable {programs : List (DatalogProgram Expr)} {netDeletes netInserts : List Quad}

theorem reasonOver_error {failed : DeltaError × AppState N Expr}
    (h : reasonOver env s programs netDeletes netInserts = .error failed) :
    ∃ e, reasonDelta env.rules.reasoning ⟨programs, s.store.store.namedGraphs⟩ netDeletes
      netInserts = .error e := by
  cases hrun : reasonDelta env.rules.reasoning ⟨programs, s.store.store.namedGraphs⟩ netDeletes
      netInserts with
  | error e => exact ⟨e, rfl⟩
  | ok m =>
    rw [reasonOver] at h
    dsimp only at h
    rw [applyReasonerDelta, hrun] at h
    cases h

theorem reasonOver_isSome {s' : AppState N Expr}
    (h : reasonOver env s programs netDeletes netInserts = .ok s') : s'.reasoner.isSome := by
  rw [reasonOver] at h
  dsimp only at h
  split at h
  · cases h
  · next m hrun =>
    cases h
    rfl

theorem DeltaError.not_success (e : DeltaError) : ¬ e.response.Success := by
  cases e with
  | contradiction | rollbackFailed => exact Response.not_success (by decide)

theorem transactionCommit_describes (env : ServerEnv N Expr) (s : AppState N Expr)
    (txId : String) : (commitPlan env s txId).Describes s (transactionCommit env s txId) := by
  obtain ⟨store, reasoner, rulesets, transactions, changelog⟩ := s
  rw [transactionCommit]
  by_cases hread : env.readOnly = true
  · rw [if_pos hread]
    exact .refused (.inl hread) rfl (Response.not_success (by decide))
  rw [if_neg hread]
  cases hlookup : transactions.lookup txId with
  | none => exact .refused (.inr (.inl hlookup)) rfl (Response.not_success (by decide))
  | some tx =>
    dsimp only
    have hfails : CommitFails env ⟨store, reasoner, rulesets, transactions, changelog⟩ txId ↔
        (store.generation ≠ tx.snapshotGeneration ∨
          ReasonerRejects env.rules.reasoning reasoner (tx.write store).store.namedGraphs
            (tx.netDeletes store.store) (tx.netInserts store.store) ∨
          Violates env reasoner (tx.write store).store (tx.netDeletes store.store)
            (tx.netInserts store.store)) := by
      rw [CommitFails]
      dsimp only
      rw [hlookup]
      constructor
      · rintro (h | h | ⟨tx', htx, h⟩)
        · exact absurd h hread
        · cases h
        · cases htx
          exact h
      · exact fun h => .inr (.inr ⟨tx, rfl, h⟩)
    have hkeeps (h : CommitKeeps env ⟨store, reasoner, rulesets, transactions, changelog⟩ txId) :=
      h tx hlookup
    by_cases hgeneration : store.generation ≠ tx.snapshotGeneration
    · rw [if_pos hgeneration]
      have hfail := hfails.mpr (.inl hgeneration)
      exact ⟨iff_of_false (Response.not_success (by decide)) (not_not_intro hfail),
        (List.append_nil _).symm, fun hok => absurd hfail hok⟩
    rw [if_neg hgeneration]
    cases reasoner with
    | none =>
      refine ⟨iff_of_true Response.noContent_success fun h => ?_, (List.append_nil _).symm,
        fun _ hkeep => ?_⟩
      · rcases hfails.mp h with h | ⟨programs, _, hnone, _⟩ | ⟨programs, _, hnone, _⟩
        · exact hgeneration h
        · cases hnone
        · cases hnone
      · obtain ⟨hdeletes, hinserts, -⟩ := hkeeps hkeep
        exact asserted_congr (tx.write_resources store)
          (OpenTransaction.write_keeps hdeletes hinserts)
    | some programs =>
      let s : AppState N Expr :=
        ⟨tx.write store, some programs, rulesets, transactions.erase txId, changelog⟩
      have hbooks := reasonOver_only env s programs (tx.netDeletes store.store)
        (tx.netInserts store.store)
      dsimp only
      cases hrun : reasonOver env s programs (tx.netDeletes store.store)
          (tx.netInserts store.store) with
      | error failed =>
        obtain ⟨e, s'⟩ := failed
        obtain ⟨e', hdelta⟩ := reasonOver_error hrun
        have hfail := hfails.mpr (.inr (.inl ⟨programs, e', rfl, hdelta⟩))
        rw [hrun] at hbooks
        exact ⟨iff_of_false e.not_success (not_not_intro hfail),
          (quadLog_of_books hbooks.toSameBooks).trans (List.append_nil _).symm, fun hok =>
            absurd hfail hok⟩
      | ok s' =>
        obtain ⟨m, hdelta, hstore⟩ := reasonOver_ok hrun
        rw [hrun] at hbooks
        dsimp only
        have hlog := quadLog_of_books (hbooks.trans (checkConstraints_only env s'
          (tx.netInserts store.store) (tx.netDeletes store.store))).toSameBooks
        have hcases := checkConstraints_cases env s' (tx.netInserts store.store)
          (tx.netDeletes store.store)
        rcases hcases with ⟨hpass, heq⟩ | ⟨⟨-, hviolates⟩, hreject⟩
        · have hok : ¬ CommitFails env
              ⟨store, some programs, rulesets, transactions, changelog⟩ txId := by
            intro h
            rcases hfails.mp h with h | ⟨_, e, hsome, he⟩ | ⟨_, m', hsome, hm, hviolates⟩
            · exact hgeneration h
            · cases hsome
              cases hdelta.symm.trans he
            · cases hsome
              cases hdelta.symm.trans hm
              refine hpass ⟨reasonOver_isSome hrun, ?_⟩
              rw [hstore]
              exact hviolates
          refine ⟨?_, hlog.trans (List.append_nil _).symm, fun _ hkeep => ?_⟩
          · rw [heq]
            exact iff_of_true Response.noContent_success hok
          · obtain ⟨hdeletes, hinserts, htakes⟩ := hkeeps hkeep
            rw [heq, AppState.asserted, hstore]
            refine asserted_congr (tx.write_resources store) fun q => ?_
            have hwrite := OpenTransaction.write_keeps hdeletes hinserts q
            refine (reasonDelta_status htakes hdelta q).trans ?_
            rw [hwrite]
            constructor
            · exact fun hq => hq.elim And.left (hinserts q)
            · exact fun hq => .inl ⟨hq, fun hmem => hdeletes q hmem hq⟩
        · rw [hstore] at hviolates
          have hfail := hfails.mpr (.inr (.inr ⟨programs, m, rfl, hdelta, hviolates⟩))
          exact ⟨iff_of_false hreject (not_not_intro hfail),
            hlog.trans (List.append_nil _).symm, fun hok => absurd hfail hok⟩

end Commits

section UpdatePlans

variable {env : ServerEnv N Expr} {s : AppState N Expr}

/-- The data can be recorded, each operation that runs does what its entries say, and the net delta
has its plain effect. -/
structure UpdateKeeps (env : ServerEnv N Expr) (s : AppState N Expr)
    (prepared : List (PreparedOp N)) : Prop where
  recordable : ∀ op ∈ prepared, op.Recordable
  faithful : FaithfulRun env.update env.network s.store.store (.start s.store.store) prepared
  takes : ∀ st, applyOps env.update env.network (.start s.store.store) prepared = .ok st →
    TakesDelta env.rules.reasoning s.reasoner (commitPending st).namedGraphs (netDeletes st)
      (netInserts st)

/-- An update is logged before it is applied. -/
def updatePlan (env : ServerEnv N Expr) (s : AppState N Expr) (updateStr : String)
    (ifMatch : Option String) : WritePlan :=
  match acceptedUpdate env s updateStr ifMatch with
  | .error _ => ⟨[], True, True⟩
  | .ok (prepared, entries) => ⟨entries, UpdateFails env s prepared, UpdateKeeps env s prepared⟩

theorem Pending.start_assertedView (store : Datastore N) :
    (Pending.start store).assertedView = store.asserted := by
  have hnil : store.resources.resolve [] = ∅ := rfl
  rw [assertedView, start]
  dsimp only
  rw [hnil, Finset.union_empty, Finset.sdiff_empty]

theorem runUpdate_describes (happend : env.Appends) {log : List ChangelogEntry}
    (hlog : s.changelog = some log) (hs : IriGraphs s.store.store) (updateStr : String)
    (ifMatch : Option String) :
    (updatePlan env s updateStr ifMatch).Describes s (runUpdate env s updateStr ifMatch) := by
  rw [runUpdate_eq, updatePlan]
  cases haccept : acceptedUpdate env s updateStr ifMatch with
  | error response => exact .refused trivial rfl (acceptedUpdate_error haccept)
  | ok accepted =>
    obtain ⟨prepared, entries⟩ := accepted
    obtain ⟨ops, hprepare⟩ := acceptedUpdate_ok haccept
    dsimp only
    rw [logBatch_eq happend]
    dsimp only
    let s₁ : AppState N Expr :=
      { s with changelog := s.changelog.map (· ++ entries.map ChangelogEntry.quad) }
    have hlogs : (applyUpdate env s₁ prepared).2.quadLog = s.quadLog ++ entries := by
      rw [quadLog_of_books (applyUpdate_books env s₁ prepared), quadLog_append hlog rfl,
        filterMap_quad]
    rcases applyUpdate_cases env s₁ prepared with ⟨hfails, hstatus⟩ | ⟨hok, hstatus, hdone⟩
    · have hfails' : UpdateFails env s prepared := hfails
      exact ⟨iff_of_false hstatus (not_not_intro hfails'), hlogs, fun hok => absurd hfails' hok⟩
    · have hok' : ¬ UpdateFails env s prepared := hok
      refine ⟨iff_of_true hstatus hok', hlogs, fun _ hkeeps => ?_⟩
      obtain ⟨dataset', inserts, deletes, hrun, hstore⟩ := hdone
      obtain ⟨logged, hops, hflat⟩ := prepareUpdate_logs hkeeps.recordable hprepare
      obtain ⟨st, happly, hview⟩ := applyReasonedUpdate_asserted hkeeps.takes hrun
      have hstart : (Pending.start s.store.store).Started s.store.store :=
        ⟨Pending.start_interned hs.interned, subset_rfl⟩
      have hreplay := hkeeps.faithful.applyOps hs hops hstart happly
      rw [AppState.asserted, hstore, hview, hreplay, hflat]
      exact congrArg (replay · logged.flatten) (Pending.start_assertedView s.store.store)

end UpdatePlans

end RdfDatalog.Endpoint
