import RdfDatalog.Endpoint.GuardedWrites

namespace RdfDatalog.Endpoint

open Datalog Datalog.IncrementalReasoner GraphElementManager

variable {N : NativeTypes} {Expr : Type}

/-- A request that the check covers, or that cannot lead to an instance of `owl:Nothing`. The check
is not made by the graph store, and not when rules are loaded. -/
def Request.Covered (env : ServerEnv N Expr) (s : AppState N Expr) : Request → Prop
  | .transactionCommit txId => ∀ tx, s.transactions.lookup txId = some tx →
      ∀ q ∈ tx.pendingInserts, s.store.store.resources.Interned q
  | .gspPut params contentType body => Harmless env s (.gspPut params contentType body)
  | .gspPost params contentType body createIfMissing nanos =>
    Harmless env s (.gspPost params contentType body createIfMissing nanos)
  | .gspDelete params => Harmless env s (.gspDelete params)
  | .rulesPost _ _ | .rulesIdPost _ _ _ | .rulesIdDelete _ => False
  | _ => True

section Handlers

variable [DecidableEq Expr] {env : ServerEnv N Expr}
  (hf : env.rules.reasoning.env.FixedFilters)
include hf

theorem handle_guarded {s : AppState N Expr} (hs : s.Guarded) {request : Request}
    (hcovered : request.Covered env s) (h : (handle env s request).1.Success) :
    (handle env s request).2.Guarded := by
  cases request with
  | update updateStr ifMatch => exact checkedUpdate_guarded hf hs appliesChecked_applyUpdate h
  | transactionBegin txId => exact hs
  | transactionalQuery queryStr txId => exact hs
  | transactionalUpdate updateStr txId => exact runTransactionalUpdate_guarded hs updateStr txId
  | transactionCommit txId => exact transactionCommit_guarded hf hs hcovered h
  | transactionRollback txId =>
    rw [handle, transactionRollback]
    cases s.transactions.lookup txId with
    | none => exact hs
    | some tx => exact hs
  | gspPut params contentType body =>
    have hw : Request.graphWrite env s.store.store (.gspPut params contentType body) = some _ := rfl
    rw [handle_graphWrite env s hw] at h ⊢
    exact graphWrite_guarded hf hs hw hcovered h
  | gspPost params contentType body createIfMissing nanos =>
    have hw : Request.graphWrite env s.store.store
        (.gspPost params contentType body createIfMissing nanos) = some _ := rfl
    rw [handle_graphWrite env s hw] at h ⊢
    exact graphWrite_guarded hf hs hw hcovered h
  | gspDelete params =>
    have hw : Request.graphWrite env s.store.store (.gspDelete params) = some _ := rfl
    rw [handle_graphWrite env s hw] at h ⊢
    exact graphWrite_guarded hf hs hw hcovered h
  | rulesPost | rulesIdPost | rulesIdDelete => exact hcovered.elim

end Handlers

section Runs

variable [DecidableEq Expr] {env : ServerEnv N Expr}

omit [DecidableEq Expr] in
theorem Harmless.named {s : AppState N Expr} {request : Request} (h : Harmless env s request)
    (name : String) : Harmless (env.named name) s request := by
  refine ⟨fun u hu => h.data u ?_, h.rules⟩
  rw [← hu]
  cases request with
  | _ => rfl

omit [DecidableEq Expr] in
theorem Request.Covered.named {s : AppState N Expr} {request : Request}
    (h : request.Covered env s) (name : String) : request.Covered (env.named name) s := by
  cases request with
  | gspPut | gspPost | gspDelete => exact Harmless.named h name
  | _ => exact h

/-- Each request succeeds, and is covered if it goes to the dataset with these cells. -/
def CoveredRun (env : ServerEnv N Expr) (cell : Nat) :
    ServerState N Expr → List RoutedRequest → Prop
  | _, [] => True
  | S, request :: requests => (dispatch env S request).1.Success ∧
      (∀ inner, S.target request = some (cell, inner) →
        inner.Covered env (S.datasetState cell)) ∧
      CoveredRun env cell (dispatch env S request).2 requests

def ServerState.Guarded (S : ServerState N Expr) (cell : Nat) : Prop :=
  cell < S.next ∧ (S.datasetState cell).Guarded

omit [DecidableEq Expr] in
theorem ServerState.Guarded.put {S : ServerState N Expr} {cell other : Nat} (hS : S.Guarded cell)
    {s : AppState N Expr} (hs : other = cell → s.Guarded) : (S.put other s).Guarded cell := by
  refine ⟨hS.1, ?_⟩
  by_cases hcell : other = cell
  · subst hcell
    rw [AppState.Guarded, ServerState.datasetState, ServerState.put_cells_self]
    exact hs rfl
  · rw [AppState.Guarded, ServerState.datasetState, ServerState.put_cells_of_ne S s (Ne.symm hcell)]
    exact hS.2

theorem dispatch_guarded (hf : env.rules.reasoning.env.FixedFilters) {S : ServerState N Expr}
    {cell : Nat} {request : RoutedRequest} (hS : S.Guarded cell)
    (hsuccess : (dispatch env S request).1.Success)
    (hcovered : ∀ inner, S.target request = some (cell, inner) →
      inner.Covered env (S.datasetState cell)) :
    (dispatch env S request).2.Guarded cell := by
  cases htarget : S.target request with
  | some target =>
    obtain ⟨other, inner⟩ := target
    obtain ⟨name, heq⟩ := dispatch_target env htarget
    rw [heq] at hsuccess ⊢
    refine hS.put fun hcell => ?_
    subst hcell
    have hnamed : (env.named name).rules.reasoning.env.FixedFilters := hf
    exact handle_guarded hnamed hS.2 ((hcovered inner htarget).named name) hsuccess
  | none =>
    cases request with
    | root request =>
      rw [(dispatch_untargeted env).1 htarget]
      exact hS
    | dataset name request =>
      rw [(dispatch_untargeted env).2 name htarget]
      exact hS
    | datasetUpdate name updateStr ifMatch =>
      rw [dispatch] at hsuccess ⊢
      cases hentry : S.getEntry name with
      | none => exact hS
      | some other =>
        rw [hentry] at hsuccess
        refine hS.put fun hcell => ?_
        subst hcell
        have hnamed : (env.named (canonical name)).rules.reasoning.env.FixedFilters := hf
        exact checkedUpdate_guarded hnamed hS.2 appliesChecked_applyDatasetUpdate hsuccess
    | createDataset dbName =>
      rw [dispatch, adminCreateDataset]
      split_ifs
      · exact hS
      · exact hS
      · cases hlog : logRegistry env S (.createDataset (canonical dbName)) with
        | error response => exact hS
        | ok S' =>
          rw [logRegistry_ok hlog]
          have hcell : cell < S.next := hS.1
          refine ⟨Nat.lt_succ_of_lt hcell, ?_⟩
          rw [AppState.Guarded, ServerState.datasetState]
          dsimp only
          rw [Function.update_of_ne (by omega)]
          exact hS.2
    | deleteDataset name =>
      rw [dispatch, adminDeleteDataset]
      split_ifs
      · exact hS
      · cases hlog : logRegistry env S (.deleteDataset name) with
        | error response => exact hS
        | ok S' =>
          rw [logRegistry_ok hlog]
          exact hS
    | purgeStale txIds => exact hS

theorem run_guarded (hf : env.rules.reasoning.env.FixedFilters) {cell : Nat}
    {requests : List RoutedRequest} {S : ServerState N Expr} (hS : S.Guarded cell)
    (hrun : CoveredRun env cell S requests) : (run env S requests).Guarded cell := by
  induction requests generalizing S with
  | nil => exact hS
  | cons request requests ih =>
    obtain ⟨hsuccess, hcovered, hrest⟩ := hrun
    exact ih (dispatch_guarded hf hS hsuccess hcovered) hrest

omit [DecidableEq Expr] in
/-- A checked request whose delta is taken cleanly both ways, and comes off again. -/
structure TakesBack (env : ServerEnv N Expr) (s : AppState N Expr) (request : CheckedRequest)
    (programs : List (DatalogProgram Expr)) (m₁ : IncrementalReasoner Expr) (store : Datastore N)
    (deletes inserts : List Quad) : Prop where
  reasoner : s.reasoner = some programs
  maintained : Maintained env.rules.reasoning.env ⟨programs, s.store.store.namedGraphs⟩
  tells : request.tellsReasoner = true
  delta : request.delta env s = some (store, deletes, inserts)
  quiet : SameStatus s.store.store.namedGraphs store.namedGraphs
  after : reasonDelta env.rules.reasoning (edited ⟨programs, store.namedGraphs⟩ deletes inserts)
    deletes inserts = .ok m₁
  clean : CleanRollback env.rules.reasoning ⟨programs, store.namedGraphs⟩ m₁ deletes inserts
  comesOff : ComesOff env.rules.reasoning.env (activeStrata programs)
    {q | s.store.store.namedGraphs.Extensional q} deletes inserts

/-- In every run of covered requests that succeed the default graph of a dataset with live rules
has no instance of `owl:Nothing`, and a request that is rejected in its course and comes off again
changes nothing. -/
theorem constraints_hold (hf : env.rules.reasoning.env.FixedFilters) {S : ServerState N Expr}
    {cell : Nat} (hS : S.Guarded cell) {requests : List RoutedRequest}
    (hrun : CoveredRun env cell S requests) :
    NoInstance ((run env S requests).cells cell).store.store ∧
      ∀ name request programs m₁ store deletes inserts,
        let s := (run env S requests).datasetState cell
        TakesBack (env.named name) s request programs m₁ store deletes inserts →
        (request.answer (env.named name) s).1.status = 409 →
        ∃ programs', (request.answer (env.named name) s).2.reasoner = some programs' ∧
          Restored env.rules.reasoning.env ⟨programs, s.store.store.namedGraphs⟩
            ⟨programs', (request.answer (env.named name) s).2.store.store.namedGraphs⟩ := by
  refine ⟨(run_guarded hf hS hrun).2.free, ?_⟩
  intro name request programs m₁ store deletes inserts s htakes hrejected
  have hnamed : (env.named name).rules.reasoning.env.FixedFilters := hf
  obtain ⟨programs', hprograms, hrestored⟩ := CheckedRequest.restored_iff hnamed htakes.reasoner
    htakes.maintained htakes.delta htakes.quiet htakes.after htakes.clean hrejected htakes.tells
  exact ⟨programs', hprograms, hrestored.mpr htakes.comesOff⟩

end Runs

section Sample

/-- A server with live rules, and the names of its rules. -/
def ruledServer (m : IncrementalReasoner Empty) : ServerState NativeTypes.text Empty :=
  .start ⟨(memberState m).store, (memberState m).reasoner, ∅⟩ none

theorem ruledServer_guarded {m : IncrementalReasoner Empty}
    (hnew : new .plain [emptyClassRule] .new = .ok m) (hbase : m.base.quadList = []) :
    (ruledServer m).Guarded rootCell := by
  have horder : (RulePartitioner.new [emptyClassRule]).orderRules = .ok [[emptyClassRule]] := by
    decide
  have hs : OrderedStrata [[emptyClassRule]] := .of_clash (by decide)
  have hstrata := (new_ok ReasonerEnv.plain_fixedFilters horder hs hnew).1
  have hempty : ∀ q, q ∉ m.base := by
    intro q hq
    have hq : q ∈ m.base.quadList := hq
    rw [hbase] at hq
    cases hq
  have hlive : LiveRules (N := NativeTypes.text) emptyClassStore.resources m.programs := by
    constructor
    · rw [hstrata]
      exact hs
    · rw [hstrata]
      intro r hr head hhead t ht id hid
      obtain rfl := List.mem_singleton.mp hr
      cases hhead
      simp only [List.mem_cons, List.not_mem_nil, or_false] at ht
      rcases ht with rfl | rfl | rfl | rfl
      all_goals cases hid
      all_goals decide
  exact ⟨Nat.one_pos, ⟨m.programs, rfl, hlive⟩, fun q hq => absurd hq (hempty q),
    fun q hq => absurd hq (hempty q)⟩

theorem constraints_hold_update : ∃ m, new .plain [emptyClassRule] .new = .ok m ∧
    NoInstance ((run insertServer (ruledServer m) [.root (.update "" none)]).cells
      rootCell).store.store := by
  obtain ⟨m, hnew, hbase, hsuccess⟩ : ∃ m, new .plain [emptyClassRule] .new = .ok m ∧
      m.base.quadList = [] ∧
      (dispatch insertServer (ruledServer m) (.root (.update "" none))).1.status < 400 := by decide
  have hcovered : CoveredRun insertServer rootCell (ruledServer m) [.root (.update "" none)] := by
    refine ⟨hsuccess, fun inner htarget => ?_, trivial⟩
    cases htarget
    trivial
  have hf : insertServer.rules.reasoning.env.FixedFilters := ReasonerEnv.plain_fixedFilters
  exact ⟨m, hnew, (constraints_hold hf (ruledServer_guarded hnew hbase) hcovered).1⟩

/-- An upload that states an instance of `owl:Nothing`. -/
def nothingUpload : ServerEnv NativeTypes.text Empty :=
  { insertServer with
    parseRdfBody := fun _ _ => .ok
      (addOxQuad .new ⟨.namedNode "x", rdfType, .namedNode owlNothing, .defaultGraph⟩) }

def uploadRequest : RoutedRequest :=
  .root (.gspPost ⟨true, none⟩ "text/turtle" ⟨#[0]⟩ false 0)

/-- The graph store takes the upload that an update would be rejected for. -/
theorem graphStore_breaks_constraints : ∃ m,
    new .plain [emptyClassRule] .new = .ok m ∧ (ruledServer m).Guarded rootCell ∧
      (dispatch nothingUpload (ruledServer m) uploadRequest).1.Success ∧
      ¬ NoInstance ((dispatch nothingUpload (ruledServer m) uploadRequest).2.cells
        rootCell).store.store := by
  obtain ⟨m, hnew, hbase, hsuccess, hfound⟩ : ∃ m, new .plain [emptyClassRule] .new = .ok m ∧
      m.base.quadList = [] ∧
      (dispatch nothingUpload (ruledServer m) uploadRequest).1.status < 400 ∧
      ¬ (checkOwlNothing nothingUpload ((dispatch nothingUpload (ruledServer m)
        uploadRequest).2.cells rootCell).store.store 10 10).isEmpty = true := by decide
  refine ⟨m, hnew, ruledServer_guarded hnew hbase, hsuccess, fun hno => hfound ?_⟩
  exact (checkOwlNothing_isEmpty_iff _ _ (show 0 < 10 by decide) 10).mpr hno

end Sample

end RdfDatalog.Endpoint
