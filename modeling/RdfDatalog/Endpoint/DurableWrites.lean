import RdfDatalog.Endpoint.Durability
import RdfDatalog.Endpoint.TransactionSequence

namespace RdfDatalog.Endpoint

open DeltaBuffer GraphElementManager Datalog Datalog.IncrementalReasoner Response

variable {N : NativeTypes} {Expr : Type}

section GraphStore

variable {env : ServerEnv N Expr} {s s' : AppState N Expr} {w : GraphWrite N}

def UploadRecordable (env : ServerEnv N Expr) (contentType : String) (body : ByteArray) : Prop :=
  ∀ fmt tmp, parseUpload env contentType body = .ok (fmt, tmp) → RecordableStore tmp

/-- The entries of a graph store request name what it writes: a PUT into the default graph logs the
graph that its query string names beside it. -/
def Request.NamesItsGraph (env : ServerEnv N Expr) : Request → Prop
  | .gspPut params contentType body =>
    (params.default = true → params.graph = none) ∧ UploadRecordable env contentType body
  | .gspPost _ contentType body _ _ => UploadRecordable env contentType body
  | _ => True

variable {request : Request}

theorem graphWrite_means {store : Datastore N} (hnames : request.NamesItsGraph env)
    (h : request.graphWrite env store = some (.ok w)) :
    ∃ cleared added, w.Means store cleared added := by
  cases request with
  | gspPut params contentType body =>
    obtain ⟨hparams, hbody⟩ := hnames
    exact putWrite_means hparams hbody (Option.some.inj h)
  | gspPost params contentType body createIfMissing nanos =>
    exact postWrite_means hnames (Option.some.inj h)
  | gspDelete params => exact deleteWrite_means (Option.some.inj h)
  | _ => cases h

/-- A graph store request is logged before it is applied. -/
def graphWritePlan (env : ServerEnv N Expr) (s : AppState N Expr) (request : Request) :
    Except Response (GraphWrite N) → WritePlan
  | .error response => ⟨[], ¬ response.Success, True⟩
  | .ok w => ⟨w.quadEntries,
      ReasonerRejects env.rules.reasoning s.reasoner w.store.namedGraphs w.netDeletes w.netInserts,
      request.NamesItsGraph env ∧
        TakesDelta env.rules.reasoning s.reasoner w.store.namedGraphs w.netDeletes w.netInserts⟩

theorem writeQuads_fails (hstore : s.store.store = w.store)
    (htranslate : (w.translate w.store).1.namedGraphs = w.store.namedGraphs) :
    match writeQuads env s w.clear (w.translate s.store.store) with
    | .error (response, _) => ¬ response.Success ∧
        ReasonerRejects env.rules.reasoning s.reasoner w.store.namedGraphs w.netDeletes
          w.netInserts
    | .ok _ => ¬ ReasonerRejects env.rules.reasoning s.reasoner w.store.namedGraphs w.netDeletes
        w.netInserts := by
  obtain ⟨⟨store, generation⟩, reasoner, rulesets, transactions, changelog⟩ := s
  dsimp only at hstore
  subst hstore
  rw [writeQuads.eq_def]
  cases reasoner with
  | none =>
    rintro ⟨programs, e, hnone, -⟩
    cases hnone
  | some programs =>
    dsimp only
    split
    · next response s' hrun =>
      split at hrun
      · next e s₁ hover =>
        cases hrun
        obtain ⟨e', hdelta⟩ := reasonOver_error hover
        have hbase : reasonDelta env.rules.reasoning ⟨programs, w.store.namedGraphs⟩ w.netDeletes
            w.netInserts = .error e' := by
          rw [← htranslate]
          exact hdelta
        exact ⟨e.not_success, programs, e', rfl, hbase⟩
      · cases hrun
    · next s' hrun =>
      split at hrun
      · cases hrun
      · next s₁ hover =>
        obtain ⟨m, hdelta, -⟩ := reasonOver_ok hover
        have hbase : reasonDelta env.rules.reasoning ⟨programs, w.store.namedGraphs⟩ w.netDeletes
            w.netInserts = .ok m := by
          rw [← htranslate]
          exact hdelta
        rintro ⟨_, e, hsome, he⟩
        cases hsome
        cases hbase.symm.trans he

theorem graphWrite_success {store : Datastore N} (h : request.graphWrite env store = some (.ok w)) :
    w.response.Success := by
  have hcreated : Response.created.Success := by
    show 201 < 400
    omega
  cases request with
  | gspPut params contentType body =>
    obtain ⟨_, _, _, _, isNew, -, -, rfl⟩ := putWrite_shape (Option.some.inj h)
    cases isNew with
    | true => exact hcreated
    | false => exact noContent_success
  | gspPost params contentType body createIfMissing nanos =>
    obtain ⟨_, fmt, -, hw⟩ := postWrite_shape (Option.some.inj h)
    rcases hw with ⟨-, rfl⟩ | ⟨-, _, _, -, -, rfl⟩ | ⟨-, _, -, rfl⟩ | ⟨-, -, rfl⟩
    · exact noContent_success
    · exact noContent_success
    · exact hcreated
    · rw [uploadUnnamed]
      split_ifs
      · exact noContent_success
      · exact hcreated
  | gspDelete params =>
    obtain ⟨_, _, -, -, rfl⟩ := deleteWrite_shape (Option.some.inj h)
    exact noContent_success
  | _ => cases h

theorem answer_describes (happend : env.Appends) {log : List ChangelogEntry}
    (hlog : s.changelog = some log) (hs : s.store.store.Interned)
    {outcome : Except Response (GraphWrite N)}
    (h : request.graphWrite env s.store.store = some outcome) :
    (graphWritePlan env s request outcome).Describes s (answer env s outcome) := by
  cases outcome with
  | error response =>
    refine ⟨not_not.symm, (List.append_nil _).symm, fun _ _ => rfl⟩
  | ok w =>
    have hinterns := graphWrite_onlyInterns h
    have hsuccess := graphWrite_success h
    rw [answer, GraphWrite.run, logBatch_eq happend]
    dsimp only
    let s₁ : AppState N Expr :=
      { s.withStore w.store with changelog := s.changelog.map (· ++ w.entries) }
    have hlogged : s₁.quadLog = s.quadLog ++ w.quadEntries := quadLog_append hlog rfl
    have hbooks := writeQuads_only env s₁ w.clear (w.translate s₁.store.store)
    have htranslate := hinterns.translate w.store
    have hfails := @writeQuads_fails N Expr env s₁ w rfl htranslate
    split
    · next failed hwrite =>
      obtain ⟨response, s'⟩ := failed
      change writeQuads env s₁ w.clear (w.translate s₁.store.store) = _ at hwrite
      rw [hwrite] at hbooks hfails
      obtain ⟨hstatus, hrejects⟩ := hfails
      exact ⟨iff_of_false hstatus (not_not_intro hrejects),
        (quadLog_of_books hbooks.toSameBooks).trans hlogged, fun hok => absurd hrejects hok⟩
    · next s' hwrite =>
      change writeQuads env s₁ w.clear (w.translate s₁.store.store) = _ at hwrite
      rw [hwrite] at hbooks hfails
      refine ⟨iff_of_true hsuccess hfails, (quadLog_of_books hbooks.toSameBooks).trans hlogged,
        fun _ hkeeps => ?_⟩
      obtain ⟨hnames, htakes⟩ := hkeeps
      obtain ⟨cleared, added, hmeans⟩ := graphWrite_means hnames h
      obtain ⟨hres, hstatus⟩ := @writeQuads_status N Expr env s₁ s' w rfl htranslate htakes hwrite
      rw [AppState.asserted, hmeans.asserted_eq hs hinterns hres hstatus]
      exact (hmeans.replays s.store.store.asserted).symm

end GraphStore

section Rules

variable [DecidableEq Expr] {env : ServerEnv N Expr} {s : AppState N Expr}

/-- The parser of rules interns names and does nothing else to them. -/
def RulesEnv.Interns (env : RulesEnv N Expr) : Prop :=
  ∀ text (m : GraphElementManager N), m.Extends (env.parse text m).1

/-- A ruleset that comes into force asserts nothing new. -/
def RulesetKeeps (entry : DatasetEntry Expr) (combined : List (Rule Expr)) : Prop :=
  ChangesRules entry combined → ∀ q ∈ factHeads combined, entry.namedGraphs.Extensional q

omit [DecidableEq Expr] in
theorem factHeads_nil (q : Quad) : q ∉ factHeads ([] : List (Rule Expr)) :=
  fun hq => by simp [factHeads] at hq

variable {combined : List (Rule Expr)} {α : Type} {changelog : List ChangelogEntry}

theorem applyCombinedRuleset_keeps {env : ReasonerEnv Expr} {entry entry' : DatasetEntry Expr}
    (hkeeps : RulesetKeeps entry combined)
    (h : applyCombinedRuleset env entry combined = .ok entry') (q : Quad) :
    entry'.namedGraphs.Extensional q ↔ entry.namedGraphs.Extensional q := by
  obtain ⟨hkept, hadded⟩ := applyCombinedRuleset_status h q
  by_cases hchanges : ChangesRules entry combined
  · exact ⟨fun hq => (hadded hq).elim id (hkeeps hchanges q), hkept⟩
  · rw [ChangesRules] at hchanges
    by_cases hempty : combined.isEmpty = true
    · rw [List.isEmpty_iff.mp hempty] at hadded
      exact ⟨fun hq => (hadded hq).elim id fun hmem => (factHeads_nil q hmem).elim, hkept⟩
    · obtain ⟨base, reasoner, rulesets⟩ := entry
      rw [if_neg hempty] at hchanges
      cases reasoner with
      | none => exact absurd trivial hchanges
      | some programs =>
        have hdiff : diffRulesets (⟨programs, base⟩ : IncrementalReasoner Expr).activeRules
            combined = ([], []) := not_not.mp hchanges
        rw [applyCombinedRuleset, if_neg hempty] at h
        dsimp only at h
        rw [applyRulesetDiff, hdiff] at h
        cases h
        rfl

/-- What a call leaves: more names, and where it succeeds the same quads asserted. -/
structure RulesetState.KeptBy (state : RulesetState N Expr)
    (outcome : GraphElementManager N × DatasetEntry Expr) (ok : Prop) : Prop where
  extends_ : state.resources.Extends outcome.1
  status : ok → ∀ q, outcome.2.namedGraphs.Extensional q ↔ state.entry.namedGraphs.Extensional q

theorem applyAndRecord_kept (env : RulesEnv N Expr) {state : RulesetState N Expr}
    {resources : GraphElementManager N} (record : RulesetMap Expr → RulesetMap Expr) (result : α)
    (hext : state.resources.Extends resources) (hkeeps : RulesetKeeps state.entry combined) :
    state.KeptBy (applyAndRecord env resources state.entry combined record result).2
      (∃ n, (applyAndRecord env resources state.entry combined record result).1 = .ok n) := by
  rw [applyAndRecord]
  cases hrun : applyCombinedRuleset env.reasoning.env state.entry combined with
  | error e =>
    exact ⟨hext, fun hok => by cases hok.choose_spec⟩
  | ok entry' => exact ⟨hext, fun _ q => applyCombinedRuleset_keeps hkeeps hrun q⟩

theorem map_some_ok {ε : Type} {x : Except ε α} {a : α} (h : x = .ok a) :
    x.map some = .ok (some a) := by
  rw [h]
  rfl

theorem of_map_some_ok {ε : Type} {x : Except ε α} {a : α} (h : x.map some = .ok (some a)) :
    x = .ok a := by
  cases x with
  | error e => cases h
  | ok b =>
    cases h
    rfl

theorem RulesetCall.apply_status {env : RulesEnv N Expr} (hparse : env.Interns)
    (state : RulesetState N Expr) (call : RulesetCall)
    (hkeeps : ∀ combined, call.combined env state = some combined →
      RulesetKeeps state.entry combined) :
    state.KeptBy (call.apply env state).2 (∃ n, (call.apply env state).1 = .ok (some n)) := by
  cases call with
  | replace rulesText =>
    have hext := hparse rulesText state.resources
    rw [apply, applyReplaceRulesetText]
    rw [combined] at hkeeps
    cases hrun : env.parse rulesText state.resources with
    | mk resources parsed =>
      rw [hrun] at hkeeps hext
      cases parsed with
      | error e =>
        exact ⟨hext, fun hok => by cases hok.choose_spec⟩
      | ok rules =>
        obtain ⟨hmore, hstatus⟩ := applyAndRecord_kept env (fun _ => ∅) rules.length hext
          (hkeeps rules rfl)
        exact ⟨hmore, fun hok => hstatus (hok.imp fun _ => of_map_some_ok)⟩
  | setNamed rulesetId rulesText =>
    have hext := hparse rulesText state.resources
    rw [apply, applySetNamedRulesetText]
    rw [combined] at hkeeps
    cases hrun : env.parse rulesText state.resources with
    | mk resources parsed =>
      rw [hrun] at hkeeps hext
      cases parsed with
      | error e =>
        exact ⟨hext, fun hok => by cases hok.choose_spec⟩
      | ok rules =>
        obtain ⟨hmore, hstatus⟩ := applyAndRecord_kept env
          (fun rulesets => if rules.isEmpty then rulesets.erase rulesetId
            else rulesets.insert rulesetId rules) rules.length hext (hkeeps _ rfl)
        exact ⟨hmore, fun hok => hstatus (hok.imp fun _ => of_map_some_ok)⟩
  | deleteNamed rulesetId =>
    rw [apply, applyDeleteNamedRuleset]
    rw [combined] at hkeeps
    cases hlookup : state.entry.rulesets.lookup rulesetId with
    | none =>
      exact ⟨.refl _, fun hok => by cases hok.choose_spec⟩
    | some removed =>
      rw [hlookup] at hkeeps
      obtain ⟨hmore, hstatus⟩ := applyAndRecord_kept env
        (fun rulesets => rulesets.erase rulesetId) (some removed.length) (.refl _) (hkeeps _ rfl)
      exact ⟨hmore, fun hok => hstatus ⟨_, hok.choose_spec⟩⟩

/-- A change of the rules logs no quad. -/
def rulesPlan (env : ServerEnv N Expr) (s : AppState N Expr) (call : RulesetCall) : WritePlan :=
  ⟨[], ¬ ∃ n, (call.apply env.rules s.rulesetState).1 = .ok (some n),
    ∀ combined, call.combined env.rules s.rulesetState = some combined →
      RulesetKeeps s.entry combined⟩

omit [DecidableEq Expr] in
theorem finishRules_success (happend : env.Appends) (conflict : String) {α : Type}
    (outcome : RulesetOutcome N Expr α) (log : ChangelogEntry) {respond : α → Response}
    (hrespond : ∀ a, (respond a).Success) :
    (finishRules env s conflict outcome log respond).1.Success ↔ ∃ a, outcome.1 = .ok a := by
  obtain ⟨result, resources, entry⟩ := outcome
  rw [finishRules]
  cases result with
  | error e =>
    have hno : ¬ ∃ a, (Except.error e : Except RulesetApplyError α) = .ok a := by
      rintro ⟨a, ha⟩
      cases ha
    cases e with
    | parse | conflict => exact iff_of_false (not_success (by decide)) hno
  | ok a =>
    dsimp only
    rw [logBatch_eq happend]
    exact iff_of_true (hrespond a) ⟨a, rfl⟩

omit [DecidableEq Expr] in
theorem finishRules_quadLog (happend : env.Appends) {changelog : List ChangelogEntry}
    (hlog : s.changelog = some changelog) (conflict : String) {α : Type}
    (outcome : RulesetOutcome N Expr α) {log : ChangelogEntry} (hquad : log.quad? = none)
    (respond : α → Response) :
    (finishRules env s conflict outcome log respond).2.quadLog = s.quadLog := by
  obtain ⟨result, resources, entry⟩ := outcome
  rw [finishRules]
  cases result with
  | error e =>
    cases e with
    | parse e => rfl
    | conflict e => rfl
  | ok a =>
    dsimp only
    rw [logBatch_eq happend]
    have hnil : [log].filterMap ChangelogEntry.quad? = [] := by
      rw [List.filterMap_cons_none hquad]
      rfl
    have hkept : (s.withEntry resources entry).changelog = some changelog := hlog
    refine (quadLog_append hkept rfl).trans ?_
    rw [hnil, List.append_nil]
    rfl

theorem finishRules_describes (happend : env.Appends) (hlog : s.changelog = some changelog)
    (conflict : String) (outcome : RulesetOutcome N Expr α) {log : ChangelogEntry}
    (hquad : log.quad? = none) {respond : α → Response} (hrespond : ∀ a, (respond a).Success)
    {call : RulesetCall} (hcall : (call.apply env.rules s.rulesetState).2 = outcome.2)
    (hok : (∃ n, (call.apply env.rules s.rulesetState).1 = .ok (some n)) ↔ ∃ a, outcome.1 = .ok a)
    (hparse : env.rules.Interns) (hs : s.store.store.Interned) :
    (rulesPlan env s call).Describes s (finishRules env s conflict outcome log respond) := by
  refine ⟨?_, ?_, fun hsucceeds hkeeps => ?_⟩
  · rw [finishRules_success happend conflict outcome log hrespond, rulesPlan, not_not, hok]
  · rw [finishRules_quadLog happend hlog conflict outcome hquad]
    exact (List.append_nil _).symm
  · obtain ⟨hext, hstatus⟩ := call.apply_status hparse s.rulesetState hkeeps
    have hstatus := hstatus (not_not.mp hsucceeds)
    rw [AppState.asserted, finishRules_store, ← hcall]
    exact Datastore.asserted_extends hs hext hstatus

omit [DecidableEq Expr] in
theorem rulesText_error {contentType : String} {body : ByteArray} {response : Response}
    (h : rulesText env contentType body = .error response) : ¬ response.Success := by
  rw [rulesText] at h
  split_ifs at h
  · cases h
    exact not_success (by decide)
  · cases h
    exact not_success (by decide)
  · split at h
    · cases h
      exact not_success (by decide)
    · cases h

theorem exists_map_some {ε : Type} (x : Except ε α) :
    (∃ a, x.map some = .ok (some a)) ↔ ∃ a, x = .ok a :=
  ⟨fun ⟨a, ha⟩ => ⟨a, of_map_some_ok ha⟩, fun ⟨a, ha⟩ => ⟨a, map_some_ok ha⟩⟩

def Request.OnRules : Request → Prop
  | .rulesPost _ _ | .rulesIdPost _ _ _ | .rulesIdDelete _ => True
  | _ => False

/-- What such a request comes to. -/
def rulesRequestPlan (env : ServerEnv N Expr) (s : AppState N Expr) (request : Request) :
    WritePlan :=
  match request.rulesetCall env with
  | none => ⟨[], True, True⟩
  | some call => rulesPlan env s call

theorem rulesRequest_describes (happend : env.Appends) (hlog : s.changelog = some changelog)
    (hparse : env.rules.Interns) (hs : s.store.store.Interned) {request : Request}
    (h : request.OnRules) :
    (rulesRequestPlan env s request).Describes s (handle env s request) := by
  have hsuccess (fields : List (String × String)) : (⟨200, .json fields⟩ : Response).Success := by
    show 200 < 400
    omega
  cases request with
  | rulesPost contentType body | rulesIdPost rulesetId contentType body =>
    rw [rulesRequestPlan, Request.rulesetCall, handle]
    first | rw [datasetRulesPost] | rw [datasetRulesIdPost]
    cases htext : rulesText env contentType body with
    | error response => exact .refused trivial rfl (rulesText_error htext)
    | ok text =>
      exact finishRules_describes happend hlog "New ruleset" _ rfl (fun _ => hsuccess _) rfl
        (exists_map_some _) hparse hs
  | rulesIdDelete rulesetId =>
    rw [rulesRequestPlan, Request.rulesetCall, handle, datasetRulesIdDelete]
    by_cases hread : env.readOnly = true
    · rw [if_pos hread, if_pos hread]
      exact .refused trivial rfl (not_success (by decide))
    rw [if_neg hread, if_neg hread]
    dsimp only
    split
    · next resources entry houtcome =>
      have hfails : (rulesPlan env s (.deleteNamed rulesetId)).fails := by
        rintro ⟨n, hn⟩
        cases hn.symm.trans (congrArg Prod.fst houtcome)
      exact ⟨iff_of_false (not_success (by decide)) (not_not_intro hfails),
        (List.append_nil _).symm, fun hok => absurd hfails hok⟩
    · next hsome =>
      refine finishRules_describes happend hlog "Remaining ruleset" _ rfl (fun _ => hsuccess _) rfl
        ?_ hparse hs
      refine ⟨fun h => ⟨_, h.choose_spec⟩, ?_⟩
      rintro ⟨a, ha⟩
      cases a with
      | none => exact (hsome _ _ (Prod.ext ha rfl)).elim
      | some n => exact ⟨n, ha⟩
  | _ => exact h.elim

end Rules

section Requests

variable [DecidableEq Expr] {env : ServerEnv N Expr} {s : AppState N Expr}

def Request.Writes : Request → Prop
  | .transactionBegin _ | .transactionalQuery _ _ | .transactionalUpdate _ _
  | .transactionRollback _ => False
  | _ => True

/-- What each write logs, when it fails, and when it does what it logs. -/
def Request.plan (env : ServerEnv N Expr) (s : AppState N Expr) (request : Request) : WritePlan :=
  match request with
  | .update updateStr ifMatch => updatePlan env s updateStr ifMatch
  | .transactionCommit txId => commitPlan env s txId
  | request =>
    match request.graphWrite env s.store.store with
    | some outcome => graphWritePlan env s request outcome
    | none => rulesRequestPlan env s request

theorem Request.plan_describes (happend : env.Appends) (hparse : env.rules.Interns)
    {changelog : List ChangelogEntry} (hlog : s.changelog = some changelog)
    (hs : IriGraphs s.store.store) {request : Request} (hwrites : request.Writes) :
    (request.plan env s).Describes s (handle env s request) := by
  have hgraph {outcome : Except Response (GraphWrite N)}
      (h : request.graphWrite env s.store.store = some outcome) :
      (graphWritePlan env s request outcome).Describes s (handle env s request) := by
    rw [handle_graphWrite env s h]
    exact answer_describes happend hlog hs.interned h
  have hrules (h : request.OnRules) :
      (rulesRequestPlan env s request).Describes s (handle env s request) :=
    rulesRequest_describes happend hlog hparse hs.interned h
  cases request with
  | update updateStr ifMatch => exact runUpdate_describes happend hlog hs updateStr ifMatch
  | transactionCommit txId => exact transactionCommit_describes env s txId
  | gspPut | gspPost | gspDelete => exact hgraph rfl
  | rulesPost | rulesIdPost | rulesIdDelete => exact hrules trivial
  | _ => exact hwrites.elim

/-- A write that fails leaves changelog and memory in step exactly if what it logged says nothing
new, and one that succeeds does if it does what it logs. -/
theorem handle_durable {origin : Datastore N} (happend : env.Appends)
    (hparse : env.rules.Interns) (horigin : origin.Interned) {changelog : List ChangelogEntry}
    (hlog : s.changelog = some changelog) (hs : IriGraphs s.store.store)
    (hstart : s.replayed origin = s.asserted) {request : Request} (hwrites : request.Writes) :
    let plan := request.plan env s
    (plan.fails →
      (Durable env origin s request ↔ replay s.asserted plan.logged = s.asserted)) ∧
    (¬ plan.fails → plan.keeps → Durable env origin s request) := by
  intro plan
  obtain ⟨hsuccess, hlogs, hasserts⟩ := request.plan_describes happend hparse hlog hs hwrites
  have hreplay := AppState.replayed_append horigin hlogs
  rw [hstart] at hreplay
  rw [Durable]
  dsimp only
  rw [hreplay]
  constructor
  · intro hfails
    have hno : ¬ (handle env s request).1.Success := fun hok => hsuccess.mp hok hfails
    exact ⟨fun h => h.2 hno, fun h => ⟨fun hok => absurd hok hno, fun _ => h⟩⟩
  · intro hok hkeeps
    have hasserted := hasserts hok hkeeps
    exact ⟨fun _ => hasserted.symm, fun hno => absurd (hsuccess.mpr hok) hno⟩

end Requests

section Sample

/-- The store of one quad, with a changelog. -/
def loggedState : AppState NativeTypes.text Empty := ⟨⟨sampleStore, 0⟩, none, ∅, ∅, some []⟩

/-- A DELETE of the default graph survives a restart. -/
theorem handle_durable_delete :
    (handle dataServer loggedState (.gspDelete ⟨true, none⟩)).1 = .noContent ∧
      Durable dataServer sampleStore loggedState (.gspDelete ⟨true, none⟩) := by
  have hstart : loggedState.replayed sampleStore = loggedState.asserted := by decide
  have happend : dataServer.Appends := fun _ _ => rfl
  have hparse : dataServer.rules.Interns := fun _ _ => .refl _
  have hlog : loggedState.changelog = some [] := rfl
  have hwrites : (Request.gspDelete ⟨true, none⟩).Writes := trivial
  have hdurable := handle_durable happend hparse sampleStore_interned hlog sampleStore_iriGraphs
    hstart hwrites
  refine ⟨by decide, hdurable.2 ?_ ?_⟩
  · rintro ⟨programs, e, hnone, -⟩
    cases hnone
  · refine ⟨trivial, fun q hq => ?_⟩
    cases hq

/-- A committed transaction is not logged: its insertion is lost at the next restart. -/
theorem transactionCommit_not_durable :
    let s := serve dataServer ⟨⟨.new, 0⟩, none, ∅, ∅, some []⟩
      [.transactionBegin "a", .transactionalUpdate "insert" "a"]
    s.replayed .new = s.asserted ∧ (handle dataServer s (.transactionCommit "a")).1 = .noContent ∧
      ¬ Durable dataServer .new s (.transactionCommit "a") := by
  intro s
  have hstatus : (handle dataServer s (.transactionCommit "a")).1 = .noContent := by
    decide
  have hlost : (handle dataServer s (.transactionCommit "a")).2.replayed .new ≠
      (handle dataServer s (.transactionCommit "a")).2.asserted := by decide
  have hok : (handle dataServer s (.transactionCommit "a")).1.Success :=
    hstatus ▸ Response.noContent_success
  exact ⟨by decide, hstatus, fun h => hlost (h.1 hok)⟩

end Sample

end RdfDatalog.Endpoint
