import RdfDatalog.Endpoint.LostUpdates
import RdfDatalog.Math.TransactionBuffer

namespace RdfDatalog.Endpoint

open DeltaBuffer DeltaBuffer.Buffer GraphElementManager

variable {N : NativeTypes} {Expr : Type}

/-- What a data block does, on resolved quads. -/
def UpdateOp.dataOp (trigParser : String → Except String (List OxQuad)) :
    UpdateOp → Option (DataOp (QuadResource N))
  | .insertData content prefixes =>
    (parseTurtleContent (N := N) trigParser content prefixes).toOption.map fun tmp =>
      .insert tmp.resolved
  | .deleteData content prefixes =>
    (parseTurtleContent (N := N) trigParser content prefixes).toOption.map fun tmp =>
      .delete tmp.resolved
  | _ => none

/-- The data blocks of a request, if it is made of data blocks that parse. -/
def requestData (env : ServerEnv N Expr) (updateStr : String) :
    Option (List (DataOp (QuadResource N))) :=
  match env.parseUpdate updateStr with
  | .error _ => none
  | .ok ops => ops.mapM (UpdateOp.dataOp env.trigParser)

/-- The prepared operation is the data block `op`. -/
def PreparedOp.Means : PreparedOp N → DataOp (QuadResource N) → Prop
  | .insertData tmp, .insert q => tmp.Interned ∧ tmp.resolved = q
  | .deleteData tmp, .delete q => tmp.Interned ∧ tmp.resolved = q
  | _, _ => False

variable {trigParser : String → Except String (List OxQuad)} {data : List (DataOp (QuadResource N))}

theorem prepareOp_means (dataset : String) (store : Datastore N) {op : UpdateOp}
    {data : DataOp (QuadResource N)} (h : op.dataOp trigParser = some data) :
    ∃ prepared entries, prepareOp trigParser dataset store op = .ok (prepared, entries) ∧
      prepared.Means data := by
  cases op with
  | insertData content prefixes | deleteData content prefixes =>
    rw [UpdateOp.dataOp] at h
    rw [prepareOp]
    cases hparse : parseTurtleContent (N := N) trigParser content prefixes with
    | error e =>
      rw [hparse] at h
      cases h
    | ok tmp =>
      rw [hparse] at h
      cases h
      exact ⟨_, _, rfl, parseTurtleContent_interned hparse, rfl⟩
  | _ => cases h

theorem prepareUpdate_means (dataset : String) (store : Datastore N) {ops : List UpdateOp}
    (h : ops.mapM (UpdateOp.dataOp trigParser) = some data) :
    ∃ prepared entries, prepareUpdate trigParser dataset store ops = .ok (prepared, entries) ∧
      List.Forall₂ PreparedOp.Means prepared data := by
  induction ops generalizing data with
  | nil =>
    cases h
    exact ⟨[], [], rfl, .nil⟩
  | cons op ops ih =>
    rw [List.mapM_cons] at h
    cases hop : op.dataOp (N := N) trigParser with
    | none =>
      rw [hop] at h
      cases h
    | some first =>
      rw [hop] at h
      cases hops : ops.mapM (UpdateOp.dataOp (N := N) trigParser) with
      | none =>
        rw [hops] at h
        cases h
      | some rest =>
        rw [hops] at h
        cases h
        obtain ⟨prepared, entries, hprepared, hmeans⟩ := prepareOp_means dataset store hop
        obtain ⟨prepareds, entries', hprepareds, hall⟩ := ih hops
        refine ⟨prepared :: prepareds, entries ++ entries', ?_, .cons hmeans hall⟩
        rw [prepareUpdate, hprepared]
        dsimp only
        rw [hprepareds]

theorem collectData_spec {st : Pending N} (h : st.Interned) {prepared : List (PreparedOp N)}
    (hmeans : List.Forall₂ PreparedOp.Means prepared data) :
    ∃ st', collectData st prepared = .ok st' ∧ st'.Interned ∧
      st'.store.namedGraphs = st.store.namedGraphs ∧
      st.store.resources.Extends st'.store.resources ∧
      st'.buffer = data.foldl (fun b op => b.apply op.effect) st.buffer := by
  induction hmeans generalizing st with
  | nil => exact ⟨st, rfl, h, rfl, Extends.refl _, rfl⟩
  | @cons op first prepared rest hop _ ih =>
    cases op with
    | insertData tmp =>
      cases first with
      | delete q => cases hop
      | insert q =>
        obtain ⟨htmp, rfl⟩ := hop
        have ht := translateToMainIds_spec st.store htmp
        obtain ⟨hstep, hbuffer⟩ := h.insertData_spec ht
        obtain ⟨st', hrun, hst', hgraphs, hext, heq⟩ := ih hstep
        refine ⟨st', hrun, hst', hgraphs.trans ht.namedGraphs, ht.extended.trans hext, ?_⟩
        rw [heq, List.foldl_cons, hbuffer]
        rfl
    | deleteData tmp =>
      cases first with
      | insert q => cases hop
      | delete q =>
        obtain ⟨htmp, rfl⟩ := hop
        have ht := translateToMainIds_spec st.store htmp
        obtain ⟨hstep, hbuffer⟩ := h.deleteData_spec ht
        obtain ⟨st', hrun, hst', hgraphs, hext, heq⟩ := ih hstep
        refine ⟨st', hrun, hst', hgraphs.trans ht.namedGraphs, ht.extended.trans hext, ?_⟩
        rw [heq, List.foldl_cons, hbuffer]
        rfl
    | _ => cases hop

theorem resolve_filter {m : GraphElementManager N} (quads : List Quad) {p : Quad → Bool}
    {P : QuadResource N → Prop} [DecidablePred P]
    (hp : ∀ q r, m.getResourceQuad q = some r → (p q = true ↔ P r)) :
    m.resolve (quads.filter p) = (m.resolve quads).filter P := by
  ext r
  simp only [mem_resolve, List.mem_filter, Finset.mem_filter]
  constructor
  · rintro ⟨q, ⟨hq, hpq⟩, hr⟩
    exact ⟨⟨q, hq, hr⟩, (hp q r hr).mp hpq⟩
  · rintro ⟨⟨q, hq, hr⟩, hP⟩
    exact ⟨q, ⟨hq, (hp q r hr).mpr hP⟩, hr⟩

namespace OpenTransaction

/-- The buffered changes over the live store. -/
def pending (tx : OpenTransaction) (store : Datastore N) : Pending N :=
  ⟨store, tx.pendingInserts, tx.pendingDeletes⟩

theorem view_resolved (tx : OpenTransaction) (store : Datastore N) :
    (tx.view store).resolved = (tx.pending store).buffer.view :=
  viewStore_resolved (tx.pending store)

theorem buffer_spec {tx : OpenTransaction} {store : Datastore N} {st : Pending N}
    (htx : (tx.pending store).Interned) (hst : st.Interned)
    (hgraphs : st.store.namedGraphs = store.namedGraphs)
    (hext : store.resources.Extends st.store.resources) :
    ((tx.buffer st).pending st.store).Interned ∧
      ((tx.buffer st).pending st.store).buffer = (tx.pending store).buffer.join st.buffer := by
  have hlive : st.store.resolved = store.resolved := resolved_extends htx.store hgraphs hext
  have hinserts : st.store.resources.resolve tx.pendingInserts =
      store.resources.resolve tx.pendingInserts := resolve_extends hext htx.inserts
  have hdeletes : st.store.resources.resolve tx.pendingDeletes =
      store.resources.resolve tx.pendingDeletes := resolve_extends hext htx.deletes
  have hins : st.store.resources.resolve (tx.pendingInserts ++ st.inserts) =
      store.resources.resolve tx.pendingInserts ∪ st.store.resources.resolve st.inserts := by
    rw [resolve_append, hinserts]
  have hdel : st.store.resources.resolve (tx.buffer st).pendingDeletes =
      store.resources.resolve tx.pendingDeletes ∪
        (st.store.resources.resolve st.deletes).filter fun r =>
          r ∈ store.resolved ∨ r ∈ store.resources.resolve tx.pendingInserts ∪
            st.store.resources.resolve st.inserts := by
    rw [buffer, resolve_append, hdeletes]
    refine congrArg (_ ∪ ·) (resolve_filter st.deletes fun q r hr => ?_)
    have hstored := @mem_resolve_iff_mem N _ q r st.store.namedGraphs.quadList hr
    have hinserted := @mem_resolve_iff_mem N _ q r (tx.pendingInserts ++ st.inserts) hr
    rw [← hlive, ← hins, Bool.or_eq_true, QuadStore.contains_iff, List.contains_eq_mem,
      decide_eq_true_eq]
    exact or_congr hstored.symm hinserted.symm
  refine ⟨⟨hst.store, fun q hq => ?_, fun q hq => ?_⟩, Buffer.ext hlive hins hdel⟩
  · rcases List.mem_append.mp hq with hq | hq
    · exact (htx.inserts q hq).extends hext
    · exact hst.inserts q hq
  · rcases List.mem_append.mp hq with hq | hq
    · exact (htx.deletes q hq).extends hext
    · exact hst.deletes q (List.mem_filter.mp hq).1

theorem write_resolved (tx : OpenTransaction) (v : VersionedStore N) :
    (tx.write v).store.resolved = (tx.pending v.store).buffer.committed := by
  have hmem (q : Quad) : q ∈ (tx.write v).store.namedGraphs ↔
      (q ∈ v.store.namedGraphs ∧ q ∉ tx.pendingDeletes) ∨
        (q ∈ tx.pendingInserts ∧ ¬ (q ∈ tx.pendingDeletes ∧ q ∈ v.store.namedGraphs)) := by
    rw [write_store, foldl_addQuad_namedGraphs, foldl_removeQuad_namedGraphs,
      QuadStore.mem_foldl_addQuad, QuadStore.mem_foldl_removeQuad, mem_netDeletes, mem_netInserts]
    tauto
  have hresources : (tx.write v).store.resources = v.store.resources := by
    rw [write_store, foldl_addQuad_resources, foldl_removeQuad_resources]
  ext r
  have hcommitted : r ∈ (tx.pending v.store).buffer.committed ↔
      (r ∈ v.store.resolved ∧ r ∉ v.store.resources.resolve tx.pendingDeletes) ∨
        (r ∈ v.store.resources.resolve tx.pendingInserts ∧
          ¬ (r ∈ v.store.resources.resolve tx.pendingDeletes ∧ r ∈ v.store.resolved)) := by
    rw [committed, Finset.mem_union, Finset.mem_sdiff, Finset.mem_filter]
    rfl
  rw [hcommitted, Datastore.resolved, hresources]
  by_cases hr : ∃ q, v.store.resources.getResourceQuad q = some r
  · obtain ⟨q, hq⟩ := hr
    have hlist (quads : List Quad) : r ∈ v.store.resources.resolve quads ↔ q ∈ quads :=
      mem_resolve_iff_mem hq
    rw [Datastore.resolved, hlist, hlist, hlist, hlist]
    exact hmem q
  · have hno (quads : List Quad) : r ∉ v.store.resources.resolve quads := by
      intro hmem
      obtain ⟨q, -, hq⟩ := mem_resolve.mp hmem
      exact hr ⟨q, hq⟩
    refine iff_of_false (hno _) ?_
    rintro (⟨h, -⟩ | ⟨h, -⟩)
    · exact hno _ h
    · exact hno _ h

end OpenTransaction

section Runs

variable {env : ServerEnv N Expr} {s₀ s : AppState N Expr} {txId : String}

variable {data : List (DataOp (QuadResource N))}

variable (hread : env.readOnly = false)

include hread in
theorem runTransactionalUpdate_data {updateStr : String} {tx : OpenTransaction}
    (hdata : requestData env updateStr = some data)
    (htx : s.transactions.lookup txId = some tx) (hs : s.store.store.Interned) :
    ∃ st : Pending N, runTransactionalUpdate env s updateStr txId =
        (.text 200 "", { s.withStore st.store with
          transactions := s.transactions.insert txId (tx.buffer st) }) ∧
      st.Interned ∧ st.store.namedGraphs = s.store.store.namedGraphs ∧
      s.store.store.resources.Extends st.store.resources ∧
      st.buffer = collect s.store.store.resolved data := by
  rw [requestData] at hdata
  split at hdata
  · cases hdata
  · next ops hparse =>
    obtain ⟨prepared, entries, hprepared, hmeans⟩ :=
      prepareUpdate_means env.datasetName s.store.store hdata
    have hstart : (Pending.mk s.store.store [] []).Interned :=
      ⟨hs, fun q hq => (by cases hq), fun q hq => (by cases hq)⟩
    obtain ⟨st, hcollect, hst, hgraphs, hext, hbuffer⟩ := collectData_spec hstart hmeans
    refine ⟨st, ?_, hst, hgraphs, hext, hbuffer⟩
    rw [runTransactionalUpdate, hread, if_neg Bool.false_ne_true, hparse]
    dsimp only
    rw [hprepared]
    dsimp only
    rw [hcollect]
    dsimp only
    rw [htx]

/-- The dataset that a query inside the transaction runs on. -/
def AppState.transactionView (s : AppState N Expr) (txId : String) : Option (Datastore N) :=
  (s.transactions.lookup txId).map fun tx => tx.view s.store.store

/-- The transaction has buffered `requests` over the dataset of its beginning, which is still the
live one. -/
structure Buffering (s₀ s : AppState N Expr) (txId : String)
    (requests : List (List (DataOp (QuadResource N)))) : Prop where
  namedGraphs : s.store.store.namedGraphs = s₀.store.store.namedGraphs
  extended : s₀.store.store.resources.Extends s.store.store.resources
  generation : s.store.generation = s₀.store.generation
  reasoner : s.reasoner = none
  transaction : ∃ tx, s.transactions.lookup txId = some tx ∧
    tx.snapshotGeneration = s₀.store.generation ∧ (tx.pending s.store.store).Interned ∧
    (tx.pending s.store.store).buffer = buffered s₀.store.store.resolved requests

theorem Buffering.view {requests : List (List (DataOp (QuadResource N)))}
    (h : Buffering s₀ s txId requests) :
    ∃ view, s.transactionView txId = some view ∧
      view.resolved = (buffered s₀.store.store.resolved requests).view := by
  obtain ⟨tx, htx, -, -, hbuffer⟩ := h.transaction
  refine ⟨tx.view s.store.store, ?_, ?_⟩
  · rw [AppState.transactionView, htx]
    rfl
  · rw [tx.view_resolved, hbuffer]

variable [DecidableEq Expr] {requests : List (List (DataOp (QuadResource N)))}

theorem buffering_begin (env : ServerEnv N Expr) (hs : s₀.store.store.Interned)
    (hreasoner : s₀.reasoner = none) (txId : String) :
    Buffering s₀ (handle env s₀ (.transactionBegin txId)).2 txId [] :=
  ⟨rfl, Extends.refl _, rfl, hreasoner, ⟨s₀.store.generation, [], []⟩, AList.lookup_insert _, rfl,
    ⟨hs, fun q hq => (by cases hq), fun q hq => (by cases hq)⟩, rfl⟩

include hread

theorem Buffering.update (h : Buffering s₀ s txId requests)
    {updateStr : String} (hdata : requestData env updateStr = some data) :
    Buffering s₀ (handle env s (.transactionalUpdate updateStr txId)).2 txId
      (requests ++ [data]) := by
  obtain ⟨tx, htx, hsnapshot, hpending, hbuffer⟩ := h.transaction
  obtain ⟨st, hrun, hst, hgraphs, hext, hcollect⟩ :=
    runTransactionalUpdate_data hread hdata htx hpending.store
  have hlive : s.store.store.resolved = s₀.store.store.resolved := by
    have hlive := congrArg Buffer.live hbuffer
    rwa [buffered_live] at hlive
  obtain ⟨hinterned, hjoin⟩ := tx.buffer_spec hpending hst hgraphs hext
  rw [handle, hrun]
  refine ⟨hgraphs.trans h.namedGraphs, h.extended.trans hext, h.generation, h.reasoner,
    tx.buffer st, AList.lookup_insert _, hsnapshot, hinterned, ?_⟩
  exact hjoin.trans (by rw [hbuffer, hcollect, hlive, buffered_append])

theorem Buffering.serve (h : Buffering s₀ s txId requests)
    {updates : List String} {more : List (List (DataOp (QuadResource N)))}
    (hdata : List.Forall₂ (fun updateStr data => requestData env updateStr = some data) updates
      more) :
    Buffering s₀ (serve env s (updates.map (.transactionalUpdate · txId))) txId
      (requests ++ more) := by
  induction hdata generalizing s requests with
  | nil =>
    rw [List.append_nil]
    exact h
  | @cons updateStr data updates more hfirst _ ih =>
    have hrest := ih (h.update hread hfirst)
    rwa [List.append_assoc] at hrest

theorem Buffering.commit (h : Buffering s₀ s txId requests) :
    (handle env s (.transactionCommit txId)).1 = .noContent ∧
      (handle env s (.transactionCommit txId)).2.store.store.resolved =
        (buffered s₀.store.store.resolved requests).committed := by
  obtain ⟨tx, htx, hsnapshot, -, hbuffer⟩ := h.transaction
  have hreasoner := h.reasoner
  have hgeneration : s.store.generation = tx.snapshotGeneration :=
    h.generation.trans hsnapshot.symm
  have hwrite := tx.write_resolved s.store
  obtain ⟨store, reasoner, rulesets, transactions, changelog⟩ := s
  dsimp only at htx hreasoner hgeneration hwrite hbuffer
  subst hreasoner
  rw [handle, transactionCommit, hread, if_neg Bool.false_ne_true]
  dsimp only
  rw [htx]
  dsimp only
  rw [if_neg (not_not.mpr hgeneration)]
  exact ⟨rfl, hwrite.trans (congrArg committed hbuffer)⟩

omit hread

/-- The reads after each request of a transaction, and its commit, are those of its data blocks in
order exactly when every request finds and leaves the quads so. -/
theorem transaction_sequential_iff (env : ServerEnv N Expr) (s : AppState N Expr) (txId : String)
    (updates : List String) (requests : List (List (DataOp (QuadResource N))))
    (hread : env.readOnly = false) (hreasoner : s.reasoner = none)
    (hs : s.store.store.Interned)
    (hdata : List.Forall₂ (fun updateStr data => requestData env updateStr = some data) updates
      requests) :
    let after (n : Nat) := serve env s
      (.transactionBegin txId :: (updates.take n).map (.transactionalUpdate · txId))
    let commit := handle env (after updates.length) (.transactionCommit txId)
    commit.1 = .noContent ∧
    (((∀ n, ∃ view, (after n).transactionView txId = some view ∧
          view.resolved = DataOp.runAll s.store.store.resolved (requests.take n).flatten) ∧
        commit.2.store.store.resolved =
          DataOp.runAll s.store.store.resolved requests.flatten) ↔
      ∀ n data, requests[n]? = some data →
        InOrder s.store.store.resolved (requests.take n).flatten data) := by
  intro after commit
  have hafter (n : Nat) : Buffering s (after n) txId (requests.take n) :=
    (buffering_begin env hs hreasoner txId).serve hread (List.forall₂_take n hdata)
  have hall := hafter updates.length
  rw [hdata.length_eq, List.take_length, ← hdata.length_eq] at hall
  obtain ⟨hstatus, hcommit⟩ := hall.commit hread
  refine ⟨hstatus, ?_⟩
  rw [← buffered_sequential_iff_take, hcommit]
  refine and_congr_left fun _ => forall_congr' fun n => ?_
  obtain ⟨view, hview, hresolved⟩ := (hafter n).view
  rw [← hresolved]
  constructor
  · intro ⟨view', hview', heq⟩
    rw [hview] at hview'
    cases hview'
    exact heq
  · exact fun heq => ⟨view, hview, heq⟩

end Runs

section Sample

/-- The store that holds the sample quad. -/
def oneQuadState : AppState NativeTypes.text Empty := ⟨⟨sampleStore, 0⟩, none, ∅, ∅, none⟩

theorem transaction_sequential_iff_insert : ∃ data,
    requestData dataServer "insert" = some data ∧
      (handle dataServer (serve dataServer oneQuadState
        [.transactionBegin "a", .transactionalUpdate "insert" "a"])
          (.transactionCommit "a")).1 = .noContent := by
  have hsome : (requestData dataServer "insert").isSome = true := by decide
  obtain ⟨data, hdata⟩ := Option.isSome_iff_exists.mp hsome
  exact ⟨data, hdata, (transaction_sequential_iff dataServer oneQuadState "a" ["insert"] [data] rfl
    rfl sampleStore_interned (.cons hdata .nil)).1⟩

/-- A stored quad that a transaction deletes and then inserts again is gone after its commit. -/
theorem transaction_drops_reinserted : ∃ data data',
    requestData dataServer "delete" = some data ∧ requestData dataServer "insert" = some data' ∧
    let commit := handle dataServer (serve dataServer oneQuadState
      [.transactionBegin "a", .transactionalUpdate "delete" "a",
        .transactionalUpdate "insert" "a"]) (.transactionCommit "a")
    commit.1 = .noContent ∧ commit.2.store.store.resolved ≠
      DataOp.runAll oneQuadState.store.store.resolved (data ++ data') := by
  obtain ⟨data, hdelete, data', hinsert, h⟩ : ∃ data ∈ requestData dataServer "delete",
      ∃ data' ∈ requestData dataServer "insert",
        let commit := handle dataServer (serve dataServer oneQuadState
          [.transactionBegin "a", .transactionalUpdate "delete" "a",
            .transactionalUpdate "insert" "a"]) (.transactionCommit "a")
        commit.1 = .noContent ∧ commit.2.store.store.resolved ≠
          DataOp.runAll oneQuadState.store.store.resolved (data ++ data') := by decide
  exact ⟨data, data', hdelete, hinsert, h⟩

end Sample

end RdfDatalog.Endpoint
