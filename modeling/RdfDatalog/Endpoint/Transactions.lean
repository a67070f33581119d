import RdfDatalog.Endpoint.SparqlUpdate

namespace RdfDatalog

variable {N : NativeTypes}

/-- The dataset with its write counter, which goes up by one at each write of quads through the
dataset and is what clients see as the version of the data. -/
@[ext] structure VersionedStore (N : NativeTypes) where
  store : Datastore N
  generation : Nat

namespace VersionedStore

/-- The stored quads, derived ones included. -/
def quads (v : VersionedStore N) : Set Quad := v.store.namedGraphs.quads

def addQuad (v : VersionedStore N) (q : Quad) : VersionedStore N :=
  ⟨v.store.addQuad q, v.generation + 1⟩

def removeQuad (v : VersionedStore N) (q : Quad) : VersionedStore N :=
  ⟨v.store.removeQuad q, v.generation + 1⟩

def removeGraph (v : VersionedStore N) (graphId : GraphElementId) : VersionedStore N :=
  ⟨v.store.removeGraph graphId, v.generation + 1⟩

/-- Edit the quad table past the dataset, which leaves the counter alone. -/
def withNamedGraphs (v : VersionedStore N) (namedGraphs : QuadStore) : VersionedStore N :=
  { v with store := { v.store with namedGraphs } }

/-- Intern elements, which leaves the counter alone. -/
def withResources (v : VersionedStore N) (resources : GraphElementManager N) :
    VersionedStore N :=
  { v with store := { v.store with resources } }

theorem foldl_addQuad (v : VersionedStore N) (quads : List Quad) :
    quads.foldl addQuad v =
      ⟨quads.foldl Datastore.addQuad v.store, v.generation + quads.length⟩ := by
  induction quads generalizing v with
  | nil => rfl
  | cons q quads ih =>
    rw [List.foldl_cons, ih, List.length_cons, List.foldl_cons, addQuad]
    simp only [Nat.add_assoc, Nat.add_comm 1]

theorem foldl_removeQuad (v : VersionedStore N) (quads : List Quad) :
    quads.foldl removeQuad v =
      ⟨quads.foldl Datastore.removeQuad v.store, v.generation + quads.length⟩ := by
  induction quads generalizing v with
  | nil => rfl
  | cons q quads ih =>
    rw [List.foldl_cons, ih, List.length_cons, List.foldl_cons, removeQuad]
    simp only [Nat.add_assoc, Nat.add_comm 1]

/-- Where the set of stored quads changed, the counter went up. -/
structure Counted (v v' : VersionedStore N) : Prop where
  le : v.generation ≤ v'.generation
  same : v'.generation = v.generation → v'.quads = v.quads

@[refl] theorem Counted.refl (v : VersionedStore N) : v.Counted v := ⟨le_rfl, fun _ => rfl⟩

variable {v v' : VersionedStore N}

theorem Counted.trans {v'' : VersionedStore N} (h : v.Counted v') (h' : v'.Counted v'') :
    v.Counted v'' := by
  refine ⟨h.le.trans h'.le, fun heq => ?_⟩
  have hle := h.le
  have hle' := h'.le
  have hquads := h.same (by omega)
  have hquads' := h'.same (by omega)
  exact hquads'.trans hquads

theorem Counted.of_lt (h : v.generation < v'.generation) :
    v.Counted v' :=
  ⟨h.le, fun heq => absurd heq h.ne'⟩

theorem Counted.of_namedGraphs (hgeneration : v'.generation = v.generation)
    (hgraphs : v'.store.namedGraphs = v.store.namedGraphs) : v.Counted v' :=
  ⟨hgeneration.ge, fun _ => congrArg QuadStore.quads hgraphs⟩

theorem Counted.lt (h : v.Counted v') (hne : v'.quads ≠ v.quads) :
    v.generation < v'.generation :=
  lt_of_le_of_ne h.le fun heq => hne (h.same heq.symm)

theorem counted_foldl_addQuad (v : VersionedStore N) (quads : List Quad) :
    v.Counted (quads.foldl addQuad v) := by
  cases quads with
  | nil => exact .refl v
  | cons q quads =>
    rw [foldl_addQuad]
    exact .of_lt (Nat.lt_add_of_pos_right (Nat.succ_pos _))

theorem counted_foldl_removeQuad (v : VersionedStore N) (quads : List Quad) :
    v.Counted (quads.foldl removeQuad v) := by
  cases quads with
  | nil => exact .refl v
  | cons q quads =>
    rw [foldl_removeQuad]
    exact .of_lt (Nat.lt_add_of_pos_right (Nat.succ_pos _))

theorem counted_removeGraph (v : VersionedStore N) (graphId : GraphElementId) :
    v.Counted (v.removeGraph graphId) :=
  .of_lt (Nat.lt_succ_self _)

end VersionedStore

end RdfDatalog

namespace RdfDatalog.Endpoint

variable {N : NativeTypes}

/-- A transaction that is not committed yet: the generation of the store when it began, and the
quads to insert and to delete at the commit. -/
structure OpenTransaction where
  snapshotGeneration : Nat
  pendingInserts : List Quad
  pendingDeletes : List Quad
  deriving DecidableEq

abbrev TransactionRegistry := AList (fun _ : String => OpenTransaction)

/-- Open a transaction; the source draws the id at random. -/
def beginTransaction (registry : TransactionRegistry) (txId : String) (generation : Nat) :
    TransactionRegistry :=
  registry.insert txId ⟨generation, [], []⟩

/-- Collect the quads of the data blocks of one transactional request, without touching the stored
quads. Any other operation is refused. -/
def collectData (st : Pending N) : List (PreparedOp N) → Except (Datastore N) (Pending N)
  | [] => .ok st
  | .insertData tmp :: ops =>
    let (store, quads) := translateToMainIds st.store tmp
    collectData { st with store, inserts := st.inserts ++ quads } ops
  | .deleteData tmp :: ops =>
    let (store, quads) := translateToMainIds st.store tmp
    let candidates := quads.filter fun q =>
      store.namedGraphs.contains q || st.inserts.contains q
    collectData { st with store, deletes := st.deletes ++ candidates } ops
  | _ :: _ => .error st.store

namespace OpenTransaction

def buffer (tx : OpenTransaction) (st : Pending N) : OpenTransaction :=
  let allPendingInserts := tx.pendingInserts ++ st.inserts
  { tx with
    pendingInserts := allPendingInserts
    pendingDeletes := tx.pendingDeletes ++ st.deletes.filter fun q =>
      st.store.namedGraphs.contains q || allPendingInserts.contains q }

/-- What a query inside the transaction runs on: the live store under the buffered changes. -/
def view (tx : OpenTransaction) (store : Datastore N) : Datastore N :=
  { store with
    namedGraphs := tx.pendingDeletes.foldl QuadStore.removeQuad
      (tx.pendingInserts.foldl QuadStore.addQuad store.namedGraphs) }

def netDeletes (tx : OpenTransaction) (store : Datastore N) : List Quad :=
  tx.pendingDeletes.filter store.namedGraphs.contains

/-- The buffered insertions that no such deletion cancels. -/
def netInserts (tx : OpenTransaction) (store : Datastore N) : List Quad :=
  tx.pendingInserts.filter fun q => !(tx.netDeletes store).contains q

/-- Write the net changes, deletions first. An empty commit is a write too. -/
def write (tx : OpenTransaction) (v : VersionedStore N) : VersionedStore N :=
  let deletes := tx.netDeletes v.store
  let inserts := tx.netInserts v.store
  let written := inserts.foldl VersionedStore.addQuad (deletes.foldl VersionedStore.removeQuad v)
  if inserts.isEmpty && deletes.isEmpty then
    { written with generation := written.generation + 1 }
  else written

variable (tx : OpenTransaction)

theorem mem_netDeletes (store : Datastore N) (q : Quad) :
    q ∈ tx.netDeletes store ↔ q ∈ tx.pendingDeletes ∧ q ∈ store.namedGraphs := by
  rw [netDeletes, List.mem_filter, QuadStore.contains_iff]

theorem mem_netInserts (store : Datastore N) (q : Quad) :
    q ∈ tx.netInserts store ↔
      q ∈ tx.pendingInserts ∧ ¬ (q ∈ tx.pendingDeletes ∧ q ∈ store.namedGraphs) := by
  rw [netInserts, List.mem_filter, ← mem_netDeletes]
  simp

theorem write_store (v : VersionedStore N) :
    (tx.write v).store = (tx.netInserts v.store).foldl Datastore.addQuad
      ((tx.netDeletes v.store).foldl Datastore.removeQuad v.store) := by
  rw [write]
  rw [VersionedStore.foldl_removeQuad, VersionedStore.foldl_addQuad]
  split_ifs
  · rfl
  · rfl

theorem generation_lt_write (v : VersionedStore N) :
    v.generation < (tx.write v).generation := by
  rw [write]
  rw [VersionedStore.foldl_removeQuad, VersionedStore.foldl_addQuad]
  split_ifs with h
  · show v.generation < v.generation + _ + _ + 1
    omega
  · rw [Bool.and_eq_true, List.isEmpty_iff, List.isEmpty_iff] at h
    show v.generation < v.generation + _ + _
    by_cases hdeletes : tx.netDeletes v.store = []
    · have hinserts := List.length_pos_iff.mpr fun hi => h ⟨hi, hdeletes⟩
      omega
    · have hpos := List.length_pos_iff.mpr hdeletes
      omega

end OpenTransaction

end RdfDatalog.Endpoint
