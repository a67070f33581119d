import RdfDatalog.Endpoint.NamesKept

namespace RdfDatalog.Endpoint

open GraphElementManager

variable {N : NativeTypes} {Expr : Type}

/-- The rows of the query do not depend on names that were interned later than the stored quads. -/
def ServerEnv.IgnoresNewNames (env : ServerEnv N Expr) (queryStr : String) : Prop :=
  ∀ namedGraphs (resources later : GraphElementManager N), resources.Extends later →
    env.evalQuery ⟨namedGraphs, later⟩ queryStr = env.evalQuery ⟨namedGraphs, resources⟩ queryStr

theorem runTransactionalQuery_of_lookup {env : ServerEnv N Expr} {s : AppState N Expr}
    {txId : String} {tx : OpenTransaction} (htx : s.transactions.lookup txId = some tx)
    (queryStr : String) : runTransactionalQuery env s queryStr txId =
      env.evalQuery (tx.view s.store.store) queryStr := by
  rw [runTransactionalQuery, htx]

variable [DecidableEq Expr]

/-- No request from outside the transaction changes the stored quads. -/
def OthersQuiet (env : ServerEnv N Expr) (txId : String) (s : AppState N Expr)
    (requests : List Request) : Prop :=
  ∀ pre request suf, requests = pre ++ request :: suf → request.txId? ≠ some txId →
    (handle env (serve env s pre) request).2.store.store.namedGraphs =
      (serve env s pre).store.store.namedGraphs

section Runs

variable {env : ServerEnv N Expr} {s : AppState N Expr} {txId : String} {requests : List Request}
  {tx : OpenTransaction}

/-- Until it commits, a transaction leaves the stored quads as they are. -/
theorem handle_own {request : Request} (hown : request.txId? = some txId)
    (hopen : request ≠ .transactionCommit txId) :
    (handle env s request).2.store.store.namedGraphs = s.store.store.namedGraphs := by
  cases request with
  | transactionBegin => rfl
  | transactionalUpdate updateStr txId' =>
    rw [handle]
    rcases runTransactionalUpdate_cases env s updateStr txId' with
      heq | ⟨ops, prepared, entries, -, -, ⟨store, hcollect, heq⟩ | ⟨st, hcollect, heq⟩⟩
    · rw [heq]
    · rw [heq]
      exact collectData_namedGraphs.2 store hcollect
    · have hgraphs := collectData_namedGraphs.1 st hcollect
      rcases heq with heq | ⟨tx, -, heq⟩
      · rw [heq]
        exact hgraphs
      · rw [heq]
        exact hgraphs
  | transactionCommit txId' =>
    cases hown
    exact absurd rfl hopen
  | transactionRollback txId' =>
    rw [handle, transactionRollback]
    cases s.transactions.lookup txId' with
    | none => rfl
    | some tx => rfl
  | _ => cases hown

theorem serve_quiet (hquiet : OthersQuiet env txId s requests)
    (hopen : .transactionCommit txId ∉ requests) :
    (serve env s requests).store.store.namedGraphs = s.store.store.namedGraphs := by
  induction requests generalizing s with
  | nil => rfl
  | cons request requests ih =>
    rw [List.mem_cons, not_or] at hopen
    have hstep : (handle env s request).2.store.store.namedGraphs =
        s.store.store.namedGraphs := by
      by_cases hown : request.txId? = some txId
      · exact handle_own hown fun heq => hopen.1 heq.symm
      · exact hquiet [] request requests rfl hown
    refine (ih (s := (handle env s request).2) (fun pre request' suf hsplit hother => ?_)
      hopen.2).trans hstep
    exact hquiet (request :: pre) request' suf (congrArg (request :: ·) hsplit) hother

theorem serve_keepsNames (hparse : env.rules.Interns) (requests : List Request) :
    s.KeepsNames (serve env s requests) := by
  induction requests generalizing s with
  | nil => exact .of_eq rfl
  | cons request requests ih => exact (handle_keepsNames _ hparse request).trans ih

end Runs

section Sample

def storedState : AppState NativeTypes.text Empty :=
  ⟨⟨addOxQuad .new ⟨.namedNode "s'", "p", .namedNode "o", .defaultGraph⟩, 0⟩, none, ∅, ∅, none⟩

/-- Client A inserts a quad in its transaction, and client B the same in another one. -/
def twoTransactions : List Request :=
  [.transactionalUpdate "" "a", .transactionBegin "b", .transactionalUpdate "" "b"]

theorem othersQuiet_buffered {s : AppState NativeTypes.text Empty} {requests : List Request}
    (h : ∀ request ∈ requests, request.txId? = some "a" ∨ request.txId? = some "b" ∧
      request ≠ .transactionCommit "b") : OthersQuiet insertServer "a" s requests := by
  intro pre request suf hsplit hother
  have hmem : request ∈ requests := hsplit ▸ List.mem_append_right pre List.mem_cons_self
  obtain ⟨hb, hopen⟩ := (h request hmem).resolve_left hother
  exact handle_own hb hopen

end Sample

end RdfDatalog.Endpoint
