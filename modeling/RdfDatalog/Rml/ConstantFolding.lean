import RdfDatalog.Rml.TermGeneration

namespace RdfDatalog.Rml

variable {N : NativeTypes}

section Rows

/-- Folding makes an IRI of this logic that evaluation would reject. -/
def GenerationLogic.foldsRejected (logic : GenerationLogic N) : Bool :=
  match logic with
  | .dynamic ⟨.template t, .iri, _, _⟩ => '\x7b' ∉ t.toList ∧ isValidIriScheme t = false
  | _ => false

variable {functions : StringFunctions} {logic : GenerationLogic N} {attrs : Attrs N}

theorem evalLogic_foldLogic (h : logic.foldsRejected = false) (row : SourceRow) (ds : Datastore N) :
    evalLogic functions (foldLogic logic) row ds = evalLogic functions logic row ds := by
  match logic with
  | .constant _ | .function _ | .dynamic ⟨.reference _, _, _, _⟩ => rfl
  | .dynamic ⟨.template t, termType, language, datatype⟩ =>
    rw [foldLogic]
    dsimp only
    split_ifs with hbrace htype
    · rfl
    · obtain rfl : termType = .iri := htype
      have hscheme : isValidIriScheme t = true := by
        simpa [GenerationLogic.foldsRejected, hbrace] using h
      have hopen : t.toList.dropWhile (· ≠ '\x7b') = [] :=
        List.dropWhile_eq_nil_iff.mpr fun c hc => by
          simpa using fun heq : c = '\x7b' => hbrace (heq ▸ hc)
      rw [evalLogic, evalLogic, evalFormatFunction, FormatFunction.lexical]
      simp only [expandTemplate_plain row _ hopen, String.ofList_toList, internTerm,
        hscheme, if_true]
    · rfl

/-- The attribute for `target` is folded to an IRI that evaluation would reject. -/
def Rejected (attrs : Attrs N) (target : OutputAttr) : Prop :=
  ∃ a ∈ attrs.find? (·.1 = target), a.2.foldsRejected = true

def foldAttrs (attrs : Attrs N) : Attrs N := attrs.map fun a => (a.1, foldLogic a.2)

theorem evalAttr_foldAttrs {target : OutputAttr} (h : ¬ Rejected attrs target) (row : SourceRow)
    (ds : Datastore N) :
    evalAttr functions (foldAttrs attrs) target row ds =
      evalAttr functions attrs target row ds := by
  have hfind : (foldAttrs attrs).find? (·.1 = target) =
      (attrs.find? (·.1 = target)).map fun a => (a.1, foldLogic a.2) := List.find?_map ..
  rw [evalAttr, evalAttr, hfind]
  cases ha : attrs.find? (·.1 = target) with
  | none => rfl
  | some a =>
    have hkept : a.2.foldsRejected = false := Bool.eq_false_iff.mpr fun hr => h ⟨a, ha, hr⟩
    exact evalLogic_foldLogic hkept row ds

/-- The row comes to no attribute that is folded to a rejected IRI; it comes to the graph only if
it has a subject, a predicate and an object. -/
structure RowChecked (functions : StringFunctions) (attrs : Attrs N)
    (childRow parentRow : SourceRow) : Prop where
  subject : ¬ Rejected attrs .subject
  predicate : ¬ Rejected attrs .predicate
  object : ¬ Rejected attrs .object
  graph : ∀ ds : Datastore N,
    let s := evalAttr functions attrs .subject childRow ds
    let p := evalAttr functions attrs .predicate childRow s.1
    let o := evalAttr functions attrs .object parentRow p.1
    s.2.isSome → p.2.isSome → o.2.isSome → ¬ Rejected attrs .graph

theorem executeJoinRow_foldAttrs {childRow parentRow : SourceRow}
    (h : RowChecked functions attrs childRow parentRow) (ds : Datastore N) :
    executeJoinRow functions (foldAttrs attrs) childRow parentRow ds =
      executeJoinRow functions attrs childRow parentRow ds := by
  have hgraph := h.graph ds
  dsimp only at hgraph
  rw [executeJoinRow, executeJoinRow]
  simp only [evalAttr_foldAttrs h.subject, evalAttr_foldAttrs h.predicate,
    evalAttr_foldAttrs h.object]
  split
  · rename_i s p o hs hp ho
    rw [hs, hp, ho] at hgraph
    rw [evalAttr_foldAttrs (hgraph rfl rfl rfl)]
  · rfl

end Rows

section Plans

variable {functions : StringFunctions} {sources : Sources}

/-- The rows under a projection, as pairs of a child row and a parent row. -/
def inputRows (sources : Sources) : LogicalPlan N → Except RmlError (List (SourceRow × SourceRow))
  | .scan scan => do
    let rows ← sources.scanRows scan
    return rows.map fun row => (row, row)
  | .join left right conditions algorithm =>
    if algorithm = .sqlPushdown then do
      let childRef ← sqlSourceRef left
      let parentRef ← sqlSourceRef right
      sources.runPushdown childRef parentRef conditions
    else
      match left, right with
      | .scan leftScan, .scan rightScan => do
        let parentRows ← sources.scanRows rightScan
        let childRows ← sources.scanRows leftScan
        return childRows.flatMap fun childRow =>
          (probe conditions parentRows childRow).map (childRow, ·)
      | _, _ => return []
  | .projection _ _ => return []

theorem executePlan_projection (input : LogicalPlan N) (attrs : Attrs N) (ds : Datastore N) :
    executePlan functions sources ds (.projection input attrs) = do
      let rows ← inputRows sources input
      return rows.foldl (fun ds row => executeJoinRow functions attrs row.1 row.2 ds) ds := by
  match input with
  | .projection _ _ => rfl
  | .scan scan =>
    rw [executePlan, inputRows]
    simp only [bind_assoc, pure_bind, List.foldl_map]
    rfl
  | .join left right conditions algorithm =>
    simp only [executePlan, executeJoin, inputRows]
    split_ifs
    · simp only [executeSqlPushdownJoin, bind_assoc]
    · cases left with
      | scan leftScan =>
        cases right with
        | scan rightScan =>
          simp only [bind_assoc, pure_bind, List.foldl_flatMap, List.foldl_map]
        | projection _ _ | join _ _ _ _ => rfl
      | projection _ _ | join _ _ _ _ => rfl

/-- No row of the plan comes to a rejected IRI. -/
def PlanChecked (functions : StringFunctions) (sources : Sources) : LogicalPlan N → Prop
  | .projection input attrs => ∀ rows, inputRows sources input = .ok rows →
    ∀ row ∈ rows, RowChecked functions attrs row.1 row.2
  | _ => True

theorem executePlan_foldPlan {plan : LogicalPlan N} (h : PlanChecked functions sources plan)
    (ds : Datastore N) :
    executePlan functions sources ds (foldPlan plan) = executePlan functions sources ds plan := by
  match plan, h with
  | .scan _, _ | .join _ _ _ _, _ => rfl
  | .projection input attrs, h =>
    rw [foldPlan, executePlan_projection, executePlan_projection]
    cases hrows : inputRows sources input with
    | error e => rfl
    | ok rows =>
      refine congrArg Except.ok (List.foldl_ext _ _ ds fun ds row hrow => ?_)
      exact executeJoinRow_foldAttrs (h rows hrows row hrow) ds

/-- Folding changes nothing in a run that comes to no rejected IRI. -/
theorem execute_constantFold (functions : StringFunctions) (sources : Sources)
    (plans : List (LogicalPlan N)) (ds : Datastore N)
    (h : ∀ pre plan post ds', plans = pre ++ plan :: post →
      execute functions sources pre ds = .ok ds' → PlanChecked functions sources plan) :
    execute functions sources (constantFold plans) ds = execute functions sources plans ds := by
  induction plans generalizing ds with
  | nil => rfl
  | cons plan plans ih =>
    have hplan := executePlan_foldPlan (h [] plan plans ds rfl rfl) ds
    rw [constantFold, List.map_cons, execute, execute, List.foldlM_cons, List.foldlM_cons, hplan]
    cases hrun : executePlan functions sources ds plan with
    | error e => rfl
    | ok ds₁ =>
      refine ih ds₁ fun pre plan' post ds' hplans hpre => ?_
      refine h (plan :: pre) plan' post ds' (by rw [hplans]; rfl) ?_
      rw [execute, List.foldlM_cons, hrun]
      exact hpre

/-- A subject with the template `t`. -/
def templateAttrs (t : String) : Attrs NativeTypes.text :=
  [(.subject, .dynamic ⟨.template t, .iri, none, none⟩),
    (.predicate, .constant (.iri "urn:p")), (.object, .constant (.iri "urn:o"))]

def templateSubject (t : String) : List (LogicalPlan NativeTypes.text) :=
  [.projection (.scan ⟨.file "a.csv", .csv, none⟩) (templateAttrs t)]

def noFunctions : StringFunctions := ⟨id, id, id⟩

def rowsOf (rows : List SourceRow) : Sources := ⟨fun _ => .ok rows, fun _ _ _ => .ok []⟩

/-- Without folding the row has no subject, with it there is a quad. -/
theorem constantFold_adds_quad :
    ∃ ds ds', execute noFunctions (rowsOf [fun _ => none]) (templateSubject "rel") .new = .ok ds ∧
      execute noFunctions (rowsOf [fun _ => none]) (constantFold (templateSubject "rel")) .new =
        .ok ds' ∧
      ds.namedGraphs.quadList.length = 0 ∧ ds'.namedGraphs.quadList.length = 1 := by
  refine ⟨_, _, rfl, rfl, ?_, by decide⟩
  have hlexical : (⟨.template "rel", .iri, none, none⟩ : FormatFunction).lexical (fun _ => none) =
      some "rel" := expandTemplate_plain _ _ (by decide)
  have hsubject :
      evalAttr noFunctions (templateAttrs "rel") .subject (fun _ => none) .new = (.new, none) := by
    change evalFormatFunction _ _ _ = _
    rw [evalFormatFunction, hlexical]
    rfl
  show (executeRow noFunctions (templateAttrs "rel") _ .new).namedGraphs.quadList.length = 0
  rw [executeRow, hsubject]
  decide

theorem execute_constantFold_absolute :
    ∃ ds, execute noFunctions (rowsOf [fun _ => none]) (templateSubject "urn:s") .new = .ok ds ∧
      ds.namedGraphs.quadList.length = 1 := by
  have hfold := execute_constantFold noFunctions (rowsOf [fun _ => none]) (templateSubject "urn:s")
    .new fun pre plan post ds' hplans _ => by
      have hmem : plan ∈ templateSubject "urn:s" := hplans ▸ List.mem_append_right _ (.head post)
      rw [templateSubject, List.mem_singleton] at hmem
      subst hmem
      intro rows hrows row hrow
      cases hrows
      refine ⟨?_, ?_, ?_, fun _ _ _ _ => ?_⟩
      all_goals rintro ⟨a, ha, hr⟩; cases ha
      all_goals revert hr; decide
  exact ⟨_, hfold.symm.trans rfl, by decide⟩

end Plans

end RdfDatalog.Rml
