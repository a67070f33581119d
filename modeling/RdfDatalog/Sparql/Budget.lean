import RdfDatalog.Sparql.Evaluation

namespace RdfDatalog.Sparql

variable {N : NativeTypes}

section Cut

variable {α β : Type} {b : Nat} {xs ys : List α}

/-- `xs` is `ys`, or a prefix of it with at least `b` elements. -/
def Cut (b : Nat) (xs ys : List α) : Prop := xs <+: ys ∧ (xs = ys ∨ b ≤ xs.length)

theorem Cut.refl (b : Nat) (xs : List α) : Cut b xs xs := ⟨List.prefix_rfl, .inl rfl⟩

theorem cut_take (b : Nat) (ys : List α) : Cut b (ys.take b) ys := by
  refine ⟨List.take_prefix b ys, ?_⟩
  rcases Nat.le_total b ys.length with h | h
  · right
    rw [List.length_take, Nat.min_eq_left h]
  · left
    exact List.take_of_length_le h

variable (h : Cut b xs ys)

include h

theorem Cut.take_eq : xs.take b = ys.take b := by
  obtain ⟨⟨tail, rfl⟩, heq | hlen⟩ := h
  · rw [← heq]
  · rw [List.take_append_of_le_length hlen]

theorem Cut.isEmpty_eq (hb : 0 < b) : xs.isEmpty = ys.isEmpty := by
  obtain ⟨⟨tail, rfl⟩, heq | hlen⟩ := h
  · rw [← heq]
  · cases xs with
    | nil => exact absurd hlen (by simp; omega)
    | cons x xs => rfl

theorem Cut.map (f : α → β) : Cut b (xs.map f) (ys.map f) := by
  obtain ⟨hfront, heq⟩ := h
  refine ⟨hfront.map f, ?_⟩
  rw [List.length_map]
  exact heq.imp_left (congrArg _)

theorem Cut.append_right {zs : List α} (hlen : b ≤ xs.length) :
    Cut b xs (ys ++ zs) :=
  ⟨h.1.trans (List.prefix_append ys zs), .inr hlen⟩

theorem Cut.drop_take {m n : Nat} (hb : n + m ≤ b) :
    (xs.drop n).take m = (ys.drop n).take m := by
  have htake : xs.take (n + m) = ys.take (n + m) := by
    have hcut := congrArg (List.take (n + m)) h.take_eq
    rwa [List.take_take, List.take_take, Nat.min_eq_left hb] at hcut
  rw [List.take_drop, List.take_drop, htake]

omit h

theorem cut_filterMap_take (f : α → Option β)
    (h : (∀ x ∈ ys, (f x).isSome) ∨ ∀ x ∈ ys, f x = none) :
    Cut b ((ys.take b).filterMap f) (ys.filterMap f) := by
  rcases h with h | h
  · refine ⟨(List.take_prefix b ys).filterMap f, ?_⟩
    rcases Nat.le_total b ys.length with hlen | hlen
    · right
      have hall : ((ys.take b).filterMap f).length = (ys.take b).length :=
        List.filterMap_length_eq_length.mpr fun x hx => h x (List.mem_of_mem_take hx)
      rw [hall, List.length_take, Nat.min_eq_left hlen]
    · left
      rw [List.take_of_length_le hlen]
  · have hnil := List.filterMap_eq_nil_iff.mpr h
    have htake : (ys.take b).filterMap f = [] :=
      List.filterMap_eq_nil_iff.mpr fun x hx => h x (List.mem_of_mem_take hx)
    rw [hnil, htake]
    exact Cut.refl b []

end Cut

section Pattern

variable {ds : Datastore N} {sub : PartialSub N} {tp : TriplePattern N} {ag : ActiveGraph}

theorem collectSolutions_some (extend : Quad → Option (PartialSub N)) {b : Nat} (hb : 0 < b)
    (quads : List Quad) :
    collectSolutions extend (some b) quads = (quads.filterMap extend).take b := by
  induction quads generalizing b with
  | nil => simp [collectSolutions]
  | cons quad quads ih =>
    rw [collectSolutions, List.filterMap_cons]
    cases extend quad with
    | none => exact ih hb
    | some r =>
      obtain ⟨n, rfl⟩ := Nat.exists_eq_succ_of_ne_zero hb.ne'
      rw [List.take_succ_cons]
      by_cases hn : n.succ ≤ 1
      · have hzero : n = 0 := by omega
        simp [hzero]
      · simp only [hn, if_false, Nat.succ_sub_one]
        rw [ih (by omega)]

variable {val : PartialSubValue N}

theorem psvEq_of_toId {id : GraphElementId} (h : val.toId ds = some id) :
    psvEq ds val (.interned id) = true := by
  cases val with
  | interned x =>
    obtain rfl : x = id := Option.some.inj h
    simp [psvEq]
  | computed gel =>
    have hget := (ds.resources.exact gel id).mp h
    exact decide_eq_true hget.symm

theorem psvEq_of_toId_eq_none (h : val.toId ds = none) (id : GraphElementId) :
    psvEq ds val (.interned id) = false := by
  cases val with
  | interned x => cases h
  | computed gel =>
    have hget : ds.resources.getGraphElement id ≠ some gel := by
      intro hget
      rw [PartialSubValue.toId, (ds.resources.exact gel id).mpr hget] at h
      cases h
    exact decide_eq_false fun heq => hget heq.symm

theorem bindVariable_lookup_of_ne {v w : String} {r : PartialSub N}
    (h : bindVariable ds sub v val = some r) (hw : w ≠ v) : r.lookup w = sub.lookup w := by
  have hr : r = sub.insert v val := by
    rw [bindVariable] at h
    split at h
    · split_ifs at h
      exact (Option.some.inj h).symm
    · exact (Option.some.inj h).symm
  rw [hr, Finmap.lookup_insert_of_ne _ hw]

theorem bindTerm_of_fits {T : Term N} {id : GraphElementId} {sub' : PartialSub N}
    (hsame : ∀ v, T = .var v → sub'.lookup v = sub.lookup v)
    (hnever : resolveMatchTerm ds sub T ≠ .never)
    (hfit : ∀ x ∈ (resolveMatchTerm ds sub T).intoQueryArg, id = x) :
    ∃ r, bindTerm ds id sub' T = some r ∧ ∀ w, T ≠ .var w → r.lookup w = sub'.lookup w := by
  cases T with
  | var v =>
    have hbind : ∃ r, bindVariable ds sub' v (.interned id) = some r := by
      rw [bindVariable, hsame v rfl]
      rw [resolveMatchTerm] at hnever hfit
      cases hv : sub.lookup v with
      | none => exact ⟨_, rfl⟩
      | some val =>
        rw [hv] at hnever hfit
        cases hid : val.toId ds with
        | none =>
          simp only [hid] at hnever
          exact absurd rfl hnever
        | some x =>
          simp only [hid] at hfit
          have hx : id = x := hfit x rfl
          have heq := psvEq_of_toId (hid.trans (congrArg some hx.symm))
          exact ⟨_, if_pos heq⟩
    obtain ⟨r, hr⟩ := hbind
    refine ⟨r, hr, fun w hw => ?_⟩
    exact bindVariable_lookup_of_ne hr fun h => hw (congrArg Term.var h.symm)
  | constant | tripleTerm => exact ⟨sub', rfl, fun _ _ => rfl⟩

theorem names_of_not_repeats (h : patternRepeatsVariable tp ag = false) :
    (∀ v, tp.subject = .var v → tp.predicate ≠ .var v ∧ tp.object ≠ .var v ∧ ag ≠ .var v) ∧
      (∀ v, tp.predicate = .var v → tp.object ≠ .var v ∧ ag ≠ .var v) ∧
        ∀ v, tp.object = .var v → ag ≠ .var v := by
  obtain ⟨s, p, o⟩ := tp
  rw [patternRepeatsVariable.eq_def, decide_eq_false_iff_not, not_not] at h
  refine ⟨fun v hs => ⟨fun hp => ?_, fun ho => ?_, fun hg => ?_⟩,
    fun v hp => ⟨fun ho => ?_, fun hg => ?_⟩, fun v ho hg => ?_⟩
  · cases hs
    cases hp
    simp at h
  · cases hs
    cases ho
    cases p <;> simp at h
  · cases hs
    cases hg
    cases p <;> cases o <;> simp at h
  · cases hp
    cases ho
    cases s <;> simp at h
  · cases hp
    cases hg
    cases s <;> cases o <;> simp at h
  · cases ho
    cases hg
    cases s <;> cases p <;> simp at h

/-- The solution of a quad. -/
def extend (ds : Datastore N) (ag : ActiveGraph) (tp : TriplePattern N) (sub : PartialSub N)
    (quad : Quad) : Option (PartialSub N) :=
  (bindTerm ds quad.subject sub tp.subject).bind fun sub =>
    (bindTerm ds quad.predicate sub tp.predicate).bind fun sub =>
      (bindTerm ds quad.obj sub tp.object).bind fun sub => bindGraph ds quad.tripleId sub ag

theorem extend_of_fits (hrep : patternRepeatsVariable tp ag = false)
    (hns : resolveMatchTerm ds sub tp.subject ≠ .never)
    (hnp : resolveMatchTerm ds sub tp.predicate ≠ .never)
    (hno : resolveMatchTerm ds sub tp.object ≠ .never) {g : Option GraphElementId} {quad : Quad}
    (hfit : QuadTable.Fits g (resolveMatchTerm ds sub tp.subject).intoQueryArg
      (resolveMatchTerm ds sub tp.predicate).intoQueryArg
      (resolveMatchTerm ds sub tp.object).intoQueryArg quad) :
    ∃ r, extend ds ag tp sub quad = bindGraph ds quad.tripleId r ag ∧
      ∀ w, ag = .var w → r.lookup w = sub.lookup w := by
  obtain ⟨-, hfs, hfp, hfo⟩ := hfit
  obtain ⟨hs, hp, ho⟩ := names_of_not_repeats hrep
  obtain ⟨r₁, hr₁, hkeep₁⟩ := bindTerm_of_fits (fun _ _ => rfl) hns hfs
  obtain ⟨r₂, hr₂, hkeep₂⟩ := bindTerm_of_fits
    (fun v hv => hkeep₁ v fun hc => (hs v hc).1 hv) hnp hfp
  have hsame (v : String) (hv : tp.object = .var v) : r₂.lookup v = sub.lookup v := by
    rw [hkeep₂ v fun hc => (hp v hc).1 hv, hkeep₁ v fun hc => (hs v hc).2.1 hv]
  obtain ⟨r₃, hr₃, hkeep₃⟩ := bindTerm_of_fits hsame hno hfo
  refine ⟨r₃, ?_, fun w hw => ?_⟩
  · rw [extend, hr₁, Option.bind_some, hr₂, Option.bind_some, hr₃, Option.bind_some]
  · rw [hkeep₃ w fun hc => ho w hc hw, hkeep₂ w fun hc => (hp w hc).2 hw,
      hkeep₁ w fun hc => (hs w hc).2.2 hw]

theorem extend_all_or_none (hrep : patternRepeatsVariable tp ag = false)
    (hns : resolveMatchTerm ds sub tp.subject ≠ .never)
    (hnp : resolveMatchTerm ds sub tp.predicate ≠ .never)
    (hno : resolveMatchTerm ds sub tp.object ≠ .never) :
    let quads := ds.namedGraphs.quadsMatching (ag.id ds sub)
      (resolveMatchTerm ds sub tp.subject).intoQueryArg
      (resolveMatchTerm ds sub tp.predicate).intoQueryArg
      (resolveMatchTerm ds sub tp.object).intoQueryArg
    (∀ quad ∈ quads, (extend ds ag tp sub quad).isSome) ∨
      ∀ quad ∈ quads, extend ds ag tp sub quad = none := by
  intro quads
  have hfit (quad : Quad) (hquad : quad ∈ quads) := (QuadStore.mem_quadsMatching.mp hquad).2
  cases ag with
  | fixed g =>
    left
    intro quad hquad
    obtain ⟨r, hr, -⟩ := extend_of_fits hrep hns hnp hno (hfit quad hquad)
    rw [hr]
    rfl
  | var v =>
    cases hv : sub.lookup v with
    | none =>
      left
      intro quad hquad
      obtain ⟨r, hr, hkeep⟩ := extend_of_fits hrep hns hnp hno (hfit quad hquad)
      rw [hr, bindGraph, bindVariable, hkeep v rfl, hv]
      rfl
    | some val =>
      cases hid : val.toId ds with
      | none =>
        right
        intro quad hquad
        obtain ⟨r, hr, hkeep⟩ := extend_of_fits hrep hns hnp hno (hfit quad hquad)
        rw [hr, bindGraph, bindVariable, hkeep v rfl, hv]
        simp [psvEq_of_toId_eq_none hid]
      | some g =>
        left
        intro quad hquad
        obtain ⟨r, hr, hkeep⟩ := extend_of_fits hrep hns hnp hno (hfit quad hquad)
        have hg : quad.tripleId = g := by
          apply (hfit quad hquad).1
          simp [ActiveGraph.id, hv, hid]
        rw [hr, bindGraph, bindVariable, hkeep v rfl, hv]
        simp [psvEq_of_toId (hid.trans (congrArg some hg.symm))]

theorem evalTriplePatternCore_cut {b : Nat} (hb : 0 < b) :
    Cut b (evalTriplePatternCore ds ag tp none sub (some b))
      (evalTriplePatternCore ds ag tp none sub none) := by
  rw [evalTriplePatternCore, evalTriplePatternCore]
  by_cases hknown : (!(isKnown ds tp.subject && isKnown ds tp.predicate && isKnown ds tp.object))
  · rw [if_pos hknown, if_pos hknown]
    exact Cut.refl b []
  rw [if_neg hknown, if_neg hknown]
  by_cases hnever : resolveMatchTerm ds sub tp.subject = .never ∨
      resolveMatchTerm ds sub tp.predicate = .never ∨ resolveMatchTerm ds sub tp.object = .never
  · simp only [if_pos hnever]
    exact Cut.refl b []
  simp only [if_neg hnever, ite_self, QuadStore.quadsMatchingLimited_none, collectSolutions_none,
    collectSolutions_some _ hb, Option.isNone_none, Bool.true_and]
  cases hrep : patternRepeatsVariable tp ag with
  | true =>
    simp only [Bool.not_true, Bool.false_eq_true, if_false, QuadStore.quadsMatchingLimited_none]
    exact cut_take b _
  | false =>
    simp only [Bool.not_false, if_true, QuadStore.quadsMatchingLimited_some _ _ _ _ _ hb]
    have hall := extend_all_or_none hrep (fun h => hnever (.inl h))
      (fun h => hnever (.inr (.inl h))) fun h => hnever (.inr (.inr h))
    have hcut := cut_filterMap_take (b := b) (extend ds ag tp sub) hall
    rw [List.take_of_length_le]
    · exact hcut
    · exact (List.length_filterMap_le _ _).trans (List.length_take_le _ _)

theorem evalTriplePattern_cut {qs : QueryStore N} {b : Nat} (hb : 0 < b) :
    Cut b (evalTriplePattern qs ag tp sub (some b)) (evalTriplePattern qs ag tp sub none) := by
  rw [evalTriplePattern, evalTriplePattern]
  cases tp.subject with
  | tripleTerm s p o => exact Cut.refl b _
  | var | constant => exact evalTriplePatternCore_cut hb

end Pattern

section Bgp

variable {qs : QueryStore N} {ag : ActiveGraph} {b : Nat}

theorem budgetedRows_cut {eval : PartialSub N → Option Nat → List (PartialSub N)}
    (heval : ∀ sub b, 0 < b → Cut b (eval sub (some b)) (eval sub none))
    (acc rows : List (PartialSub N)) :
    Cut b (budgetedRows eval b acc rows) (acc ++ rows.flatMap fun sub => eval sub none) := by
  induction rows generalizing acc with
  | nil =>
    rw [budgetedRows, List.flatMap_nil, List.append_nil]
    exact Cut.refl b acc
  | cons sub rest ih =>
    rw [budgetedRows]
    by_cases hacc : b ≤ acc.length
    · rw [if_pos hacc]
      exact (Cut.refl b acc).append_right hacc
    rw [if_neg hacc, List.flatMap_cons, ← List.append_assoc]
    obtain ⟨⟨tail, htail⟩, heq | hlen⟩ := heval sub (b - acc.length) (by omega)
    · rw [← heq]
      exact ih (acc ++ eval sub (some (b - acc.length)))
    · -- This row alone fills the budget: the rest is not read.
      have hfull : b ≤ (acc ++ eval sub (some (b - acc.length))).length := by
        rw [List.length_append]
        omega
      have hstop : budgetedRows eval b (acc ++ eval sub (some (b - acc.length))) rest =
          acc ++ eval sub (some (b - acc.length)) := by
        cases rest with
        | nil => rfl
        | cons next rest => rw [budgetedRows, if_pos hfull]
      rw [hstop, ← htail, ← List.append_assoc, List.append_assoc]
      exact (Cut.refl b _).append_right hfull

theorem evalOrdered_cut (patterns : List (TriplePattern N)) (rows : List (PartialSub N)) :
    Cut b (evalOrdered qs ag (some b) patterns rows) (evalOrdered qs ag none patterns rows) := by
  induction patterns generalizing rows with
  | nil => exact Cut.refl b rows
  | cons pattern rest ih =>
    cases rest with
    | nil =>
      have hcut : Cut b (evalPatternRows (evalTriplePattern qs ag pattern) (some b) rows)
          (evalPatternRows (evalTriplePattern qs ag pattern) none rows) :=
        budgetedRows_cut (fun sub b hb => evalTriplePattern_cut hb) [] rows
      simpa only [evalOrdered, List.isEmpty_nil, if_true, ite_self] using hcut
    | cons next rest =>
      have hstep (budget : Option Nat) : evalOrdered qs ag budget (pattern :: next :: rest) rows =
          if (evalPatternRows (evalTriplePattern qs ag pattern) none rows).isEmpty then
            evalPatternRows (evalTriplePattern qs ag pattern) none rows
          else evalOrdered qs ag budget (next :: rest)
            (evalPatternRows (evalTriplePattern qs ag pattern) none rows) := rfl
      rw [hstep, hstep]
      split_ifs
      · exact Cut.refl b _
      · exact ih _

theorem evalBgp_cut (patterns : List (TriplePattern N)) (rows : List (PartialSub N)) :
    Cut b (evalBgp qs ag patterns rows (some b)) (evalBgp qs ag patterns rows none) :=
  evalOrdered_cut _ rows

end Bgp

section Group

variable {ctx : Context N} {ag : ActiveGraph} {b : Nat}

/-- The evaluation of a component returns at least what the budget asks for. -/
def Budgeted (eval : ComponentEval N) : Prop :=
  ∀ ag b rows, Cut b (eval ag (some b) rows) (eval ag none rows)

theorem evalComponent_budgeted (comp : QueryComponent N) : Budgeted (evalComponent ctx comp) := by
  intro ag b rows
  cases comp with
  | bgp patterns => exact evalBgp_cut patterns rows
  | _ => exact Cut.refl b _

theorem planComponents_budgeted (components : List (QueryComponent N)) :
    ∀ comp ∈ planComponents ctx components, Budgeted comp.2 := by
  induction components with
  | nil =>
    intro comp hcomp
    cases hcomp
  | cons first rest ih =>
    intro comp hcomp
    rw [planComponents, List.mem_cons] at hcomp
    rcases hcomp with rfl | hcomp
    · exact evalComponent_budgeted first
    · exact ih comp hcomp

theorem scheduleComponents_perm (ds : Datastore N) (components : List (Planned N))
    (rows : List (PartialSub N)) :
    (scheduleComponents ds components rows).Perm components := by
  have hsplit := List.filter_append_perm (fun c => !isFilter c.1) components
  simp only [Bool.not_not] at hsplit
  refine List.Perm.trans ?_ hsplit
  dsimp only [scheduleComponents]
  split_ifs
  · exact (orderComponents_perm ..).append_right _
  · exact List.Perm.refl _

theorem runComponents_cut {components : List (Planned N)}
    (h : ∀ comp ∈ components, Budgeted comp.2) (rows : List (PartialSub N)) :
    Cut b (runComponents ag (some b) components rows) (runComponents ag none components rows) := by
  induction components generalizing rows with
  | nil => exact Cut.refl b rows
  | cons comp rest ih =>
    cases rest with
    | nil =>
      have hcut := h comp (List.mem_singleton_self comp) ag b rows
      simpa only [runComponents, List.isEmpty_nil, if_true, ite_self] using hcut
    | cons next rest =>
      have hstep (budget : Option Nat) : runComponents ag budget (comp :: next :: rest) rows =
          if (comp.2 ag none rows).isEmpty then comp.2 ag none rows
          else runComponents ag budget (next :: rest) (comp.2 ag none rows) := rfl
      rw [hstep, hstep]
      split_ifs
      · exact Cut.refl b _
      · exact ih (fun c hc => h c (List.mem_cons_of_mem comp hc)) _

theorem evalComponentsBudgeted_cut (components : List (QueryComponent N))
    (rows : List (PartialSub N)) :
    Cut b (evalComponentsBudgeted ctx.store.toDatastore (planComponents ctx components) rows ag
        (some b))
      (evalComponents ctx.store.toDatastore (planComponents ctx components) rows ag) := by
  apply runComponents_cut
  intro comp hcomp
  exact planComponents_budgeted components comp ((scheduleComponents_perm ..).mem_iff.mp hcomp)

theorem isEmpty_budget_one (components : List (QueryComponent N)) (rows : List (PartialSub N)) :
    (evalComponentsBudgeted ctx.store.toDatastore (planComponents ctx components) rows ag
        (some 1)).isEmpty =
      (evalComponents ctx.store.toDatastore (planComponents ctx components) rows ag).isEmpty :=
  (evalComponentsBudgeted_cut components rows).isEmpty_eq Nat.one_pos

end Group

section Modifiers

theorem SelectPlan.projectRows_of_budget {plan : SelectPlan N} {b : Nat}
    (h : plan.selectSolutionBudget = some b) :
    plan.projectRows = List.map fun sub => projectWithExprsPartial sub plan.projection := by
  have hmode : plan.aggregateMode = false := by
    rw [selectSolutionBudget] at h
    split at h
    · cases h
    · split_ifs at h with hmods hagg
      simp only [Bool.or_eq_true, not_or, Bool.not_eq_true, Bool.not_eq_false'] at hmods
      rw [aggregateMode, hmods.2]
      simpa using hagg
  funext rows
  rw [projectRows, hmode]
  rfl

theorem SelectPlan.applyModifiers_of_budget {plan : SelectPlan N} {lib : Library N}
    {ds : Datastore N} {b : Nat} (h : plan.selectSolutionBudget = some b)
    {xs ys : List (PartialSub N)} (hcut : Cut b xs ys) :
    plan.applyModifiers lib ds xs = plan.applyModifiers lib ds ys := by
  rw [selectSolutionBudget] at h
  split at h
  · cases h
  · next lim hlim =>
    split_ifs at h with hmods hagg
    obtain rfl := Option.some.inj h
    simp only [Bool.or_eq_true, not_or, Bool.not_eq_true, Bool.not_eq_false'] at hmods
    simp only [applyModifiers, hmods.1.1, hmods.1.2, Bool.false_eq_true, if_false, if_true,
      sliceRows, hlim]
    cases hoff : plan.offset with
    | none =>
      rw [hoff] at hcut
      exact hcut.drop_take (n := 0) (Nat.le_refl _)
    | some off =>
      rw [hoff] at hcut
      exact hcut.drop_take (Nat.le_refl _)

end Modifiers

section Agreement

/-- The rows of a SELECT query whose WHERE clause is evaluated without a budget. -/
def unbudgetedSelect (ctx : Context N) (plan : SelectPlan N) : List (PartialSub N) :=
  let ds := ctx.store.toDatastore
  let solutions := evalComponents ds plan.whereClause [∅] (datasetActiveGraph ds plan.dataset)
  plan.applyModifiers ctx.lib ds ((plan.projectRows solutions).map (resolveRow ds))

/-- The same for a subquery. -/
def unbudgetedSelectInner (lib : Library N) (ds : Datastore N) (ag : ActiveGraph)
    (plan : SelectPlan N) : List (PartialSub N) :=
  plan.applyModifiers lib ds (plan.projectRows (evalComponents ds plan.whereClause [∅] ag))

variable {ctx : Context N} {components : List (QueryComponent N)}

theorem executeSelectInner_eq (plan : SelectPlan N) {ag : ActiveGraph}
    (hwhere : plan.whereClause = planComponents ctx components) :
    executeSelectInner ctx.lib ctx.store.toDatastore ag plan =
      unbudgetedSelectInner ctx.lib ctx.store.toDatastore ag plan := by
  rw [executeSelectInner, unbudgetedSelectInner, hwhere]
  cases hbudget : plan.selectSolutionBudget with
  | none => rfl
  | some b =>
    rw [SelectPlan.projectRows_of_budget hbudget]
    exact SelectPlan.applyModifiers_of_budget hbudget
      ((evalComponentsBudgeted_cut components [∅]).map _)

theorem executeSelect_eq (plan : SelectPlan N)
    (hwhere : plan.whereClause = planComponents ctx components) :
    executeSelect ctx plan = unbudgetedSelect ctx plan := by
  rw [executeSelect, unbudgetedSelect, hwhere]
  cases hbudget : plan.selectSolutionBudget with
  | none => rfl
  | some b =>
    rw [SelectPlan.projectRows_of_budget hbudget]
    exact SelectPlan.applyModifiers_of_budget hbudget
      (((evalComponentsBudgeted_cut components [∅]).map _).map _)

theorem planQuery_whereClause {query : Query N} {plan : SelectPlan N}
    (h : planQuery ctx query = some plan) :
    ∃ components, plan.whereClause = planComponents ctx components := by
  cases query with
  | select projection dataset whereClause groupBy having orderBy limit offset distinct =>
    rw [planQuery] at h
    obtain rfl := Option.some.inj h
    exact ⟨whereClause, rfl⟩
  | _ => cases h

/-- No budget changes an answer: not the rows of a query or a subquery, not the answer of `ASK`,
and not the truth of `EXISTS` and `NOT EXISTS`. -/
theorem budget_keeps_answers (ctx : Context N) (query : Query N) (ag : ActiveGraph)
    (dataset : List (DatasetClause N)) (components : List (QueryComponent N))
    (sub : PartialSub N) :
    (planQuery ctx query).map (executeSelect ctx) =
        (planQuery ctx query).map (unbudgetedSelect ctx) ∧
      (planQuery ctx query).map (executeSelectInner ctx.lib ctx.store.toDatastore ag) =
        (planQuery ctx query).map (unbudgetedSelectInner ctx.lib ctx.store.toDatastore ag) ∧
      executeAsk ctx dataset components =
        !(evalComponents ctx.store.toDatastore (planComponents ctx components) [∅]
          (datasetActiveGraph ctx.store.toDatastore dataset)).isEmpty ∧
      (evalExpr ctx (.exists components)).bool ag sub =
        some !(evalComponents ctx.store.toDatastore (planComponents ctx components) [sub]
          ag).isEmpty ∧
      (evalExpr ctx (.notExists components)).bool ag sub =
        some (evalComponents ctx.store.toDatastore (planComponents ctx components) [sub]
          ag).isEmpty := by
  refine ⟨?_, ?_, ?_, ?_, ?_⟩
  · apply Option.map_congr
    intro plan hplan
    obtain ⟨whereClause, hwhere⟩ := planQuery_whereClause hplan
    exact executeSelect_eq plan hwhere
  · apply Option.map_congr
    intro plan hplan
    obtain ⟨whereClause, hwhere⟩ := planQuery_whereClause hplan
    exact executeSelectInner_eq plan hwhere
  · rw [executeAsk, isEmpty_budget_one]
  · rw [evalExpr]
    exact congrArg (fun empty => some !empty) (isEmpty_budget_one components [sub])
  · rw [evalExpr]
    exact congrArg some (isEmpty_budget_one components [sub])

end Agreement

end RdfDatalog.Sparql
