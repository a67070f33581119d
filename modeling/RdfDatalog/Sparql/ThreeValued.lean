import RdfDatalog.Math.Agreement
import RdfDatalog.Sparql.ServiceAnswers

namespace RdfDatalog.Sparql

variable {N : NativeTypes}

section Syntax

inductive ComparisonOp where
  | eq | ne | lt | gt | le | ge

def ComparisonOp.toBinaryOp : ComparisonOp → BinaryOp
  | .eq => .eq
  | .ne => .ne
  | .lt => .lt
  | .gt => .gt
  | .le => .le
  | .ge => .ge

/-- The expressions of a filter: truth over variables, constants and, in a group, aggregates. -/
inductive FilterExpr (N : NativeTypes) where
  | var (v : String)
  | constant (gel : GraphElement N)
  | aggregate (a : Aggregate N)
  | not (inner : FilterExpr N)
  | and (left right : FilterExpr N)
  | or (left right : FilterExpr N)
  | compare (left : FilterExpr N) (op : ComparisonOp) (right : FilterExpr N)
  | isIn (expr : FilterExpr N) (list : List (FilterExpr N))
  | notIn (expr : FilterExpr N) (list : List (FilterExpr N))
  | call (name : String) (args : List (FilterExpr N))

namespace FilterExpr

mutual

def toExpression : FilterExpr N → Expression N
  | .var v => .var v
  | .constant gel => .constant gel
  | .aggregate a => .aggregate a
  | .not inner => .unary .not inner.toExpression
  | .and left right => .binary left.toExpression .and right.toExpression
  | .or left right => .binary left.toExpression .or right.toExpression
  | .compare left op right => .binary left.toExpression op.toBinaryOp right.toExpression
  | .isIn expr list => .isIn expr.toExpression (toExpressions list)
  | .notIn expr list => .notIn expr.toExpression (toExpressions list)
  | .call name args => .functionCall name (toExpressions args)

def toExpressions : List (FilterExpr N) → List (Expression N)
  | [] => []
  | e :: es => e.toExpression :: toExpressions es

end

/-- The code's evaluation. -/
def eval (ctx : Context N) (e : FilterExpr N) : ExprEval N := evalExpr ctx e.toExpression

theorem evalExprs_toExpressions (ctx : Context N) (es : List (FilterExpr N)) :
    evalExprs ctx (toExpressions es) = es.map (eval ctx) := by
  induction es with
  | nil => rfl
  | cons e es ih => rw [toExpressions, evalExprs, ih, List.map_cons, eval]

end FilterExpr

end Syntax

section Table

/-- What a term is in a row or a group, and which truth a value has. -/
structure Valuation (N : NativeTypes) where
  effective : GraphElement N → Option Bool
  var : String → Option (GraphElement N)
  bound : String → Bool
  aggregate : Aggregate N → Option (GraphElement N)

/-- The truth and the value of an expression, each unless it is an error. -/
structure Reading (N : NativeTypes) where
  truth : Option Bool
  value : Option (GraphElement N)
  bound : Option Bool

def Reading.ofTruth (truth : Option Bool) : Reading N := ⟨truth, truth.map booleanLiteral, none⟩

def Valuation.ofValue (ρ : Valuation N) (value : Option (GraphElement N)) : Reading N :=
  ⟨value.bind ρ.effective, value, none⟩

/-- A comparison of two values; an error if one of them is. -/
def compared (lib : Library N) (op : ComparisonOp) (left right : Option (GraphElement N)) :
    Option Bool := do
  let l ← left
  let r ← right
  match op with
  | .eq => pure (lib.valuesEqual l r)
  | .ne => pure (!lib.valuesEqual l r)
  | .lt | .gt | .le | .ge => comparison op.toBinaryOp (← lib.compareGraphElements l r)

def Reading.arguments (readings : List (Reading N)) : List (Argument N) :=
  readings.map fun r => ⟨r.bound, r.value⟩

/-- `IN`: one of the items equals the value. -/
def Reading.among (lib : Library N) (r : Reading N) (items : List (Reading N)) : Option Bool :=
  kleeneAny (items.map fun item => compared lib .eq item.value r.value)

mutual

/-- The reading of an expression by the truth tables of the three-valued logic. -/
def FilterExpr.table (lib : Library N) (ρ : Valuation N) : FilterExpr N → Reading N
  | .var v => { ρ.ofValue (ρ.var v) with bound := some (ρ.bound v) }
  | .constant gel => ρ.ofValue (some gel)
  | .aggregate a => ρ.ofValue (ρ.aggregate a)
  | .not inner => .ofTruth ((inner.table lib ρ).truth.map (!·))
  | .and left right => .ofTruth (kleeneAnd (left.table lib ρ).truth (right.table lib ρ).truth)
  | .or left right => .ofTruth (kleeneOr (left.table lib ρ).truth (right.table lib ρ).truth)
  | .compare left op right =>
    .ofTruth (compared lib op (left.table lib ρ).value (right.table lib ρ).value)
  | .isIn expr list => .ofTruth ((expr.table lib ρ).among lib (FilterExpr.tables lib ρ list))
  | .notIn expr list =>
    .ofTruth (((expr.table lib ρ).among lib (FilterExpr.tables lib ρ list)).map (!·))
  | .call name args =>
    .ofTruth (lib.functionBool name (Reading.arguments (FilterExpr.tables lib ρ args)))

def FilterExpr.tables (lib : Library N) (ρ : Valuation N) : List (FilterExpr N) → List (Reading N)
  | [] => []
  | e :: es => e.table lib ρ :: FilterExpr.tables lib ρ es

end

theorem FilterExpr.tables_eq_map (lib : Library N) (ρ : Valuation N) (es : List (FilterExpr N)) :
    FilterExpr.tables lib ρ es = es.map (·.table lib ρ) := by
  induction es with
  | nil => rfl
  | cons e es ih => rw [FilterExpr.tables, ih, List.map_cons]

/-- What an evaluation depends on: a group of solutions with its representative row, and the
arguments that a function looks at. -/
structure Situation (N : NativeTypes) where
  ctx : Context N
  group : List (PartialSub N)
  rep : PartialSub N
  reads : String → List (Argument N) → List Nat

/-- A situation, and which values are true. -/
structure TableSituation (N : NativeTypes) extends Situation N where
  effective : GraphElement N → Option Bool

def TableSituation.valuation (S : TableSituation N) : Valuation N where
  effective := S.effective
  var v := (S.rep.lookup v).bind (·.resolve S.ctx.store.toDatastore)
  bound v := (S.rep.lookup v).isSome
  aggregate a := evalAggregate S.ctx a S.group

/-- The reading of an expression in a row, or in the group the row represents. -/
def FilterExpr.reading (S : TableSituation N) (e : FilterExpr N) : Reading N :=
  e.table S.ctx.lib S.valuation

end Table

section Reads

/-- The functions look at no arguments but those at the positions `reads`. -/
def Library.LooksAt (lib : Library N) (reads : String → List (Argument N) → List Nat) : Prop :=
  ∀ name (args args' : List (Argument N)), args.length = args'.length →
    (∀ i ∈ reads name args, args'[i]? = args[i]?) →
      lib.functionBool name args' = lib.functionBool name args ∧
        lib.functionValue name args' = lib.functionValue name args

variable {α : Type} {lib : Library N}

def lookedAt (positions : List Nat) (args : List α) : List α := positions.filterMap (args[·]?)

theorem Library.LooksAt.agrees {reads : String → List (Argument N) → List Nat}
    (hreads : lib.LooksAt reads) (name : String) (args : List α) {f g : α → Argument N}
    (h : ∀ arg ∈ lookedAt (reads name (args.map g)) args, f arg = g arg) :
    lib.functionBool name (args.map f) = lib.functionBool name (args.map g) ∧
      lib.functionValue name (args.map f) = lib.functionValue name (args.map g) := by
  refine hreads name _ _ (by simp) fun i hi => ?_
  rw [List.getElem?_map, List.getElem?_map]
  cases harg : args[i]? with
  | none => rfl
  | some arg => exact congrArg some (h arg (List.mem_filterMap.mpr ⟨i, hi, harg⟩))

def matchesItem (lib : Library N) (val : GraphElement N) (item : Option (GraphElement N)) : Bool :=
  (item.map (lib.valuesEqual · val)).getD false

/-- The items that `IN` looks at: none if the left side has no value. -/
def searched (lib : Library N) (value : α → Option (GraphElement N)) (expr : α) (list : List α) :
    List α :=
  match value expr with
  | none => []
  | some val => upTo (fun item => matchesItem lib val (value item)) list

theorem any_searched {value value' : α → Option (GraphElement N)} {expr : α} {list : List α}
    (h : ∀ item ∈ searched lib value expr list, value' item = value item) {val : GraphElement N}
    (hval : value expr = some val) :
    (list.any fun item => matchesItem lib val (value' item)) =
      list.any fun item => matchesItem lib val (value item) := by
  rw [searched, hval] at h
  exact any_upTo fun item hitem => congrArg (matchesItem lib val) (h item hitem)

theorem searched_subset (value : α → Option (GraphElement N)) (expr : α) (list : List α) :
    searched lib value expr list ⊆ list := by
  rw [searched]
  split
  · exact List.nil_subset _
  · exact upTo_subset _ _

theorem lookedAt_subset (positions : List Nat) (args : List α) :
    lookedAt positions args ⊆ args := by
  intro arg harg
  obtain ⟨i, -, hi⟩ := List.mem_filterMap.mp harg
  exact List.mem_of_getElem? hi

end Reads

section Positions

/-- Where an expression stands: as a filter or as an operand, in a row or in a group. -/
inductive Place where
  | truth | value | having | inGroup
  deriving DecidableEq

/-- Where the operands of a comparison stand. -/
def Place.operand : Place → Place
  | .truth | .value => .value
  | .having | .inGroup => .inGroup

/-- Where the leaves under a connective stand. -/
def Place.leaf : Place → Place
  | .having => .having
  | .truth | .value | .inGroup => .truth

theorem mem_of_part {α : Type} {list : List α} {m : Place} {part : Place × α}
    (h : part ∈ list.map (m, ·)) : part.2 ∈ list := by
  obtain ⟨x, hx, rfl⟩ := List.mem_map.mp h
  exact hx

namespace FilterExpr

/-- What is under the connectives at the top of an expression. -/
def leaves : FilterExpr N → List (FilterExpr N)
  | .not inner => inner.leaves
  | .and left right | .or left right => left.leaves ++ right.leaves
  | e => [e]

/-- The parts of an expression that its evaluation looks at, each with where it stands; the
operators that make a value for a group have no truth in it. -/
def parts (lib : Library N) (reads : String → List (Argument N) → List Nat)
    (reading : FilterExpr N → Reading N) : Place → FilterExpr N → List (Place × FilterExpr N)
  | m, .not inner => inner.leaves.map (m.leaf, ·)
  | .inGroup, .and left right | .inGroup, .or left right =>
    (left :: if (reading left).value.isSome then [right] else []).map (.inGroup, ·)
  | m, .and left right | m, .or left right => (left.leaves ++ right.leaves).map (m.leaf, ·)
  | m, .compare left _ right =>
    (left :: if (reading left).value.isSome then [right] else []).map (m.operand, ·)
  | _, .isIn expr list | _, .notIn expr list =>
    (expr :: searched lib (fun e => (reading e).value) expr list).map (.value, ·)
  | _, .call name args =>
    (lookedAt (reads name (Reading.arguments (args.map reading))) args).map (.value, ·)
  | _, .var _ | _, .constant _ | _, .aggregate _ => []

theorem sizeOf_leaf_le {e l : FilterExpr N} (h : l ∈ e.leaves) : sizeOf l ≤ sizeOf e := by
  fun_induction leaves e with
  | case1 inner ih =>
    have hinner := ih h
    simp only [not.sizeOf_spec]
    omega
  | case2 left right ihl ihr | case3 left right ihl ihr =>
    have hle : sizeOf l ≤ sizeOf left ∨ sizeOf l ≤ sizeOf right :=
      (List.mem_append.mp h).imp ihl ihr
    simp only [and.sizeOf_spec, or.sizeOf_spec]
    omega
  | case4 e => exact (congrArg sizeOf (List.mem_singleton.mp h)).le

theorem sizeOf_part_lt {lib : Library N} {reads : String → List (Argument N) → List Nat}
    {reading : FilterExpr N → Reading N} {m : Place} {e : FilterExpr N}
    {part : Place × FilterExpr N} (h : part ∈ e.parts lib reads reading m) :
    sizeOf part.2 < sizeOf e := by
  have hpair {left right : FilterExpr N} {m : Place} {p : Prop} [Decidable p]
      (h : part ∈ (left :: if p then [right] else []).map (m, ·)) :
      part.2 = left ∨ part.2 = right := by
    have hmem := mem_of_part h
    split_ifs at hmem <;> simp_all
  have hleaves {left right : FilterExpr N} {m : Place}
      (h : part ∈ (left.leaves ++ right.leaves).map (m, ·)) :
      sizeOf part.2 ≤ sizeOf left ∨ sizeOf part.2 ≤ sizeOf right :=
    (List.mem_append.mp (mem_of_part h)).imp sizeOf_leaf_le sizeOf_leaf_le
  cases e with
  | var | constant | aggregate => cases m <;> cases h
  | not inner =>
    have hle : sizeOf part.2 ≤ sizeOf inner :=
      sizeOf_leaf_le (mem_of_part (m := m.leaf) (by cases m <;> exact h))
    simp only [not.sizeOf_spec]
    omega
  | and left right | or left right =>
    have hle : sizeOf part.2 ≤ sizeOf left ∨ sizeOf part.2 ≤ sizeOf right := by
      cases m with
      | inGroup => exact (hpair h).imp (congrArg sizeOf · |>.le) (congrArg sizeOf · |>.le)
      | truth | value | having => exact hleaves h
    simp only [and.sizeOf_spec, or.sizeOf_spec]
    omega
  | compare left op right =>
    have heq : part.2 = left ∨ part.2 = right := by cases m <;> exact hpair h
    simp only [compare.sizeOf_spec]
    rcases heq with heq | heq <;> rw [heq] <;> omega
  | isIn expr list | notIn expr list =>
    have hmem := mem_of_part (m := .value) (by cases m <;> exact h)
    have hlt := List.sizeOf_lt_of_mem (List.cons_subset_cons expr (searched_subset ..) hmem)
    simpa using hlt
  | call name args =>
    have hmem := mem_of_part (m := .value) (by cases m <;> exact h)
    have hlt := List.sizeOf_lt_of_mem (lookedAt_subset _ args hmem)
    simp only [call.sizeOf_spec]
    omega

end FilterExpr

/-- One expression stands in another, as a part that is looked at. -/
def IsPart (S : TableSituation N) (whole part : Place × FilterExpr N) : Prop :=
  part ∈ whole.2.parts S.ctx.lib S.reads (·.reading S) whole.1

theorem wellFounded_isPart (S : TableSituation N) :
    WellFounded fun part whole => IsPart S whole part :=
  Subrelation.wf FilterExpr.sizeOf_part_lt
    (InvImage.wf (fun a : Place × FilterExpr N => sizeOf a.2) Nat.lt_wfRel.wf)

end Positions

section Agreement

variable {S : TableSituation N}

/-- The code's result is that of the tables. -/
def Agrees (S : TableSituation N) : Place × FilterExpr N → Prop
  | (.truth, e) => ∀ ag, (e.eval S.ctx).bool ag S.rep = (e.reading S).truth
  | (.value, e) => (e.eval S.ctx).value S.rep = (e.reading S).value
  | (.having, e) => (e.eval S.ctx).having S.group S.rep = (e.reading S).truth
  | (.inGroup, e) => (e.eval S.ctx).inGroup S.group S.rep = (e.reading S).value

def groupValue (lib : Library N) (op : BinaryOp) (l r : Reading N) : Option (GraphElement N) :=
  l.value.bind fun left => r.value.bind fun right => lib.binaryValue op left right

def ordered (lib : Library N) (op : ComparisonOp) (l r : Reading N) : Option Bool :=
  l.value.bind fun left => r.value.bind fun right =>
    (lib.compareGraphElements left right).bind (comparison op.toBinaryOp)

/-- Nothing is lost at this part of an expression: a connective is no error, nor is `IN` where its
left side is none; a term is read as a truth only if it has the one the code sees; and an operator
whose value is asked for has the value that the code finds for it. -/
def Sound (S : TableSituation N) : Place × FilterExpr N → Prop :=
  let reading := FilterExpr.reading S
  fun
  | (.truth, .var v) | (.having, .var v) =>
    (reading (.var v)).truth = (reading (.var v)).value.bind booleanOf
  | (.truth, .constant gel) | (.having, .constant gel) => S.effective gel = booleanOf gel
  | (.truth, .aggregate a) | (.having, .aggregate a) => (reading (.aggregate a)).truth = none
  | (.value, .aggregate a) => (reading (.aggregate a)).value = none
  | (.inGroup, .and l r) =>
    groupValue S.ctx.lib .and (reading l) (reading r) = (reading (.and l r)).value
  | (.inGroup, .or l r) => groupValue S.ctx.lib .or (reading l) (reading r) =
      (reading (.or l r)).value
  | (_, .not e) => (reading (.not e)).truth ≠ none
  | (_, .and l r) => (reading (.and l r)).truth ≠ none
  | (_, .or l r) => (reading (.or l r)).truth ≠ none
  | (.inGroup, .compare l op r) =>
    groupValue S.ctx.lib op.toBinaryOp (reading l) (reading r) = (reading (.compare l op r)).value
  | (.having, .compare l op r) =>
    ordered S.ctx.lib op (reading l) (reading r) = (reading (.compare l op r)).truth
  | (.truth, .isIn e list) | (.having, .isIn e list) =>
    (reading e).value = none ↔ (reading (.isIn e list)).truth = none
  | (.truth, .notIn e list) | (.having, .notIn e list) =>
    (reading e).value = none ↔ (reading (.notIn e list)).truth = none
  | (.value, .isIn e list) | (.inGroup, .isIn e list) => (reading (.isIn e list)).truth = none
  | (.value, .notIn e list) | (.inGroup, .notIn e list) => (reading (.notIn e list)).truth = none
  | (.value, .call name args) | (.inGroup, .call name args) =>
    S.ctx.lib.functionValue name (Reading.arguments (args.map reading)) =
      (reading (.call name args)).value
  | _ => True

theorem booleanLiteral_injective : Function.Injective (booleanLiteral (N := N)) := by
  intro a b h
  cases h
  rfl

theorem reading_bound (e : FilterExpr N) : (e.eval S.ctx).bound S.rep = (e.reading S).bound := by
  cases e <;> rfl

theorem eval_isIn (e : FilterExpr N) (list : List (FilterExpr N)) :
    (FilterExpr.isIn e list).eval S.ctx =
      .isIn S.ctx.lib (e.eval S.ctx) (list.map (·.eval S.ctx)) := by
  rw [FilterExpr.eval, FilterExpr.toExpression, evalExpr, FilterExpr.evalExprs_toExpressions]
  rfl

theorem eval_notIn (e : FilterExpr N) (list : List (FilterExpr N)) :
    (FilterExpr.notIn e list).eval S.ctx =
      .notIn S.ctx.lib (e.eval S.ctx) (list.map (·.eval S.ctx)) := by
  rw [FilterExpr.eval, FilterExpr.toExpression, evalExpr, FilterExpr.evalExprs_toExpressions]
  rfl

theorem eval_call (name : String) (args : List (FilterExpr N)) :
    (FilterExpr.call name args).eval S.ctx =
      .functionCall S.ctx.lib name (args.map (·.eval S.ctx)) := by
  rw [FilterExpr.eval, FilterExpr.toExpression, evalExpr, FilterExpr.evalExprs_toExpressions]

section Connectives

/-- An evaluation that reads errors as false under the connectives. -/
structure TwoValued (c : FilterExpr N → Option Bool) : Prop where
  not : ∀ e, c (.not e) = some (!(c e).getD false)
  and : ∀ l r, c (.and l r) = some ((c l).getD false && (c r).getD false)
  or : ∀ l r, c (.or l r) = some ((c l).getD false || (c r).getD false)

theorem twoValued_bool (ag : ActiveGraph) :
    TwoValued fun e : FilterExpr N => (e.eval S.ctx).bool ag S.rep :=
  ⟨fun _ => rfl, fun _ _ => rfl, fun _ _ => rfl⟩

theorem twoValued_having : TwoValued fun e : FilterExpr N => (e.eval S.ctx).having S.group S.rep :=
  ⟨fun _ => rfl, fun _ _ => rfl, fun _ _ => rfl⟩

variable {c : FilterExpr N → Option Bool} {lib : Library N} {ρ : Valuation N} {e : FilterExpr N}

/-- What is no error by the tables is found in the two-valued reading as well, whatever errors are
under it. -/
theorem TwoValued.of_table (h : TwoValued c)
    (hleaves : ∀ l ∈ e.leaves, c l = (l.table lib ρ).truth) (b : Bool)
    (hb : (e.table lib ρ).truth = some b) : c e = some b := by
  fun_induction FilterExpr.leaves e generalizing b with
  | case1 inner ih =>
    rw [FilterExpr.table, Reading.ofTruth] at hb
    obtain ⟨x, hx, rfl⟩ := Option.map_eq_some_iff.mp hb
    rw [h.not, ih hleaves x hx]
    rfl
  | case2 left right ihl ihr =>
    have hl := ihl fun l hl => hleaves l (List.mem_append_left _ hl)
    have hr := ihr fun l hl => hleaves l (List.mem_append_right _ hl)
    rw [h.and, kleeneAnd_getD hl hr hb]
  | case3 left right ihl ihr =>
    have hl := ihl fun l hl => hleaves l (List.mem_append_left _ hl)
    have hr := ihr fun l hl => hleaves l (List.mem_append_right _ hl)
    rw [h.or, kleeneOr_getD hl hr hb]
  | case4 e => exact (hleaves e (List.mem_singleton_self e)).trans hb

theorem TwoValued.agrees_iff (h : TwoValued c) (hsome : (c e).isSome)
    (hleaves : ∀ l ∈ e.leaves, c l = (l.table lib ρ).truth) :
    c e = (e.table lib ρ).truth ↔ (e.table lib ρ).truth ≠ none := by
  constructor
  · intro heq hnone
    rw [heq, hnone] at hsome
    cases hsome
  · intro hne
    obtain ⟨b, hb⟩ := Option.ne_none_iff_exists'.mp hne
    rw [hb]
    exact h.of_table hleaves b hb

end Connectives

section In

theorem among_getD {lib : Library N} {r : Reading N} {items : List (Reading N)}
    {val : GraphElement N} (hval : r.value = some val) {b : Bool} (h : r.among lib items = some b) :
    (items.any fun item => matchesItem lib val item.value) = b := by
  have hany := kleeneAny_getD h
  rw [List.any_map] at hany
  rw [← hany]
  refine List.any_congr rfl fun item => ?_
  rw [Function.comp_apply, hval, matchesItem]
  cases item.value <;> rfl

/-- A result that is there whenever the value is agrees with the tables exactly if these have an
error only where the value is one. -/
theorem among_agrees_iff {α : Type} {value : Option α} {truth : Option Bool} {found : α → Bool}
    (h : ∀ val, value = some val → ∀ b, truth = some b → found val = b) :
    value.map found = truth ↔ (value = none ↔ truth = none) := by
  cases value with
  | none =>
    constructor
    · intro heq
      exact iff_of_true rfl heq.symm
    · intro hiff
      exact (hiff.mp rfl).symm
  | some val =>
    cases truth with
    | none => simp
    | some b => simp [h val rfl b rfl]

end In

section Local

theorem map_booleanLiteral_iff {a b : Option Bool} :
    a.map (booleanLiteral (N := N)) = b.map booleanLiteral ↔ a = b :=
  (Option.map_injective booleanLiteral_injective).eq_iff

theorem reading_call (name : String) (args : List (FilterExpr N)) :
    (FilterExpr.call name args).reading S =
      .ofTruth (S.ctx.lib.functionBool name (Reading.arguments (args.map (·.reading S)))) := by
  rw [FilterExpr.reading, FilterExpr.table, FilterExpr.tables_eq_map]
  rfl

theorem reading_isIn (e : FilterExpr N) (list : List (FilterExpr N)) :
    (FilterExpr.isIn e list).reading S =
      .ofTruth ((e.reading S).among S.ctx.lib (list.map (·.reading S))) := by
  rw [FilterExpr.reading, FilterExpr.table, FilterExpr.tables_eq_map]
  rfl

theorem reading_notIn (e : FilterExpr N) (list : List (FilterExpr N)) :
    (FilterExpr.notIn e list).reading S =
      .ofTruth (((e.reading S).among S.ctx.lib (list.map (·.reading S))).map (!·)) := by
  rw [FilterExpr.reading, FilterExpr.table, FilterExpr.tables_eq_map]
  rfl

variable {list : List (FilterExpr N)} {e : FilterExpr N} {m : Place}

theorem forall_graph_iff {P : ActiveGraph → Prop} {p : Prop} (h : ∀ ag, P ag ↔ p) :
    (∀ ag, P ag) ↔ p :=
  ⟨fun hall => (h ExprEval.defaultGraph).mp (hall _), fun hp ag => (h ag).mpr hp⟩

theorem truth_connective (hsome : ∀ ag, ((e.eval S.ctx).bool ag S.rep).isSome)
    (h : ∀ l ∈ e.leaves, Agrees S (.truth, l)) :
    Agrees S (.truth, e) ↔ (e.reading S).truth ≠ none :=
  forall_graph_iff fun ag => (twoValued_bool ag).agrees_iff (hsome ag) fun l hl => h l hl ag

theorem value_connective (hvalue : (e.eval S.ctx).value S.rep =
      ((e.eval S.ctx).bool ExprEval.defaultGraph S.rep).map booleanLiteral)
    (hreading : (e.reading S).value = (e.reading S).truth.map booleanLiteral)
    (hsome : ((e.eval S.ctx).bool ExprEval.defaultGraph S.rep).isSome)
    (h : ∀ l ∈ e.leaves, Agrees S (.truth, l)) :
    (e.eval S.ctx).value S.rep = (e.reading S).value ↔ (e.reading S).truth ≠ none := by
  rw [hvalue, hreading, map_booleanLiteral_iff]
  exact (twoValued_bool _).agrees_iff hsome fun l hl => h l hl _

theorem having_connective (hsome : ((e.eval S.ctx).having S.group S.rep).isSome)
    (h : ∀ l ∈ e.leaves, Agrees S (.having, l)) :
    Agrees S (.having, e) ↔ (e.reading S).truth ≠ none :=
  twoValued_having.agrees_iff hsome h

/-- The parts of an expression follow the tables. -/
def PartsAgree (S : TableSituation N) (a : Place × FilterExpr N) : Prop :=
  ∀ part, IsPart S a part → Agrees S part

theorem agrees_leaves (m' : Place)
    (hparts : e.parts S.ctx.lib S.reads (·.reading S) m = list.map (m', ·))
    (h : PartsAgree S (m, e)) : ∀ l ∈ list, Agrees S (m', l) :=
  holds_parts hparts h

/-- Where the parts follow the tables, the whole does exactly if nothing is lost at it. -/
def Decided (S : TableSituation N) (a : Place × FilterExpr N) : Prop :=
  PartsAgree S a → (Agrees S a ↔ Sound S a)

theorem not_agrees_iff (m : Place) (e : FilterExpr N) : Decided S (m, .not e) := by
  intro h
  have hleaves : ∀ l ∈ (FilterExpr.not e).leaves, Agrees S (m.leaf, l) :=
    agrees_leaves _ (by cases m <;> rfl) h
  cases m with
  | truth => exact truth_connective (fun _ => rfl) hleaves
  | value | inGroup => exact value_connective rfl rfl rfl hleaves
  | having => exact having_connective rfl hleaves

theorem agrees_pair (m' : Place) {l r : FilterExpr N}
    (hparts : e.parts S.ctx.lib S.reads (·.reading S) m =
      (l :: if (l.reading S).value.isSome then [r] else []).map (m', ·))
    (h : PartsAgree S (m, e)) :
    Agrees S (m', l) ∧ ((l.reading S).value.isSome → Agrees S (m', r)) :=
  holds_operands (Q := fun x => Agrees S (m', x)) (agrees_leaves _ hparts h)

theorem inGroup_binary {l r : FilterExpr N} (op : BinaryOp)
    (h : Agrees S (.inGroup, l) ∧ ((l.reading S).value.isSome → Agrees S (.inGroup, r))) :
    (ExprEval.binary S.ctx.lib (l.eval S.ctx) op (r.eval S.ctx)).inGroup S.group S.rep =
      groupValue S.ctx.lib op (l.reading S) (r.reading S) :=
  bind_agrees h.1 h.2 (S.ctx.lib.binaryValue op)

theorem connective_agrees (m : Place) (l r : FilterExpr N) :
    Decided S (m, .and l r) ∧ Decided S (m, .or l r) := by
  constructor <;> intro h
  all_goals
    cases m with
    | truth => exact truth_connective (fun _ => rfl) (agrees_leaves _ rfl h)
    | value => exact value_connective rfl rfl rfl (agrees_leaves _ rfl h)
    | having => exact having_connective rfl (agrees_leaves _ rfl h)
    | inGroup => exact Eq.congr_left (inGroup_binary _ (agrees_pair _ rfl h))

theorem compared_agrees {op : ComparisonOp} {l l' r r' : Option (GraphElement N)} (hl : l = l')
    (hr : l'.isSome → r = r') : compared S.ctx.lib op l r = compared S.ctx.lib op l' r' := by
  subst hl
  cases l with
  | none => rfl
  | some x => rw [hr rfl]

theorem binary_bool (lib : Library N) (l r : ExprEval N) (op : ComparisonOp) (ag : ActiveGraph)
    (sub : PartialSub N) : (ExprEval.binary lib l op.toBinaryOp r).bool ag sub =
      compared lib op (l.value sub) (r.value sub) := by
  cases op <;> rfl

theorem binary_value (lib : Library N) (l r : ExprEval N) (op : ComparisonOp)
    (sub : PartialSub N) : (ExprEval.binary lib l op.toBinaryOp r).value sub =
      (compared lib op (l.value sub) (r.value sub)).map booleanLiteral := by
  cases op <;> rfl

theorem binary_having (lib : Library N) (l r : ExprEval N) (op : ComparisonOp)
    (group : List (PartialSub N)) (rep : PartialSub N) :
    (ExprEval.binary lib l op.toBinaryOp r).having group rep =
      (l.inGroup group rep).bind fun left => (r.inGroup group rep).bind fun right =>
        (lib.compareGraphElements left right).bind (comparison op.toBinaryOp) := by
  cases op <;> rfl

theorem compare_agrees_iff (m : Place) (l r : FilterExpr N) (op : ComparisonOp) :
    Decided S (m, .compare l op r) := by
  intro h
  have hpair := agrees_pair m.operand (by cases m <;> rfl) h
  cases m with
  | truth =>
    exact iff_of_true
      (fun ag => (binary_bool S.ctx.lib _ _ op ag S.rep).trans (compared_agrees hpair.1 hpair.2))
      trivial
  | value =>
    exact iff_of_true ((binary_value S.ctx.lib _ _ op S.rep).trans
      (congrArg (Option.map booleanLiteral) (compared_agrees hpair.1 hpair.2))) trivial
  | having =>
    exact Eq.congr_left
      ((binary_having S.ctx.lib _ _ op S.group S.rep).trans (bind_agrees hpair.1 hpair.2 _))
  | inGroup => exact Eq.congr_left (inGroup_binary op.toBinaryOp hpair)

theorem among_agrees {expr : FilterExpr N} {post : Bool → Bool}
    (hparts : expr.parts S.ctx.lib S.reads (·.reading S) m = (e :: searched S.ctx.lib
      (fun e => (e.reading S).value) e list).map (.value, ·))
    (heval : expr.eval S.ctx = .ofBool fun _ sub => ((e.eval S.ctx).value sub).map fun val =>
      post ((list.map (·.eval S.ctx)).any fun item => matchesItem S.ctx.lib val (item.value sub)))
    (hreading : expr.reading S =
      .ofTruth (((e.reading S).among S.ctx.lib (list.map (·.reading S))).map post))
    (h : PartsAgree S (m, expr)) : Agrees S (m, expr) ↔ match m with
      | .truth | .having => (e.reading S).value = none ↔ (expr.reading S).truth = none
      | .value | .inGroup => (expr.reading S).truth = none := by
  have hoperands := agrees_leaves _ hparts h
  have he := hoperands e List.mem_cons_self
  have hitems {val : GraphElement N} (hval : (e.reading S).value = some val) :
      (list.any fun item => matchesItem S.ctx.lib val ((item.eval S.ctx).value S.rep)) =
        list.any fun item => matchesItem S.ctx.lib val (item.reading S).value :=
    any_searched (fun item hitem => hoperands item (.tail _ hitem)) hval
  have hbool (ag : ActiveGraph) : (expr.eval S.ctx).bool ag S.rep = (expr.reading S).truth ↔
      ((e.reading S).value = none ↔ (expr.reading S).truth = none) := by
    rw [heval, hreading, ← he]
    refine among_agrees_iff fun val hval b hb => ?_
    obtain ⟨found, hfound, rfl⟩ := Option.map_eq_some_iff.mp hb
    have hval' := he.symm.trans hval
    have hany := among_getD hval' hfound
    rw [List.any_map] at hany ⊢
    exact congrArg post ((hitems hval').trans hany)
  have hnone : none = (expr.reading S).value ↔ (expr.reading S).truth = none := by
    rw [hreading]
    exact eq_comm.trans Option.map_eq_none_iff
  cases m with
  | truth => exact forall_graph_iff hbool
  | having =>
    refine Iff.trans ?_ (hbool ExprEval.defaultGraph)
    rw [Agrees, heval]
    rfl
  | value | inGroup =>
    refine Iff.trans ?_ hnone
    rw [Agrees, heval]
    rfl

theorem isIn_agrees_iff (m : Place) (e : FilterExpr N) (list : List (FilterExpr N)) :
    Decided S (m, .isIn e list) := by
  intro h
  have hagrees := among_agrees (by cases m <;> rfl) (eval_isIn e list)
    (by rw [reading_isIn, Option.map_id']) h
  cases m <;> exact hagrees

theorem notIn_agrees_iff (m : Place) (e : FilterExpr N) (list : List (FilterExpr N)) :
    Decided S (m, .notIn e list) := by
  intro h
  have hagrees := among_agrees (by cases m <;> rfl) (eval_notIn e list) (reading_notIn e list) h
  cases m <;> exact hagrees

theorem call_agrees_iff (hreads : S.ctx.lib.LooksAt S.reads) (m : Place) (name : String)
    (args : List (FilterExpr N)) : Decided S (m, .call name args) := by
  intro h
  have hargs := agrees_leaves .value (by cases m <;> rfl) h
  obtain ⟨htruth, hvalue⟩ := hreads.agrees name args
    (f := fun arg => ⟨(arg.eval S.ctx).bound S.rep, (arg.eval S.ctx).value S.rep⟩)
    (g := fun arg => ⟨(arg.reading S).bound, (arg.reading S).value⟩) fun arg harg => by
        rw [Reading.arguments, List.map_map] at hargs
        rw [reading_bound, hargs arg harg]
  have hbool (ag : ActiveGraph) : ((FilterExpr.call name args).eval S.ctx).bool ag S.rep =
      ((FilterExpr.call name args).reading S).truth := by
    rw [eval_call, reading_call, Reading.arguments, List.map_map]
    exact (congrArg _ (List.map_map ..)).trans htruth
  have hcode : ((FilterExpr.call name args).eval S.ctx).value S.rep = S.ctx.lib.functionValue name
      (Reading.arguments (args.map (·.reading S))) := by
    rw [eval_call, Reading.arguments, List.map_map]
    exact (congrArg _ (List.map_map ..)).trans hvalue
  cases m with
  | truth => exact iff_of_true hbool trivial
  | having =>
    refine iff_of_true ?_ trivial
    rw [Agrees, ← hbool ExprEval.defaultGraph, eval_call]
    rfl
  | value => exact Eq.congr_left hcode
  | inGroup =>
    refine Iff.trans ?_ (Eq.congr_left hcode)
    rw [Agrees, eval_call]
    rfl

theorem agrees_iff_sound (hreads : S.ctx.lib.LooksAt S.reads) (a : Place × FilterExpr N) :
    Decided S a := by
  intro h
  obtain ⟨m, e⟩ := a
  cases e with
  | var | constant =>
    cases m with
    | truth => exact forall_graph_iff fun _ => eq_comm
    | having => exact eq_comm
    | value | inGroup => exact iff_of_true rfl trivial
  | aggregate a =>
    cases m with
    | truth => exact forall_graph_iff fun _ => eq_comm
    | having | value => exact eq_comm
    | inGroup => exact iff_of_true rfl trivial
  | not e => exact not_agrees_iff m e h
  | and l r => exact (connective_agrees m l r).1 h
  | or l r => exact (connective_agrees m l r).2 h
  | compare l op r => exact compare_agrees_iff m l r op h
  | isIn e list => exact isIn_agrees_iff m e list h
  | notIn e list => exact notIn_agrees_iff m e list h
  | call name args => exact call_agrees_iff hreads m name args h

end Local

def plainSituation : TableSituation NativeTypes.text where
  ctx := Context.plain
  group := []
  rep := ∅
  reads _ _ := []
  effective := booleanOf

/-- `!(?unbound > 1)` -/
def notAboveOne : FilterExpr NativeTypes.text :=
  .not (.compare (.var "unbound") .gt (.constant (.graphLiteral (.integerLiteral 1))))

/-- `?unbound > 1 || true` is true. -/
example : ((FilterExpr.or (.compare (.var "unbound") .gt (.constant (booleanLiteral true)))
    (.constant (booleanLiteral true))).reading plainSituation).truth = some true := by
  decide

end Agreement

end RdfDatalog.Sparql
