import RdfDatalog.Sparql.ThreeValued

namespace RdfDatalog.Sparql

variable {N : NativeTypes}

section Numeric

/-- A numeric literal, by the rank of its type. -/
inductive NumericLit (N : NativeTypes) where
  | integer (i : Int)
  | decimal (d : N.Decimal)
  | float (f : N.Float)
  | double (f : N.Float)

/-- Parsing and arithmetic of the native number types. -/
structure NumericOps (N : NativeTypes) where
  parseInteger : String → Option Int
  parseDecimal : String → Option N.Decimal
  parseFloat : String → Option N.Float
  nan : N.Float
  decimalOp : BinaryOp → N.Decimal → N.Decimal → N.Decimal
  floatOp : BinaryOp → N.Float → N.Float → N.Float
  decimalIsZero : N.Decimal → Bool
  floatIsZero : N.Float → Bool
  /-- An integer reads as a decimal zero only if it is zero. -/
  parseDecimal_isZero : ∀ {i : Int} {d : N.Decimal}, parseDecimal (toString i) = some d →
    (decimalIsZero d = true ↔ i = 0)

variable (ops : NumericOps N)

def classifyNumeric : RdfLiteral N → Option (NumericLit N)
  | .integerLiteral i => some (.integer i)
  | .decimalLiteral d => some (.decimal d)
  | .floatLiteral f => some (.float f)
  | .doubleLiteral d => some (.double d)
  | .typedLiteral typeIri literal =>
    if typeIri = xsdInteger then (ops.parseInteger literal).map .integer
    else if typeIri = xsdDecimal then (ops.parseDecimal literal).map .decimal
    else if typeIri = xsdFloat then (ops.parseFloat literal).map .float
    else if typeIri = xsdDouble then (ops.parseFloat literal).map .double
    else none
  | _ => none

def numericLitToElement : NumericLit N → GraphElement N
  | .integer i => .graphLiteral (.typedLiteral xsdInteger (toString i))
  | .decimal d => .graphLiteral (.typedLiteral xsdDecimal (N.decimalText d))
  | .float f => .graphLiteral (.typedLiteral xsdFloat (N.floatText f))
  | .double f => .graphLiteral (.typedLiteral xsdDouble (N.floatText f))

def numericLitToF64 : NumericLit N → N.Float
  | .integer i => (ops.parseFloat (toString i)).getD ops.nan
  | .decimal d => (ops.parseFloat (N.decimalText d)).getD ops.nan
  | .float f | .double f => f

def numericLitToDecimal : NumericLit N → Option N.Decimal
  | .integer i => ops.parseDecimal (toString i)
  | .decimal d => some d
  | .float _ | .double _ => none

variable (op : BinaryOp)

def applyF64Op (a b : N.Float) : Option N.Float :=
  match op with
  | .add | .sub | .mul => some (ops.floatOp op a b)
  | .div => if ops.floatIsZero b then none else some (ops.floatOp .div a b)
  | _ => none

/-- The exact arithmetic of two numbers, at least one of which is a decimal or which are divided. -/
def decimalArithmetic (ln rn : NumericLit N) : Option (NumericLit N) := do
  let ad ← numericLitToDecimal ops ln
  let bd ← numericLitToDecimal ops rn
  match op with
  | .add | .sub | .mul => pure (.decimal (ops.decimalOp op ad bd))
  | .div => if ops.decimalIsZero bd then none else pure (.decimal (ops.decimalOp .div ad bd))
  | _ => none

def NumericLit.isDouble : NumericLit N → Bool
  | .double _ => true
  | _ => false

def NumericLit.isFloat : NumericLit N → Bool
  | .float _ => true
  | _ => false

/-- The arithmetic of an expression: integers stay integers, except in a division. -/
def arithmeticOf (ln rn : NumericLit N) : Option (NumericLit N) :=
  let promoted :=
    if ln.isDouble || rn.isDouble then
      (applyF64Op ops op (numericLitToF64 ops ln) (numericLitToF64 ops rn)).map .double
    else if ln.isFloat || rn.isFloat then
      (applyF64Op ops op (numericLitToF64 ops ln) (numericLitToF64 ops rn)).map .float
    else decimalArithmetic ops op ln rn
  match ln, rn with
  | .integer a, .integer b =>
    match op with
    | .add => some (.integer (a + b))
    | .sub => some (.integer (a - b))
    | .mul => some (.integer (a * b))
    | .div => promoted
    | _ => none
  | _, _ => promoted

/-- The arithmetic between two values of a group. -/
def binaryValueOf (ln rn : NumericLit N) : Option (NumericLit N) :=
  if ln.isDouble || rn.isDouble then
    (applyF64Op ops op (numericLitToF64 ops ln) (numericLitToF64 ops rn)).map .double
  else if ln.isFloat || rn.isFloat then
    (applyF64Op ops op (numericLitToF64 ops ln) (numericLitToF64 ops rn)).map .float
  else
    match ln, rn with
    | .integer a, .integer b =>
      match op with
      | .add => some (.integer (a + b))
      | .sub => some (.integer (a - b))
      | .mul => some (.integer (a * b))
      | .div =>
        if b = 0 then none
        else do
          let ad ← numericLitToDecimal ops ln
          let bd ← numericLitToDecimal ops rn
          pure (.decimal (ops.decimalOp .div ad bd))
      | _ => none
    | _, _ => decimalArithmetic ops op ln rn

/-- An operator on two elements that are numeric literals. -/
def onNumbers (f : NumericLit N → NumericLit N → Option (NumericLit N)) :
    GraphElement N → GraphElement N → Option (GraphElement N)
  | .graphLiteral l, .graphLiteral r => do
    let ln ← classifyNumeric ops l
    let rn ← classifyNumeric ops r
    (f ln rn).map numericLitToElement
  | _, _ => none

def evalArithmetic : GraphElement N → GraphElement N → Option (GraphElement N) :=
  onNumbers ops (arithmeticOf ops op)

def evalBinaryValue : GraphElement N → GraphElement N → Option (GraphElement N) :=
  onNumbers ops (binaryValueOf ops op)

theorem decimalArithmetic_div (a b : Int) :
    decimalArithmetic ops .div (.integer a) (.integer b) =
      if b = 0 then none
      else (numericLitToDecimal ops (.integer a)).bind fun ad =>
        (numericLitToDecimal ops (.integer b)).bind fun bd =>
          some (.decimal (ops.decimalOp .div ad bd)) := by
  unfold decimalArithmetic
  by_cases hb : b = 0
  · rw [if_pos hb]
    cases numericLitToDecimal ops (.integer a) with
    | none => rfl
    | some ad =>
      cases hbd : numericLitToDecimal ops (.integer b) with
      | none => rfl
      | some bd => simp [(ops.parseDecimal_isZero hbd).mpr hb]
  · rw [if_neg hb]
    cases numericLitToDecimal ops (.integer a) with
    | none => rfl
    | some ad =>
      cases hbd : numericLitToDecimal ops (.integer b) with
      | none => rfl
      | some bd =>
        have hfalse : ops.decimalIsZero bd = false := by
          rw [← Bool.not_eq_true, ops.parseDecimal_isZero hbd]
          exact hb
        simp [hfalse]

theorem binaryValueOf_eq (ln rn : NumericLit N) :
    binaryValueOf ops op ln rn = arithmeticOf ops op ln rn := by
  cases ln with
  | integer a =>
    cases rn with
    | integer b =>
      cases op with
      | div => exact (decimalArithmetic_div ops a b).symm
      | _ => rfl
    | _ => rfl
  | decimal | float | double => cases rn <;> rfl

theorem evalBinaryValue_eq : evalBinaryValue ops op = evalArithmetic ops op := by
  rw [evalBinaryValue, evalArithmetic, funext₂ (binaryValueOf_eq ops op)]

def BinaryOp.isArithmetic : BinaryOp → Bool
  | .add | .sub | .mul | .div => true
  | _ => false

theorem evalBinaryValue_eq_none {op : BinaryOp} (h : op.isArithmetic = false)
    (l r : GraphElement N) :
    evalBinaryValue ops op l r = none := by
  have hf64 (a b : N.Float) : applyF64Op ops op a b = none := by
    cases op <;> first | rfl | cases h
  have hdecimal (ln rn : NumericLit N) : decimalArithmetic ops op ln rn = none := by
    unfold decimalArithmetic
    cases numericLitToDecimal ops ln with
    | none => rfl
    | some ad =>
      cases numericLitToDecimal ops rn with
      | none => rfl
      | some bd => cases op <;> first | rfl | cases h
  have hnone (ln rn : NumericLit N) : binaryValueOf ops op ln rn = none := by
    unfold binaryValueOf
    rw [hf64, hdecimal]
    cases ln <;> cases rn <;> cases op <;> first | rfl | cases h
  cases l with
  | graphLiteral l =>
    cases r with
    | graphLiteral r =>
      rw [evalBinaryValue, onNumbers]
      cases classifyNumeric ops l with
      | none => rfl
      | some ln =>
        cases classifyNumeric ops r with
        | none => rfl
        | some rn =>
          change (binaryValueOf ops op ln rn).map numericLitToElement = none
          rw [hnone]
          rfl
    | _ => rfl
  | _ => rfl

def Library.withNumeric (lib : Library N) (ops : NumericOps N) : Library N :=
  { lib with arithmetic := evalArithmetic ops, binaryValue := evalBinaryValue ops }

end Numeric

section Substitution

variable (ctx : Context N) (group : List (PartialSub N))

mutual

/-- Every aggregate call replaced by its value over the group; one that is an error stays, as the
evaluation of an expression has no value for it. -/
def substitute : Expression N → Expression N
  | .aggregate a =>
    match evalAggregate ctx a group with
    | some value => .constant value
    | none => .aggregate a
  | .binary left op right => .binary (substitute left) op (substitute right)
  | .unary op inner => .unary op (substitute inner)
  | .functionCall name args => .functionCall name (substituteAll args)
  | .isIn expr list => .isIn (substitute expr) (substituteAll list)
  | .notIn expr list => .notIn (substitute expr) (substituteAll list)
  | e => e

def substituteAll : List (Expression N) → List (Expression N)
  | [] => []
  | e :: es => substitute e :: substituteAll es

end

theorem evalExprs_eq_map (es : List (Expression N)) : evalExprs ctx es = es.map (evalExpr ctx) := by
  induction es with
  | nil => rfl
  | cons e es ih => rw [evalExprs, ih, List.map_cons]

variable (S : Situation N)

variable (e : Expression N)

def substituted : ExprEval N := evalExpr S.ctx (substitute S.ctx S.group e)

theorem evalExprs_substituteAll (es : List (Expression N)) :
    evalExprs S.ctx (substituteAll S.ctx S.group es) = es.map (substituted S) := by
  induction es with
  | nil => rfl
  | cons e es ih =>
    rw [substituteAll, evalExprs, ih, List.map_cons]
    rfl

theorem substituted_aggregate (a : Aggregate N) :
    (substituted S (.aggregate a)).value = (fun _ => evalAggregate S.ctx a S.group) ∧
    (substituted S (.aggregate a)).bool =
      fun _ _ => (evalAggregate S.ctx a S.group).bind booleanOf := by
  rw [substituted, substitute]
  cases evalAggregate S.ctx a S.group <;> exact ⟨rfl, rfl⟩

theorem substituted_functionCall (name : String) (args : List (Expression N)) :
    substituted S (.functionCall name args) =
      .functionCall S.ctx.lib name (args.map (substituted S)) := by
  rw [substituted, substitute, evalExpr, evalExprs_substituteAll]

theorem substituted_isIn (list : List (Expression N)) :
    substituted S (.isIn e list) =
      .isIn S.ctx.lib (substituted S e) (list.map (substituted S)) := by
  rw [substituted, substitute, evalExpr, evalExprs_substituteAll]
  rfl

theorem substituted_notIn (list : List (Expression N)) :
    substituted S (.notIn e list) =
      .notIn S.ctx.lib (substituted S e) (list.map (substituted S)) := by
  rw [substituted, substitute, evalExpr, evalExprs_substituteAll]
  rfl

theorem substituted_bound (sub : PartialSub N) :
    (substituted S e).bound sub = (evalExpr S.ctx e).bound sub := by
  cases e with
  | aggregate a =>
    rw [substituted, substitute]
    cases evalAggregate S.ctx a S.group <;> rfl
  | unary op inner => cases op <;> rfl
  | _ => rfl

end Substitution

section Parts

/-- The parts of an expression that the evaluation looks at, each with where it stands; in a group a
comparison and a connective have no value. -/
def Expression.parts (lib : Library N) (reads : String → List (Argument N) → List Nat)
    (argument : Expression N → Argument N) : Place → Expression N → List (Place × Expression N)
  | m, .binary left op right =>
    let operands := left :: if (argument left).value.isSome then [right] else []
    match op with
    | .and | .or => if m = .inGroup then [] else [left, right].map (m.leaf, ·)
    | .eq | .ne | .lt | .gt | .le | .ge => if m = .inGroup then [] else operands.map (m.operand, ·)
    | .add | .sub | .mul | .div => if m = .value ∨ m = .inGroup then operands.map (m, ·) else []
  | m, .unary .not inner => [(m.leaf, inner)]
  | _, .unary _ inner => [(.value, inner)]
  | _, .functionCall name args =>
    (lookedAt (reads name (args.map argument)) args).map (.value, ·)
  | m, .isIn expr list | m, .notIn expr list =>
    if m = .truth ∨ m = .having then
      (expr :: searched lib (fun e => (argument e).value) expr list).map (.value, ·)
    else []
  | _, _ => []

theorem Expression.sizeOf_part_lt {lib : Library N} {reads : String → List (Argument N) → List Nat}
    {argument : Expression N → Argument N} {m : Place} {e : Expression N}
    {part : Place × Expression N} (h : part ∈ e.parts lib reads argument m) :
    sizeOf part.2 < sizeOf e := by
  cases e with
  | binary left op right =>
    have hpair {list : List (Expression N)} {m : Place} (hsub : list ⊆ [left, right])
        (h : part ∈ list.map (m, ·)) : part.2 = left ∨ part.2 = right :=
      List.mem_pair.mp (hsub (mem_of_part h))
    have hside : part.2 = left ∨ part.2 = right := by
      simp only [parts] at h
      split at h <;> split_ifs at h <;>
        first | exact hpair (by simp) h | cases h
    simp only [binary.sizeOf_spec]
    rcases hside with heq | heq <;> rw [heq] <;> omega
  | unary op inner =>
    have hinner : part.2 = inner := by
      cases op <;> simp only [parts, List.mem_singleton] at h <;> rw [h]
    rw [hinner, unary.sizeOf_spec]
    omega
  | functionCall name args =>
    have hlt := List.sizeOf_lt_of_mem (lookedAt_subset _ args (mem_of_part h))
    simp only [functionCall.sizeOf_spec]
    omega
  | isIn expr list | notIn expr list =>
    simp only [parts] at h
    split_ifs at h
    · have hsub := List.cons_subset_cons expr (searched_subset ..) (mem_of_part h)
      simpa using List.sizeOf_lt_of_mem hsub
    · cases h
  | var | constant | aggregate | «exists» | notExists => cases h

/-- What a function sees of an argument in which every aggregate call is replaced. -/
def substitutedArgument (S : Situation N)
    (e : Expression N) : Argument N :=
  ⟨(substituted S e).bound S.rep, (substituted S e).value S.rep⟩

/-- One expression stands in another, as a part that is looked at. -/
def Expression.IsPart (S : Situation N) (whole part : Place × Expression N) : Prop :=
  part ∈ whole.2.parts S.ctx.lib S.reads (substitutedArgument S) whole.1

theorem Expression.wellFounded_isPart (S : Situation N) :
    WellFounded fun part whole => Expression.IsPart S whole part :=
  Subrelation.wf Expression.sizeOf_part_lt
    (InvImage.wf (fun a : Place × Expression N => sizeOf a.2) Nat.lt_wfRel.wf)

end Parts

section Agreement

variable {S : Situation N}

/-- The code's result is that of the substituted expression. -/
def EvaluatesBySubstitution (S : Situation N) : Place × Expression N → Prop
  | (.truth, e) => (evalExpr S.ctx e).bool ExprEval.defaultGraph S.rep =
      (substituted S e).bool ExprEval.defaultGraph S.rep
  | (.value, e) => (evalExpr S.ctx e).value S.rep = (substituted S e).value S.rep
  | (.having, e) => (evalExpr S.ctx e).having S.group S.rep =
      (substituted S e).bool ExprEval.defaultGraph S.rep
  | (.inGroup, e) => (evalExpr S.ctx e).inGroup S.group S.rep = (substituted S e).value S.rep

def orderedValues (lib : Library N) (op : BinaryOp) (l r : ExprEval N) (rep : PartialSub N) :
    Option Bool :=
  (l.value rep).bind fun left => (r.value rep).bind fun right =>
    (lib.compareGraphElements left right).bind (comparison op)

/-- The truth that `HAVING` finds for an operator: equality is that of the order. -/
def truthInGroup (lib : Library N) (op : BinaryOp) (l r : ExprEval N) (rep : PartialSub N) :
    Option Bool :=
  match op with
  | .eq | .ne => orderedValues lib op l r rep
  | _ => (ExprEval.binary lib l op r).bool ExprEval.defaultGraph rep

/-- The evaluation loses nothing at this part: an aggregate outside of the operators of a group is
an error (or no truth, if one is asked for); a comparison or a connective whose value is asked for
in a group is an error; and equality of two values in a group is that of their order. -/
def Keeps (S : Situation N) : Place × Expression N → Prop
  | (.value, .aggregate a) => evalAggregate S.ctx a S.group = none
  | (.truth, .aggregate a) | (.having, .aggregate a) =>
    (evalAggregate S.ctx a S.group).bind booleanOf = none
  | (.inGroup, .binary l op r) =>
    match op with
    | .add | .sub | .mul | .div => True
    | _ => (substituted S (.binary l op r)).value S.rep = none
  | (.having, .binary l op r) =>
    truthInGroup S.ctx.lib op (substituted S l) (substituted S r) S.rep =
      (substituted S (.binary l op r)).bool ExprEval.defaultGraph S.rep
  | _ => True

/-- The arithmetic of groups is that of expressions, and no other operator has a value in it. -/
structure Library.SharesArithmetic (lib : Library N) : Prop where
  same : ∀ op l r, lib.binaryValue op l r = lib.arithmetic op l r
  other : ∀ op : BinaryOp, op.isArithmetic = false → ∀ l r, lib.binaryValue op l r = none

theorem sharesArithmetic_withNumeric (lib : Library N) (ops : NumericOps N) :
    (lib.withNumeric ops).SharesArithmetic :=
  ⟨fun op l r => congrFun₂ (evalBinaryValue_eq ops op) l r,
    fun _ hop l r => evalBinaryValue_eq_none ops hop l r⟩

variable {e : Expression N}

/-- The parts of an expression are evaluated by substitution. -/
def PartsEvaluate (S : Situation N) (a : Place × Expression N) : Prop :=
  ∀ part, Expression.IsPart S a part → EvaluatesBySubstitution S part

theorem evaluates_parts {m : Place} (m' : Place) (list : List (Expression N))
    (hparts : e.parts S.ctx.lib S.reads (substitutedArgument S) m = list.map (m', ·))
    (h : PartsEvaluate S (m, e)) : ∀ item ∈ list, EvaluatesBySubstitution S (m', item) :=
  holds_parts hparts h

/-- The right operand is looked at only where the left one has a value. -/
theorem evaluates_operands {m : Place} (m' : Place) {l r : Expression N}
    (hparts : e.parts S.ctx.lib S.reads (substitutedArgument S) m =
      (l :: if ((substituted S l).value S.rep).isSome then [r] else []).map (m', ·))
    (h : PartsEvaluate S (m, e)) :
    EvaluatesBySubstitution S (m', l) ∧ (((substituted S l).value S.rep).isSome →
      EvaluatesBySubstitution S (m', r)) :=
  holds_operands (Q := fun x => EvaluatesBySubstitution S (m', x)) (evaluates_parts m' _ hparts h)

section Binary

variable {lib : Library N} {l l' r r' : ExprEval N} {op : BinaryOp} {group : List (PartialSub N)}
  {sub : PartialSub N}

theorem binary_bool_congr {ag : ActiveGraph}
    (hbool : op = .and ∨ op = .or → l.bool ag sub = l'.bool ag sub ∧ r.bool ag sub = r'.bool ag sub)
    (hvalue : (comparison op 0).isSome →
      l.value sub = l'.value sub ∧ ((l'.value sub).isSome → r.value sub = r'.value sub)) :
    (ExprEval.binary lib l op r).bool ag sub = (ExprEval.binary lib l' op r').bool ag sub := by
  cases op with
  | and | or =>
    obtain ⟨hl, hr⟩ := hbool (by decide)
    simp only [ExprEval.binary, hl, hr]
  | eq | ne | lt | gt | le | ge =>
    obtain ⟨hl, hr⟩ := hvalue rfl
    exact bind_agrees hl hr _
  | add | sub | mul | div => rfl

theorem binary_having_congr
    (hbool : op = .and ∨ op = .or →
      l.having group sub = l'.bool ExprEval.defaultGraph sub ∧
        r.having group sub = r'.bool ExprEval.defaultGraph sub)
    (hvalue : (comparison op 0).isSome →
      l.inGroup group sub = l'.value sub ∧
        ((l'.value sub).isSome → r.inGroup group sub = r'.value sub)) :
    (ExprEval.binary lib l op r).having group sub = truthInGroup lib op l' r' sub := by
  cases op with
  | and | or =>
    obtain ⟨hl, hr⟩ := hbool (by decide)
    simp only [ExprEval.binary, truthInGroup, hl, hr]
  | eq | ne | lt | gt | le | ge =>
    obtain ⟨hl, hr⟩ := hvalue rfl
    exact bind_agrees hl hr _
  | add | sub | mul | div => rfl

theorem binary_value_truth (hop : op.isArithmetic = false) :
    (ExprEval.binary lib l op r).value sub =
      ((ExprEval.binary lib l op r).bool ExprEval.defaultGraph sub).map booleanLiteral := by
  cases op <;> first | rfl | cases hop

end Binary

theorem binary_truth_evaluates (l r : Expression N) (op : BinaryOp)
    (h : PartsEvaluate S (.truth, .binary l op r)) :
    EvaluatesBySubstitution S (.truth, .binary l op r) := by
  refine binary_bool_congr ?_ ?_
  · intro hop
    have hall := evaluates_parts .truth [l, r] (by rcases hop with rfl | rfl <;> rfl) h
    exact ⟨hall l (.head _), hall r (.tail _ (.head _))⟩
  · intro hop
    exact evaluates_operands .value (by cases op <;> first | rfl | cases hop) h

theorem binary_value_evaluates (l r : Expression N) (op : BinaryOp)
    (h : PartsEvaluate S (.value, .binary l op r)) :
    EvaluatesBySubstitution S (.value, .binary l op r) := by
  cases hop : op.isArithmetic with
  | false =>
    have htruth : EvaluatesBySubstitution S (.truth, .binary l op r) :=
      binary_truth_evaluates l r op (by
        intro part hpart
        refine h part ?_
        cases op <;> first | exact hpart | cases hop)
    refine (binary_value_truth hop).trans (Eq.trans ?_ (binary_value_truth hop).symm)
    exact congrArg (Option.map booleanLiteral) htruth
  | true =>
    have hpair := evaluates_operands .value (l := l) (r := r)
      (by cases op <;> first | rfl | cases hop) h
    cases op with
    | add | sub | mul | div => exact bind_agrees hpair.1 hpair.2 _
    | _ => cases hop

theorem binary_having_iff (l r : Expression N) (op : BinaryOp)
    (h : PartsEvaluate S (.having, .binary l op r)) :
    EvaluatesBySubstitution S (.having, .binary l op r) ↔ Keeps S (.having, .binary l op r) := by
  have heq : (evalExpr S.ctx (.binary l op r)).having S.group S.rep =
      truthInGroup S.ctx.lib op (substituted S l) (substituted S r) S.rep :=
    binary_having_congr
      (fun hop => by
        have hall := evaluates_parts .having [l, r] (by rcases hop with rfl | rfl <;> rfl) h
        exact ⟨hall l (.head _), hall r (.tail _ (.head _))⟩)
      (fun hop => evaluates_operands .inGroup (by cases op <;> first | rfl | cases hop) h)
  exact Eq.congr_left heq

theorem binary_inGroup_iff (hlib : S.ctx.lib.SharesArithmetic) (l r : Expression N) (op : BinaryOp)
    (h : PartsEvaluate S (.inGroup, .binary l op r)) :
    EvaluatesBySubstitution S (.inGroup, .binary l op r) ↔
      Keeps S (.inGroup, .binary l op r) := by
  have hinGroup : (evalExpr S.ctx (.binary l op r)).inGroup S.group S.rep =
      ((evalExpr S.ctx l).inGroup S.group S.rep).bind fun left =>
        ((evalExpr S.ctx r).inGroup S.group S.rep).bind (S.ctx.lib.binaryValue op left) := rfl
  cases hop : op.isArithmetic with
  | false =>
    have hnone : (evalExpr S.ctx (.binary l op r)).inGroup S.group S.rep = none := by
      rw [hinGroup]
      cases (evalExpr S.ctx l).inGroup S.group S.rep with
      | none => rfl
      | some left =>
        cases (evalExpr S.ctx r).inGroup S.group S.rep with
        | none => rfl
        | some right => exact hlib.other op hop left right
    refine (Eq.congr_left hnone).trans (eq_comm.trans ?_)
    cases op <;> first | exact Iff.rfl | cases hop
  | true =>
    have hpair := evaluates_operands .inGroup (l := l) (r := r)
      (by cases op <;> first | rfl | cases hop) h
    have hvalue : (evalExpr S.ctx (.binary l op r)).inGroup S.group S.rep =
        (substituted S (.binary l op r)).value S.rep := by
      rw [hinGroup]
      simp only [hlib.same]
      refine (bind_agrees hpair.1 hpair.2 _).trans ?_
      cases op <;> first | rfl | cases hop
    refine iff_of_true hvalue ?_
    cases op <;> trivial

variable (m : Place)

theorem unary_evaluates (op : UnaryOp) (inner : Expression N)
    (h : PartsEvaluate S (m, .unary op inner)) :
    EvaluatesBySubstitution S (m, .unary op inner) := by
  cases op with
  | not =>
    have hinner : EvaluatesBySubstitution S (m.leaf, inner) :=
      h _ (by cases m <;> exact List.mem_singleton_self _)
    have hbool (b b' : Option Bool) (hb : b = b') :
        some (!b.getD false) = some (!b'.getD false) := by rw [hb]
    cases m with
    | truth | having => exact hbool _ _ hinner
    | value | inGroup => exact congrArg (Option.map booleanLiteral) (hbool _ _ hinner)
  | plus =>
    have hinner : EvaluatesBySubstitution S (.value, inner) :=
      h _ (by cases m <;> exact List.mem_singleton_self _)
    cases m with
    | truth | having => exact congrArg (·.bind booleanOf) hinner
    | value | inGroup => exact hinner
  | minus =>
    have hinner : EvaluatesBySubstitution S (.value, inner) :=
      h _ (by cases m <;> exact List.mem_singleton_self _)
    have hnegated := congrArg (·.bind S.ctx.lib.negate) hinner
    cases m with
    | truth | having => exact congrArg (·.bind booleanOf) hnegated
    | value | inGroup => exact hnegated

theorem functionCall_evaluates (hreads : S.ctx.lib.LooksAt S.reads) (name : String)
    (args : List (Expression N)) (h : PartsEvaluate S (m, .functionCall name args)) :
    EvaluatesBySubstitution S (m, .functionCall name args) := by
  have hargs := evaluates_parts .value (lookedAt
    (S.reads name (args.map (substitutedArgument S))) args) (by cases m <;> rfl) h
  obtain ⟨hbool, hvalue⟩ := hreads.agrees name args
    (f := fun arg => ⟨(evalExpr S.ctx arg).bound S.rep, (evalExpr S.ctx arg).value S.rep⟩)
    (g := substitutedArgument S) fun arg harg => by
      have harg : (evalExpr S.ctx arg).value S.rep = (substituted S arg).value S.rep :=
        hargs arg harg
      rw [substitutedArgument, substituted_bound, harg]
  have heval : evalExpr S.ctx (.functionCall name args) =
      .functionCall S.ctx.lib name (args.map (evalExpr S.ctx)) := by
    rw [evalExpr, evalExprs_eq_map]
  have hmap (f : Expression N → ExprEval N) :
      ((args.map f).map fun arg => (⟨arg.bound S.rep, arg.value S.rep⟩ : Argument N)) =
        args.map fun arg => ⟨(f arg).bound S.rep, (f arg).value S.rep⟩ := List.map_map ..
  have hcode := hmap (evalExpr S.ctx)
  have hsubstituted := hmap (substituted S)
  cases m with
  | truth | having =>
    rw [EvaluatesBySubstitution, heval, substituted_functionCall]
    exact (congrArg _ hcode).trans (hbool.trans (congrArg _ hsubstituted.symm))
  | value | inGroup =>
    rw [EvaluatesBySubstitution, heval, substituted_functionCall]
    exact (congrArg _ hcode).trans (hvalue.trans (congrArg _ hsubstituted.symm))

theorem among_eq {list : List (Expression N)} (post : Bool → Bool)
    (h : ∀ item ∈ e :: searched S.ctx.lib (fun e => (substituted S e).value S.rep) e list,
      (evalExpr S.ctx item).value S.rep = (substituted S item).value S.rep) :
    ((evalExpr S.ctx e).value S.rep).map (fun val => post ((list.map (evalExpr S.ctx)).any
        fun item => matchesItem S.ctx.lib val (item.value S.rep))) =
      ((substituted S e).value S.rep).map fun val => post ((list.map (substituted S)).any
        fun item => matchesItem S.ctx.lib val (item.value S.rep)) := by
  rw [h e (.head _)]
  refine Option.map_congr fun val hval => congrArg post ?_
  rw [List.any_map, List.any_map]
  exact any_searched (fun item hitem => h item (.tail _ hitem)) hval

theorem isIn_evaluates (e : Expression N) (list : List (Expression N))
    (h : PartsEvaluate S (m, .isIn e list)) : EvaluatesBySubstitution S (m, .isIn e list) := by
  have heval : evalExpr S.ctx (.isIn e list) =
      .isIn S.ctx.lib (evalExpr S.ctx e) (list.map (evalExpr S.ctx)) := by
    rw [evalExpr, evalExprs_eq_map]
  cases m with
  | truth | having =>
    rw [EvaluatesBySubstitution, heval, substituted_isIn]
    exact among_eq id (evaluates_parts .value _ rfl h)
  | value | inGroup =>
    rw [EvaluatesBySubstitution, heval, substituted_isIn]
    rfl

theorem notIn_evaluates (e : Expression N) (list : List (Expression N))
    (h : PartsEvaluate S (m, .notIn e list)) : EvaluatesBySubstitution S (m, .notIn e list) := by
  have heval : evalExpr S.ctx (.notIn e list) =
      .notIn S.ctx.lib (evalExpr S.ctx e) (list.map (evalExpr S.ctx)) := by
    rw [evalExpr, evalExprs_eq_map]
  cases m with
  | truth | having =>
    rw [EvaluatesBySubstitution, heval, substituted_notIn]
    exact among_eq (!·) (evaluates_parts .value _ rfl h)
  | value | inGroup =>
    rw [EvaluatesBySubstitution, heval, substituted_notIn]
    rfl

theorem aggregate_iff (a : Aggregate N) :
    EvaluatesBySubstitution S (m, .aggregate a) ↔ Keeps S (m, .aggregate a) := by
  obtain ⟨hvalue, hbool⟩ := substituted_aggregate S a
  cases m with
  | truth | having =>
    rw [EvaluatesBySubstitution, hbool]
    exact eq_comm
  | value =>
    rw [EvaluatesBySubstitution, hvalue]
    exact eq_comm
  | inGroup =>
    rw [EvaluatesBySubstitution, hvalue]
    exact iff_of_true rfl trivial

theorem evaluates_iff_keeps (hlib : S.ctx.lib.SharesArithmetic) (hreads : S.ctx.lib.LooksAt S.reads)
    (a : Place × Expression N) (h : PartsEvaluate S a) :
    EvaluatesBySubstitution S a ↔ Keeps S a := by
  obtain ⟨m, e⟩ := a
  cases e with
  | var | constant | «exists» | notExists => cases m <;> exact iff_of_true rfl trivial
  | binary l op r =>
    cases m with
    | truth => exact iff_of_true (binary_truth_evaluates l r op h) trivial
    | value => exact iff_of_true (binary_value_evaluates l r op h) trivial
    | having => exact binary_having_iff l r op h
    | inGroup => exact binary_inGroup_iff hlib l r op h
  | unary op inner => exact iff_of_true (unary_evaluates m op inner h) (by cases m <;> trivial)
  | functionCall name args =>
    exact iff_of_true (functionCall_evaluates m hreads name args h) (by cases m <;> trivial)
  | aggregate a => exact aggregate_iff m a
  | isIn e list => exact iff_of_true (isIn_evaluates m e list h) (by cases m <;> trivial)
  | notIn e list => exact iff_of_true (notIn_evaluates m e list h) (by cases m <;> trivial)

end Agreement

section Detection

mutual

def Expression.containsAggregate : Expression N → Bool
  | .aggregate _ => true
  | .binary left _ right => left.containsAggregate || right.containsAggregate
  | .unary _ inner => inner.containsAggregate
  | .functionCall _ args => containsAggregateAny args
  | .isIn expr list | .notIn expr list => expr.containsAggregate || containsAggregateAny list
  | _ => false

def containsAggregateAny : List (Expression N) → Bool
  | [] => false
  | e :: es => e.containsAggregate || containsAggregateAny es

/-- There is an aggregate call in the expression that is under no `IN`. -/
def Expression.aggregateOutsideIn : Expression N → Bool
  | .aggregate _ => true
  | .binary left _ right => left.aggregateOutsideIn || right.aggregateOutsideIn
  | .unary _ inner => inner.aggregateOutsideIn
  | .functionCall _ args => aggregateOutsideInAny args
  | _ => false

def aggregateOutsideInAny : List (Expression N) → Bool
  | [] => false
  | e :: es => e.aggregateOutsideIn || aggregateOutsideInAny es

end

/-- An expression that is projected has a property. -/
def ProjectionElement.projects (p : Expression N → Bool) : ProjectionElement N → Bool
  | .expression expr _ => p expr
  | _ => false

variable {ctx : Context N}

mutual

theorem hasAggregate_evalExpr (e : Expression N) :
    (evalExpr ctx e).hasAggregate = e.aggregateOutsideIn := by
  cases e with
  | binary left op right =>
    rw [evalExpr, Expression.aggregateOutsideIn, ← hasAggregate_evalExpr left,
      ← hasAggregate_evalExpr right]
    rfl
  | unary op inner =>
    rw [evalExpr, Expression.aggregateOutsideIn, ← hasAggregate_evalExpr inner]
    cases op <;> rfl
  | functionCall name args =>
    rw [evalExpr, Expression.aggregateOutsideIn, ← hasAggregate_evalExprs args]
    rfl
  | var | constant | aggregate | «exists» | notExists | isIn | notIn => rfl

theorem hasAggregate_evalExprs (es : List (Expression N)) :
    (evalExprs ctx es).any (·.hasAggregate) = aggregateOutsideInAny es := by
  cases es with
  | nil => rfl
  | cons e es =>
    rw [evalExprs, List.any_cons, aggregateOutsideInAny, hasAggregate_evalExpr e,
      hasAggregate_evalExprs es]

end

variable (projection : List (ProjectionElement N))

theorem planProjection_hasAggregate :
    (planProjection ctx projection).any (·.hasAggregate) =
      projection.any (·.projects Expression.aggregateOutsideIn) := by
  induction projection with
  | nil => rfl
  | cons elem elems ih =>
    cases elem with
    | star | var v => exact ih
    | expression expr aliasName =>
      rw [planProjection, List.any_cons, List.any_cons, ih]
      exact congrArg (· || _) (hasAggregate_evalExpr expr)

theorem planGroupBy_isEmpty (groupBy : List (GroupCondition N)) :
    (planGroupBy ctx groupBy).isEmpty = groupBy.isEmpty := by
  cases groupBy with
  | nil => rfl
  | cons condition conditions =>
    cases condition
    rfl

def aggregateQuery (ctx : Context N) (query : Query N) : Bool :=
  (planQuery ctx query).any (·.aggregateMode)

theorem aggregateQuery_select
    (dataset : List (DatasetClause N)) (whereClause : List (QueryComponent N))
    (groupBy : List (GroupCondition N)) (having : List (Expression N))
    (orderBy : List (OrderCondition N)) (limit offset : Option Nat) (distinct : Bool) :
    aggregateQuery ctx
        (.select projection dataset whereClause groupBy having orderBy limit offset distinct) =
      (!groupBy.isEmpty || projection.any (·.projects Expression.aggregateOutsideIn)) := by
  rw [aggregateQuery, planQuery, Option.any_some, SelectPlan.aggregateMode,
    planProjection_hasAggregate, planGroupBy_isEmpty]

end Detection

section Results

/-- The situation with the arithmetic of the source. -/
def Situation.withNumeric (S : Situation N) (ops : NumericOps N) : Situation N :=
  { S with ctx := { S.ctx with lib := S.ctx.lib.withNumeric ops } }

/-- An expression over a group is evaluated by substitution, for SELECT and for `HAVING`, where
nothing is lost at the parts that are looked at, and it is so in all these parts exactly then; and a
query that projects an aggregate is an aggregate query exactly when it is grouped or projects an
aggregate that is under no `IN`. -/
theorem evaluatesBySubstitution (S : Situation N) (ops : NumericOps N)
    (hreads : S.ctx.lib.LooksAt S.reads) (e : Expression N) :
    let code := S.withNumeric ops
    let Part := Expression.IsPart code
    ((Throughout Part (Keeps code) (.inGroup, e) →
        (evalExpr code.ctx e).inGroup S.group S.rep = (substituted code e).value S.rep) ∧
      (Throughout Part (Keeps code) (.having, e) → (evalExpr code.ctx e).having S.group S.rep =
        (substituted code e).bool ExprEval.defaultGraph S.rep)) ∧
    (∀ m, Throughout Part (EvaluatesBySubstitution code) (m, e) ↔
      Throughout Part (Keeps code) (m, e)) ∧
    ∀ (projection : List (ProjectionElement N)) (dataset : List (DatasetClause N))
      (whereClause : List (QueryComponent N)) (groupBy : List (GroupCondition N))
      (having : List (Expression N)) (orderBy : List (OrderCondition N))
      (limit offset : Option Nat) (distinct : Bool),
      (projection.any (·.projects Expression.containsAggregate) →
        aggregateQuery S.ctx
          (.select projection dataset whereClause groupBy having orderBy limit offset distinct)) ↔
      (projection.any (·.projects Expression.containsAggregate) →
        groupBy ≠ [] ∨ projection.any (·.projects Expression.aggregateOutsideIn)) := by
  intro code Part
  have hlib := sharesArithmetic_withNumeric S.ctx.lib ops
  have hiff (m : Place) := agrees_throughout_iff (Expression.wellFounded_isPart code)
    (evaluates_iff_keeps hlib hreads) (m, e)
  refine ⟨⟨fun h => ((hiff .inGroup).mpr h).self, fun h => ((hiff .having).mpr h).self⟩, hiff, ?_⟩
  intro projection dataset whereClause groupBy having orderBy limit offset distinct
  rw [aggregateQuery_select, Bool.or_eq_true, Bool.not_eq_true', List.isEmpty_eq_false_iff]

/-- Numbers without decimals. -/
def NumericOps.integers : NumericOps NativeTypes.text where
  parseInteger := String.toInt?
  parseDecimal _ := none
  parseFloat _ := none
  nan := "NaN"
  decimalOp _ a _ := a
  floatOp _ a _ := a
  decimalIsZero _ := false
  floatIsZero _ := false
  parseDecimal_isZero h := by cases h

/-- `5 IN (5, COUNT(*))`: the aggregate call is not looked at. -/
theorem evaluatesBySubstitution_firstItem :
    let five : Expression NativeTypes.text := .constant (countLiteral 5)
    (evalExpr (plainSituation.withNumeric .integers).ctx
      (.isIn five [five, .aggregate .countStar])).having [] ∅ = some true := by
  intro five
  refine (evaluatesBySubstitution plainSituation.toSituation .integers
    (fun _ _ _ _ _ => ⟨rfl, rfl⟩) (.isIn five [five, .aggregate .countStar])).1.2 ?_
  refine .of_children trivial fun part hpart => ?_
  obtain rfl : part = (.value, five) := (List.mem_pair.mp hpart).elim id id
  exact .of_children trivial fun part hpart => by cases hpart

/-- `COUNT(*) IN (0)` -/
def countIsZero : Expression NativeTypes.text :=
  .isIn (.aggregate .countStar) [.constant (countLiteral 0)]

theorem not_evaluatesBySubstitution_count :
    (¬ ∀ (S : Situation NativeTypes.text) (e : Expression NativeTypes.text),
      EvaluatesBySubstitution (S.withNumeric .integers) (.inGroup, e)) ∧
    (¬ ∀ (S : Situation NativeTypes.text) (e : Expression NativeTypes.text),
      EvaluatesBySubstitution (S.withNumeric .integers) (.having, e)) ∧
    ¬ ∀ (ctx : Context NativeTypes.text) (projection : List (ProjectionElement NativeTypes.text)),
      projection.any (·.projects Expression.containsAggregate) →
        aggregateQuery ctx (.select projection [] [] [] [] [] none none false) := by
  refine ⟨fun h => ?_, fun h => ?_, fun h => ?_⟩
  · have hnot := h plainSituation.toSituation
      (.binary (.aggregate .countStar) .eq (.aggregate .countStar))
    revert hnot
    unfold EvaluatesBySubstitution
    decide
  · have hin := h plainSituation.toSituation countIsZero
    revert hin
    unfold EvaluatesBySubstitution
    decide
  · have hquery := h Context.plain [.expression countIsZero "b"] (by decide)
    revert hquery
    decide

end Results

end RdfDatalog.Sparql
