import RdfDatalog.Math.StableSort
import RdfDatalog.Sparql.Ast

namespace RdfDatalog.Sparql

open GreedyOrder

variable {N : NativeTypes}

def Term.variables : Term N → Finset String
  | .var v => {v}
  | .constant _ => ∅
  | .tripleTerm s p o => s.variables ∪ p.variables ∪ o.variables

def TriplePattern.variables (tp : TriplePattern N) : Finset String :=
  tp.subject.variables ∪ tp.predicate.variables ∪ tp.object.variables

section JoinOrdering

/-- How many positions of the pattern hold a variable that is bound already. -/
def boundCount (bound : Finset String) (tp : TriplePattern N) : Nat :=
  [tp.subject, tp.predicate, tp.object].countP fun
    | .var v => v ∈ bound
    | _ => false

variable (ds : Datastore N)

/-- The id of a constant, with `some none` for one that the store does not know. -/
def resolveConstant : Term N → Option (Option GraphElementId)
  | .constant gel => some (ds.resources.resourceMap.lookup gel)
  | _ => none

/-- The number of quads the constants of a pattern leave, read off the indexes. -/
def knownCardinality (tp : TriplePattern N) : Nat :=
  let table := ds.namedGraphs.table
  let withSubjectPredicate (s p : GraphElementId) :=
    ((table.subjectPredicateIndex.inner s).bucket p).length
  let withObjectPredicate (o p : GraphElementId) :=
    ((table.objectPredicateIndex.inner o).bucket p).length
  let withSubject (s : GraphElementId) := (table.subjectPredicateIndex.inner s).values.length
  let withObject (o : GraphElementId) := (table.objectPredicateIndex.inner o).values.length
  let subject := resolveConstant ds tp.subject
  let predicate := resolveConstant ds tp.predicate
  let object := resolveConstant ds tp.object
  if some none ∈ [subject, predicate, object] then 0
  else
    match subject.join, predicate.join, object.join with
    | some s, some p, some o => min (withSubjectPredicate s p) (withObjectPredicate o p)
    | some s, some p, none => withSubjectPredicate s p
    | none, some p, some o => withObjectPredicate o p
    | none, some p, none => (table.predicateIndex.bucket p).length
    | some s, none, some o => min (withSubject s) (withObject o)
    | some s, none, none => withSubject s
    | none, none, some o => withObject o
    | none, none, none => table.quadCount

/-- The first key is the smaller one: fewer bound variables, or as many and more quads. -/
def keyLt (a b : Nat × Nat) : Bool := a.1 < b.1 || (a.1 = b.1 && b.2 < a.2)

/-- The patterns of a BGP in the order in which they are evaluated; of several best ones the last
is taken. The source returns their positions. -/
def orderPatterns (patterns : List (TriplePattern N))
    (alreadyBound : Finset String) : List (TriplePattern N) :=
  greedy (fun bound remaining => argBest (fun best k => !keyLt k best)
      (remaining.map fun tp => (boundCount bound tp, knownCardinality ds tp)))
    (fun bound tp => bound ∪ tp.variables) patterns.length alreadyBound patterns

theorem orderPatterns_perm (patterns : List (TriplePattern N))
    (alreadyBound : Finset String) : (orderPatterns ds patterns alreadyBound).Perm patterns :=
  greedy_perm _ _ _ _ _

end JoinOrdering

/-- What a position of a pattern asks of a quad: an id, nothing, or something no quad has. -/
inductive MatchTerm where
  | bound (id : GraphElementId)
  | wildcard
  | never
  deriving DecidableEq

def MatchTerm.intoQueryArg : MatchTerm → Option GraphElementId
  | bound id => some id
  | _ => none

def MatchTerm.ofId : Option GraphElementId → MatchTerm
  | some id => bound id
  | none => never

variable (ds : Datastore N)

def resolveMatchTerm (sub : PartialSub N) : Term N → MatchTerm
  | .var v =>
    match sub.lookup v with
    | some val => .ofId (val.toId ds)
    | none => .wildcard
  | .constant gel => .ofId (ds.resources.resourceMap.lookup gel)
  | .tripleTerm _ _ _ => .never

def ActiveGraph.id (ds : Datastore N) (sub : PartialSub N) : ActiveGraph → Option GraphElementId
  | .fixed id => some id
  | .var v => (sub.lookup v).bind (·.toId ds)

/-- Bind a position of a pattern to the id of a matched quad. -/
def bindTerm (id : GraphElementId) (sub : PartialSub N) :
    Term N → Option (PartialSub N)
  | .var v => bindVariable ds sub v (.interned id)
  | _ => some sub

def bindGraph (id : GraphElementId) (sub : PartialSub N) :
    ActiveGraph → Option (PartialSub N)
  | .var v => bindVariable ds sub v (.interned id)
  | .fixed _ => some sub

/-- A variable stands at two positions of the pattern, the variable of the active graph counted as
a position. -/
def patternRepeatsVariable (tp : TriplePattern N) (ag : ActiveGraph) : Bool :=
  let name : Term N → Option String
    | .var v => some v
    | _ => none
  let names := [tp.subject, tp.predicate, tp.object].filterMap name ++
    match ag with
    | .var v => [v]
    | .fixed _ => []
  ¬ names.Nodup

/-- Extend the solutions of the quads one after another, until there are `budget` of them. -/
def collectSolutions (extend : Quad → Option (PartialSub N)) :
    Option Nat → List Quad → List (PartialSub N)
  | _, [] => []
  | budget, quad :: quads =>
    match extend quad with
    | none => collectSolutions extend budget quads
    | some newSub =>
      match budget with
      | none => newSub :: collectSolutions extend none quads
      | some b =>
        if b ≤ 1 then [newSub] else newSub :: collectSolutions extend (some (b - 1)) quads

theorem collectSolutions_none (extend : Quad → Option (PartialSub N)) (quads : List Quad) :
    collectSolutions extend none quads = quads.filterMap extend := by
  induction quads with
  | nil => rfl
  | cons quad quads ih =>
    rw [collectSolutions, List.filterMap_cons]
    cases extend quad with
    | none => exact ih
    | some r => exact congrArg (r :: ·) ih

/-- A constant that the store does not know matches nothing. -/
def isKnown : Term N → Bool
  | .constant gel => (ds.resources.resourceMap.lookup gel).isSome
  | _ => true

/-- The solutions of a pattern that extend `sub`; `forcedSubject` takes the place of the subject
when that is a triple term. -/
def evalTriplePatternCore (ag : ActiveGraph) (tp : TriplePattern N)
    (forcedSubject : Option GraphElementId) (sub : PartialSub N) (budget : Option Nat) :
    List (PartialSub N) :=
  if !(isKnown ds tp.subject && isKnown ds tp.predicate && isKnown ds tp.object) then []
  else
    let s := match forcedSubject with
      | some id => MatchTerm.bound id
      | none => resolveMatchTerm ds sub tp.subject
    let p := resolveMatchTerm ds sub tp.predicate
    let o := resolveMatchTerm ds sub tp.object
    if s = .never ∨ p = .never ∨ o = .never then []
    else
      let quadLimit :=
        if forcedSubject.isNone && !patternRepeatsVariable tp ag then budget else none
      let extend (quad : Quad) :=
        (bindTerm ds quad.subject sub tp.subject).bind fun sub =>
          (bindTerm ds quad.predicate sub tp.predicate).bind fun sub =>
            (bindTerm ds quad.obj sub tp.object).bind fun sub =>
              bindGraph ds quad.tripleId sub ag
      collectSolutions extend budget (ds.namedGraphs.quadsMatchingLimited (ag.id ds sub)
        s.intoQueryArg p.intoQueryArg o.intoQueryArg quadLimit)

/-- A position of an embedded triple, as far as the solution determines it. -/
inductive Slot where
  | known (id : GraphElementId)
  | free (v : String)
  | unmatchable
  deriving DecidableEq

def resolveSlot (sub : PartialSub N) : Term N → Slot
  | .constant gel =>
    match ds.resources.resourceMap.lookup gel with
    | some id => .known id
    | none => .unmatchable
  | .var v =>
    match sub.lookup v with
    | some val =>
      match val.toId ds with
      | some id => .known id
      | none => .unmatchable
    | none => .free v
  | .tripleTerm _ _ _ => .unmatchable

def Slot.id : Slot → Option GraphElementId
  | .known id => some id
  | _ => none

def bindFree (id : GraphElementId) (bindings : PartialSub N) :
    Slot → Option (PartialSub N)
  | .free v => bindVariable ds bindings v (.interned id)
  | _ => some bindings

variable (qs : QueryStore N)

/-- The quads of the reified triples that match the slots; an embedded triple without free
variables is looked up by its key. -/
def reifiedQuads : Slot → Slot → Slot → List Quad
  | .known s, .known p, .known o =>
    match qs.resources.resourceMap.lookup (.tripleTerm ⟨s, p, o⟩) with
    | some id => [⟨id, s, p, o⟩]
    | none => []
  | s, p, o => qs.reifiedTriples.quadsMatching none s.id p.id o.id

/-- The triple terms that match an embedded pattern, each with the bindings of its variables. -/
def tripleTermCandidates (sub : PartialSub N)
    (subject predicate object : Term N) : List (GraphElementId × PartialSub N) :=
  let s := resolveSlot qs.toDatastore sub subject
  let p := resolveSlot qs.toDatastore sub predicate
  let o := resolveSlot qs.toDatastore sub object
  if s = .unmatchable ∨ p = .unmatchable ∨ o = .unmatchable then []
  else
    (reifiedQuads qs s p o).filterMap fun quad =>
      ((bindFree qs.toDatastore quad.subject ∅ s).bind fun b =>
        (bindFree qs.toDatastore quad.predicate b p).bind fun b =>
          bindFree qs.toDatastore quad.obj b o).map fun b => (quad.tripleId, b)

def evalTriplePattern (ag : ActiveGraph) (tp : TriplePattern N)
    (sub : PartialSub N) (budget : Option Nat) : List (PartialSub N) :=
  match tp.subject with
  | .tripleTerm s p o =>
    (tripleTermCandidates qs sub s p o).flatMap fun (termId, bindings) =>
      match mergeSolutions qs.toDatastore sub bindings with
      | some merged => evalTriplePatternCore qs.toDatastore ag tp (some termId) merged none
      | none => []
  | _ => evalTriplePatternCore qs.toDatastore ag tp none sub budget

/-- The solutions of one pattern for the rows one after another, until there are `b` of them. -/
def budgetedRows (eval : PartialSub N → Option Nat → List (PartialSub N)) (b : Nat) :
    List (PartialSub N) → List (PartialSub N) → List (PartialSub N)
  | acc, [] => acc
  | acc, sub :: rest =>
    if b ≤ acc.length then acc
    else budgetedRows eval b (acc ++ eval sub (some (b - acc.length))) rest

def evalPatternRows (eval : PartialSub N → Option Nat → List (PartialSub N))
    (budget : Option Nat) (rows : List (PartialSub N)) : List (PartialSub N) :=
  match budget with
  | some b => budgetedRows eval b [] rows
  | none => rows.flatMap fun sub => eval sub none

/-- The patterns one after another; only the last one gets the budget. -/
def evalOrdered (qs : QueryStore N) (ag : ActiveGraph) (budget : Option Nat) :
    List (TriplePattern N) → List (PartialSub N) → List (PartialSub N)
  | [], current => current
  | pattern :: rest, current =>
    let next := evalPatternRows (evalTriplePattern qs ag pattern)
      (if rest.isEmpty then budget else none) current
    if next.isEmpty then next else evalOrdered qs ag budget rest next

def evalBgp (ag : ActiveGraph) (patterns : List (TriplePattern N))
    (solutions : List (PartialSub N)) (budget : Option Nat) : List (PartialSub N) :=
  let alreadyBound := match solutions with
    | [] => ∅
    | sub :: _ => sub.keys
  evalOrdered qs ag budget (orderPatterns qs.toDatastore patterns alreadyBound) solutions

end RdfDatalog.Sparql
