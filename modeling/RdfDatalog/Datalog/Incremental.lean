import RdfDatalog.Datalog.Strata
import RdfDatalog.Datalog.Stratifier
import RdfDatalog.Math.GraphSearch

namespace RdfDatalog.Datalog

open BucketIndex WorklistSearch

variable {Expr : Type}

/-- One program per stratum, in order, and the store they are materialised over, which the source
hands to each method. -/
structure IncrementalReasoner (Expr : Type) where
  programs : List (DatalogProgram Expr)
  base : QuadStore

/-- The outcome of an update: on a fault, the state it leaves. -/
abbrev Updated (Expr : Type) : Type → Type := Except (Fault Expr × IncrementalReasoner Expr)

def assertedOnly (s : QuadStore) : QuadStore :=
  s.table.extensionalQuads.foldl QuadStore.addQuad .new

namespace IncrementalReasoner

variable (env : ReasonerEnv Expr)

def new [DecidableEq Expr] (rules : List (Rule Expr)) (base : QuadStore) :
    Except (Fault Expr × QuadStore) (IncrementalReasoner Expr) :=
  match (RulePartitioner.new rules).orderRules with
  | .error f => .error (f, base)
  | .ok strata =>
    match strata.mapM DatalogProgram.new with
    | .error e => .error (.reasoning e, base)
    | .ok programs =>
      match materialiseAll env programs base with
      | .error (f, s) => .error (f, s.base)
      | .ok s => .ok ⟨s.programs, s.base⟩

variable (programs : List (DatalogProgram Expr)) (m : IncrementalReasoner Expr)

/-- Every witness on record, with the quad it helped to derive. -/
def witnessPairs : List (Quad × Quad) :=
  programs.flatMap fun p => p.derivedFrom.iter.flatMap fun e =>
    e.2.flatMap fun d => d.bodyWitnesses.map fun w => (w, e.1)

def buildReverseIndex : Flat Quad Quad :=
  (witnessPairs programs).foldl (fun reverse e => reverse.push e.1 e.2) ∅

/-- Follow the reverse index from `s`; the bound is more than the steps this can take. -/
def followReverse (allowed : Quad → Bool) (s : State Quad) : List Quad :=
  run (buildReverseIndex programs).bucket allowed
    (s.pending.length + (witnessPairs programs).length + 1) s

/-- The derived quads whose recorded derivations lead back to a deleted quad. -/
def backwardPhase (deletes : List Quad) : List Quad :=
  followReverse programs (fun _ => true) ⟨deletes, []⟩

def totalDerived : Nat :=
  (programs.map fun p => p.derivedFrom.iter.length).sum

/-- More than a quarter of the derived quads are affected. -/
def exceedsThreshold (pd : List Quad) : Bool :=
  0 < totalDerived programs && totalDerived programs < 4 * pd.length

/-- Take a derived quad and its derivations out. -/
def retract (q : Quad) : IncrementalReasoner Expr :=
  ⟨m.programs.map fun p => p.withDerivedFrom (p.derivedFrom.remove q), m.base.removeQuad q⟩

/-- The derivations of `pd`, with the positions of the programs that hold them. -/
def removedDerivations (pd : List Quad) : List (Quad × Nat × List Derivation) :=
  pd.flatMap fun q => programs.zipIdx.filterMap fun e =>
    if (e.1.derivedFrom.derivationsFor q).isEmpty then none
    else some (q, e.2, e.1.derivedFrom.derivationsFor q)

/-- Take `pd` out, then re-derive what still follows. -/
def rederive (pd : List Quad) : Except (Fault Expr × Sweep Expr) (Sweep Expr) :=
  materialiseAll env (pd.foldl retract m).programs (pd.foldl retract m).base

/-- Unrecord what a pass recorded, program by program. -/
def undoTracked : List (DatalogProgram Expr) → List (List (Quad × Derivation)) →
    List (DatalogProgram Expr)
  | p :: ps, buf :: tracked =>
    p.withDerivedFrom (buf.foldl (fun x e => x.unrecord e.1 e.2) p.derivedFrom) ::
      undoTracked ps tracked
  | ps, _ => ps

def restoreDerivations (removed : List (Quad × Nat × List Derivation)) :
    List (DatalogProgram Expr) :=
  removed.foldl (fun programs e => programs.modify e.2.1 fun p =>
    p.withDerivedFrom (e.2.2.foldl (fun x d => (x.record e.1 d).1) p.derivedFrom)) programs

/-- Undo a failed re-derivation of `pd` that started from `m`. -/
def undoRederive (pd : List Quad) (s : Sweep Expr) : IncrementalReasoner Expr :=
  let redeltaStart := (pd.foldl retract m).base.table.quadCount
  ⟨restoreDerivations (undoTracked s.programs s.tracked) (removedDerivations m.programs pd),
    pd.foldl QuadStore.addIntensionalQuad (s.base.truncateTo redeltaStart)⟩

def undoDeletions (pd deletes : List Quad) (s : Sweep Expr) : IncrementalReasoner Expr :=
  let m := undoRederive m pd s
  { m with base := deletes.foldl QuadStore.addQuad m.base }

/-- Returns how many quads were taken out. -/
def forwardPhase (pd deletes : List Quad) : Updated Expr (IncrementalReasoner Expr × Nat) :=
  match rederive env m pd with
  | .error (f, s) => .error (f, undoDeletions m pd deletes s)
  | .ok s => .ok (⟨s.programs, s.base⟩, pd.length)

/-- Rebuild the closure of the asserted quads that are left. Returns how many were derived. -/
def fullRematerialise (deletes : List Quad) : Updated Expr (IncrementalReasoner Expr × Nat) :=
  let base := assertedOnly (deletes.foldl QuadStore.removeQuad m.base)
  match materialiseReset env m.programs base with
  | .error (f, s) => .error (f, ⟨s.programs, s.base⟩)
  | .ok s => .ok (⟨s.programs, s.base⟩, s.base.table.quadCount - base.table.quadCount)

def applyDeletions (deletes : List Quad) : Updated Expr (IncrementalReasoner Expr × Nat) :=
  if deletes.isEmpty then .ok (m, 0)
  else
    let pd := backwardPhase m.programs deletes
    if exceedsThreshold m.programs pd then fullRematerialise env m deletes
    else forwardPhase env { m with base := deletes.foldl QuadStore.removeQuad m.base }
      (env.quadOrder pd) deletes

/-- Rebuild the closure of the asserted quads with emptied derivation indexes. -/
def rebuildFromBase : Updated Expr (IncrementalReasoner Expr) :=
  match materialiseAll env (m.programs.map fun p => p.withDerivedFrom .new)
      (assertedOnly m.base) with
  | .error (f, s) => .error (f, ⟨s.programs, s.base⟩)
  | .ok s => .ok ⟨s.programs, s.base⟩

def activeRules (m : IncrementalReasoner Expr) : List (Rule Expr) :=
  m.programs.flatMap DatalogProgram.activeRules

section Insertions

/-- The substitution a derivation used, read off its witnesses. -/
def reconstructSubstitution (rule : Rule Expr) (derivation : Derivation) : Option Substitution :=
  matchWitnesses emptySubstitution rule.positivePatterns derivation.bodyWitnesses
where
  matchWitnesses (sub : Substitution) : List QuadPattern → List Quad → Option Substitution
    | [], _ => some sub
    | _ :: _, [] => none
    | p :: ps, w :: ws => (getSubstitutions sub w p).bind fun sub => matchWitnesses sub ps ws

/-- Some derivation of `q` by the rule at `ruleId` is falsified by `fact` at `notPattern`. -/
def falsifies (p : DatalogProgram Expr) (fact : Quad) (ruleId : Nat) (notPattern : QuadPattern)
    (q : Quad) : Bool :=
  match p.rules[ruleId]? with
  | none => false
  | some rule =>
    (p.derivedFrom.derivationsFor q).any fun d => decide (d.ruleId = ruleId) &&
      match reconstructSubstitution rule d with
      | some sub => (getSubstitutions sub fact notPattern).isSome
      | none => false

/-- The derived quads with a recorded derivation that one of `facts` falsifies. -/
def negationInvalidatedSeeds (programs : List (DatalogProgram Expr)) (facts : List Quad) :
    List Quad :=
  (facts.flatMap fun fact => programs.flatMap fun p =>
    (p.negativelyTriggeredRules fact).flatMap fun e =>
      (p.derivedFrom.quadsForRule e.1).filter (falsifies p fact e.1 e.2)).dedup

/-- The seeds, and what was derived with them; asserted quads are left out. -/
def cascadePd (m : IncrementalReasoner Expr) (seeds : List Quad) : List Quad :=
  let allowed := fun q => !m.base.isExtensional q
  followReverse m.programs allowed (seeds.foldl (discover allowed) ⟨[], []⟩)

/-- Retract falsified derivations and re-derive, until nothing is falsified. The source has no
bound on the rounds. -/
def retractNegationInvalidated : Nat → IncrementalReasoner Expr → List Quad →
    Updated Expr (IncrementalReasoner Expr)
  | 0, m, _ => .error (.outOfFuel, m)
  | fuel + 1, m, checkFacts =>
    let seeds := negationInvalidatedSeeds m.programs checkFacts
    if seeds.isEmpty then .ok m
    else
      match rederive env m (env.quadOrder (cascadePd m seeds)) with
      | .error (f, s) => .error (f, ⟨s.programs, s.base⟩)
      | .ok s =>
        retractNegationInvalidated fuel ⟨s.programs, s.base⟩ (s.tracked.flatten.map Prod.fst)

/-- Undo a failed first pass. -/
def undoInsertions (quadStart : Nat) (s : Sweep Expr) : IncrementalReasoner Expr :=
  ⟨undoTracked s.programs s.tracked, s.base.truncateTo quadStart⟩

def applyInsertions (fuel : Nat) (m : IncrementalReasoner Expr) (inserts : List Quad) :
    Updated Expr (IncrementalReasoner Expr) :=
  let quadStart := m.base.table.quadCount
  match materialiseForward env inserts m.programs (inserts.foldl QuadStore.addQuad m.base) with
  | .error (f, s) => .error (f, undoInsertions quadStart s)
  | .ok s => retractNegationInvalidated env fuel ⟨s.programs, s.base⟩
      (inserts ++ s.tracked.flatten.map Prod.fst)

end Insertions

section Rules

/-- A rule of the reasoner, where it stands, and whether it is retracted. -/
structure RuleSlot (Expr : Type) where
  programIndex : Nat
  ruleId : Nat
  rule : Rule Expr
  disabled : Bool

def RuleSlot.position (slot : RuleSlot Expr) : Nat × Nat := (slot.programIndex, slot.ruleId)

def ruleSlots : List (RuleSlot Expr) :=
  programs.zipIdx.flatMap fun e => e.1.rules.zipIdx.map fun x =>
    ⟨e.2, x.2, x.1, e.1.isRuleDisabled x.2⟩

def disableRules (targets : List (Nat × Nat)) (programs : List (DatalogProgram Expr)) :
    List (DatalogProgram Expr) :=
  targets.foldl (fun programs t => programs.modify t.1 fun p => p.disableRule t.2) programs

def enableRules (targets : List (Nat × Nat)) (programs : List (DatalogProgram Expr)) :
    List (DatalogProgram Expr) :=
  targets.foldl (fun programs t => programs.modify t.1 fun p => p.enableRule t.2) programs

def quadsDerivedBy (target : Nat × Nat) : List Quad :=
  match programs[target.1]? with
  | none => []
  | some p =>
    (p.derivedFrom.iter.filter fun e => e.2.any fun d => d.ruleId = target.2).map Prod.fst

/-- The quads that the targets derived, and what was derived with them; asserted quads are left
out. -/
def backwardPhaseFromRuleRemoval (targets : List (Nat × Nat)) : List Quad :=
  cascadePd m (targets.flatMap (quadsDerivedBy m.programs))

def undoRuleDeletions (pd : List Quad)
    (targets : List (Nat × Nat)) (s : Sweep Expr) : IncrementalReasoner Expr :=
  let m := undoRederive m pd s
  { m with programs := enableRules targets m.programs }

def forwardPhaseRules (pd : List Quad)
    (targets : List (Nat × Nat)) : Updated Expr (IncrementalReasoner Expr × Nat) :=
  match rederive env m pd with
  | .error (f, s) => .error (f, undoRuleDeletions m pd targets s)
  | .ok s => .ok (⟨s.programs, s.base⟩, pd.length)

def fullRematerialiseRules (targets : List (Nat × Nat)) :
    Updated Expr (IncrementalReasoner Expr × Nat) :=
  let base := assertedOnly m.base
  match materialiseReset env (disableRules targets m.programs) base with
  | .error (f, s) =>
    let restored := List.zipWith DatalogProgram.withDerivedFrom s.programs
      (m.programs.map DatalogProgram.derivedFrom)
    .error (f, ⟨enableRules targets restored, m.base⟩)
  | .ok s => .ok (⟨s.programs, s.base⟩, s.base.table.quadCount - base.table.quadCount)

/-- The state while rules are inserted, with what has to be undone on a fault. -/
structure RuleInsertion (Expr : Type) where
  programs : List (DatalogProgram Expr)
  base : QuadStore
  tracked : List (Nat × List (Quad × Derivation))
  reactivated : List (Nat × Nat)

/-- Feed the quads a reactivated rule derived to the later strata; nothing runs on no quads. -/
def feedForward (delta : List Quad) (later : List (DatalogProgram Expr)) (base : QuadStore) :
    Except (Fault Expr × Sweep Expr) (Sweep Expr) :=
  sweep (fun delta p base => if delta.isEmpty then .ok ⟨base, p.derivedFrom, []⟩
    else p.materialiseSeminaiveTrackedFromFacts env base delta) delta later base

variable (st : RuleInsertion Expr)

/-- Put back the programs from `start` on, which a pass has run. -/
def RuleInsertion.resume (start : Nat) (s : Sweep Expr) : RuleInsertion Expr :=
  { st with
    programs := st.programs.take start ++ s.programs
    base := s.base
    tracked := st.tracked ++ (s.tracked.zipIdx start).map Prod.swap }

/-- Enable a rule, materialise its stratum, and feed what is new forward. -/
def reactivateRule (target : Nat × Nat) :
    Except (Fault Expr × RuleInsertion Expr) (RuleInsertion Expr) :=
  let st := { st with
    programs := st.programs.modify target.1 fun p => p.enableRule target.2
    reactivated := st.reactivated ++ [target] }
  match st.programs.drop target.1 with
  | [] => .ok st
  | p :: later =>
    match p.materialiseSeminaiveTracked env st.base with
    | .error (f, m) => .error (f, st.resume target.1
        ⟨p.withDerivedFrom m.derivedFrom :: later, m.base, [m.track]⟩)
    | .ok m =>
      match feedForward env (m.track.map Prod.fst) later m.base with
      | .error (f, s) => .error (f, st.resume target.1 (s.cons p m))
      | .ok s => .ok (st.resume target.1 (s.cons p m))

/-- Reactivate the requested rules, then append and materialise the fresh strata. -/
def insertRules (reactivate : List (Nat × Nat))
    (fresh : List (DatalogProgram Expr)) :
    Except (Fault Expr × RuleInsertion Expr) (RuleInsertion Expr) :=
  match reactivate.foldlM (reactivateRule env) st with
  | .error e => .error e
  | .ok st =>
    match materialiseAll env fresh st.base with
    | .error (f, s) => .error (f, st.resume st.programs.length s)
    | .ok s => .ok (st.resume st.programs.length s)

def undoRuleInsertions (quadStart origProgramCount : Nat) (st : RuleInsertion Expr) :
    IncrementalReasoner Expr :=
  let unrecorded := st.tracked.foldl (fun programs e => programs.modify e.1 fun p =>
    p.withDerivedFrom (e.2.foldl (fun x e => x.unrecord e.1 e.2) p.derivedFrom)) st.programs
  ⟨disableRules st.reactivated (unrecorded.take origProgramCount), st.base.truncateTo quadStart⟩

variable [DecidableEq Expr]

/-- The places of `rules` that are not retracted yet. -/
def deletionTargets (rules : List (Rule Expr)) : List (Nat × Nat) :=
  ((ruleSlots programs).filter fun slot => !slot.disabled && rules.contains slot.rule).map
    RuleSlot.position

def applyRuleDeletions (rules : List (Rule Expr)) : Updated Expr (IncrementalReasoner Expr × Nat) :=
  if rules.isEmpty then .ok (m, 0)
  else
    let targets := deletionTargets m.programs rules
    if targets.isEmpty then .ok (m, 0)
    else
      let pd := backwardPhaseFromRuleRemoval m targets
      if exceedsThreshold m.programs pd then fullRematerialiseRules env m targets
      else forwardPhaseRules env { m with programs := disableRules targets m.programs }
        (env.quadOrder pd) targets

/-- What `apply_rule_insertions` was asked for: places to reactivate, and rules it has not seen. -/
structure Requested (Expr : Type) where
  reactivate : List (Nat × Nat)
  fresh : List (Rule Expr)

def classify (acc : Requested Expr) (r : Rule Expr) : Requested Expr :=
  match (ruleSlots programs).find? fun slot => slot.rule = r with
  | some slot =>
    if slot.disabled ∧ slot.position ∉ acc.reactivate then
      { acc with reactivate := acc.reactivate ++ [slot.position] }
    else acc
  | none => if r ∈ acc.fresh then acc else { acc with fresh := acc.fresh ++ [r] }

def requestedRules (newRules : List (Rule Expr)) : Requested Expr :=
  newRules.foldl (classify programs) ⟨[], []⟩

/-- The rules in force once `reactivate` is enabled again. -/
def existingActive (reactivate : List (Nat × Nat)) : List (Rule Expr) :=
  ((ruleSlots programs).filter fun slot =>
    reactivate.contains slot.position || !slot.disabled).map RuleSlot.rule

/-- The error for a rule whose head another rule in force reads. -/
def dependedOnError (existing : List (Rule Expr)) (rule : Rule Expr) :
    Option (ReasoningError Expr) :=
  match rule.head with
  | .contradiction => none
  | .normalHead h =>
    (dependingRules (existing.filter fun r => r ≠ rule) h).head?.map fun edge =>
      .dependedOn rule edge.getRule

/-- The checks of `apply_rule_insertions`, which change nothing: the programs of the fresh
strata. -/
def freshPrograms (existing reintroduced fresh : List (Rule Expr)) :
    Except (Fault Expr) (List (DatalogProgram Expr)) :=
  match reintroduced.findSome? (dependedOnError existing) with
  | some e => .error (.reasoning e)
  | none =>
    match (RulePartitioner.new (existing ++ fresh)).orderRules with
    | .error f => .error f
    | .ok _ =>
      match (if fresh.isEmpty then .ok [] else (RulePartitioner.new fresh).orderRules) with
      | .error f => .error f
      | .ok strata =>
        match strata.mapM DatalogProgram.new with
        | .error e => .error (.reasoning e)
        | .ok programs => .ok programs

def applyRuleInsertions (newRules : List (Rule Expr)) :
    Updated Expr (IncrementalReasoner Expr × Nat) :=
  if newRules.isEmpty then .ok (m, 0)
  else
    let requested := requestedRules m.programs newRules
    let fresh := env.ruleOrder requested.fresh
    if requested.reactivate.isEmpty && fresh.isEmpty then .ok (m, 0)
    else
      let existing := existingActive m.programs requested.reactivate
      let reactivated := requested.reactivate.filterMap fun t =>
        m.programs[t.1]?.bind fun p => p.rules[t.2]?
      match freshPrograms existing (fresh ++ reactivated) fresh with
      | .error f => .error (f, m)
      | .ok programs =>
        let quadStart := m.base.table.quadCount
        match insertRules env ⟨m.programs, m.base, [], []⟩ requested.reactivate programs with
        | .error (f, st) => .error (f, undoRuleInsertions quadStart m.programs.length st)
        | .ok st => .ok (⟨st.programs, st.base⟩, st.base.table.quadCount - quadStart)

end Rules

end IncrementalReasoner

end RdfDatalog.Datalog
