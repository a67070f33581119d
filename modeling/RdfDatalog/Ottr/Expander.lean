import RdfDatalog.Ottr.Ast
import Mathlib.Data.Finset.Card
import Mathlib.Data.List.MinMax

namespace RdfDatalog.Ottr

variable {N : NativeTypes} {B B' : Type}

/-- The id of the template that adds a triple. -/
def ottrTriple : IriReference := "http://ns.ottr.xyz/0.4/Triple"

inductive OttrError where
  | parse (msg : String)
  | unknownTemplate (template : String)
  | arityMismatch (template : String) (got expected : Nat)
  | recursiveTemplate (template : String)
  | unboundVariable (name : String)
  deriving DecidableEq

/-- `cutOff` where the recursion of the model ends before that of the source does. -/
inductive Fault where
  | ottr (e : OttrError)
  | cutOff
  deriving DecidableEq

/-- Fails with the store as it is then: what was added before stays. -/
abbrev Expanded (N : NativeTypes) (α : Type) := Except (Fault × Datastore N) α

section Lists

def listItems : Argument N B → Option (List (Argument N B))
  | .list items => some items
  | _ => none

def listPositions (arguments : List (Argument N B)) : List Nat :=
  arguments.zipIdx.filterMap fun a => (listItems a.1).map fun _ => a.2

def listVecs (arguments : List (Argument N B)) : List (List (Argument N B)) :=
  arguments.filterMap listItems

def cartesianProduct {α : Type} (lists : List (List α)) : List (List α) :=
  lists.foldl (fun acc list => acc.flatMap fun combo => list.map fun item => combo ++ [item]) [[]]

/-- The arguments with other values at the given positions. -/
def setArguments {α : Type} (arguments : List α) (positions : List Nat) (values : List α) :
    List α :=
  (positions.zip values).foldl (fun args value => args.set value.1 value.2) arguments

/-- One list of arguments for each choice of an item from every list. -/
def crossArguments (arguments : List (Argument N B)) : List (List (Argument N B)) :=
  (cartesianProduct (listVecs arguments)).map (setArguments arguments (listPositions arguments))

/-- One list of arguments for each index of the shortest list. -/
def zipMinArguments (arguments : List (Argument N B)) : List (List (Argument N B)) :=
  let vecs := listVecs arguments
  let minLen := ((vecs.map List.length).min?).getD 0
  (List.range minLen).map fun idx =>
    setArguments arguments (listPositions arguments) (vecs.filterMap fun items => items[idx]?)

def expandedArguments : Option Expander → List (Argument N B) → List (List (Argument N B))
  | none, arguments => [arguments]
  | some .cross, arguments => crossArguments arguments
  | some .zipMin, arguments => zipMinArguments arguments

end Lists

section Triples

/-- The store, and the blank nodes made for the labels of one triple. -/
structure ResolveState (N : NativeTypes) where
  store : Datastore N
  blankNodes : List (String × GraphElementId)

def ResolveState.addResource (st : ResolveState N) (e : GraphElement N) :
    GraphElementId × ResolveState N :=
  let (store, id) := st.store.addResource e
  (id, { st with store })

def resolveTerm (term : Term N String) (st : ResolveState N) :
    Expanded N (GraphElementId × ResolveState N) :=
  match term with
  | .iri iri => .ok (st.addResource (.iri iri))
  | .literal literal => .ok (st.addResource (.graphLiteral literal))
  | .blankNode label =>
    match st.blankNodes.lookup label with
    | some id => .ok (id, st)
    | none =>
      let (resources, id) := st.store.resources.createUnnamedAnonResource
      .ok (id, ⟨{ st.store with resources }, (label, id) :: st.blankNodes⟩)
  | .var name => .error (.ottr (.unboundVariable name), st.store)

def resolveArgument (argument : Argument N String) (st : ResolveState N) :
    Expanded N (GraphElementId × ResolveState N) :=
  match argument with
  | .term term => resolveTerm term st
  -- the source panics here, but has filtered such arguments out before
  | .none => .error (.cutOff, st.store)
  | .list _ | .listExpand _ => .error (.ottr (.parse
      "list arguments are not yet supported in ottr:Triple position"), st.store)

def Argument.isNone : Argument N B → Bool
  | .none => true
  | _ => false

/-- The base template. -/
def addTriple (arguments : List (Argument N String)) (store : Datastore N) :
    Expanded N (Datastore N) :=
  if arguments.any Argument.isNone then .ok store
  else
    match arguments with
    | [subject, predicate, object] => do
      let (subject, st) ← resolveArgument subject ⟨store, []⟩
      let (predicate, st) ← resolveArgument predicate st
      let (object, st) ← resolveArgument object st
      .ok (st.store.addQuad ⟨defaultGraphElementId, subject, predicate, object⟩)
    | _ => .error (.ottr (.arityMismatch ottrTriple arguments.length 3), store)

end Triples

def bindParameter (bindings : Bindings N B) (value : Parameter N × Argument N B) :
    Bindings N B :=
  Function.update bindings value.1.var (some value.2)

/-- The values of the parameters; the last one counts where two have a name in common. -/
def bindParameters (parameters : List (Parameter N)) (arguments : List (Argument N B)) :
    Bindings N B :=
  (parameters.zip arguments).foldl bindParameter (fun _ => none)

def expandCallOn (expandInstance : Instance N → Bindings N String → List IriReference →
      Datastore N → Expanded N (Datastore N))
    (templates : Templates N) (template : IriReference) (substituted : List (Argument N String))
    (callStack : List IriReference) (store : Datastore N) : Expanded N (Datastore N) :=
  if template = ottrTriple then addTriple substituted store
  else if template ∈ callStack then .error (.ottr (.recursiveTemplate template), store)
  else
    match templates.lookup template with
    | none => .error (.ottr (.unknownTemplate template), store)
    | some definition =>
      if definition.parameters.length ≠ substituted.length then
        .error (.ottr (.arityMismatch template substituted.length definition.parameters.length),
          store)
      else
        definition.body.foldlM (fun store bodyInstance => expandInstance bodyInstance
          (bindParameters definition.parameters substituted) (template :: callStack) store) store

def expandInstance (templates : Templates N) :
    Nat → Instance N → Bindings N String → List IriReference → Datastore N →
      Expanded N (Datastore N)
  | 0, _, _, _, store => .error (.cutOff, store)
  | fuel + 1, inst, bindings, callStack, store =>
    let substituted := inst.arguments.map (substituteArgument bindings)
    match inst.expander with
    | some expander =>
      (expandedArguments (some expander) substituted).foldlM
        (fun store arguments => expandInstance templates fuel ⟨inst.template, arguments, none⟩
          bindings callStack store) store
    | none =>
      expandCallOn (expandInstance templates fuel) templates inst.template substituted callStack
        store

/-- Add the triples of the instances. -/
def expand (templates : Templates N) (fuel : Nat) (instances : List (Instance N))
    (store : Datastore N) : Expanded N (Datastore N) :=
  instances.foldlM
    (fun store inst => expandInstance templates fuel inst (fun _ => none) [] store) store

section Termination

variable {templates : Templates N}

/-- The run of the model ends too early. -/
def CutsOff {α : Type} (run : Expanded N α) : Prop := ∃ store, run = .error (.cutOff, store)

/-- A body instance of the template `t` is one of `t'`. -/
def Calls (templates : Templates N) (t t' : IriReference) : Prop :=
  ∃ definition, templates.lookup t = some definition ∧ ∃ inst ∈ definition.body, inst.template = t'

/-- What an error says of the templates is so. -/
def Justified (templates : Templates N) : OttrError → Prop
  | .recursiveTemplate t => Relation.TransGen (Calls templates) t t
  | .unknownTemplate t => t ≠ ottrTriple ∧ templates.lookup t = none
  | .arityMismatch t got expected => got ≠ expected ∧ (t = ottrTriple ∧ expected = 3 ∨
      ∃ definition, templates.lookup t = some definition ∧
        expected = definition.parameters.length)
  | .unboundVariable _ | .parse _ => True

/-- The run fails only where the source does, with an error that is so. -/
def FailsJustly {α : Type} (templates : Templates N) (run : Expanded N α) : Prop :=
  ∀ fault store, run = .error (fault, store) → ∃ e, fault = .ottr e ∧ Justified templates e

theorem failsJustly_ok {α : Type} (a : α) : FailsJustly templates (.ok a : Expanded N α) :=
  nofun

theorem failsJustly_error {α : Type} (e : OttrError) (he : Justified templates e)
    (store : Datastore N) :
    FailsJustly templates (.error (.ottr e, store) : Expanded N α) := by
  intro fault store' heq
  cases heq
  exact ⟨e, rfl, he⟩

theorem FailsJustly.bind {α β : Type} {run : Expanded N α} {next : α → Expanded N β}
    (h : FailsJustly templates run) (hnext : ∀ a, FailsJustly templates (next a)) :
    FailsJustly templates (run.bind next) := by
  cases run with
  | ok a => exact hnext a
  | error fault =>
    intro fault' store heq
    cases heq
    exact h _ _ rfl

theorem failsJustly_foldlM {α : Type} {step : Datastore N → α → Expanded N (Datastore N)}
    {l : List α} (h : ∀ a ∈ l, ∀ store, FailsJustly templates (step store a))
    (store : Datastore N) : FailsJustly templates (l.foldlM step store) := by
  induction l generalizing store with
  | nil => exact failsJustly_ok store
  | cons a l ih =>
    rw [List.forall_mem_cons] at h
    exact (h.1 store).bind (ih h.2)

theorem failsJustly_resolveArgument {a : Argument N String} (ha : a.isNone = false)
    (st : ResolveState N) : FailsJustly templates (resolveArgument a st) := by
  cases a with
  | term t =>
    cases t with
    | blankNode label =>
      rw [resolveArgument, resolveTerm]
      cases st.blankNodes.lookup label <;> exact failsJustly_ok _
    | var name => exact failsJustly_error (.unboundVariable name) trivial st.store
    | _ => exact failsJustly_ok _
  | none => cases ha
  | _ => exact failsJustly_error (.parse _) trivial st.store

theorem failsJustly_addTriple (arguments : List (Argument N String)) (store : Datastore N) :
    FailsJustly templates (addTriple arguments store) := by
  unfold addTriple
  by_cases hnone : arguments.any Argument.isNone = true
  · rw [if_pos hnone]
    exact failsJustly_ok store
  · rw [if_neg hnone]
    simp only [List.any_eq_true, not_exists, not_and, Bool.not_eq_true] at hnone
    split
    · next s p o =>
      refine (failsJustly_resolveArgument (hnone s (by simp)) _).bind fun _ => ?_
      refine (failsJustly_resolveArgument (hnone p (by simp)) _).bind fun _ => ?_
      exact (failsJustly_resolveArgument (hnone o (by simp)) _).bind fun _ => failsJustly_ok _
    · next hthree =>
      refine failsJustly_error (.arityMismatch _ _ _) ⟨fun hlength => ?_, .inl ⟨rfl, rfl⟩⟩ store
      obtain ⟨s, p, o, rfl⟩ := List.length_eq_three.mp hlength
      exact hthree s p o rfl

/-- The templates that may still be called. -/
def callable (templates : Templates N) (callStack : List IriReference) : Finset IriReference :=
  templates.keys.toFinset \ callStack.toFinset

variable {callStack : List IriReference}

theorem card_callable_cons {template : IriReference} {definition : TemplateDef N}
    (hlookup : templates.lookup template = some definition) (hstack : template ∉ callStack) :
    (callable templates (template :: callStack)).card < (callable templates callStack).card := by
  have hmem : template ∈ callable templates callStack := by
    rw [callable, Finset.mem_sdiff, List.mem_toFinset, List.mem_toFinset]
    refine ⟨?_, hstack⟩
    exact AList.mem_keys.mp (AList.lookup_isSome.mp (hlookup ▸ rfl))
  have hset : callable templates (template :: callStack) =
      (callable templates callStack).erase template := by
    rw [callable, callable, List.toFinset_cons, Finset.sdiff_insert]
  rw [hset]
  exact Finset.card_erase_lt_of_mem hmem

theorem failsJustly_expandInstance {fuel : Nat} {inst : Instance N}
    (h : 2 * (callable templates callStack).card + (if inst.expander.isSome then 2 else 1) ≤ fuel)
    (hcalled : ∀ t ∈ callStack, Relation.TransGen (Calls templates) t inst.template)
    (bindings : Bindings N String) (store : Datastore N) :
    FailsJustly templates (expandInstance templates fuel inst bindings callStack store) := by
  induction fuel generalizing inst callStack bindings store with
  | zero => split at h <;> omega
  | succ fuel ih =>
    rw [expandInstance]
    cases hexpander : inst.expander with
    | some expander =>
      rw [hexpander, Option.isSome_some, if_pos rfl] at h
      refine failsJustly_foldlM (fun arguments _ store => ?_) store
      refine @ih callStack ⟨inst.template, arguments, none⟩ ?_ hcalled bindings store
      dsimp only [Option.isSome_none]
      rw [if_neg Bool.false_ne_true]
      omega
    | none =>
      rw [hexpander, Option.isSome_none, if_neg Bool.false_ne_true] at h
      dsimp only
      unfold expandCallOn
      split
      · exact failsJustly_addTriple _ store
      · next hbase =>
        split
        · next hstack => exact failsJustly_error (.recursiveTemplate _) (hcalled _ hstack) store
        · next hstack =>
          cases hlookup : templates.lookup inst.template with
          | none => exact failsJustly_error (.unknownTemplate _) ⟨hbase, hlookup⟩ store
          | some definition =>
            dsimp only
            split
            · next harity =>
              exact failsJustly_error (.arityMismatch _ _ _)
                ⟨harity ∘ Eq.symm, .inr ⟨definition, hlookup, rfl⟩⟩ store
            · have hcard := card_callable_cons hlookup hstack
              refine failsJustly_foldlM (fun body hbody store => ih ?_ ?_ _ store) store
              · split <;> omega
              · have hcall : Calls templates inst.template body.template :=
                  ⟨definition, hlookup, body, hbody, rfl⟩
                exact List.forall_mem_cons.mpr
                  ⟨.single hcall, fun t ht => (hcalled t ht).tail hcall⟩

variable {fuel : Nat} (h : 2 * (callable templates []).card + 2 ≤ fuel)
  (instances : List (Instance N)) (store : Datastore N)
include h

theorem failsJustly_expand : FailsJustly templates (expand templates fuel instances store) := by
  refine failsJustly_foldlM (fun inst _ store => ?_) store
  refine failsJustly_expandInstance ?_ (by simp) _ store
  split <;> omega

theorem not_cutsOff_expand : ¬ CutsOff (expand templates fuel instances store) := by
  intro ⟨store', heq⟩
  obtain ⟨e, he, -⟩ := failsJustly_expand h instances store _ _ heq
  cases he

/-- A run with enough fuel that fails meets an error of the source that is so: a template that is
called recursive leads back to itself, and one called unknown is not there. -/
theorem expand_error_justified {fault : Fault} {store' : Datastore N}
    (hrun : expand templates fuel instances store = .error (fault, store')) :
    ∃ e, fault = .ottr e ∧ Justified templates e :=
  failsJustly_expand h instances store fault store' hrun

end Termination

def loopTemplates : Templates NativeTypes.text :=
  AList.singleton "Loop" ⟨[], [⟨"Loop", [], none⟩]⟩

theorem expand_error_justified_loop : Relation.TransGen (Calls loopTemplates) "Loop" "Loop" := by
  have hrun : expand loopTemplates 4 [⟨"Loop", [], none⟩] .new =
      .error (.ottr (.recursiveTemplate "Loop"), .new) := by rfl
  obtain ⟨e, he, hjust⟩ := expand_error_justified (by decide) _ _ hrun
  cases he
  exact hjust

end RdfDatalog.Ottr
