import RdfDatalog.Ottr.Alternatives

namespace RdfDatalog.Ottr

open FallibleFold

variable {N : NativeTypes} {B B' : Type}

/-- What may stand in a triple. -/
inductive Node (N : NativeTypes) (B : Type) where
  | iri (iri : IriReference)
  | literal (l : RdfLiteral N)
  | blank (b : B)

structure Triple (N : NativeTypes) (B : Type) where
  subject : Node N B
  predicate : Node N B
  obj : Node N B

def Node.map (f : B → B') : Node N B → Node N B'
  | .iri i => .iri i
  | .literal l => .literal l
  | .blank b => .blank (f b)

def Triple.map (f : B → B') (t : Triple N B) : Triple N B' :=
  ⟨t.subject.map f, t.predicate.map f, t.obj.map f⟩

def Argument.node : Argument N B → Option (Node N B)
  | .term (.iri i) => some (.iri i)
  | .term (.literal l) => some (.literal l)
  | .term (.blankNode b) => some (.blank b)
  | .term (.var _) | .list _ | .none | .listExpand _ => Option.none

def tripleOf : List (Argument N B) → Option (Triple N B)
  | [s, p, o] =>
    match s.node, p.node, o.node with
    | some s, some p, some o => some ⟨s, p, o⟩
    | _, _, _ => none
  | _ => none

/-- Where a label stands: in the list of instances, or in the body of a template for one of its
instantiations, told by the positions of the calls that lead there. -/
abbrev Scope := List (Nat × Nat)

/-- A blank node of the expansion: the same label in another scope is another node. -/
abbrev ScopedLabel := Scope × String

section Specification

variable (call : Scope → IriReference → List (Argument N ScopedLabel) →
  Option (List (Triple N ScopedLabel)))

def evaluated (scope : Scope) (bindings : Bindings N ScopedLabel) (inst : Instance N) :
    List (Argument N ScopedLabel) :=
  inst.arguments.map fun a => (a.map fun label => (scope, label)).value bindings.value

/-- The triples of the instance at position `i` of its list. -/
def expansionOf (scope : Scope) (bindings : Bindings N ScopedLabel) (inst : Instance N × Nat) :
    Option (List (Triple N ScopedLabel)) :=
  ((alternatives inst.1.expander (evaluated scope bindings inst.1)).zipIdx.mapM
    fun arguments => call (scope ++ [(inst.2, arguments.2)]) inst.1.template arguments.1).map
      List.flatten

def expansionOfList (scope : Scope) (bindings : Bindings N ScopedLabel)
    (instances : List (Instance N)) : Option (List (Triple N ScopedLabel)) :=
  (instances.zipIdx.mapM (expansionOf call scope bindings)).map List.flatten

end Specification

/-- The triples of a call; `none` where it has no expansion, or not up to this depth. -/
def expansionOfCall (templates : Templates N) : Nat → Scope → IriReference →
    List (Argument N ScopedLabel) → Option (List (Triple N ScopedLabel))
  | 0, _, _, _ => none
  | depth + 1, scope, template, arguments =>
    if template = ottrTriple then
      if arguments.any Argument.isNone then some []
      else (tripleOf arguments).map fun t => [t]
    else
      match templates.lookup template with
      | none => none
      | some definition =>
        if definition.parameters.length ≠ arguments.length then none
        else expansionOfList (expansionOfCall templates depth) scope
          (parameterValue definition.parameters arguments) definition.body

def expansion (templates : Templates N) (depth : Nat) (instances : List (Instance N)) :
    Option (List (Triple N ScopedLabel)) :=
  expansionOfList (expansionOfCall templates depth) [] (fun _ => none) instances

section Resolving

def resolveNode (node : Node N String) (st : ResolveState N) : GraphElementId × ResolveState N :=
  match node with
  | .iri iri => st.addResource (.iri iri)
  | .literal literal => st.addResource (.graphLiteral literal)
  | .blank label =>
    match st.blankNodes.lookup label with
    | some id => (id, st)
    | none =>
      let (resources, id) := st.store.resources.createUnnamedAnonResource
      (id, ⟨{ st.store with resources }, (label, id) :: st.blankNodes⟩)

def insertTriple (store : Datastore N) (t : Triple N String) : Datastore N :=
  let (subject, st) := resolveNode t.subject ⟨store, []⟩
  let (predicate, st) := resolveNode t.predicate st
  let (object, st) := resolveNode t.obj st
  st.store.addQuad ⟨defaultGraphElementId, subject, predicate, object⟩

variable {a : Argument N String}

theorem resolveArgument_of_node {n : Node N String} (h : a.node = some n) (st : ResolveState N) :
    resolveArgument a st = .ok (resolveNode n st) := by
  cases a with
  | term t =>
    cases t with
    | iri | literal => cases h; rfl
    | blankNode label =>
      cases h
      rw [resolveArgument, resolveTerm, resolveNode]
      cases st.blankNodes.lookup label <;> rfl
    | var name => cases h
  | _ => cases h

theorem resolveArgument_ok {st : ResolveState N} {result : GraphElementId × ResolveState N}
    (h : resolveArgument a st = .ok result) :
    ∃ n, a.node = some n := by
  cases a with
  | term t =>
    cases t with
    | var name => cases h
    | _ => exact ⟨_, rfl⟩
  | _ => cases h

theorem tripleOf_eq_some {arguments : List (Argument N B)} {t : Triple N B} :
    tripleOf arguments = some t ↔ ∃ s p o, arguments = [s, p, o] ∧ s.node = some t.subject ∧
      p.node = some t.predicate ∧ o.node = some t.obj := by
  constructor
  · intro h
    unfold tripleOf at h
    split at h
    · next s p o =>
      split at h
      · next s' p' o' hs hp ho =>
        cases h
        exact ⟨s, p, o, rfl, hs, hp, ho⟩
      · cases h
    · cases h
  · intro ⟨s, p, o, heq, hs, hp, ho⟩
    subst heq
    rw [tripleOf, hs, hp, ho]

theorem addTriple_ok {arguments : List (Argument N String)} {store store' : Datastore N}
    (h : addTriple arguments store = .ok store') :
    (arguments.any Argument.isNone = true ∧ store' = store) ∨
      arguments.any Argument.isNone = false ∧
        ∃ t, tripleOf arguments = some t ∧ store' = insertTriple store t := by
  unfold addTriple at h
  by_cases hnone : arguments.any Argument.isNone = true
  · rw [if_pos hnone] at h
    cases h
    exact .inl ⟨hnone, rfl⟩
  · rw [if_neg hnone] at h
    refine .inr ⟨by simpa using hnone, ?_⟩
    match arguments, h with
    | [s, p, o], h =>
      change (resolveArgument s ⟨store, []⟩).bind _ = _ at h
      cases hs : resolveArgument s ⟨store, []⟩ with
      | error e => rw [hs] at h; cases h
      | ok rs =>
        obtain ⟨ns, hns⟩ := resolveArgument_ok hs
        cases hs.symm.trans (resolveArgument_of_node hns _)
        rw [hs] at h
        change (resolveArgument p (resolveNode ns ⟨store, []⟩).2).bind _ = _ at h
        cases hp : resolveArgument p (resolveNode ns ⟨store, []⟩).2 with
        | error e => rw [hp] at h; cases h
        | ok rp =>
          obtain ⟨np, hnp⟩ := resolveArgument_ok hp
          cases hp.symm.trans (resolveArgument_of_node hnp _)
          rw [hp] at h
          change (resolveArgument o (resolveNode np (resolveNode ns ⟨store, []⟩).2).2).bind _ = _
            at h
          cases ho : resolveArgument o (resolveNode np (resolveNode ns ⟨store, []⟩).2).2 with
          | error e => rw [ho] at h; cases h
          | ok ro =>
            obtain ⟨no, hno⟩ := resolveArgument_ok ho
            cases ho.symm.trans (resolveArgument_of_node hno _)
            rw [ho] at h
            cases h
            exact ⟨⟨ns, np, no⟩, tripleOf_eq_some.mpr ⟨s, p, o, rfl, hns, hnp, hno⟩, rfl⟩
    | [], h | [_], h | [_, _], h | _ :: _ :: _ :: _ :: _, h => cases h

end Resolving

section Erasing

variable (f : B → B')

theorem node_map (a : Argument N B) : (a.map f).node = a.node.map (Node.map f) := by
  cases a with
  | term t => cases t <;> rfl
  | _ => rfl

theorem isNone_map (a : Argument N B) : (a.map f).isNone = a.isNone := by
  cases a <;> rfl

theorem any_isNone_map (arguments : List (Argument N B)) :
    (arguments.map (Argument.map f)).any Argument.isNone = arguments.any Argument.isNone := by
  rw [List.any_map]
  congr 1
  funext a
  exact isNone_map f a

variable {arguments : List (Argument N B)}

theorem tripleOf_map {t : Triple N B'} (h : tripleOf (arguments.map (Argument.map f)) = some t) :
    ∃ t', tripleOf arguments = some t' ∧ t = t'.map f := by
  obtain ⟨s, p, o, heq, hs, hp, ho⟩ := tripleOf_eq_some.mp h
  obtain ⟨s', tail, hargs, rfl, htail⟩ := List.map_eq_cons_iff.mp heq
  obtain ⟨p', tail', rfl, rfl, htail'⟩ := List.map_eq_cons_iff.mp htail
  obtain ⟨o', rest, rfl, rfl, hrest⟩ := List.map_eq_cons_iff.mp htail'
  obtain rfl := List.map_eq_nil_iff.mp hrest
  rw [node_map, Option.map_eq_some_iff] at hs hp ho
  obtain ⟨ns, hs, hts⟩ := hs
  obtain ⟨np, hp, htp⟩ := hp
  obtain ⟨no, ho, hto⟩ := ho
  refine ⟨⟨ns, np, no⟩, tripleOf_eq_some.mpr ⟨s', p', o', hargs, hs, hp, ho⟩, ?_⟩
  cases t
  rw [Triple.map]
  dsimp only at hts htp hto ⊢
  rw [hts, htp, hto]

theorem bindParameter_map (bindings : Bindings N B) (parameter : Parameter N)
    (a : Argument N B) :
    bindParameter (bindings.map f) (parameter, a.map f) =
      (bindParameter bindings (parameter, a)).map f := by
  funext name
  by_cases hname : name = parameter.var
  · subst hname
    simp [bindParameter, Bindings.map]
  · simp [bindParameter, Bindings.map, Function.update_of_ne hname]

variable (parameters : List (Parameter N))

theorem foldl_bindParameter_map (arguments : List (Argument N B))
    (bindings : Bindings N B) :
    (parameters.zip (arguments.map (Argument.map f))).foldl bindParameter (bindings.map f) =
      Bindings.map f ((parameters.zip arguments).foldl bindParameter bindings) := by
  induction parameters generalizing bindings arguments with
  | nil => rfl
  | cons parameter parameters ih =>
    cases arguments with
    | nil => rfl
    | cons a arguments =>
      rw [List.map_cons, List.zip_cons_cons, List.zip_cons_cons, List.foldl_cons,
        List.foldl_cons, bindParameter_map, ih]

theorem bindParameters_map (arguments : List (Argument N B)) :
    bindParameters parameters (arguments.map (Argument.map f)) =
      (bindParameters parameters arguments).map f :=
  foldl_bindParameter_map f parameters arguments (fun _ => none)

def Bindings.Closed (bindings : Bindings N B) : Prop :=
  ∀ name a, bindings name = some a → a.Closed

theorem Bindings.Closed.bind {bindings : Bindings N B} (h : bindings.Closed)
    (parameter : Parameter N) {a : Argument N B} (ha : a.Closed) :
    (bindParameter bindings (parameter, a)).Closed := by
  intro name a' ha'
  rw [bindParameter] at ha'
  by_cases hname : name = parameter.var
  · subst hname
    rw [Function.update_self] at ha'
    cases ha'
    exact ha
  · rw [Function.update_of_ne hname] at ha'
    exact h name a' ha'

theorem bindParameters_closed (h : ∀ a ∈ arguments, a.Closed) :
    (bindParameters parameters arguments).Closed := by
  have hfold (parameters : List (Parameter N)) (bindings : Bindings N B) (hb : bindings.Closed) :
      Bindings.Closed ((parameters.zip arguments).foldl bindParameter bindings) := by
    induction parameters generalizing bindings arguments with
    | nil => exact hb
    | cons parameter parameters ih =>
      cases arguments with
      | nil => exact hb
      | cons value arguments =>
        rw [List.forall_mem_cons] at h
        exact ih h.2 _ (hb.bind parameter h.1)
  exact hfold parameters _ nofun

end Erasing

section Simulation

variable {templates : Templates N}

/-- Write a triple of the expansion as the source does, which knows no scopes. -/
def addErased (store : Datastore N) (t : Triple N ScopedLabel) : Datastore N :=
  insertTriple store (t.map Prod.snd)

/-- The triples that instances add to a store are those of their expansion from some depth on. -/
def Simulates (templates : Templates N) (fuel : Nat) : Prop :=
  ∀ (inst : Instance N) (bindings : Bindings N ScopedLabel) (scope : Scope) (i : Nat)
    (callStack : List IriReference) (store store' : Datastore N), bindings.Closed →
    expandInstance templates fuel inst (bindings.map Prod.snd) callStack store = .ok store' →
    ∃ L, (∀ depth ≥ fuel,
        expansionOf (expansionOfCall templates depth) scope bindings (inst, i) = some L) ∧
      store' = L.foldl addErased store

variable {fuel : Nat} {bindings : Bindings N ScopedLabel} {callStack : List IriReference}
  {instances : List (Instance N)} {store store' : Datastore N}

theorem Simulates.list (h : Simulates templates fuel) (hb : bindings.Closed) (scope : Scope)
    (hrun : instances.foldlM (fun store inst => expandInstance templates fuel inst (bindings.map
      Prod.snd) callStack store) store = .ok store') :
    ∃ L, (∀ depth ≥ fuel,
        expansionOfList (expansionOfCall templates depth) scope bindings instances = some L) ∧
      store' = L.foldl addErased store := by
  rw [← foldlM_zipIdx] at hrun
  obtain ⟨Ls, hall, rfl⟩ := foldlM_forall₂
    (fun s t inst _ hstep => h inst.1 bindings scope inst.2 callStack s t hb hstep) hrun
  refine ⟨Ls.flatten, fun depth hdepth => ?_, rfl⟩
  have hmap := mapM_eq_some_iff.mpr (hall.imp fun _ _ hL => hL depth hdepth)
  rw [expansionOfList, hmap, Option.map_some]

theorem Simulates.call (h : Simulates templates fuel) (scope : Scope) {template : IriReference}
    {arguments : List (Argument N ScopedLabel)} (hclosed : ∀ a ∈ arguments, a.Closed)
    (hrun : expandCallOn (expandInstance templates fuel) templates template (arguments.map
      (Argument.map Prod.snd)) callStack store = .ok store') :
    ∃ L, (∀ depth ≥ fuel + 1, expansionOfCall templates depth scope template arguments = some L) ∧
      store' = L.foldl addErased store := by
  have hdepth {L : List (Triple N ScopedLabel)}
      (hstep : ∀ depth ≥ fuel,
        expansionOfCall templates (depth + 1) scope template arguments = some L) :
      ∀ depth ≥ fuel + 1, expansionOfCall templates depth scope template arguments = some L := by
    intro depth hd
    cases depth with
    | zero => omega
    | succ depth => exact hstep depth (by omega)
  rw [expandCallOn] at hrun
  by_cases htriple : template = ottrTriple
  · rw [if_pos htriple] at hrun
    rcases addTriple_ok hrun with ⟨hnone, rfl⟩ | ⟨hnone, t, ht, rfl⟩
    · refine ⟨[], hdepth fun depth _ => ?_, rfl⟩
      rw [any_isNone_map] at hnone
      rw [expansionOfCall, if_pos htriple, if_pos hnone]
    · obtain ⟨t', ht', rfl⟩ := tripleOf_map Prod.snd ht
      refine ⟨[t'], hdepth fun depth _ => ?_, rfl⟩
      rw [any_isNone_map] at hnone
      rw [expansionOfCall, if_pos htriple, hnone, if_neg Bool.false_ne_true, ht', Option.map_some]
  · rw [if_neg htriple] at hrun
    by_cases hstack : template ∈ callStack
    · rw [if_pos hstack] at hrun
      cases hrun
    · rw [if_neg hstack] at hrun
      cases hlookup : templates.lookup template with
      | none =>
        rw [hlookup] at hrun
        cases hrun
      | some definition =>
        rw [hlookup] at hrun
        dsimp only at hrun
        by_cases harity : definition.parameters.length ≠ arguments.length
        · rw [List.length_map, if_pos harity] at hrun
          cases hrun
        · rw [List.length_map, if_neg harity, bindParameters_map] at hrun
          obtain ⟨L, hL, hstore⟩ :=
            h.list (bindParameters_closed definition.parameters hclosed) scope hrun
          refine ⟨L, hdepth fun depth hd => ?_, hstore⟩
          rw [expansionOfCall, if_neg htriple, hlookup]
          dsimp only
          rw [if_neg harity, ← bindParameters_eq]
          exact hL depth hd

theorem evaluated_closed (hb : bindings.Closed) (scope : Scope) (inst : Instance N) :
    ∀ a ∈ evaluated scope bindings inst, a.Closed := by
  intro a ha
  obtain ⟨a', _, rfl⟩ := List.mem_map.mp ha
  rw [← substituteArgument_eq_value]
  exact substituteArgument_closed hb _

theorem map_substituteArgument (scope : Scope) (bindings : Bindings N ScopedLabel)
    (inst : Instance N) :
    inst.arguments.map (substituteArgument (bindings.map Prod.snd)) =
      (evaluated scope bindings inst).map (Argument.map Prod.snd) := by
  rw [evaluated, List.map_map]
  apply List.map_congr_left
  intro a _
  rw [Function.comp_apply, ← substituteArgument_eq_value, ← substituteArgument_map,
    argument_map_map]
  exact congrArg _ (argument_map_id a).symm

theorem simulates (templates : Templates N) (fuel : Nat) : Simulates templates fuel := by
  induction fuel using Nat.strong_induction_on with
  | _ fuel ih =>
    intro inst bindings scope i callStack store store' hb hrun
    cases fuel with
    | zero => cases hrun
    | succ fuel =>
      rw [expandInstance, map_substituteArgument scope] at hrun
      have hclosed := evaluated_closed hb scope inst
      cases hexpander : inst.expander with
      | none =>
        rw [hexpander] at hrun
        obtain ⟨L, hL, hstore⟩ :=
          (ih fuel (by omega)).call (scope ++ [(i, 0)]) hclosed hrun
        refine ⟨L, fun depth hdepth => ?_, hstore⟩
        rw [expansionOf, hexpander]
        have hall : List.Forall₂ (fun (arguments : List (Argument N ScopedLabel) × Nat) L =>
            expansionOfCall templates depth (scope ++ [(i, arguments.2)]) inst.template
              arguments.1 = some L) [(evaluated scope bindings inst, 0)] [L] :=
          .cons (hL depth (by omega)) .nil
        have hmap := mapM_eq_some_iff.mpr hall
        refine (congrArg (Option.map List.flatten) hmap).trans ?_
        rw [Option.map_some, List.flatten_singleton]
      | some expander =>
        rw [hexpander] at hrun
        dsimp only at hrun
        rw [expandedArguments_eq, alternatives_map, List.foldlM_map, ← foldlM_zipIdx] at hrun
        have hstep (s t : Datastore N) (arguments : List (Argument N ScopedLabel) × Nat)
            (hmem : arguments ∈ (alternatives (some expander)
              (evaluated scope bindings inst)).zipIdx)
            (h : expandInstance templates fuel ⟨inst.template,
              arguments.1.map (Argument.map Prod.snd), none⟩ (bindings.map Prod.snd) callStack s =
                .ok t) :
            ∃ L, (∀ depth ≥ fuel + 1, expansionOfCall templates depth
                (scope ++ [(i, arguments.2)]) inst.template arguments.1 = some L) ∧
              t = L.foldl addErased s := by
          have hargs : ∀ a ∈ arguments.1, a.Closed :=
            alternatives_closed hclosed (List.fst_mem_of_mem_zipIdx hmem)
          cases fuel with
          | zero => cases h
          | succ fuel =>
            have hsame : (arguments.1.map (Argument.map Prod.snd)).map
                (substituteArgument (bindings.map Prod.snd)) =
                  arguments.1.map (Argument.map Prod.snd) := by
              rw [List.map_map]
              apply List.map_congr_left
              intro a ha
              exact substituteArgument_of_closed _ _ (closed_map _ a (hargs a ha))
            rw [expandInstance, hsame] at h
            obtain ⟨L, hL, hstore⟩ := (ih fuel (by omega)).call (scope ++ [(i, arguments.2)])
              hargs h
            exact ⟨L, fun depth hdepth => hL depth (by omega), hstore⟩
        obtain ⟨Ls, hall, rfl⟩ := foldlM_forall₂ hstep hrun
        refine ⟨Ls.flatten, fun depth hdepth => ?_, rfl⟩
        have hmap := mapM_eq_some_iff.mpr (hall.imp fun _ _ hL => hL depth hdepth)
        rw [expansionOf, hexpander, hmap, Option.map_some]

theorem expand_ok (h : expand templates fuel instances store = .ok store') :
    ∃ L, (∀ depth ≥ fuel, expansion templates depth instances = some L) ∧
      store' = L.foldl addErased store :=
  (simulates templates fuel).list (fun _ _ hnone => by cases hnone) [] h

end Simulation

end RdfDatalog.Ottr
