import Mathlib.Algebra.Group.Nat.Defs
import Mathlib.Algebra.Group.Int.Defs
import RdfDatalog.Store.Datastore
import RdfDatalog.Math.CycleSearch

namespace RdfDatalog

variable {N : NativeTypes}

namespace Datastore

variable (ds : Datastore N)

def getTriplesWithSubjectPredicate (subject predicate : GraphElementId) : List Quad :=
  ds.namedGraphs.table.getQuadsWithIdSubjectPredicate defaultGraphElementId subject predicate

def getTriplesWithObjectPredicate (object predicate : GraphElementId) : List Quad :=
  ds.namedGraphs.table.getQuadsWithIdObjectPredicate defaultGraphElementId object predicate

def getTriplesWithPredicate (predicate : GraphElementId) : List Quad :=
  ds.namedGraphs.table.getQuadsWithIdPredicate defaultGraphElementId predicate

def objects : Finset GraphElementId :=
  (ds.namedGraphs.quadList.map Quad.obj).toFinset

theorem mem_of_getTriplesWithSubjectPredicate {ds : Datastore N} {s p : GraphElementId} {q : Quad}
    (h : q ∈ ds.getTriplesWithSubjectPredicate s p) : q ∈ ds.namedGraphs :=
  ((ds.namedGraphs.wellFormed.exactLookups.withIdSubjectPredicate _ s p).mem q |>.mp h).1

theorem obj_mem_objects {ds : Datastore N} {q : Quad} (h : q ∈ ds.namedGraphs) :
    q.obj ∈ ds.objects :=
  List.mem_toFinset.mpr (List.mem_map_of_mem h)

end Datastore

namespace Shacl

open LinkedWalk

def rdfType : IriReference := "http://www.w3.org/1999/02/22-rdf-syntax-ns#type"
def rdfNil : IriReference := "http://www.w3.org/1999/02/22-rdf-syntax-ns#nil"
def rdfFirst : IriReference := "http://www.w3.org/1999/02/22-rdf-syntax-ns#first"
def rdfRest : IriReference := "http://www.w3.org/1999/02/22-rdf-syntax-ns#rest"

section Reading

variable (ds : Datastore N)

def lookupIri (iri : IriReference) : Option GraphElementId :=
  ds.resources.resourceMap.lookup (.iri iri)

def getObjects (subject : GraphElementId) (predIri : IriReference) : List GraphElementId :=
  match lookupIri ds predIri with
  | none => []
  | some predId => (ds.getTriplesWithSubjectPredicate subject predId).map Quad.obj

def getObject (subject : GraphElementId) (predIri : IriReference) : Option GraphElementId :=
  (getObjects ds subject predIri).head?

def iriString (id : GraphElementId) : Option IriReference :=
  ds.resources.getNamedResource id

/-- The number that a text spells, without a sign or after a plus. -/
def parseU64 (s : String) : Option Nat :=
  let digits := match s.toList with
    | '+' :: rest => rest
    | all => all
  let value := Nat.ofDigitChars 10 digits 0
  if digits ≠ [] ∧ digits.all Char.isDigit = true ∧ value < 2 ^ 64 then some value else none

def elemToU64 (id : GraphElementId) : Option Nat :=
  match ds.resources.getGraphElement id with
  | some (.graphLiteral (.integerLiteral n)) => if 0 ≤ n ∧ n < 2 ^ 64 then some n.toNat else none
  | some (.graphLiteral (.typedLiteral _ literal)) => parseU64 literal
  | _ => none

def parseBool : String → Option Bool
  | "true" => some true
  | "false" => some false
  | _ => none

def elemToBool (id : GraphElementId) : Option Bool :=
  match ds.resources.getGraphElement id with
  | some (.graphLiteral (.booleanLiteral b)) => some b
  | some (.graphLiteral (.typedLiteral _ literal)) => parseBool literal
  | _ => none

def isIri (id : GraphElementId) : Bool :=
  match ds.resources.getGraphElement id with
  | some (.nodeOrEdge (.iri _)) => true
  | _ => false

def isBlankNode (id : GraphElementId) : Bool :=
  match ds.resources.getGraphElement id with
  | some (.nodeOrEdge (.anonymousBlankNode _)) => true
  | _ => false

theorem mem_objects_of_getObjects {ds : Datastore N} {s o : GraphElementId} {p : IriReference}
    (h : o ∈ getObjects ds s p) : o ∈ ds.objects := by
  rw [getObjects] at h
  split at h
  · cases h
  · next predId hp =>
    obtain ⟨q, hq, rfl⟩ := List.mem_map.mp h
    exact Datastore.obj_mem_objects (Datastore.mem_of_getTriplesWithSubjectPredicate hq)

theorem mem_getObjects_of_getObject {ds : Datastore N} {s o : GraphElementId} {p : IriReference}
    (h : getObject ds s p = some o) : o ∈ getObjects ds s p :=
  List.mem_of_mem_head? h

end Reading

section Lists

variable (ds : Datastore N)

/-- The loop of `rdfList`, which goes on as long as there is a next node. -/
def rdfListFrom (nil : Option GraphElementId) (first rest : GraphElementId) :
    Nat → GraphElementId → List GraphElementId → Option (List GraphElementId)
  | 0, _, _ => none
  | fuel + 1, current, items =>
    if nil = some current then some items
    else
      let items := items ++ (ds.getTriplesWithSubjectPredicate current first).map Quad.obj
      match (ds.getTriplesWithSubjectPredicate current rest).head? with
      | none => some items
      | some t => rdfListFrom nil first rest fuel t.obj items

/-- The items of a list; `none` where the loop has not ended yet. -/
def rdfList (fuel : Nat) (head : GraphElementId) : Option (List GraphElementId) :=
  match lookupIri ds rdfFirst with
  | none => some []
  | some first =>
    match lookupIri ds rdfRest with
    | none => some []
    | some rest => rdfListFrom ds (lookupIri ds rdfNil) first rest fuel head []

/-- The node that comes after a node of a list. -/
def restOf (current : GraphElementId) : Option GraphElementId :=
  if (lookupIri ds rdfFirst).isNone ∨ lookupIri ds rdfNil = some current then none
  else getObject ds current rdfRest

/-- The items that stand at a node of a list. -/
def itemsAt (current : GraphElementId) : List GraphElementId :=
  if (lookupIri ds rdfRest).isNone ∨ lookupIri ds rdfNil = some current then []
  else getObjects ds current rdfFirst

def itemsUpTo : Nat → GraphElementId → List GraphElementId
  | 0, _ => []
  | n + 1, current => itemsAt ds current ++ ((restOf ds current).map (itemsUpTo n)).getD []

def listBound : Nat := ds.objects.card + 1

def listItems (head : GraphElementId) : List GraphElementId := itemsUpTo ds (listBound ds) head

/-- The rest of the list comes back to a node. -/
def RestCycle (head : GraphElementId) : Prop := Loops (restOf ds) head

variable {ds}

variable {x head : GraphElementId} {fuel : Nat}

theorem restOf_mem_objects {y : GraphElementId} (h : restOf ds x = some y) : y ∈ ds.objects := by
  rw [restOf] at h
  split at h
  · cases h
  · exact mem_objects_of_getObjects (mem_getObjects_of_getObject h)

theorem mem_objects_of_itemsUpTo {n : Nat} {y : GraphElementId} (h : y ∈ itemsUpTo ds n x) :
    y ∈ ds.objects := by
  induction n generalizing x with
  | zero => cases h
  | succ n ih =>
    rw [itemsUpTo, List.mem_append] at h
    rcases h with h | h
    · rw [itemsAt] at h
      split at h
      · cases h
      · exact mem_objects_of_getObjects h
    · cases hrest : restOf ds x with
      | none =>
        rw [hrest] at h
        cases h
      | some z =>
        rw [hrest] at h
        exact ih h

theorem itemsUpTo_of_le {m n : Nat} (h : walk (restOf ds) m x = none) (hle : m ≤ n) :
    itemsUpTo ds n x = itemsUpTo ds m x := by
  induction m generalizing n x with
  | zero => cases h
  | succ m ih =>
    obtain ⟨n, rfl⟩ := Nat.exists_eq_add_of_le' (show 1 ≤ n by omega)
    rw [itemsUpTo, itemsUpTo]
    cases hrest : restOf ds x with
    | none => rfl
    | some y =>
      rw [walk, hrest, Option.bind_some] at h
      rw [Option.map_some, Option.map_some, ih h (by omega)]

theorem rdfListFrom_eq {first rest : GraphElementId} (hfirst : lookupIri ds rdfFirst = some first)
    (hrest : lookupIri ds rdfRest = some rest) (fuel : Nat) (head : GraphElementId)
    (items : List GraphElementId) :
    rdfListFrom ds (lookupIri ds rdfNil) first rest fuel head items =
      if walk (restOf ds) fuel head = none then some (items ++ itemsUpTo ds fuel head)
      else none := by
  induction fuel generalizing head items with
  | zero => rfl
  | succ fuel ih =>
    rw [rdfListFrom, walk, itemsUpTo, restOf, itemsAt, hfirst, hrest]
    by_cases hnil : lookupIri ds rdfNil = some head
    · simp [hnil]
    · rw [if_neg hnil]
      simp only [Option.isNone_some, Bool.false_eq_true, hnil, or_self, if_false]
      have hobjects : getObjects ds head rdfFirst =
          (ds.getTriplesWithSubjectPredicate head first).map Quad.obj := by
        rw [getObjects, hfirst]
      have hobject : getObject ds head rdfRest =
          (ds.getTriplesWithSubjectPredicate head rest).head?.map Quad.obj := by
        rw [getObject, getObjects, hrest]
        exact List.head?_map
      rw [hobjects, hobject]
      cases (ds.getTriplesWithSubjectPredicate head rest).head? with
      | none => simp
      | some t => simp [ih]

theorem rdfList_isSome_of_walk (h : walk (restOf ds) fuel head = none) :
    rdfList ds fuel head = some (itemsUpTo ds fuel head) := by
  have hpos : ∃ n, fuel = n + 1 := by
    cases fuel with
    | zero => cases h
    | succ n => exact ⟨n, rfl⟩
  obtain ⟨n, rfl⟩ := hpos
  rw [rdfList]
  cases hfirst : lookupIri ds rdfFirst with
  | none => simp [itemsUpTo, itemsAt, restOf, getObjects, hfirst]
  | some first =>
    cases hrest : lookupIri ds rdfRest with
    | none => simp [itemsUpTo, itemsAt, restOf, getObject, getObjects, hrest]
    | some rest =>
      dsimp only
      rw [rdfListFrom_eq hfirst hrest, if_pos h, List.nil_append]

theorem rdfList_of_not_restCycle (h : ¬ RestCycle ds head) (hfuel : listBound ds ≤ fuel) :
    rdfList ds fuel head = some (listItems ds head) := by
  have hwalk := walk_eq_none_of_not_loops (fun _ _ => restOf_mem_objects) h
  rw [rdfList_isSome_of_walk (walk_eq_none_of_le hwalk hfuel), itemsUpTo_of_le hwalk hfuel,
    listItems, listBound]

theorem not_restCycle_of_rdfList {items : List GraphElementId}
    (h : rdfList ds fuel head = some items) :
    ¬ RestCycle ds head ∧ items = listItems ds head := by
  have hloops : ¬ RestCycle ds head := by
    intro hcycle
    rw [rdfList] at h
    cases hfirst : lookupIri ds rdfFirst with
    | none =>
      have hnext : walk (restOf ds) 1 head = none := by simp [walk, restOf, hfirst]
      exact hcycle.walk_ne_none 1 hnext
    | some first =>
      cases hrest : lookupIri ds rdfRest with
      | none =>
        have hnext : walk (restOf ds) 1 head = none := by
          simp [walk, restOf, getObject, getObjects, hrest]
        exact hcycle.walk_ne_none 1 hnext
      | some rest =>
        rw [hfirst, hrest] at h
        dsimp only at h
        rw [rdfListFrom_eq hfirst hrest, if_neg (hcycle.walk_ne_none fuel)] at h
        cases h
  refine ⟨hloops, ?_⟩
  have hwalk := walk_eq_none_of_not_loops (fun _ _ => restOf_mem_objects) hloops
  rw [rdfList] at h
  cases hfirst : lookupIri ds rdfFirst with
  | none =>
    rw [hfirst] at h
    cases h
    simp [listItems, listBound, itemsUpTo, itemsAt, restOf, getObjects, hfirst]
  | some first =>
    cases hrest : lookupIri ds rdfRest with
    | none =>
      rw [hfirst, hrest] at h
      cases h
      simp [listItems, listBound, itemsUpTo, itemsAt, restOf, getObject, getObjects, hrest]
    | some rest =>
      rw [hfirst, hrest] at h
      dsimp only at h
      rw [rdfListFrom_eq hfirst hrest, List.nil_append] at h
      split at h
      · next hend =>
        cases h
        rw [listItems, listBound]
        rcases Nat.le_total fuel (ds.objects.card + 1) with hle | hle
        · exact (itemsUpTo_of_le hend hle).symm
        · exact itemsUpTo_of_le hwalk hle
      · cases h

end Lists

end Shacl

end RdfDatalog
