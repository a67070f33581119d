import RdfDatalog.Math.BucketIndex
import Mathlib.Data.Finset.Basic

namespace RdfDatalog

open BucketIndex

abbrev GraphElementId := Nat

abbrev QuadListIndex := Nat

def defaultGraphElementId : GraphElementId := 0

/-- A triple tagged with a graph or reification id. -/
@[ext] structure Quad where
  tripleId : GraphElementId
  subject : GraphElementId
  predicate : GraphElementId
  obj : GraphElementId
  deriving DecidableEq, Repr

/-- Multi-index quad store. Hash maps are association lists with distinct keys; the capacity hint
of the constructor has no counterpart. -/
structure QuadTable where
  quadList : List Quad
  quadCount : Nat
  fourKeysIndex : AList (fun _ : Quad => QuadListIndex)
  tripleIdIndex : Flat GraphElementId QuadListIndex
  predicateIndex : Flat GraphElementId QuadListIndex
  subjectPredicateIndex : Nested GraphElementId GraphElementId QuadListIndex
  objectPredicateIndex : Nested GraphElementId GraphElementId QuadListIndex
  intensionalQuads : Finset Quad

namespace QuadTable

def new : QuadTable := ⟨[], 0, ∅, ∅, ∅, ∅, ∅, ∅⟩

variable (t : QuadTable)

def contains (q : Quad) : Bool := (t.fourKeysIndex.lookup q).isSome

def isExtensional (q : Quad) : Bool :=
  t.contains q && decide (q ∉ t.intensionalQuads)

def addTripleIdIndex (id : GraphElementId) (i : QuadListIndex) : QuadTable :=
  { t with tripleIdIndex := t.tripleIdIndex.push id i }

def addPredicateIndex (predicate : GraphElementId) (i : QuadListIndex) : QuadTable :=
  { t with predicateIndex := t.predicateIndex.push predicate i }

def addSubjectPredicateIndex (subject predicate : GraphElementId) (i : QuadListIndex) : QuadTable :=
  { t with subjectPredicateIndex := t.subjectPredicateIndex.push subject predicate i }

def addObjectPredicateIndex (object predicate : GraphElementId) (i : QuadListIndex) : QuadTable :=
  { t with objectPredicateIndex := t.objectPredicateIndex.push object predicate i }

/-- The index entries `addQuad` makes for `quad` at position `i`. -/
def linkQuad (quad : Quad) (i : QuadListIndex) : QuadTable :=
  let t := { t with fourKeysIndex := t.fourKeysIndex.insert quad i }
  let t := t.addSubjectPredicateIndex quad.subject quad.predicate i
  let t := t.addObjectPredicateIndex quad.obj quad.predicate i
  let t := t.addPredicateIndex quad.predicate i
  t.addTripleIdIndex quad.tripleId i

def addQuad (quad : Quad) : QuadTable :=
  if t.contains quad then t
  else
    let t := t.linkQuad quad t.quadCount
    { t with quadList := t.quadList ++ [quad], quadCount := t.quadCount + 1 }

/-- Add a quad as derived, unless it is already present as an asserted one. -/
def addIntensionalQuad (quad : Quad) : QuadTable :=
  let alreadyExtensional := t.isExtensional quad
  let t := t.addQuad quad
  if alreadyExtensional then t
  else { t with intensionalQuads := insert quad t.intensionalQuads }

/-- The first half of `removeQuad`: the entries of `target` leave every index. -/
def unlinkQuad (target : Quad) (i : QuadListIndex) : QuadTable :=
  { t with
    fourKeysIndex := t.fourKeysIndex.erase target
    intensionalQuads := t.intensionalQuads.erase target
    subjectPredicateIndex := t.subjectPredicateIndex.remove target.subject target.predicate i
    objectPredicateIndex := t.objectPredicateIndex.remove target.obj target.predicate i
    predicateIndex := t.predicateIndex.remove target.predicate i
    tripleIdIndex := t.tripleIdIndex.remove target.tripleId i }

/-- The second half of `removeQuad`: the last quad is renumbered into the free position. -/
def moveQuad (moved : Quad) (last target : QuadListIndex) : QuadTable :=
  { t with
    subjectPredicateIndex :=
      t.subjectPredicateIndex.relocate moved.subject moved.predicate last target
    objectPredicateIndex := t.objectPredicateIndex.relocate moved.obj moved.predicate last target
    predicateIndex := t.predicateIndex.relocate moved.predicate last target
    tripleIdIndex := t.tripleIdIndex.relocate moved.tripleId last target
    quadList := t.quadList.set target moved
    fourKeysIndex := t.fourKeysIndex.insert moved target }

def popLast : QuadTable :=
  { t with quadList := t.quadList.dropLast, quadCount := t.quadCount - 1 }

def removeQuad (target : Quad) : QuadTable :=
  match t.fourKeysIndex.lookup target with
  | none => t
  | some targetIndex =>
    let t := t.unlinkQuad target targetIndex
    let lastIndex := t.quadCount - 1
    if targetIndex = lastIndex then t.popLast
    else
      -- an index past the end panics in the source; `WellFormed` excludes it
      match t.quadList[lastIndex]? with
      | none => t
      | some moved => (t.moveQuad moved lastIndex targetIndex).popLast

/-- Rebuild the table from `kept`, carrying the derived flags over. -/
def rebuild (kept : List Quad) : QuadTable :=
  { kept.foldl addQuad new with
    intensionalQuads := kept.toFinset.filter (· ∈ t.intensionalQuads) }

def truncateTo (len : Nat) : QuadTable :=
  if t.quadList.length ≤ len then t else t.rebuild (t.quadList.take len)

def graphExists (graphId : GraphElementId) : Bool :=
  (t.tripleIdIndex.lookup graphId).isSome

def removeGraph (graphId : GraphElementId) : QuadTable :=
  if t.graphExists graphId then t.rebuild (t.quadList.filter (fun q => q.tripleId ≠ graphId))
  else t

def getQuadListEntry (i : QuadListIndex) : Option Quad := t.quadList[i]?

def getQuadsWithSubject (subject : GraphElementId) : List Quad :=
  (t.subjectPredicateIndex.inner subject).values.filterMap t.getQuadListEntry

def getQuadsWithObject (object : GraphElementId) : List Quad :=
  (t.objectPredicateIndex.inner object).values.filterMap t.getQuadListEntry

def getQuadsWithPredicate (predicate : GraphElementId) : List Quad :=
  (t.predicateIndex.bucket predicate).filterMap t.getQuadListEntry

def getGraph (id : GraphElementId) : List Quad :=
  (t.tripleIdIndex.bucket id).filterMap t.getQuadListEntry

def getQuadsWithSubjectPredicate (subject predicate : GraphElementId) : List Quad :=
  ((t.subjectPredicateIndex.inner subject).bucket predicate).filterMap t.getQuadListEntry

def getQuadsWithObjectPredicate (object predicate : GraphElementId) : List Quad :=
  ((t.objectPredicateIndex.inner object).bucket predicate).filterMap t.getQuadListEntry

def getQuadsWithSubjectObject (subject object : GraphElementId) : List Quad :=
  (t.getQuadsWithSubject subject).filter (fun q => q.obj = object)

def getQuadsWithIdSubject (id subject : GraphElementId) : List Quad :=
  (t.getQuadsWithSubject subject).filter (fun q => q.tripleId = id)

def getQuadsWithIdPredicate (id predicate : GraphElementId) : List Quad :=
  (t.getQuadsWithPredicate predicate).filter (fun q => q.tripleId = id)

def getQuadsWithIdObject (id object : GraphElementId) : List Quad :=
  (t.getQuadsWithObject object).filter (fun q => q.tripleId = id)

def getQuadsWithIdSubjectPredicate (id subject predicate : GraphElementId) : List Quad :=
  (t.getQuadsWithSubjectPredicate subject predicate).filter (fun q => q.tripleId = id)

def getQuadsWithIdSubjectObject (id subject object : GraphElementId) : List Quad :=
  (t.getQuadsWithSubjectObject subject object).filter (fun q => q.tripleId = id)

def getQuadsWithIdObjectPredicate (id object predicate : GraphElementId) : List Quad :=
  (t.getQuadsWithObjectPredicate object predicate).filter (fun q => q.tripleId = id)

def getAllQuads : List Quad := t.quadList

def extensionalQuads : List Quad :=
  t.quadList.filter (fun q => q ∉ t.intensionalQuads)

end QuadTable

end RdfDatalog
