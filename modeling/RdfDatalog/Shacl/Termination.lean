import RdfDatalog.Shacl.Conformance
import RdfDatalog.Shacl.WalkedLists

namespace RdfDatalog.Shacl

open CycleSearch FinishingOrder

variable {N : NativeTypes} {display : RdfLiteral N → String} {shapes : Datastore N}

/-- A program that is run with fuel returns. -/
def Terminates {α : Type} (run : Nat → Option α) : Prop := ∃ n, ∀ fuel ≥ n, (run fuel).isSome

section Searching

/-- The shapes that the search for a reference cycle comes to. -/
def SearchedShape (shapes : Datastore N) (id : GraphElementId) : Prop :=
  Searched (refsOf shapes) (foundShapes shapes) id

theorem shapeReferences_eq_some (fuel : Nat) (id : GraphElementId) (found : List GraphElementId)
    (h : shapeReferences display shapes fuel id = some found) :
    ShapeEnds shapes id ∧ found = refsOf shapes id := by
  rw [shapeReferences, Option.map_eq_some_iff] at h
  obtain ⟨parsed, hparsed, rfl⟩ := h
  obtain ⟨hends, _, hrefs⟩ := parseOneShape_eq_some hparsed
  exact ⟨hends, hrefs⟩

variable {id x : GraphElementId}

theorem mem_objects_of_combinatorRefs (h : x ∈ combinatorRefs shapes id) :
    x ∈ shapes.objects := by
  simp only [combinatorRefs, List.mem_append, Option.mem_toList] at h
  rcases h with ((h | h) | h) | h
  · exact mem_objects_of_getObjects (mem_getObjects_of_getObject h)
  · exact mem_objects_of_listRefs h
  · exact mem_objects_of_listRefs h
  · exact mem_objects_of_listRefs h

theorem mem_objects_of_constraintRefsAt (h : x ∈ constraintRefsAt shapes id) :
    x ∈ shapes.objects := by
  simp only [constraintRefsAt, List.mem_append, Option.mem_toList] at h
  rcases h with h | h
  · exact mem_objects_of_getObjects (mem_getObjects_of_getObject h)
  · exact mem_objects_of_getObjects (mem_getObjects_of_getObject h)

theorem mem_objects_of_blockRefs {ids : List GraphElementId} (h : x ∈ blockRefs shapes ids) :
    x ∈ shapes.objects := by
  obtain ⟨id, _, h⟩ := List.mem_flatMap.mp h
  split at h
  · rcases List.mem_append.mp h with h | h
    · exact mem_objects_of_constraintRefsAt h
    · exact mem_objects_of_combinatorRefs h
  · cases h

theorem mem_objects_of_refsOf (h : x ∈ refsOf shapes id) :
    x ∈ shapes.objects := by
  simp only [refsOf, List.mem_append] at h
  rcases h with ((h | h) | h) | h
  · exact mem_objects_of_combinatorRefs h
  · exact mem_objects_of_blockRefs h
  · exact mem_objects_of_blockRefs h
  · split at h
    · exact mem_objects_of_constraintRefsAt h
    · cases h

theorem searchedShape_mem_scope (h : SearchedShape shapes id) :
    id ∈ shapes.objects ∪ (foundShapes shapes).toFinset := by
  cases h with
  | root hroots _ => simp [hroots]
  | step _ hrefs _ =>
    exact Finset.mem_union_left _ (mem_objects_of_refsOf (by rw [hrefs]; simp))

end Searching

section Parsing

theorem parseShapes_isSome {fuel : Nat}
    (h : ∀ id ∈ foundShapes shapes, ∀ idx, (parseOneShape display shapes fuel id idx).isSome) :
    (parseShapes display shapes fuel).isSome := by
  rw [parseShapes]
  have hall (found : List (GraphElementId × Nat)) (hfound : ∀ p ∈ found, p.1 ∈ foundShapes shapes) :
      (found.mapM fun shape => parseOneShape display shapes fuel shape.1 shape.2).isSome := by
    induction found with
    | nil => rfl
    | cons p found ih =>
      rw [List.forall_mem_cons] at hfound
      obtain ⟨parsed, hparsed⟩ := Option.isSome_iff_exists.mp (h p.1 hfound.1 p.2)
      obtain ⟨rest, hrest⟩ := Option.isSome_iff_exists.mp (ih hfound.2)
      rw [List.mapM_cons, hparsed, hrest]
      rfl
  exact hall _ fun p hp => List.fst_mem_of_mem_zipIdx hp

theorem parseShapes_eq_some {fuel : Nat} {parsed : List ParsedShape}
    (h : parseShapes display shapes fuel = some parsed) :
    parsed.map ParsedShape.shapesId = foundShapes shapes ∧
      (∀ id ∈ foundShapes shapes, ShapeEnds shapes id) ∧
      ∀ shape ∈ parsed, shape.references = refsOf shapes shape.shapesId := by
  rw [parseShapes, FallibleFold.mapM_eq_some_iff] at h
  have hlist (ids : List GraphElementId) (n : Nat) (parsed : List ParsedShape)
      (hall : List.Forall₂ (fun (p : GraphElementId × Nat) shape =>
        parseOneShape display shapes fuel p.1 p.2 = some shape) (ids.zipIdx n) parsed) :
      parsed.map ParsedShape.shapesId = ids ∧ (∀ id ∈ ids, ShapeEnds shapes id) ∧
        ∀ shape ∈ parsed, shape.references = refsOf shapes shape.shapesId := by
    induction ids generalizing n parsed with
    | nil =>
      cases hall
      exact ⟨rfl, nofun, nofun⟩
    | cons id ids ih =>
      rw [List.zipIdx_cons] at hall
      cases hall with
      | cons hparsed hall =>
        obtain ⟨hids, hends, hrefs⟩ := ih _ _ hall
        obtain ⟨hend, hid, href⟩ := parseOneShape_eq_some hparsed
        refine ⟨?_, List.forall_mem_cons.mpr ⟨hend, hends⟩, List.forall_mem_cons.mpr ⟨?_, hrefs⟩⟩
        · rw [List.map_cons, hid, hids]
        · rw [href, hid]
  exact hlist _ _ _ h

end Parsing

section Conforming

theorem allM_isSome {α : Type} {p : α → Option Bool} {l : List α} (h : ∀ a ∈ l, (p a).isSome) :
    (l.allM p).isSome := by
  induction l with
  | nil => rfl
  | cons a l ih =>
    rw [List.forall_mem_cons] at h
    obtain ⟨b, hb⟩ := Option.isSome_iff_exists.mp h.1
    rw [List.allM_cons, hb]
    cases b with
    | true => exact ih h.2
    | false => rfl

theorem anyM_isSome {α : Type} {p : α → Option Bool} {l : List α} (h : ∀ a ∈ l, (p a).isSome) :
    (l.anyM p).isSome := by
  induction l with
  | nil => rfl
  | cons a l ih =>
    rw [List.forall_mem_cons] at h
    obtain ⟨b, hb⟩ := Option.isSome_iff_exists.mp h.1
    rw [List.anyM_cons, hb]
    cases b with
    | true => rfl
    | false => exact ih h.2

theorem andThen_isSome {first second : Option Bool} (h : first.isSome) (h' : second.isSome) :
    (andThen first second).isSome := by
  obtain ⟨b, rfl⟩ := Option.isSome_iff_exists.mp h
  cases b with
  | true => exact h'
  | false => rfl

theorem countConforming_isSome {conforms : GraphElementId → Option Bool}
    {inners : List InnerShapeRef} (h : ∀ inner ∈ inners, (conforms inner).isSome) :
    (countConforming conforms inners).isSome := by
  rw [countConforming, Option.isSome_map]
  exact FallibleFold.mapM_isSome h

variable {tests : ValueTests N} {data : Datastore N}
  {conforms : GraphElementId → GraphElementId → Option Bool}

variable {fuel : Nat}

theorem subClassSearch_isSome {classId subClassOfId : GraphElementId}
    {s : WorklistSearch.State GraphElementId} (hfuel : WorklistSearch.work data.objects s < fuel) :
    (subClassSearch data classId subClassOfId fuel s).isSome := by
  induction fuel generalizing s with
  | zero => omega
  | succ fuel ih =>
    rw [subClassSearch]
    cases hpending : s.pending with
    | nil => rfl
    | cons t queue =>
      dsimp only
      split
      · rfl
      · apply ih
        have hparents : ∀ y ∈ (data.getTriplesWithSubjectPredicate t subClassOfId).map Quad.obj,
            y ∈ data.objects := by
          intro y hy
          obtain ⟨q, hq, rfl⟩ := List.mem_map.mp hy
          exact Datastore.obj_mem_objects (Datastore.mem_of_getTriplesWithSubjectPredicate hq)
        rw [WorklistSearch.work_foldl_discover _ _ hparents]
        simp only [WorklistSearch.work, hpending, List.length_cons] at hfuel ⊢
        omega

/-- Fuel for the loops over a data graph. -/
def dataBound (data : Datastore N) : Nat := valuesBound data + data.objects.card + 1

variable (hfuel : dataBound data ≤ fuel)

include hfuel

theorem isInstanceOfClassOrSubclass_isSome
    (value classId rdfTypeId : GraphElementId) :
    (isInstanceOfClassOrSubclass data fuel value classId rdfTypeId).isSome := by
  unfold isInstanceOfClassOrSubclass
  dsimp only
  split
  · rfl
  · split
    · rfl
    · apply subClassSearch_isSome
      have htypes : ∀ y ∈ (data.getTriplesWithSubjectPredicate value rdfTypeId).map Quad.obj,
          y ∈ data.objects := by
        intro y hy
        obtain ⟨q, hq, rfl⟩ := List.mem_map.mp hy
        exact Datastore.obj_mem_objects (Datastore.mem_of_getTriplesWithSubjectPredicate hq)
      rw [WorklistSearch.work_foldl_discover _ _ htypes]
      rw [dataBound] at hfuel
      simp only [WorklistSearch.work, List.length_nil, List.toFinset_nil, Finset.sdiff_empty]
      omega

theorem constraintConforms_isSome (node : GraphElementId)
    (path : Option ShPath) {constraint : PropConstraint}
    (h : ∀ inner ∈ constraintRefs [constraint], ∀ v, (conforms v inner).isSome) :
    (constraintConforms tests data conforms fuel node path constraint).isSome := by
  have hvalues : valuesBound data ≤ fuel := by
    rw [dataBound] at hfuel
    omega
  obtain ⟨values, hsome⟩ := Option.isSome_iff_exists.mp (valuesFor_isSome hvalues node path)
  rw [constraintConforms, hsome, Option.bind_some]
  cases constraint with
  | «class» classIri =>
    dsimp only
    split
    · exact allM_isSome fun v _ => isInstanceOfClassOrSubclass_isSome hfuel v _ _
    · rfl
  | hasValue | pattern =>
    dsimp only
    split <;> rfl
  | nodeShape inner => exact allM_isSome fun v _ => h inner List.mem_cons_self v
  | qualifiedValueShape inner min max disjoint =>
    dsimp only
    rw [Option.isSome_map]
    exact FallibleFold.mapM_isSome fun v _ => h inner List.mem_cons_self v
  | _ => rfl

omit hfuel

theorem mem_constraintRefs {cs : List PropConstraint} {c : PropConstraint} (hc : c ∈ cs)
    {inner : GraphElementId} (h : inner ∈ constraintRefs [c]) : inner ∈ constraintRefs cs := by
  obtain ⟨c', hc', heq⟩ := List.mem_filterMap.mp h
  cases List.mem_singleton.mp hc'
  exact List.mem_filterMap.mpr ⟨c, hc, heq⟩

include hfuel

theorem propCombinatorsConform_isSome (node : GraphElementId)
    {prop : ParsedPropShape} (h : ∀ inner ∈ prop.references, ∀ v, (conforms v inner).isSome) :
    (propCombinatorsConform data conforms fuel node prop).isSome := by
  have hvalues : valuesBound data ≤ fuel := by
    rw [dataBound] at hfuel
    omega
  obtain ⟨values, hsome⟩ := Option.isSome_iff_exists.mp
    (valuesFor_isSome hvalues node (some prop.path))
  have hnot (inner : GraphElementId) (hinner : prop.notInner = some inner) :=
    h inner (by simp [ParsedPropShape.references, hinner])
  have hand (inner : GraphElementId) (hinner : inner ∈ prop.andInners) :=
    h inner (by simp [ParsedPropShape.references, hinner])
  have hor (inner : GraphElementId) (hinner : inner ∈ prop.orInners) :=
    h inner (by simp [ParsedPropShape.references, hinner])
  have hxone (inner : GraphElementId) (hinner : inner ∈ prop.xoneInners) :=
    h inner (by simp [ParsedPropShape.references, hinner])
  rw [propCombinatorsConform, hsome, Option.bind_some]
  refine andThen_isSome ?_ (andThen_isSome ?_ (andThen_isSome ?_ ?_))
  · split
    · rfl
    · next inner hinner =>
      rw [Option.isSome_map]
      exact anyM_isSome fun v _ => hnot inner hinner v
  · exact allM_isSome fun v _ => allM_isSome fun inner hinner => hand inner hinner v
  · split
    · rfl
    · exact allM_isSome fun v _ => anyM_isSome fun inner hinner => hor inner hinner v
  · split
    · rfl
    · refine allM_isSome fun v _ => ?_
      rw [Option.isSome_map]
      exact countConforming_isSome fun inner hinner => hxone inner hinner v

theorem propConforms_isSome (node : GraphElementId)
    {prop : ParsedPropShape} (h : ∀ inner ∈ prop.references, ∀ v, (conforms v inner).isSome) :
    (propConforms tests data conforms fuel node prop).isSome := by
  rw [propConforms]
  split
  · rfl
  · refine andThen_isSome (allM_isSome fun c hc => ?_) (propCombinatorsConform_isSome hfuel node h)
    refine constraintConforms_isSome hfuel node _ fun inner hinner => h inner ?_
    simp [ParsedPropShape.references, mem_constraintRefs hc hinner]

omit hfuel

theorem nodeCombinatorsConform_isSome {conforms : GraphElementId → Option Bool}
    {parsed : ParsedShape} (h : ∀ inner ∈ parsed.references, (conforms inner).isSome) :
    (nodeCombinatorsConform conforms parsed).isSome := by
  rw [nodeCombinatorsConform]
  refine andThen_isSome ?_ (andThen_isSome ?_ (andThen_isSome ?_ ?_))
  · split
    · rfl
    · next inner hinner =>
      rw [Option.isSome_map]
      exact h inner (by simp [ParsedShape.references, hinner])
  · exact allM_isSome fun inner hinner => h inner (by simp [ParsedShape.references, hinner])
  · split
    · rfl
    · exact anyM_isSome fun inner hinner => h inner (by simp [ParsedShape.references, hinner])
  · split
    · rfl
    · rw [Option.isSome_map]
      exact countConforming_isSome fun inner hinner =>
        h inner (by simp [ParsedShape.references, hinner])

theorem shapeConformsForNode_isSome (hpaths : PathsEnd shapes)
    (hfuel : pathBound shapes + dataBound data ≤ fuel) {id : GraphElementId}
    (hends : ShapeEnds shapes id) (h : ∀ inner ∈ refsOf shapes id, ∀ node, (shapeConformsForNode
      tests data display shapes fuel node inner).isSome) (node : GraphElementId) :
    (shapeConformsForNode tests data display shapes (fuel + 1) node id).isSome := by
  have hparse : (parseOneShape display shapes fuel id 0).isSome :=
    parseOneShape_of_ends hpaths hends (by omega) 0
  obtain ⟨parsed, hparsed⟩ := Option.isSome_iff_exists.mp hparse
  obtain ⟨_, _, hrefs⟩ := parseOneShape_eq_some hparsed
  rw [← hrefs] at h
  have hdata : dataBound data ≤ fuel := by omega
  rw [shapeConformsForNode, hparsed, Option.bind_some]
  split
  · rfl
  split
  · rfl
  refine andThen_isSome ?_ (andThen_isSome ?_ ?_)
  · refine allM_isSome fun prop hprop => propConforms_isSome hdata node fun inner hinner v => ?_
    refine h inner ?_ v
    have hmem := List.mem_flatMap_of_mem hprop hinner
    simp [ParsedShape.references, hmem]
  · refine allM_isSome fun c hc => constraintConforms_isSome hdata node none
      fun inner hinner v => h inner ?_ v
    simp [ParsedShape.references, mem_constraintRefs hc hinner]
  · exact nodeCombinatorsConform_isSome fun inner hinner => h inner hinner node

theorem shapeConformsForNode_of_finished (hpaths : PathsEnd shapes) {D : List GraphElementId}
    (hD : Finished (Edge (refsOf shapes)) D) (hends : ∀ id ∈ D, ShapeEnds shapes id) :
    ∀ id ∈ D, ∀ node, ∀ fuel ≥ pathBound shapes + dataBound data + D.length,
      (shapeConformsForNode tests data display shapes fuel node id).isSome := by
  induction hD with
  | nil => exact nofun
  | @cons x D hrefs _ ih =>
    rw [List.forall_mem_cons] at hends
    refine List.forall_mem_cons.mpr ⟨fun node fuel hfuel => ?_, fun id hid node fuel hfuel => ?_⟩
    · rw [List.length_cons] at hfuel
      obtain ⟨fuel, rfl⟩ := Nat.exists_eq_add_of_le' (show 1 ≤ fuel by omega)
      exact shapeConformsForNode_isSome hpaths (by omega) hends.1
        (fun inner hinner node => ih hends.2 inner (hrefs inner hinner) node fuel (by omega)) node
    · rw [List.length_cons] at hfuel
      exact ih hends.2 id hid node fuel (by omega)

theorem mem_references_of_validatedShapes {shape : ParsedShape} {inner : GraphElementId}
    (h : inner ∈ validatedShapes shape) : inner ∈ shape.references := by
  have hprop (prop : ParsedPropShape) (hmem : prop ∈ shape.propertyShapes)
      (hinner : inner ∈ prop.references) : inner ∈ shape.references := by
    have hblock := List.mem_flatMap_of_mem hmem hinner
    simp [ParsedShape.references, hblock]
  rw [validatedShapes] at h
  split at h
  · cases h
  simp only [List.mem_append, Option.mem_toList] at h
  rcases h with ((((h | h) | h) | h) | h) | h
  · obtain ⟨prop, hmem, h⟩ := List.mem_flatMap.mp h
    rw [propInnerShapes] at h
    split at h
    · cases h
    simp only [List.mem_append, Option.mem_toList] at h
    rcases h with (((h | h) | h) | h) | h
    · obtain ⟨c, hc, h⟩ := List.mem_flatMap.mp h
      have hown (hinner : inner ∈ constraintRefs [c]) : inner ∈ shape.references :=
        hprop prop hmem (by simp [ParsedPropShape.references, mem_constraintRefs hc hinner])
      cases c with
      | nodeShape id =>
        cases List.mem_singleton.mp h
        exact hown List.mem_cons_self
      | qualifiedValueShape id min max disjoint =>
        rcases List.mem_cons.mp h with rfl | h
        · exact hown List.mem_cons_self
        · split at h
          · obtain ⟨p, hp, h⟩ := List.mem_flatMap.mp h
            obtain ⟨c', hc', h⟩ := List.mem_filterMap.mp h
            have hother : inner ∈ constraintRefs [c'] := by
              cases c' with
              | qualifiedValueShape other min' max' disjoint' =>
                dsimp only at h
                split at h
                · cases h
                  exact List.mem_cons_self
                · cases h
              | _ => cases h
            exact hprop p hp (by simp [ParsedPropShape.references, mem_constraintRefs hc' hother])
          · cases h
      | _ => cases h
    · exact hprop prop hmem (by simp [ParsedPropShape.references, h])
    · exact hprop prop hmem (by simp [ParsedPropShape.references, h])
    · exact hprop prop hmem (by simp [ParsedPropShape.references, h])
    · exact hprop prop hmem (by simp [ParsedPropShape.references, h])
  · simp [ParsedShape.references, h]
  · simp [ParsedShape.references, h]
  · simp [ParsedShape.references, h]
  · simp [ParsedShape.references, h]
  · simp [ParsedShape.references, h]

end Conforming

section Validation

/-- The parts of a validation return: `conforms` is about the shapes that the validator compares
nodes with. -/
structure ValidationTerminates (tests : ValueTests N) (display : RdfLiteral N → String)
    (data shapes : Datastore N) : Prop where
  parseShapes : Terminates (parseShapes display shapes)
  parsePath : ∀ id, Terminates fun fuel => parsePath shapes fuel id
  findCycle : ∀ n parsed, Shacl.parseShapes display shapes n = some parsed →
    Terminates fun fuel => findShapeReferenceCycle display shapes fuel parsed
  conforms : ∀ n parsed, Shacl.parseShapes display shapes n = some parsed →
    (∃ m, findShapeReferenceCycle display shapes m parsed = some none) →
    ∀ shape ∈ parsed, ∀ inner ∈ validatedShapes shape, ∀ node,
      Terminates fun fuel => shapeConformsForNode tests data display shapes fuel node inner

/-- The lists that a validation walks: those of paths, and those of the shapes that are found or
that the search for a reference cycle comes to. -/
inductive WalkedList (shapes : Datastore N) : GraphElementId → Prop
  | path {head : GraphElementId} : PathList shapes head → WalkedList shapes head
  | found {id head : GraphElementId} : id ∈ foundShapes shapes → ShapeList shapes id head →
    WalkedList shapes head
  | searched {id head : GraphElementId} : SearchedShape shapes id → ShapeList shapes id head →
    WalkedList shapes head

theorem walkedLists_end_of_terminates {tests : ValueTests N} {data : Datastore N}
    (h : ValidationTerminates tests display data shapes) {head : GraphElementId}
    (hhead : WalkedList shapes head) : ¬ RestCycle shapes head := by
  obtain ⟨n, hparse⟩ := h.parseShapes
  obtain ⟨parsed, hparsed⟩ := Option.isSome_iff_exists.mp (hparse n (Nat.le_refl n))
  obtain ⟨hids, hends, _⟩ := parseShapes_eq_some hparsed
  cases hhead with
  | path hpath =>
    refine not_restCycle_of_parsePath (fun id => ?_) hpath
    obtain ⟨m, hm⟩ := h.parsePath id
    exact ⟨m, hm m (Nat.le_refl m)⟩
  | found hid hlist => exact hends _ hid head hlist
  | @searched id _ hid hlist =>
    obtain ⟨m, hm⟩ := h.findCycle n parsed hparsed
    obtain ⟨cycle, hcycle⟩ := Option.isSome_iff_exists.mp (hm m (Nat.le_refl m))
    unfold findShapeReferenceCycle at hcycle
    rw [hids] at hcycle
    exact good_of_findCycle shapeReferences_eq_some hcycle hid head hlist

/-- Validation returns, whatever the shapes refer to, iff no list that is walked comes back to a
node. -/
theorem validation_terminates_iff (tests : ValueTests N) (display : RdfLiteral N → String)
    (data shapes : Datastore N) :
    ValidationTerminates tests display data shapes ↔
      ∀ head, WalkedList shapes head → ¬ RestCycle shapes head := by
  refine ⟨fun h head hhead => walkedLists_end_of_terminates h hhead, fun h => ?_⟩
  have hpaths : PathsEnd shapes := fun head hhead => h head (.path hhead)
  have hfound : ∀ id ∈ foundShapes shapes, ShapeEnds shapes id :=
    fun id hid head hhead => h head (.found hid hhead)
  have hsearched : ∀ id, SearchedShape shapes id → ShapeEnds shapes id :=
    fun id hid head hhead => h head (.searched hid hhead)
  have hbound (id : GraphElementId) (hends : ShapeEnds shapes id) (fuel : Nat)
      (hfuel : fuel ≥ pathBound shapes) : (shapeReferences display shapes fuel id).isSome := by
    rw [shapeReferences, Option.isSome_map]
    exact parseOneShape_of_ends hpaths hends hfuel 0
  refine ⟨⟨pathBound shapes, fun fuel hfuel => ?_⟩, fun id => ⟨pathBound shapes, ?_⟩, ?_, ?_⟩
  · exact parseShapes_isSome fun id hid idx =>
      parseOneShape_of_ends hpaths (hfound id hid) hfuel idx
  · exact fun fuel hfuel => parsePath_isSome hpaths hfuel id
  · intro n parsed hparsed
    obtain ⟨hids, _, _⟩ := parseShapes_eq_some hparsed
    refine ⟨pathBound shapes + (shapes.objects ∪ (foundShapes shapes).toFinset).card + 1,
      fun fuel hfuel => ?_⟩
    unfold findShapeReferenceCycle
    rw [hids]
    exact findCycle_isSome shapeReferences_eq_some hbound hsearched
      (fun id hid => searchedShape_mem_scope hid) (by omega)
  · intro n parsed hparsed hnone shape hshape inner hinner node
    obtain ⟨hids, _, hrefs⟩ := parseShapes_eq_some hparsed
    obtain ⟨m, hm⟩ := hnone
    unfold findShapeReferenceCycle at hm
    rw [hids] at hm
    obtain ⟨D, hD, hroots, hends⟩ := finished_of_findCycle shapeReferences_eq_some hm
    have hshapeD : shape.shapesId ∈ D := by
      refine hroots _ ?_
      rw [← hids]
      exact List.mem_map_of_mem hshape
    have hinnerD : inner ∈ D := by
      refine hD.closed hshapeD ?_
      rw [Edge, ← hrefs shape hshape]
      exact mem_references_of_validatedShapes hinner
    exact ⟨_, shapeConformsForNode_of_finished hpaths hD hends inner hinnerD node⟩

end Validation

section Samples

def plainTests : ValueTests NativeTypes.text :=
  ⟨fun _ _ => false, fun _ => none, fun _ _ => none, fun _ _ => none, fun _ _ => none, id⟩

def iriTriple (ds : Datastore NativeTypes.text) (t : IriReference × IriReference × IriReference) :
    Datastore NativeTypes.text :=
  let (ds, subject) := ds.addResource (.iri t.1)
  let (ds, predicate) := ds.addResource (.iri t.2.1)
  let (ds, object) := ds.addResource (.iri t.2.2)
  ds.addQuad ⟨defaultGraphElementId, subject, predicate, object⟩

/-- A shape with a list of allowed values that is its own rest. -/
def loopShapes : Datastore NativeTypes.text :=
  [("Colour", rdfType, shNodeShape), ("Colour", shIn, "colours"), ("colours", rdfFirst, "red"),
    ("colours", rdfRest, "colours")].foldl iriTriple .new

theorem validation_loops_on_cyclic_list :
    ¬ ValidationTerminates plainTests (fun _ => "") .new loopShapes := by
  intro h
  have hshape : (1 : Nat) ∈ foundShapes loopShapes := by decide
  have hpath : getObject loopShapes 1 shPath = none := by decide
  have hhead : getObject loopShapes 1 shIn = some 5 := by decide
  have hrest : restOf loopShapes 5 = some 5 := by decide
  have hwalked : WalkedList loopShapes 5 :=
    .found hshape (.constraint (.inl hpath) (by simp) hhead)
  refine walkedLists_end_of_terminates h hwalked ⟨0, 0, 5, rfl, ?_⟩
  rw [LinkedWalk.walk, hrest]
  rfl

end Samples

end RdfDatalog.Shacl
