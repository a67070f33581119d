import RdfDatalog.Shacl.Shapes

namespace RdfDatalog.Shacl

variable {N : NativeTypes} {display : RdfLiteral N → String} {shapes : Datastore N}

section Lists

def ListEnds (shapes : Datastore N) (id : GraphElementId) (predIri : IriReference) : Prop :=
  ∀ head, getObject shapes id predIri = some head → ¬ RestCycle shapes head

def listRefs (shapes : Datastore N) (id : GraphElementId) (predIri : IriReference) :
    List GraphElementId :=
  ((getObject shapes id predIri).map (listItems shapes)).getD []

variable {id : GraphElementId} {predIri : IriReference}

theorem shapeListRefs_of_listEnds (h : ListEnds shapes id predIri) {fuel : Nat}
    (hfuel : listBound shapes ≤ fuel) :
    shapeListRefs shapes fuel id predIri = some (listRefs shapes id predIri) := by
  rw [shapeListRefs, listRefs]
  cases hhead : getObject shapes id predIri with
  | none => rfl
  | some head => exact rdfList_of_not_restCycle (h head hhead) hfuel

theorem shapeListRefs_eq_some {fuel : Nat} {refs : List GraphElementId}
    (h : shapeListRefs shapes fuel id predIri = some refs) :
    ListEnds shapes id predIri ∧ refs = listRefs shapes id predIri := by
  rw [shapeListRefs] at h
  cases hhead : getObject shapes id predIri with
  | none =>
    rw [hhead] at h
    cases h
    refine ⟨fun head hsome => ?_, ?_⟩
    · rw [hhead] at hsome
      cases hsome
    · rw [listRefs, hhead]
      rfl
  | some head =>
    rw [hhead] at h
    obtain ⟨hno, rfl⟩ := not_restCycle_of_rdfList h
    refine ⟨fun head' hsome => ?_, ?_⟩
    · rw [hhead] at hsome
      cases hsome
      exact hno
    · rw [listRefs, hhead]
      rfl

theorem listConstraintOf_eq (fuel : Nat) (id : GraphElementId) (predIri : IriReference)
    (make : List GraphElementId → PropConstraint) :
    listConstraintOf shapes fuel id predIri make =
      (shapeListRefs shapes fuel id predIri).map fun ids =>
        if (getObject shapes id predIri).isSome then [make ids] else [] := by
  rw [listConstraintOf, shapeListRefs]
  cases getObject shapes id predIri <;> rfl

theorem mem_objects_of_listRefs {x : GraphElementId} (h : x ∈ listRefs shapes id predIri) :
    x ∈ shapes.objects := by
  rw [listRefs] at h
  cases hhead : getObject shapes id predIri with
  | none =>
    rw [hhead] at h
    cases h
  | some head =>
    rw [hhead] at h
    exact mem_objects_of_itemsUpTo h

end Lists

section Constraints

theorem constraintRefs_append (cs cs' : List PropConstraint) :
    constraintRefs (cs ++ cs') = constraintRefs cs ++ constraintRefs cs' := List.filterMap_append

theorem constraintRefs_eq_nil {cs : List PropConstraint}
    (h : ∀ c ∈ cs, constraintRefs [c] = []) : constraintRefs cs = [] := by
  induction cs with
  | nil => rfl
  | cons c cs ih =>
    rw [List.forall_mem_cons] at h
    rw [← List.singleton_append, constraintRefs_append, h.1, ih h.2, List.append_nil]

variable (id : GraphElementId)

include id

theorem constraintRefs_constraintOf {α : Type} (predIri : IriReference)
    (read : GraphElementId → Option α) {make : α → PropConstraint}
    (h : ∀ a, constraintRefs [make a] = []) :
    constraintRefs (constraintOf shapes id predIri read make) = [] := by
  refine constraintRefs_eq_nil fun c hc => ?_
  rw [constraintOf, Option.mem_toList, Option.map_eq_some_iff] at hc
  obtain ⟨a, _, rfl⟩ := hc
  exact h a

theorem constraintRefs_classes :
    constraintRefs (((getObjects shapes id shClass).filterMap (iriString shapes)).map .class) =
      [] := by
  refine constraintRefs_eq_nil fun c hc => ?_
  obtain ⟨iri, _, rfl⟩ := List.mem_map.mp hc
  rfl

theorem constraintRefs_uniqueLang :
    constraintRefs (parseUniqueLang shapes id) = [] := by
  rw [parseUniqueLang]
  split <;> rfl

omit id

theorem constraintRefs_list {α : Type} (o : Option α) {c : PropConstraint}
    (h : constraintRefs [c] = []) : constraintRefs (if o.isSome then [c] else []) = [] := by
  split
  · exact h
  · rfl

def constraintRefsAt (shapes : Datastore N) (id : GraphElementId) : List GraphElementId :=
  (getObject shapes id shNode).toList ++ (getObject shapes id shQualifiedValueShape).toList

include id

theorem constraintRefs_node :
    constraintRefs (constraintOf shapes id shNode some .nodeShape) =
      (getObject shapes id shNode).toList := by
  rw [constraintOf]
  cases getObject shapes id shNode <;> rfl

theorem constraintRefs_qualified :
    constraintRefs (constraintOf shapes id shQualifiedValueShape some (parseQualified shapes id)) =
      (getObject shapes id shQualifiedValueShape).toList := by
  rw [constraintOf]
  cases getObject shapes id shQualifiedValueShape <;> rfl

omit id

/-- The constraints of a node are parsed where its two lists end. -/
structure ConstraintsEnd (shapes : Datastore N) (id : GraphElementId) : Prop where
  allowed : ListEnds shapes id shIn
  languages : ListEnds shapes id shLanguageIn

theorem parsePropConstraints_of_ends {id : GraphElementId} (h : ConstraintsEnd shapes id)
    {fuel : Nat} (hfuel : listBound shapes ≤ fuel) :
    (parsePropConstraints display shapes fuel id).isSome := by
  unfold parsePropConstraints
  rw [listConstraintOf_eq, listConstraintOf_eq, shapeListRefs_of_listEnds h.allowed hfuel,
    shapeListRefs_of_listEnds h.languages hfuel]
  rfl

theorem parsePropConstraints_eq_some {id : GraphElementId} {fuel : Nat}
    {cs : List PropConstraint} (h : parsePropConstraints display shapes fuel id = some cs) :
    ConstraintsEnd shapes id ∧ constraintRefs cs = constraintRefsAt shapes id := by
  unfold parsePropConstraints at h
  simp only [listConstraintOf_eq, Option.bind_eq_bind, Option.bind_eq_some_iff,
    Option.map_eq_some_iff] at h
  obtain ⟨_, ⟨allowed, hallowed, rfl⟩, _, ⟨languages, hlanguages, rfl⟩, heq⟩ := h
  refine ⟨⟨(shapeListRefs_eq_some hallowed).1, (shapeListRefs_eq_some hlanguages).1⟩, ?_⟩
  rw [← Option.some.inj heq]
  simp only [constraintRefs_append, constraintRefs_node, constraintRefs_qualified,
    constraintRefs_classes, constraintRefs_uniqueLang, parsePattern]
  rw [constraintRefsAt]
  simp (disch := simp [constraintRefs]) only [constraintRefs_constraintOf, constraintRefs_list,
    List.nil_append]

end Constraints

section PropertyShapes

/-- The node has a path that parses. -/
def DescribesPath (shapes : Datastore N) (id : GraphElementId) : Prop :=
  ∃ pathId, getObject shapes id shPath = some pathId ∧ IsPath shapes [] pathId

/-- The paths of a shapes graph are parsed. -/
def PathsEnd (shapes : Datastore N) : Prop :=
  ∀ head, PathList shapes head → ¬ RestCycle shapes head

structure CombinatorsEnd (shapes : Datastore N) (id : GraphElementId) : Prop where
  and : ListEnds shapes id shAnd
  or : ListEnds shapes id shOr
  xone : ListEnds shapes id shXone

def combinatorRefs (shapes : Datastore N) (id : GraphElementId) : List GraphElementId :=
  (getObject shapes id shNot).toList ++ listRefs shapes id shAnd ++ listRefs shapes id shOr ++
    listRefs shapes id shXone

/-- The lists that are read at a node with a path end. -/
structure PropertyEnds (shapes : Datastore N) (id : GraphElementId) : Prop where
  constraints : ConstraintsEnd shapes id
  combinators : CombinatorsEnd shapes id

def propertyRefs (shapes : Datastore N) (id : GraphElementId) : List GraphElementId :=
  constraintRefsAt shapes id ++ combinatorRefs shapes id

variable {id : GraphElementId} {fuel : Nat}

theorem propShapeOf_of_ends (h : PropertyEnds shapes id) (hfuel : listBound shapes ≤ fuel)
    (idx : Nat) (path : ShPath) :
    (propShapeOf display shapes fuel idx id path).isSome := by
  have hconstraints : (parsePropConstraints display shapes fuel id).isSome :=
    parsePropConstraints_of_ends h.constraints hfuel
  obtain ⟨cs, hcs⟩ := Option.isSome_iff_exists.mp hconstraints
  unfold propShapeOf
  rw [hcs, shapeListRefs_of_listEnds h.combinators.and hfuel,
    shapeListRefs_of_listEnds h.combinators.or hfuel,
    shapeListRefs_of_listEnds h.combinators.xone hfuel]
  rfl

theorem propShapeOf_eq_some {idx : Nat} {path : ShPath} {prop : ParsedPropShape}
    (h : propShapeOf display shapes fuel idx id path = some prop) :
    PropertyEnds shapes id ∧ prop.references = propertyRefs shapes id := by
  unfold propShapeOf at h
  simp only [Option.bind_eq_bind, Option.bind_eq_some_iff] at h
  obtain ⟨cs, hcs, and, hand, or, hor, xone, hxone, heq⟩ := h
  obtain ⟨hends, hrefs⟩ := parsePropConstraints_eq_some hcs
  obtain ⟨handEnds, rfl⟩ := shapeListRefs_eq_some hand
  obtain ⟨horEnds, rfl⟩ := shapeListRefs_eq_some hor
  obtain ⟨hxoneEnds, rfl⟩ := shapeListRefs_eq_some hxone
  refine ⟨⟨hends, handEnds, horEnds, hxoneEnds⟩, ?_⟩
  rw [← Option.some.inj heq, ParsedPropShape.references, propertyRefs, combinatorRefs, hrefs]
  simp only [List.append_assoc]

theorem parsePropertyShape_of_ends (hpaths : PathsEnd shapes)
    (h : DescribesPath shapes id → PropertyEnds shapes id) (hfuel : pathBound shapes ≤ fuel)
    (idx : Nat) :
    (parsePropertyShape display shapes fuel idx id).isSome := by
  rw [parsePropertyShape]
  cases hpath : getObject shapes id shPath with
  | none => rfl
  | some pathId =>
    obtain ⟨result, hresult⟩ := Option.isSome_iff_exists.mp (parsePath_isSome hpaths hfuel pathId)
    dsimp only
    rw [hresult]
    cases result with
    | none => rfl
    | some path =>
      dsimp only
      rw [Option.isSome_map]
      refine propShapeOf_of_ends (h ⟨pathId, hpath, ?_⟩) ?_ idx path
      · exact (parsePath_isPath hresult).mp rfl
      · rw [pathBound] at hfuel
        omega

theorem parsePropertyShape_eq_some {idx : Nat} {result : Option ParsedPropShape}
    (h : parsePropertyShape display shapes fuel idx id = some result) :
    (DescribesPath shapes id → PropertyEnds shapes id) ∧
      (result.isSome ↔ DescribesPath shapes id) ∧
      ∀ prop, result = some prop → prop.references = propertyRefs shapes id := by
  rw [parsePropertyShape] at h
  cases hpath : getObject shapes id shPath with
  | none =>
    have hno : ¬ DescribesPath shapes id := by
      intro ⟨pathId, hsome, _⟩
      rw [hpath] at hsome
      cases hsome
    rw [hpath] at h
    cases h
    exact ⟨fun hd => absurd hd hno, iff_of_false (by simp) hno, nofun⟩
  | some pathId =>
    rw [hpath] at h
    dsimp only at h
    cases hparse : parsePath shapes fuel pathId with
    | none =>
      rw [hparse] at h
      cases h
    | some parsed =>
      have hisPath := parsePath_isPath hparse
      have hdescribes : DescribesPath shapes id ↔ IsPath shapes [] pathId := by
        constructor
        · intro ⟨pathId', hsome, hp⟩
          rw [hpath] at hsome
          cases hsome
          exact hp
        · exact fun hp => ⟨pathId, hpath, hp⟩
      rw [hparse] at h
      cases parsed with
      | none =>
        cases h
        have hno : ¬ DescribesPath shapes id := fun hd => by
          simpa using hisPath.mpr (hdescribes.mp hd)
        exact ⟨fun hd => absurd hd hno, iff_of_false (by simp) hno, nofun⟩
      | some path =>
        dsimp only at h
        rw [Option.map_eq_some_iff] at h
        obtain ⟨prop, hprop, rfl⟩ := h
        obtain ⟨hends, hrefs⟩ := propShapeOf_eq_some hprop
        refine ⟨fun _ => hends, iff_of_true rfl (hdescribes.mpr (hisPath.mp rfl)), ?_⟩
        intro prop' heq
        cases heq
        exact hrefs

open Classical in
/-- The shapes that the property shapes of a node refer to. -/
noncomputable def blockRefs (shapes : Datastore N) (ids : List GraphElementId) :
    List GraphElementId :=
  ids.flatMap fun id => if DescribesPath shapes id then propertyRefs shapes id else []

theorem parsePropertyShapes_of_ends (hpaths : PathsEnd shapes)
    (h : ∀ p ∈ getObjects shapes id shProperty, DescribesPath shapes p → PropertyEnds shapes p)
    (hfuel : pathBound shapes ≤ fuel) :
    (parsePropertyShapes display shapes fuel id).isSome := by
  rw [parsePropertyShapes, Option.isSome_map]
  have hall (props : List (GraphElementId × Nat))
      (hprops : ∀ p ∈ props, p.1 ∈ getObjects shapes id shProperty) :
      (props.mapM fun prop => parsePropertyShape display shapes fuel prop.2 prop.1).isSome := by
    induction props with
    | nil => rfl
    | cons p props ih =>
      rw [List.forall_mem_cons] at hprops
      have hfirst : (parsePropertyShape display shapes fuel p.2 p.1).isSome :=
        parsePropertyShape_of_ends hpaths (h p.1 hprops.1) hfuel p.2
      obtain ⟨r, hr⟩ := Option.isSome_iff_exists.mp hfirst
      obtain ⟨rs, hrs⟩ := Option.isSome_iff_exists.mp (ih hprops.2)
      rw [List.mapM_cons, hr, hrs]
      rfl
  exact hall _ fun p hp => List.fst_mem_of_mem_zipIdx hp

theorem parsePropertyShapes_eq_some {props : List ParsedPropShape}
    (h : parsePropertyShapes display shapes fuel id = some props) :
    (∀ p ∈ getObjects shapes id shProperty, DescribesPath shapes p → PropertyEnds shapes p) ∧
      props.flatMap ParsedPropShape.references =
        blockRefs shapes (getObjects shapes id shProperty) := by
  rw [parsePropertyShapes, Option.map_eq_some_iff] at h
  obtain ⟨results, hall, rfl⟩ := h
  rw [FallibleFold.mapM_eq_some_iff] at hall
  have hlist (ids : List GraphElementId) (n : Nat) (results : List (Option ParsedPropShape))
      (hall : List.Forall₂ (fun (p : GraphElementId × Nat) r =>
        parsePropertyShape display shapes fuel p.2 p.1 = some r) (ids.zipIdx n) results) :
      (∀ p ∈ ids, DescribesPath shapes p → PropertyEnds shapes p) ∧
        results.reduceOption.flatMap ParsedPropShape.references = blockRefs shapes ids := by
    induction ids generalizing n results with
    | nil =>
      cases hall
      exact ⟨fun _ hp => (by cases hp), rfl⟩
    | cons p ids ih =>
      rw [List.zipIdx_cons] at hall
      cases hall with
      | @cons _ r _ results hr hall =>
        obtain ⟨hends, hrefs⟩ := ih _ _ hall
        obtain ⟨hend, hsome, href⟩ := parsePropertyShape_eq_some hr
        refine ⟨List.forall_mem_cons.mpr ⟨hend, hends⟩, ?_⟩
        rw [blockRefs, List.flatMap_cons, ← blockRefs, ← hrefs]
        cases r with
        | none =>
          rw [List.reduceOption_cons_of_none, if_neg (by simpa using hsome), List.nil_append]
        | some prop =>
          rw [List.reduceOption_cons_of_some, List.flatMap_cons, if_pos (hsome.mp rfl),
            href prop rfl]
  exact hlist _ _ _ hall

end PropertyShapes

section WholeShapes

/-- The lists that are read to parse a shape. -/
inductive ShapeList (shapes : Datastore N) (id : GraphElementId) : GraphElementId → Prop
  | combinator {predIri : IriReference} {head : GraphElementId} :
    predIri ∈ [shAnd, shOr, shXone] → getObject shapes id predIri = some head →
      ShapeList shapes id head
  | ignored {head : GraphElementId} :
    (getObject shapes id shClosed).bind (elemToBool shapes) = some true →
    getObject shapes id shIgnoredProperties = some head → ShapeList shapes id head
  | constraint {predIri : IriReference} {head : GraphElementId} :
    getObject shapes id shPath = none ∨ DescribesPath shapes id → predIri ∈ [shIn, shLanguageIn] →
    getObject shapes id predIri = some head → ShapeList shapes id head
  | property {p head : GraphElementId} {predIri : IriReference} :
    p ∈ getObjects shapes id shProperty → DescribesPath shapes p →
    predIri ∈ [shIn, shLanguageIn, shAnd, shOr, shXone] →
    getObject shapes p predIri = some head → ShapeList shapes id head

/-- No list that is read to parse the shape comes back to a node. -/
def ShapeEnds (shapes : Datastore N) (id : GraphElementId) : Prop :=
  ∀ head, ShapeList shapes id head → ¬ RestCycle shapes head

open Classical in
noncomputable def refsOf (shapes : Datastore N) (id : GraphElementId) : List GraphElementId :=
  combinatorRefs shapes id ++ blockRefs shapes (getObjects shapes id shProperty) ++
    blockRefs shapes [id] ++
    if getObject shapes id shPath = none then constraintRefsAt shapes id else []

variable {id : GraphElementId}

theorem ShapeEnds.combinators (h : ShapeEnds shapes id) :
    CombinatorsEnd shapes id :=
  ⟨fun head hhead => h head (.combinator (by simp) hhead),
    fun head hhead => h head (.combinator (by simp) hhead),
    fun head hhead => h head (.combinator (by simp) hhead)⟩

theorem ShapeEnds.constraints (h : ShapeEnds shapes id)
    (hpath : getObject shapes id shPath = none ∨ DescribesPath shapes id) :
    ConstraintsEnd shapes id :=
  ⟨fun head hhead => h head (.constraint hpath (by simp) hhead),
    fun head hhead => h head (.constraint hpath (by simp) hhead)⟩

theorem ShapeEnds.property {p : GraphElementId} (h : ShapeEnds shapes id)
    (hp : p ∈ getObjects shapes id shProperty) (hpath : DescribesPath shapes p) :
    PropertyEnds shapes p :=
  ⟨⟨fun head hhead => h head (.property hp hpath (by simp) hhead),
      fun head hhead => h head (.property hp hpath (by simp) hhead)⟩,
    ⟨fun head hhead => h head (.property hp hpath (by simp) hhead),
      fun head hhead => h head (.property hp hpath (by simp) hhead),
      fun head hhead => h head (.property hp hpath (by simp) hhead)⟩⟩

theorem shapeEnds_of_parts (hcombinators : CombinatorsEnd shapes id) (hignored : (getObject shapes
      id shClosed).bind (elemToBool shapes) = some true → ListEnds shapes id shIgnoredProperties)
    (hconstraints : getObject shapes id shPath = none ∨ DescribesPath shapes id → ConstraintsEnd
      shapes id) (hproperties : ∀ p ∈ getObjects shapes id shProperty, DescribesPath shapes p →
      PropertyEnds shapes p) : ShapeEnds shapes id := by
  intro head hhead
  cases hhead with
  | combinator hpred hget =>
    simp only [List.mem_cons, List.not_mem_nil, or_false] at hpred
    rcases hpred with rfl | rfl | rfl
    · exact hcombinators.and head hget
    · exact hcombinators.or head hget
    · exact hcombinators.xone head hget
  | ignored hclosed hget => exact hignored hclosed head hget
  | constraint hpath hpred hget =>
    simp only [List.mem_cons, List.not_mem_nil, or_false] at hpred
    rcases hpred with rfl | rfl
    · exact (hconstraints hpath).allowed head hget
    · exact (hconstraints hpath).languages head hget
  | @property p _ _ hp hpath hpred hget =>
    have hends := hproperties p hp hpath
    simp only [List.mem_cons, List.not_mem_nil, or_false] at hpred
    rcases hpred with rfl | rfl | rfl | rfl | rfl
    · exact hends.constraints.allowed head hget
    · exact hends.constraints.languages head hget
    · exact hends.combinators.and head hget
    · exact hends.combinators.or head hget
    · exact hends.combinators.xone head hget

theorem constraintRefs_filter (cs : List PropConstraint) :
    constraintRefs (cs.filter fun c => !c.isNodeKind) = constraintRefs cs := by
  induction cs with
  | nil => rfl
  | cons c cs ih =>
    rw [List.filter_cons]
    cases c with
    | nodeKind nk => exact ih
    | nodeShape id | qualifiedValueShape id min max disjoint => exact congrArg (id :: ·) ih
    | _ => exact ih

theorem references_of_not_constrains {prop : ParsedPropShape} (h : prop.constrains = false) :
    prop.references = [] := by
  simp only [ParsedPropShape.constrains, Bool.or_eq_false_iff, Bool.not_eq_eq_eq_not,
    Bool.not_false, List.isEmpty_iff, Option.isSome_eq_false_iff, Option.isNone_iff_eq_none] at h
  obtain ⟨⟨⟨⟨hconstraints, hnot⟩, hand⟩, hor⟩, hxone⟩ := h
  rw [ParsedPropShape.references, hconstraints, hnot, hand, hor, hxone]
  rfl

theorem parseOneShape_of_ends (hpaths : PathsEnd shapes) (h : ShapeEnds shapes id) {fuel : Nat}
    (hfuel : pathBound shapes ≤ fuel) (idx : Nat) :
    (parseOneShape display shapes fuel id idx).isSome := by
  have hlist : listBound shapes ≤ fuel := by
    rw [pathBound] at hfuel
    omega
  have hblocks : (parsePropertyShapes display shapes fuel id).isSome :=
    parsePropertyShapes_of_ends hpaths (fun p hp hpath => h.property hp hpath) hfuel
  obtain ⟨blocks, hblocks⟩ := Option.isSome_iff_exists.mp hblocks
  have hdirect : (parsePropertyShape display shapes fuel blocks.length id).isSome :=
    parsePropertyShape_of_ends hpaths (fun hpath => ⟨h.constraints (.inr hpath), h.combinators⟩)
      hfuel blocks.length
  obtain ⟨direct, hdirect⟩ := Option.isSome_iff_exists.mp hdirect
  have hclosed (props : List ParsedPropShape) : (parseClosed shapes fuel id props).isSome := by
    rw [parseClosed]
    split
    · next hclosed =>
      have hends : ListEnds shapes id shIgnoredProperties :=
        fun head hhead => h head (.ignored hclosed hhead)
      rw [shapeListRefs_of_listEnds hends hlist]
      rfl
    · rfl
  have hconstraints : (parseNodeConstraints display shapes fuel id).isSome := by
    rw [parseNodeConstraints]
    split
    · rfl
    · next hnone =>
      rw [Option.isSome_map]
      exact parsePropConstraints_of_ends (h.constraints (.inl (by simpa using hnone))) hlist
  obtain ⟨closed, hclosed⟩ := Option.isSome_iff_exists.mp
    (hclosed (blocks ++ (direct.filter ParsedPropShape.constrains).toList))
  obtain ⟨cs, hcs⟩ := Option.isSome_iff_exists.mp hconstraints
  unfold parseOneShape
  simp only [hblocks, hdirect, Option.bind_eq_bind, Option.bind_some, hclosed, hcs,
    shapeListRefs_of_listEnds h.combinators.and hlist,
    shapeListRefs_of_listEnds h.combinators.or hlist,
    shapeListRefs_of_listEnds h.combinators.xone hlist, Option.isSome_some]

theorem parseOneShape_eq_some {fuel idx : Nat} {parsed : ParsedShape}
    (h : parseOneShape display shapes fuel id idx = some parsed) :
    ShapeEnds shapes id ∧ parsed.shapesId = id ∧ parsed.references = refsOf shapes id := by
  unfold parseOneShape at h
  simp only [Option.bind_eq_bind, Option.bind_eq_some_iff] at h
  obtain ⟨blocks, hblocks, direct, hdirect, closed, hclosed, cs, hcs, and, hand, or, hor, xone,
    hxone, heq⟩ := h
  obtain ⟨hproperties, hblockRefs⟩ := parsePropertyShapes_eq_some hblocks
  obtain ⟨hdirectEnds, hsome, hdirectRefs⟩ := parsePropertyShape_eq_some hdirect
  obtain ⟨handEnds, rfl⟩ := shapeListRefs_eq_some hand
  obtain ⟨horEnds, rfl⟩ := shapeListRefs_eq_some hor
  obtain ⟨hxoneEnds, rfl⟩ := shapeListRefs_eq_some hxone
  have hnode : (getObject shapes id shPath = none → ConstraintsEnd shapes id) ∧
      constraintRefs cs =
        if getObject shapes id shPath = none then constraintRefsAt shapes id else [] := by
    rw [parseNodeConstraints] at hcs
    split at hcs
    · next hpath =>
      have hne : getObject shapes id shPath ≠ none := by
        intro hnone
        rw [hnone] at hpath
        cases hpath
      cases hcs
      exact ⟨fun hnone => absurd hnone hne, (if_neg hne).symm⟩
    · next hpath =>
      have hnone : getObject shapes id shPath = none := by simpa using hpath
      rw [Option.map_eq_some_iff] at hcs
      obtain ⟨all, hall, rfl⟩ := hcs
      obtain ⟨hends, hrefs⟩ := parsePropConstraints_eq_some hall
      exact ⟨fun _ => hends, by rw [constraintRefs_filter, hrefs, if_pos hnone]⟩
  have hignored (hflag : (getObject shapes id shClosed).bind (elemToBool shapes) = some true) :
      ListEnds shapes id shIgnoredProperties := by
    rw [parseClosed, if_pos hflag, Option.map_eq_some_iff] at hclosed
    obtain ⟨ids, hids, _⟩ := hclosed
    exact (shapeListRefs_eq_some hids).1
  have hdirectList : (direct.filter ParsedPropShape.constrains).toList.flatMap
      ParsedPropShape.references = blockRefs shapes [id] := by
    rw [blockRefs, List.flatMap_singleton]
    cases direct with
    | none =>
      rw [if_neg (by simpa using hsome)]
      rfl
    | some prop =>
      rw [if_pos (hsome.mp rfl), ← hdirectRefs prop rfl]
      cases hconstrains : prop.constrains with
      | true => simp [Option.filter, hconstrains]
      | false => simp [Option.filter, hconstrains, references_of_not_constrains hconstrains]
  refine ⟨shapeEnds_of_parts ⟨handEnds, horEnds, hxoneEnds⟩ hignored ?_ hproperties, ?_, ?_⟩
  · intro hpath
    rcases hpath with hnone | hpath
    · exact hnode.1 hnone
    · exact (hdirectEnds hpath).constraints
  · rw [← Option.some.inj heq]
  · rw [← Option.some.inj heq, ParsedShape.references, refsOf, combinatorRefs]
    dsimp only
    rw [List.flatMap_append, hblockRefs, hdirectList, hnode.2]
    simp only [List.append_assoc]

end WholeShapes

end RdfDatalog.Shacl
