import RdfDatalog.Shacl.Graph
import RdfDatalog.Math.FallibleFold
import Mathlib.Data.List.ReduceOption

namespace RdfDatalog.Shacl

variable {N : NativeTypes}

inductive ShPath where
  | predicate (iri : IriReference)
  | inverse (path : ShPath)
  | sequence (steps : List ShPath)
  | alternative (branches : List ShPath)
  | zeroOrMore (path : ShPath)
  | oneOrMore (path : ShPath)
  | zeroOrOne (path : ShPath)

def ShPath.asSimpleIri : ShPath → Option IriReference
  | .predicate iri => some iri
  | _ => none

def shInversePath : IriReference := "http://www.w3.org/ns/shacl#inversePath"
def shAlternativePath : IriReference := "http://www.w3.org/ns/shacl#alternativePath"
def shZeroOrMorePath : IriReference := "http://www.w3.org/ns/shacl#zeroOrMorePath"
def shOneOrMorePath : IriReference := "http://www.w3.org/ns/shacl#oneOrMorePath"
def shZeroOrOnePath : IriReference := "http://www.w3.org/ns/shacl#zeroOrOnePath"

section Parsing

variable (ds : Datastore N)

/-- The members of a list of paths; those that are no paths are left out. -/
def parseMembers (parse : GraphElementId → Option (Option ShPath)) (ids : List GraphElementId) :
    Option (List ShPath) :=
  (ids.mapM parse).map List.reduceOption

def parsePathBody (parse : GraphElementId → Option (Option ShPath)) (fuel : Nat)
    (pathId : GraphElementId) : Option (Option ShPath) :=
  match iriString ds pathId with
  | some iri => some (some (.predicate iri))
  | none =>
    match rdfList ds fuel pathId with
    | none => none
    -- a list, whatever else is said of its head
    | some (item :: items) =>
      (parseMembers parse (item :: items)).map fun members =>
        match members with
        | [] => none
        | [path] => some path
        | _ => some (.sequence members)
    | some [] =>
      match getObject ds pathId shInversePath with
      | some inner => (parse inner).map (Option.map .inverse)
      | none =>
        match getObject ds pathId shZeroOrMorePath with
        | some inner => (parse inner).map (Option.map .zeroOrMore)
        | none =>
          match getObject ds pathId shOneOrMorePath with
          | some inner => (parse inner).map (Option.map .oneOrMore)
          | none =>
            match getObject ds pathId shZeroOrOnePath with
            | some inner => (parse inner).map (Option.map .zeroOrOne)
            | none =>
              match getObject ds pathId shAlternativePath with
              | none => some none
              | some listHead =>
                match rdfList ds fuel listHead with
                | none => none
                | some ids =>
                  (parseMembers parse ids).map fun members =>
                    if members.isEmpty then none else some (.alternative members)

/-- `seen` holds the nodes that are being parsed. -/
def parsePathInner : Nat → List GraphElementId → GraphElementId → Option (Option ShPath)
  | 0, _, _ => none
  | fuel + 1, seen, pathId =>
    if pathId ∈ seen then some none
    else parsePathBody ds (parsePathInner fuel (pathId :: seen)) fuel pathId

/-- The outer `none`: the recursion has not ended yet. -/
def parsePath (fuel : Nat) (pathId : GraphElementId) : Option (Option ShPath) :=
  parsePathInner ds fuel [] pathId

end Parsing

section Reading

variable (ds : Datastore N)

/-- The path that an inverse or a repetition is of. -/
def pathOperand (id : GraphElementId) : Option GraphElementId :=
  [shInversePath, shZeroOrMorePath, shOneOrMorePath, shZeroOrOnePath].findSome? (getObject ds id)

/-- The lists that are read to parse a path. -/
inductive PathList : GraphElementId → Prop
  | own {id : GraphElementId} : iriString ds id = none → PathList id
  | alternative {id head : GraphElementId} : iriString ds id = none → listItems ds id = [] →
    pathOperand ds id = none → getObject ds id shAlternativePath = some head → PathList head

/-- The node describes a path, without those in `seen`. -/
inductive IsPath : List GraphElementId → GraphElementId → Prop
  | iri {seen : List GraphElementId} {id : GraphElementId} {iri : IriReference} : id ∉ seen →
    iriString ds id = some iri → IsPath seen id
  | sequence {seen : List GraphElementId} {id item : GraphElementId} : id ∉ seen →
    iriString ds id = none → item ∈ listItems ds id → IsPath (id :: seen) item → IsPath seen id
  | operand {seen : List GraphElementId} {id inner : GraphElementId} : id ∉ seen →
    iriString ds id = none → listItems ds id = [] → pathOperand ds id = some inner →
    IsPath (id :: seen) inner → IsPath seen id
  | alternative {seen : List GraphElementId} {id head item : GraphElementId} : id ∉ seen →
    iriString ds id = none → listItems ds id = [] → pathOperand ds id = none →
    getObject ds id shAlternativePath = some head → item ∈ listItems ds head →
    IsPath (id :: seen) item → IsPath seen id

variable {ds}

variable {id : GraphElementId} {parse : GraphElementId → Option (Option ShPath)}

theorem IsPath.notMem {seen : List GraphElementId} (h : IsPath ds seen id) :
    id ∉ seen := by
  cases h <;> assumption

theorem isPath_of_list {seen : List GraphElementId} (hseen : id ∉ seen)
    (hiri : iriString ds id = none) (hitems : listItems ds id ≠ []) :
    IsPath ds seen id ↔ ∃ item ∈ listItems ds id, IsPath ds (id :: seen) item := by
  constructor
  · intro h
    cases h with
    | iri _ hiri' => simp [hiri] at hiri'
    | sequence _ _ hx h => exact ⟨_, hx, h⟩
    | operand _ _ hnil | alternative _ _ hnil => exact absurd hnil hitems
  · intro ⟨x, hx, h⟩
    exact .sequence hseen hiri hx h

/-- A node that is no IRI and no list is a path by its operand, or by a member of its list of
alternatives. -/
theorem isPath_of_not_list {seen : List GraphElementId} (hseen : id ∉ seen)
    (hiri : iriString ds id = none) (hitems : listItems ds id = []) :
    IsPath ds seen id ↔ match pathOperand ds id with
      | some inner => IsPath ds (id :: seen) inner
      | none => ∃ head, getObject ds id shAlternativePath = some head ∧
          ∃ item ∈ listItems ds head, IsPath ds (id :: seen) item := by
  constructor
  · intro h
    cases h with
    | iri _ hiri' => simp [hiri] at hiri'
    | sequence _ _ hx => simp [hitems] at hx
    | operand _ _ _ hoperand h => simpa [hoperand] using h
    | alternative _ _ _ hoperand halt hx h => simpa [hoperand, halt] using ⟨_, hx, h⟩
  · cases hoperand : pathOperand ds id with
    | some inner => exact .operand hseen hiri hitems hoperand
    | none =>
      intro ⟨head, halt, x, hx, h⟩
      exact .alternative hseen hiri hitems hoperand halt hx h

variable {ids : List GraphElementId}

theorem parseMembers_isSome (h : ∀ id ∈ ids, (parse id).isSome) :
    (parseMembers parse ids).isSome := by
  rw [parseMembers, Option.isSome_map]
  induction ids with
  | nil => rfl
  | cons id ids ih =>
    rw [List.forall_mem_cons] at h
    obtain ⟨path, hpath⟩ := Option.isSome_iff_exists.mp h.1
    obtain ⟨paths, hpaths⟩ := Option.isSome_iff_exists.mp (ih h.2)
    rw [List.mapM_cons, hpath, hpaths]
    rfl

theorem parseMembers_ne_nil {P : GraphElementId → Prop} {members : List ShPath}
    (h : parseMembers parse ids = some members)
    (hparse : ∀ id r, parse id = some r → (r.isSome ↔ P id)) : members ≠ [] ↔ ∃ id ∈ ids, P id := by
  rw [parseMembers, Option.map_eq_some_iff] at h
  obtain ⟨results, hall, rfl⟩ := h
  rw [FallibleFold.mapM_eq_some_iff] at hall
  induction hall with
  | nil => simp [List.reduceOption]
  | @cons id r ids results hr _ ih =>
    have hP := hparse id r hr
    cases r with
    | none =>
      have hno : ¬ P id := fun hid => by simpa using hP.mpr hid
      rw [List.reduceOption_cons_of_none, ih]
      simp [hno]
    | some path =>
      have hyes : P id := hP.mp rfl
      rw [List.reduceOption_cons_of_some]
      simp [hyes]

theorem pathOperand_eq_none (h : pathOperand ds id = none) :
    getObject ds id shInversePath = none ∧ getObject ds id shZeroOrMorePath = none ∧
      getObject ds id shOneOrMorePath = none ∧ getObject ds id shZeroOrOnePath = none := by
  simpa [pathOperand, List.findSome?_eq_none_iff] using h

theorem parsePathBody_of_operand (parse : GraphElementId → Option (Option ShPath)) {fuel : Nat}
    {inner : GraphElementId} (hiri : iriString ds id = none) (hlist : rdfList ds fuel id = some [])
    (hinner : pathOperand ds id = some inner) :
    ∃ wrap, parsePathBody ds parse fuel id = (parse inner).map (Option.map wrap) := by
  simp only [pathOperand, List.findSome?_cons, List.findSome?_nil] at hinner
  rw [parsePathBody, hiri, hlist]
  dsimp only
  -- the first of the four properties the node has is the one that is taken
  cases hinv : getObject ds id shInversePath <;> rw [hinv] at hinner
  · cases hzero : getObject ds id shZeroOrMorePath <;> rw [hzero] at hinner
    · cases hone : getObject ds id shOneOrMorePath <;> rw [hone] at hinner
      · cases hopt : getObject ds id shZeroOrOnePath <;> rw [hopt] at hinner <;> cases hinner
        exact ⟨_, rfl⟩
      all_goals cases hinner; exact ⟨_, rfl⟩
    all_goals cases hinner; exact ⟨_, rfl⟩
  all_goals cases hinner; exact ⟨_, rfl⟩

theorem parsePathBody_of_not_operand {fuel : Nat} (hiri : iriString ds id = none)
    (hlist : rdfList ds fuel id = some []) (hinner : pathOperand ds id = none) :
    parsePathBody ds parse fuel id =
      match getObject ds id shAlternativePath with
      | none => some none
      | some listHead =>
        match rdfList ds fuel listHead with
        | none => none
        | some ids =>
          (parseMembers parse ids).map fun members =>
            if members.isEmpty then none else some (.alternative members) := by
  obtain ⟨hinv, hzero, hone, hopt⟩ := pathOperand_eq_none hinner
  rw [parsePathBody, hiri, hlist]
  dsimp only
  rw [hinv, hzero, hone, hopt]

end Reading

section Ending

variable {ds : Datastore N}

variable {fuel : Nat} {id : GraphElementId}

variable {seen : List GraphElementId} {result : Option ShPath}

theorem parsePathInner_isSome (h : ∀ head, PathList ds head → ¬ RestCycle ds head)
    {scope : Finset GraphElementId} (hscope : ds.objects ⊆ scope) (hid : id ∈ scope)
    (hfuel : listBound ds + (scope \ seen.toFinset).card < fuel) :
    (parsePathInner ds fuel seen id).isSome := by
  induction fuel generalizing seen id with
  | zero => omega
  | succ fuel ih =>
    rw [parsePathInner]
    by_cases hseen : id ∈ seen
    · rw [if_pos hseen]
      rfl
    · rw [if_neg hseen]
      have hcard : (scope \ (id :: seen).toFinset).card < (scope \ seen.toFinset).card := by
        rw [List.toFinset_cons, Finset.sdiff_insert]
        exact Finset.card_erase_lt_of_mem (by simp [hid, hseen])
      have hparse (x : GraphElementId) (hx : x ∈ ds.objects) :
          (parsePathInner ds fuel (id :: seen) x).isSome := ih (hscope hx) (by omega)
      cases hiri : iriString ds id with
      | some iri =>
        rw [parsePathBody, hiri]
        rfl
      | none =>
        have hlist :=
          rdfList_of_not_restCycle (h id (.own hiri)) (show listBound ds ≤ fuel by omega)
        cases hitems : listItems ds id with
        | cons item items =>
          rw [hitems] at hlist
          rw [parsePathBody, hiri, hlist]
          dsimp only
          rw [Option.isSome_map]
          apply parseMembers_isSome
          intro x hx
          rw [← hitems] at hx
          exact hparse x (mem_objects_of_itemsUpTo hx)
        | nil =>
          rw [hitems] at hlist
          cases hoperand : pathOperand ds id with
          | some inner =>
            obtain ⟨wrap, hbody⟩ := parsePathBody_of_operand
              (parsePathInner ds fuel (id :: seen)) hiri hlist hoperand
            rw [hbody, Option.isSome_map]
            obtain ⟨p, _, hp⟩ := List.exists_of_findSome?_eq_some hoperand
            exact hparse inner (mem_objects_of_getObjects (mem_getObjects_of_getObject hp))
          | none =>
            rw [parsePathBody_of_not_operand hiri hlist hoperand]
            cases halt : getObject ds id shAlternativePath with
            | none => rfl
            | some head =>
              dsimp only
              rw [rdfList_of_not_restCycle (h head (.alternative hiri hitems hoperand halt))
                (show listBound ds ≤ fuel by omega)]
              dsimp only
              rw [Option.isSome_map]
              exact parseMembers_isSome fun x hx => hparse x (mem_objects_of_itemsUpTo hx)

def pathBound (ds : Datastore N) : Nat := listBound ds + ds.objects.card + 2

theorem parsePath_isSome (h : ∀ head, PathList ds head → ¬ RestCycle ds head)
    (hfuel : pathBound ds ≤ fuel) (id : GraphElementId) : (parsePath ds fuel id).isSome := by
  refine parsePathInner_isSome h (Finset.subset_insert id ds.objects)
    (Finset.mem_insert_self id ds.objects) ?_
  have hcard := Finset.card_insert_le id ds.objects
  rw [pathBound] at hfuel
  simp only [List.toFinset_nil, Finset.sdiff_empty]
  omega

theorem not_restCycle_of_parsePath (h : ∀ id, ∃ fuel, (parsePath ds fuel id).isSome)
    {head : GraphElementId} (hhead : PathList ds head) : ¬ RestCycle ds head := by
  have hbody (id : GraphElementId) (hiri : iriString ds id = none) :
      ∃ n items, rdfList ds n id = some items ∧
        (parsePathBody ds (parsePathInner ds n [id]) n id).isSome := by
    obtain ⟨fuel, hid⟩ := h id
    rw [parsePath] at hid
    cases fuel with
    | zero => cases hid
    | succ n =>
      rw [parsePathInner, if_neg List.not_mem_nil] at hid
      cases hlist : rdfList ds n id with
      | none =>
        rw [parsePathBody, hiri, hlist] at hid
        cases hid
      | some items => exact ⟨n, items, hlist, hid⟩
  cases hhead with
  | own hiri =>
    obtain ⟨n, items, hlist, _⟩ := hbody head hiri
    exact (not_restCycle_of_rdfList hlist).1
  | @alternative id _ hiri hitems hoperand halt =>
    obtain ⟨n, items, hlist, hsome⟩ := hbody id hiri
    obtain ⟨_, rfl⟩ := not_restCycle_of_rdfList hlist
    rw [hitems] at hlist
    rw [parsePathBody_of_not_operand hiri hlist hoperand, halt] at hsome
    dsimp only at hsome
    cases hhead : rdfList ds n head with
    | none =>
      rw [hhead] at hsome
      cases hsome
    | some ids => exact (not_restCycle_of_rdfList hhead).1

theorem parsePathInner_isPath (h : parsePathInner ds fuel seen id = some result) :
    result.isSome ↔ IsPath ds seen id := by
  induction fuel generalizing seen id result with
  | zero => cases h
  | succ fuel ih =>
    rw [parsePathInner] at h
    by_cases hseen : id ∈ seen
    · rw [if_pos hseen] at h
      cases h
      exact iff_of_false (by simp) fun hpath => hpath.notMem hseen
    · rw [if_neg hseen] at h
      have hparse (x : GraphElementId) (r : Option ShPath)
          (hr : parsePathInner ds fuel (id :: seen) x = some r) :
          r.isSome ↔ IsPath ds (id :: seen) x := ih hr
      cases hiri : iriString ds id with
      | some iri =>
        rw [parsePathBody, hiri] at h
        cases h
        exact iff_of_true rfl (.iri hseen hiri)
      | none =>
        cases hlist : rdfList ds fuel id with
        | none =>
          rw [parsePathBody, hiri, hlist] at h
          cases h
        | some items =>
          obtain ⟨_, rfl⟩ := not_restCycle_of_rdfList hlist
          cases hitems : listItems ds id with
          | cons item items =>
            rw [hitems] at hlist
            rw [parsePathBody, hiri, hlist] at h
            dsimp only at h
            rw [Option.map_eq_some_iff] at h
            obtain ⟨members, hmembers, rfl⟩ := h
            have hne := parseMembers_ne_nil hmembers hparse
            have hresult : Option.isSome (match members with
                | [] => none
                | [path] => some path
                | _ => some (.sequence members)) ↔ members ≠ [] := by
              match members with
              | [] => simp
              | [_] => simp
              | _ :: _ :: _ => simp
            rw [hresult, hne, ← hitems, isPath_of_list hseen hiri (by simp [hitems])]
          | nil =>
            rw [hitems] at hlist
            rw [isPath_of_not_list hseen hiri hitems]
            cases hoperand : pathOperand ds id with
            | some inner =>
              obtain ⟨wrap, hbody⟩ := parsePathBody_of_operand
                (parsePathInner ds fuel (id :: seen)) hiri hlist hoperand
              rw [hbody, Option.map_eq_some_iff] at h
              obtain ⟨r, hr, rfl⟩ := h
              rw [Option.isSome_map]
              exact hparse inner r hr
            | none =>
              rw [parsePathBody_of_not_operand hiri hlist hoperand] at h
              cases halt : getObject ds id shAlternativePath with
              | none =>
                rw [halt] at h
                cases h
                simp
              | some head =>
                rw [halt] at h
                dsimp only at h
                cases hhead : rdfList ds fuel head with
                | none =>
                  rw [hhead] at h
                  cases h
                | some ids =>
                  obtain ⟨_, rfl⟩ := not_restCycle_of_rdfList hhead
                  rw [hhead] at h
                  dsimp only at h
                  rw [Option.map_eq_some_iff] at h
                  obtain ⟨members, hmembers, rfl⟩ := h
                  have hresult : Option.isSome (if members.isEmpty then none
                      else some (ShPath.alternative members)) ↔ members ≠ [] := by
                    cases members <;> simp
                  rw [hresult, parseMembers_ne_nil hmembers hparse]
                  simp

theorem parsePath_isPath (h : parsePath ds fuel id = some result) :
    result.isSome ↔ IsPath ds [] id :=
  parsePathInner_isPath h

end Ending

end RdfDatalog.Shacl
