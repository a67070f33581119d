import Mathlib.Algebra.Order.BigOperators.Group.List
import Mathlib.Algebra.Order.Ring.Nat
import RdfDatalog.Math.FallibleFold
import RdfDatalog.Ottr.Expander

/-!
What the expanders, the variables and the parameters of a template stand for.
-/

namespace RdfDatalog.Ottr

variable {N : NativeTypes} {B B' : Type}

section Meaning

/-- What an argument is in the instances of a cross: any item of a list, else itself. -/
def Argument.choices : Argument N B → List (Argument N B)
  | .list items => items
  | a => [a]

/-- One choice for every argument. -/
def crossed : List (Argument N B) → List (List (Argument N B))
  | [] => [[]]
  | a :: as => a.choices.flatMap fun x => (crossed as).map (x :: ·)

/-- What an argument is in the instance `i` of a zip: the item `i` of a list, else itself. -/
def Argument.itemAt (i : Nat) : Argument N B → Option (Argument N B)
  | .list items => items[i]?
  | a => some a

def Argument.size : Argument N B → Nat
  | .list items => items.length
  | _ => 0

/-- One instance for every index at which all lists have an item. -/
def zipped (arguments : List (Argument N B)) : List (List (Argument N B)) :=
  (List.range (arguments.map Argument.size).sum).filterMap fun i =>
    arguments.mapM (Argument.itemAt i)

/-- The arguments of the instances that an instance stands for. -/
def alternatives : Option Expander → List (Argument N B) → List (List (Argument N B))
  | none, arguments => [arguments]
  | some .cross, arguments => crossed arguments
  | some .zipMin, arguments => zipped arguments

mutual

/-- The argument with the values of its variables. -/
def Argument.value (env : String → Argument N B) : Argument N B → Argument N B
  | .term (.var name) | .listExpand name => env name
  | .list items => .list (values env items)
  | .term t => .term t
  | .none => .none

def values (env : String → Argument N B) : List (Argument N B) → List (Argument N B)
  | [] => []
  | a :: as => a.value env :: values env as

end

/-- The value of the last parameter of that name. -/
def parameterValue (parameters : List (Parameter N)) (arguments : List (Argument N B)) :
    Bindings N B := fun name =>
  ((parameters.zip arguments).filter (·.1.var = name)).getLast?.map Prod.snd

/-- A variable without a value is `none`. -/
def Bindings.value (bindings : Bindings N B) (name : String) : Argument N B :=
  (bindings name).getD .none

end Meaning

section Substitution

mutual

theorem substituteArgument_eq_value (bindings : Bindings N B) :
    ∀ a : Argument N B, substituteArgument bindings a = a.value bindings.value
  | .term (.var _) | .listExpand _ => rfl
  | .list items => congrArg Argument.list (substituteArguments_eq_values bindings items)
  | .term (.iri _) | .term (.literal _) | .term (.blankNode _) | .none => rfl

theorem substituteArguments_eq_values (bindings : Bindings N B) :
    ∀ as : List (Argument N B), substituteArguments bindings as = values bindings.value as
  | [] => rfl
  | a :: as => by
    rw [substituteArguments, values, substituteArgument_eq_value bindings a,
      substituteArguments_eq_values bindings as]

end

theorem bindParameters_eq (parameters : List (Parameter N)) (arguments : List (Argument N B)) :
    bindParameters parameters arguments = parameterValue parameters arguments := by
  have hfold (l : List (Parameter N × Argument N B)) (bindings : Bindings N B) (name : String) :
      l.foldl bindParameter bindings name =
        ((l.filter (·.1.var = name)).getLast?.map Prod.snd).or (bindings name) := by
    induction l generalizing bindings with
    | nil => rfl
    | cons p l ih =>
      rw [List.foldl_cons, ih, bindParameter]
      by_cases hname : p.1.var = name
      · subst hname
        rw [List.filter_cons_of_pos (by simp), List.getLast?_cons, Function.update_self]
        cases (l.filter (·.1.var = p.1.var)).getLast? <;> rfl
      · rw [List.filter_cons_of_neg (by simpa using hname),
          Function.update_of_ne (Ne.symm hname)]
  funext name
  rw [bindParameters, hfold, Option.or_none, parameterValue]

end Substitution

section Lists

theorem setArguments_cons {α : Type} (a : α) (arguments : List α) (positions : List Nat)
    (values : List α) : setArguments (a :: arguments) (positions.map (· + 1)) values =
      a :: setArguments arguments positions values := by
  induction positions generalizing arguments values with
  | nil => rfl
  | cons position positions ih =>
    cases values with
    | nil => rfl
    | cons value values => exact ih (arguments.set position value) values

theorem listPositions_cons (a : Argument N B) (arguments : List (Argument N B)) :
    listPositions (a :: arguments) =
      ((listItems a).map fun _ => 0).toList ++ (listPositions arguments).map (· + 1) := by
  have hrest : (arguments.zipIdx 1).filterMap (fun a => (listItems a.1).map fun _ => a.2) =
      (listPositions arguments).map (· + 1) := by
    rw [listPositions, List.zipIdx_succ, List.filterMap_map, List.map_filterMap]
    congr 1
    funext a
    obtain ⟨x, i⟩ := a
    rw [Option.map_map]
    rfl
  rw [listPositions, List.zipIdx_cons, List.filterMap_cons, Nat.zero_add, hrest]
  cases listItems a <;> rfl

/-- A list is replaced by the first value, any other argument stays. -/
theorem setArguments_listPositions_cons (a : Argument N B) (arguments : List (Argument N B))
    (vals : List (Argument N B)) :
    (∀ x, (listItems a).isSome → setArguments (a :: arguments) (listPositions (a :: arguments))
      (x :: vals) = x :: setArguments arguments (listPositions arguments) vals) ∧
    ((listItems a) = none → setArguments (a :: arguments) (listPositions (a :: arguments))
      vals = a :: setArguments arguments (listPositions arguments) vals) := by
  constructor
  · intro x hx
    obtain ⟨items, hitems⟩ := Option.isSome_iff_exists.mp hx
    rw [listPositions_cons, hitems]
    exact setArguments_cons x arguments _ vals
  · intro hnone
    rw [listPositions_cons, hnone]
    exact setArguments_cons a arguments _ vals

theorem listVecs_cons (a : Argument N B) (arguments : List (Argument N B)) :
    listVecs (a :: arguments) = (listItems a).toList ++ listVecs arguments := by
  rw [listVecs, List.filterMap_cons]
  cases listItems a <;> rfl

theorem cartesianProduct_cons {α : Type} (list : List α) (lists : List (List α)) :
    cartesianProduct (list :: lists) =
      list.flatMap fun x => (cartesianProduct lists).map (x :: ·) := by
  have hfold (lists : List (List α)) (acc : List (List α)) :
      lists.foldl (fun acc list => acc.flatMap fun combo => list.map fun item => combo ++ [item])
          acc = acc.flatMap fun combo => (cartesianProduct lists).map (combo ++ ·) := by
    induction lists generalizing acc with
    | nil => simp [cartesianProduct]
    | cons list lists ih =>
      rw [cartesianProduct, List.foldl_cons, List.foldl_cons, ih, ih]
      simp [List.flatMap_assoc, List.flatMap_map, List.map_flatMap, Function.comp_def]
  rw [cartesianProduct, List.foldl_cons, hfold]
  simp [List.flatMap_map]

theorem crossArguments_eq (arguments : List (Argument N B)) :
    crossArguments arguments = crossed arguments := by
  induction arguments with
  | nil => rfl
  | cons a arguments ih =>
    have hset := setArguments_listPositions_cons a arguments
    rw [crossed, ← ih, crossArguments, crossArguments, listVecs_cons]
    cases hitems : listItems a with
    | some items =>
      have hchoices : a.choices = items := by
        cases a <;> cases hitems
        rfl
      rw [hchoices]
      simp only [Option.toList_some, List.singleton_append, cartesianProduct_cons,
        List.map_flatMap, List.map_map]
      congr 1
      funext x
      congr 1
      funext combo
      exact (hset combo).1 x (by rw [hitems]; rfl)
    | none =>
      have hchoices : a.choices = [a] := by
        cases a <;> first | rfl | cases hitems
      rw [hchoices, List.flatMap_singleton, List.map_map]
      simp only [Option.toList_none, List.nil_append]
      congr 1
      funext combo
      exact (hset combo).2 hitems

theorem mapM_itemAt_of_lt {arguments : List (Argument N B)} {i : Nat}
    (h : ∀ items ∈ listVecs arguments, i < items.length) :
    arguments.mapM (Argument.itemAt i) = some (setArguments arguments (listPositions arguments)
      ((listVecs arguments).filterMap fun items => items[i]?)) := by
  induction arguments with
  | nil => rfl
  | cons a arguments ih =>
    have hset := setArguments_listPositions_cons a arguments
    rw [listVecs_cons, List.forall_mem_append] at h
    rw [List.mapM_cons, ih h.2, listVecs_cons]
    cases hitems : listItems a with
    | some items =>
      have hlt : i < items.length := h.1 items (by simp [hitems])
      have hitem : a.itemAt i = some items[i] := by
        cases a <;> cases hitems
        exact List.getElem?_eq_getElem hlt
      have hvalues : (items :: listVecs arguments).filterMap (fun items => items[i]?) =
          items[i] :: (listVecs arguments).filterMap fun items => items[i]? :=
        List.filterMap_cons_some (List.getElem?_eq_getElem hlt)
      rw [hitem, Option.toList_some, List.singleton_append, hvalues,
        (hset _).1 _ (by rw [hitems]; rfl)]
      rfl
    | none =>
      have hitem : a.itemAt i = some a := by
        cases a <;> first | rfl | cases hitems
      rw [hitem, Option.toList_none, List.nil_append, (hset _).2 hitems]
      rfl

theorem mapM_itemAt_of_le {arguments : List (Argument N B)} {i : Nat}
    {items : List (Argument N B)} (hitems : items ∈ listVecs arguments) (h : items.length ≤ i) :
    arguments.mapM (Argument.itemAt i) = none := by
  obtain ⟨a, ha, hlist⟩ := List.mem_filterMap.mp hitems
  cases hresult : arguments.mapM (Argument.itemAt i) with
  | none => rfl
  | some result =>
    obtain ⟨b, -, hb⟩ :=
      FallibleFold.forall₂_exists (FallibleFold.mapM_eq_some_iff.mp hresult) ha
    cases a <;> cases hlist
    rw [Argument.itemAt, List.getElem?_eq_none h] at hb
    cases hb

theorem filterMap_range {α : Type} {f : Nat → Option α} {g : Nat → α} {m n : Nat} (hle : m ≤ n)
    (hsome : ∀ i < m, f i = some (g i)) (hnone : ∀ i ≥ m, i < n → f i = none) :
    (List.range n).filterMap f = (List.range m).map g := by
  obtain ⟨k, rfl⟩ := Nat.exists_eq_add_of_le hle
  rw [List.range_add, List.filterMap_append, List.filterMap_map]
  have hfirst : (List.range m).filterMap f = (List.range m).map g := by
    rw [← List.filterMap_eq_map]
    exact List.filterMap_congr fun i hi => hsome i (List.mem_range.mp hi)
  have hrest : (List.range k).filterMap (f ∘ (m + ·)) = [] := by
    rw [List.filterMap_eq_nil_iff]
    intro i hi
    have hlt := List.mem_range.mp hi
    exact hnone (m + i) (by omega) (by omega)
  rw [hfirst, hrest, List.append_nil]

theorem length_le_sum_size {arguments items : List (Argument N B)}
    (h : items ∈ listVecs arguments) : items.length ≤ (arguments.map Argument.size).sum := by
  obtain ⟨a, ha, hlist⟩ := List.mem_filterMap.mp h
  have hsize : a.size = items.length := by
    cases a <;> cases hlist
    rfl
  rw [← hsize]
  exact List.single_le_sum (fun _ _ => Nat.zero_le _) _ (List.mem_map_of_mem ha)

theorem zipMinArguments_eq (arguments : List (Argument N B)) :
    zipMinArguments arguments = zipped arguments := by
  have hshortest {items : List (Argument N B)} (hitems : items ∈ listVecs arguments) :
      (((listVecs arguments).map List.length).min?).getD 0 ≤ items.length :=
    List.min?_getD_le_of_mem (List.mem_map_of_mem hitems)
  symm
  cases hmin : ((listVecs arguments).map List.length).min? with
  | none =>
    have hnil : listVecs arguments = [] :=
      List.map_eq_nil_iff.mp (List.min?_eq_none_iff.mp hmin)
    have hsum : (arguments.map Argument.size).sum = 0 := by
      rw [List.sum_eq_zero_iff_forall_eq_nat, List.forall_mem_map]
      intro a ha
      cases a with
      | list items =>
        have hmem : items ∈ listVecs arguments := List.mem_filterMap.mpr ⟨_, ha, rfl⟩
        rw [hnil] at hmem
        cases hmem
      | _ => rfl
    rw [zipped, zipMinArguments, hsum, hmin]
    rfl
  | some m =>
    obtain ⟨items, hitems, hlength⟩ := List.mem_map.mp (List.min?_mem hmin)
    rw [zipped, zipMinArguments, hmin]
    rw [hmin, Option.getD_some] at hshortest
    refine filterMap_range ?_ (fun i hi => mapM_itemAt_of_lt fun items hitems => ?_)
      fun i hi _ => mapM_itemAt_of_le hitems (hlength.trans_le hi)
    · exact (hshortest hitems).trans (length_le_sum_size hitems)
    · exact lt_of_lt_of_le hi (hshortest hitems)

/-- The source's arguments of an instance are those the instance stands for. -/
theorem expandedArguments_eq (expander : Option Expander) (arguments : List (Argument N B)) :
    expandedArguments expander arguments = alternatives expander arguments := by
  match expander with
  | none => rfl
  | some .cross => exact crossArguments_eq arguments
  | some .zipMin => exact zipMinArguments_eq arguments

end Lists

section Renaming

variable (f : B → B')

theorem choices_map (a : Argument N B) :
    (a.map f).choices = a.choices.map (Argument.map f) := by
  cases a with
  | list items => exact mapArguments_eq_map f items
  | _ => rfl

theorem itemAt_map (i : Nat) (a : Argument N B) :
    (a.map f).itemAt i = (a.itemAt i).map (Argument.map f) := by
  cases a with
  | list items =>
    rw [Argument.map, mapArguments_eq_map]
    exact List.getElem?_map
  | _ => rfl

theorem size_map (a : Argument N B) : (a.map f).size = a.size := by
  cases a with
  | list items =>
    rw [Argument.map, mapArguments_eq_map]
    exact List.length_map _
  | _ => rfl

theorem crossed_map (arguments : List (Argument N B)) :
    crossed (arguments.map (Argument.map f)) =
      (crossed arguments).map (List.map (Argument.map f)) := by
  induction arguments with
  | nil => rfl
  | cons a arguments ih =>
    rw [List.map_cons, crossed, crossed, ih, choices_map]
    simp [List.flatMap_map, List.map_flatMap, Function.comp_def]

theorem zipped_map (arguments : List (Argument N B)) :
    zipped (arguments.map (Argument.map f)) =
      (zipped arguments).map (List.map (Argument.map f)) := by
  have hrow (i : Nat) : (arguments.map (Argument.map f)).mapM (Argument.itemAt i) =
      (arguments.mapM (Argument.itemAt i)).map (List.map (Argument.map f)) := by
    induction arguments with
    | nil => rfl
    | cons a arguments ih =>
      rw [List.map_cons, List.mapM_cons, List.mapM_cons, ih, itemAt_map]
      cases a.itemAt i with
      | none => rfl
      | some x => cases arguments.mapM (Argument.itemAt i) <;> rfl
  have hsize : (arguments.map (Argument.map f)).map Argument.size =
      arguments.map Argument.size := by
    rw [List.map_map]
    exact List.map_congr_left fun a _ => size_map f a
  rw [zipped, zipped, hsize, List.map_filterMap]
  congr 1
  funext i
  exact hrow i

theorem alternatives_map (expander : Option Expander) (arguments : List (Argument N B)) :
    alternatives expander (arguments.map (Argument.map f)) =
      (alternatives expander arguments).map (List.map (Argument.map f)) := by
  match expander with
  | none => rfl
  | some .cross => exact crossed_map f arguments
  | some .zipMin => exact zipped_map f arguments

variable {arguments expanded : List (Argument N B)}

theorem choices_closed {a x : Argument N B} (ha : a.Closed) (hx : x ∈ a.choices) : x.Closed := by
  cases a with
  | list items => exact closedArguments_iff.mp ha x hx
  | _ =>
    cases List.mem_singleton.mp hx
    exact ha

theorem itemAt_closed {i : Nat} {a x : Argument N B} (ha : a.Closed) (hx : a.itemAt i = some x) :
    x.Closed := by
  cases a with
  | list items => exact closedArguments_iff.mp ha x (List.mem_of_getElem? hx)
  | _ =>
    cases hx
    exact ha

theorem alternatives_closed (h : ∀ a ∈ arguments, a.Closed) {expander : Option Expander}
    (hexpanded : expanded ∈ alternatives expander arguments) : ∀ a ∈ expanded, a.Closed := by
  match expander with
  | none =>
    cases List.mem_singleton.mp hexpanded
    exact h
  | some .cross =>
    induction arguments generalizing expanded with
    | nil =>
      cases List.mem_singleton.mp hexpanded
      exact fun _ ha => by cases ha
    | cons a arguments ih =>
      obtain ⟨x, hx, hrest⟩ := List.mem_flatMap.mp hexpanded
      obtain ⟨rest, hmem, rfl⟩ := List.mem_map.mp hrest
      rw [List.forall_mem_cons] at h ⊢
      exact ⟨choices_closed h.1 hx, ih h.2 hmem⟩
  | some .zipMin =>
    intro x hx
    obtain ⟨i, -, hrow⟩ := List.mem_filterMap.mp hexpanded
    obtain ⟨a, ha, hitem⟩ :=
      FallibleFold.forall₂_exists_left (FallibleFold.mapM_eq_some_iff.mp hrow) hx
    exact itemAt_closed (h a ha) hitem

end Renaming

end RdfDatalog.Ottr
