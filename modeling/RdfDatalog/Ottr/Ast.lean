import RdfDatalog.Store.Datastore

namespace RdfDatalog.Ottr

/-- A term with blank nodes of type `B`: their labels, in what is parsed. -/
inductive Term (N : NativeTypes) (B : Type) where
  | iri (iri : IriReference)
  | var (name : String)
  | literal (l : RdfLiteral N)
  | blankNode (label : B)

inductive Argument (N : NativeTypes) (B : Type) where
  | term (t : Term N B)
  | list (items : List (Argument N B))
  | none
  /-- `++?name`. -/
  | listExpand (name : String)

inductive Expander where
  | cross
  | zipMin
  deriving DecidableEq

structure Instance (N : NativeTypes) where
  template : IriReference
  arguments : List (Argument N String)
  expander : Option Expander

structure Parameter (N : NativeTypes) where
  var : String
  optional : Bool
  default : Option (Argument N String)

structure TemplateDef (N : NativeTypes) where
  parameters : List (Parameter N)
  body : List (Instance N)

abbrev Templates (N : NativeTypes) := AList (fun _ : IriReference => TemplateDef N)

abbrev Bindings (N : NativeTypes) (B : Type) := String → Option (Argument N B)

variable {N : NativeTypes} {B B' : Type}

namespace Term

def map (f : B → B') : Term N B → Term N B'
  | iri i => iri i
  | var name => var name
  | literal l => literal l
  | blankNode b => blankNode (f b)

end Term

mutual

/-- Rename the blank nodes of an argument. -/
def Argument.map (f : B → B') : Argument N B → Argument N B'
  | .term t => .term (t.map f)
  | .list items => .list (mapArguments f items)
  | .none => .none
  | .listExpand name => .listExpand name

def mapArguments (f : B → B') : List (Argument N B) → List (Argument N B')
  | [] => []
  | a :: as => a.map f :: mapArguments f as

end

mutual

/-- Replace bound variables by their values. -/
def substituteArgument (bindings : Bindings N B) : Argument N B → Argument N B
  | .term (.var name) => (bindings name).getD .none
  | .listExpand name => (bindings name).getD .none
  | .list items => .list (substituteArguments bindings items)
  | .term (.iri i) => .term (.iri i)
  | .term (.literal l) => .term (.literal l)
  | .term (.blankNode b) => .term (.blankNode b)
  | .none => .none

def substituteArguments (bindings : Bindings N B) : List (Argument N B) → List (Argument N B)
  | [] => []
  | a :: as => substituteArgument bindings a :: substituteArguments bindings as

end

mutual

/-- No variable occurs. -/
def Argument.Closed : Argument N B → Prop
  | .term (.var _) => False
  | .term _ => True
  | .list items => ClosedArguments items
  | .none => True
  | .listExpand _ => False

def ClosedArguments : List (Argument N B) → Prop
  | [] => True
  | a :: as => a.Closed ∧ ClosedArguments as

end

theorem mapArguments_eq_map (f : B → B') (as : List (Argument N B)) :
    mapArguments f as = as.map (Argument.map f) := by
  induction as with
  | nil => rfl
  | cons a as ih => rw [mapArguments, ih, List.map_cons]

theorem closedArguments_iff {as : List (Argument N B)} :
    ClosedArguments as ↔ ∀ a ∈ as, a.Closed := by
  induction as with
  | nil => simp [ClosedArguments]
  | cons a as ih => rw [ClosedArguments, ih, List.forall_mem_cons]

def Bindings.map (f : B → B') (bindings : Bindings N B) : Bindings N B' :=
  fun name => (bindings name).map (Argument.map f)

theorem getD_map_argument (f : B → B') (x : Option (Argument N B)) :
    (x.map (Argument.map f)).getD .none = (x.getD .none).map f := by
  cases x <;> rfl

mutual

theorem substituteArgument_map (f : B → B') (bindings : Bindings N B) :
    ∀ a : Argument N B, substituteArgument (bindings.map f) (a.map f) =
      (substituteArgument bindings a).map f
  | .term (.var name) => getD_map_argument f (bindings name)
  | .listExpand name => getD_map_argument f (bindings name)
  | .list items => congrArg Argument.list (substituteArguments_map f bindings items)
  | .term (.iri _) | .term (.literal _) | .term (.blankNode _) | .none => rfl

theorem substituteArguments_map (f : B → B') (bindings : Bindings N B) :
    ∀ as : List (Argument N B), substituteArguments (bindings.map f) (mapArguments f as) =
      mapArguments f (substituteArguments bindings as)
  | [] => rfl
  | a :: as => by
    rw [mapArguments, substituteArguments, substituteArguments, mapArguments,
      substituteArgument_map f bindings a, substituteArguments_map f bindings as]

end

mutual

theorem substituteArgument_closed {bindings : Bindings N B}
    (h : ∀ name a, bindings name = some a → a.Closed) :
    ∀ a : Argument N B, (substituteArgument bindings a).Closed
  | .term (.var name) | .listExpand name => by
    rw [substituteArgument]
    cases hname : bindings name with
    | none => trivial
    | some a => exact h name a hname
  | .list items => substituteArguments_closed h items
  | .term (.iri _) | .term (.literal _) | .term (.blankNode _) | .none => trivial

theorem substituteArguments_closed {bindings : Bindings N B}
    (h : ∀ name a, bindings name = some a → a.Closed) :
    ∀ as : List (Argument N B), ClosedArguments (substituteArguments bindings as)
  | [] => trivial
  | a :: as => ⟨substituteArgument_closed h a, substituteArguments_closed h as⟩

end

mutual

theorem substituteArgument_of_closed (bindings : Bindings N B) :
    ∀ a : Argument N B, a.Closed → substituteArgument bindings a = a
  | .term (.var _), h | .listExpand _, h => h.elim
  | .list items, h => congrArg Argument.list (substituteArguments_of_closed bindings items h)
  | .term (.iri _), _ | .term (.literal _), _ | .term (.blankNode _), _ | .none, _ => rfl

theorem substituteArguments_of_closed (bindings : Bindings N B) :
    ∀ as : List (Argument N B), ClosedArguments as → substituteArguments bindings as = as
  | [], _ => rfl
  | a :: as, h => by
    rw [substituteArguments, substituteArgument_of_closed bindings a h.1,
      substituteArguments_of_closed bindings as h.2]

end

mutual

theorem closed_map (f : B → B') : ∀ a : Argument N B, a.Closed → (a.map f).Closed
  | .term (.var _), h | .listExpand _, h => h.elim
  | .list items, h => closed_mapArguments f items h
  | .term (.iri _), _ | .term (.literal _), _ | .term (.blankNode _), _ | .none, _ => trivial

theorem closed_mapArguments (f : B → B') :
    ∀ as : List (Argument N B), ClosedArguments as → ClosedArguments (mapArguments f as)
  | [], _ => trivial
  | a :: as, h => ⟨closed_map f a h.1, closed_mapArguments f as h.2⟩

end

mutual

theorem argument_map_map {B'' : Type} (f : B → B') (g : B' → B'') :
    ∀ a : Argument N B, (a.map f).map g = a.map (g ∘ f)
  | .list items => congrArg Argument.list (mapArguments_mapArguments f g items)
  | .term (.var _) | .listExpand _ | .term (.iri _) | .term (.literal _) | .term (.blankNode _)
  | .none => rfl

theorem mapArguments_mapArguments {B'' : Type} (f : B → B') (g : B' → B'') :
    ∀ as : List (Argument N B), mapArguments g (mapArguments f as) = mapArguments (g ∘ f) as
  | [] => rfl
  | a :: as => by
    rw [mapArguments, mapArguments, mapArguments, argument_map_map f g a,
      mapArguments_mapArguments f g as]

end

mutual

theorem argument_map_id : ∀ a : Argument N B, a.map id = a
  | .list items => congrArg Argument.list (mapArguments_id items)
  | .term (.var _) | .listExpand _ | .term (.iri _) | .term (.literal _) | .term (.blankNode _)
  | .none => rfl

theorem mapArguments_id : ∀ as : List (Argument N B), mapArguments id as = as
  | [] => rfl
  | a :: as => by
    rw [mapArguments, argument_map_id a, mapArguments_id as]

end

end RdfDatalog.Ottr
