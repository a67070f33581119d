import RdfDatalog.Store.Datastore

namespace RdfDatalog

/-- An RDF term, with its triple terms spelled out. -/
inductive RdfTerm (N : NativeTypes) where
  | iri (iri : IriReference)
  | blank (id : Nat)
  | literal (l : RdfLiteral N)
  | triple (subject predicate obj : RdfTerm N)
  deriving DecidableEq

namespace RdfTerm

variable {N : NativeTypes}

/-- Rename the blank nodes and rewrite the literals. -/
def map (ρ : Nat → Nat) (f : RdfLiteral N → RdfLiteral N) : RdfTerm N → RdfTerm N
  | iri i => iri i
  | blank n => blank (ρ n)
  | literal l => literal (f l)
  | triple s p o => triple (s.map ρ f) (p.map ρ f) (o.map ρ f)

def rename (ρ : Nat → Nat) (t : RdfTerm N) : RdfTerm N := t.map ρ (fun l => l)

/-- The blank nodes of a term, in the order in which they occur. -/
def blanks : RdfTerm N → List Nat
  | iri _ | literal _ => []
  | blank n => [n]
  | triple s p o => s.blanks ++ p.blanks ++ o.blanks

def literals : RdfTerm N → List (RdfLiteral N)
  | iri _ | blank _ => []
  | literal l => [l]
  | triple s p o => s.literals ++ p.literals ++ o.literals

theorem map_eq_map_iff {ρ ρ' : Nat → Nat} {f f' : RdfLiteral N → RdfLiteral N} (t : RdfTerm N) :
    t.map ρ f = t.map ρ' f' ↔
      (∀ n ∈ t.blanks, ρ n = ρ' n) ∧ ∀ l ∈ t.literals, f l = f' l := by
  induction t with
  | iri | blank | literal => simp [map, blanks, literals]
  | triple s p o hs hp ho =>
    simp only [map, blanks, literals, triple.injEq, hs, hp, ho, List.mem_append, or_imp,
      forall_and]
    exact ⟨fun h => ⟨⟨⟨h.1.1, h.2.1.1⟩, h.2.2.1⟩, ⟨⟨h.1.2, h.2.1.2⟩, h.2.2.2⟩⟩,
      fun h => ⟨⟨h.1.1.1, h.2.1.1⟩, ⟨h.1.1.2, h.2.1.2⟩, h.1.2, h.2.2⟩⟩

theorem rename_congr {ρ ρ' : Nat → Nat} {t : RdfTerm N} (h : ∀ n ∈ t.blanks, ρ n = ρ' n) :
    t.rename ρ = t.rename ρ' :=
  (map_eq_map_iff t).mpr ⟨h, fun _ _ => rfl⟩

@[simp] theorem rename_id (t : RdfTerm N) : t.rename id = t := by
  induction t with
  | triple s p o hs hp ho =>
    rw [rename] at hs hp ho ⊢
    rw [map, hs, hp, ho]
  | _ => rfl

theorem rename_of_ground {ρ : Nat → Nat} {t : RdfTerm N} (h : t.blanks = []) : t.rename ρ = t := by
  have hid : ∀ n ∈ t.blanks, ρ n = id n := by
    intro n hn
    rw [h] at hn
    cases hn
  rw [rename_congr hid, rename_id]

theorem rename_rename (ρ σ : Nat → Nat) (t : RdfTerm N) :
    (t.rename ρ).rename σ = t.rename (σ ∘ ρ) := by
  induction t with
  | triple s p o hs hp ho =>
    rw [rename, rename, rename] at hs hp ho ⊢
    rw [map, map, map, hs, hp, ho]
  | _ => rfl

theorem blanks_rename (ρ : Nat → Nat) (t : RdfTerm N) : (t.rename ρ).blanks = t.blanks.map ρ := by
  induction t with
  | triple s p o hs hp ho =>
    rw [rename] at hs hp ho ⊢
    rw [map, blanks, blanks, hs, hp, ho, List.map_append, List.map_append]
  | _ => rfl

end RdfTerm

namespace GraphElementManager

variable {N : NativeTypes} {m m' : GraphElementManager N}

/-- What an element stands for: a triple term holds the ids of its components. -/
inductive Resolves (m : GraphElementManager N) : GraphElement N → RdfTerm N → Prop
  | iri (i : IriReference) : Resolves m (.iri i) (.iri i)
  | blank (n : Nat) : Resolves m (.nodeOrEdge (.anonymousBlankNode n)) (.blank n)
  | literal (l : RdfLiteral N) : Resolves m (.graphLiteral l) (.literal l)
  | tripleTerm {k : TripleTermKey} {es ep eo : GraphElement N} {s p o : RdfTerm N} :
    m.getGraphElement k.subject = some es → m.getGraphElement k.predicate = some ep →
    m.getGraphElement k.obj = some eo → Resolves m es s → Resolves m ep p → Resolves m eo o →
    Resolves m (.tripleTerm k) (.triple s p o)

theorem Resolves.unique {e : GraphElement N} {t t' : RdfTerm N} (h : m.Resolves e t)
    (h' : m.Resolves e t') : t = t' := by
  induction h generalizing t' with
  | iri | blank | literal => cases h'; rfl
  | tripleTerm hs hp ho _ _ _ ihs ihp iho =>
    cases h' with
    | tripleTerm hs' hp' ho' rs rp ro =>
      cases hs.symm.trans hs'
      cases hp.symm.trans hp'
      cases ho.symm.trans ho'
      rw [ihs rs, ihp rp, iho ro]

theorem Resolves.inj {e e' : GraphElement N} {t : RdfTerm N} (h : m.Resolves e t)
    (h' : m.Resolves e' t) : e = e' := by
  induction h generalizing e' with
  | iri | blank | literal => cases h'; rfl
  | @tripleTerm k es ep eo s p o hs hp ho _ _ _ ihs ihp iho =>
    cases h' with
    | @tripleTerm k' _ _ _ _ _ _ hs' hp' ho' rs rp ro =>
      obtain rfl := ihs rs
      obtain rfl := ihp rp
      obtain rfl := iho ro
      have hk : k = k' := by
        cases k
        cases k'
        congr 1
        · exact getGraphElement_inj hs hs'
        · exact getGraphElement_inj hp hp'
        · exact getGraphElement_inj ho ho'
      rw [hk]

theorem Resolves.extends (hext : m.Extends m') {e : GraphElement N} {t : RdfTerm N}
    (h : m.Resolves e t) : m'.Resolves e t := by
  induction h with
  | iri i => exact .iri i
  | blank n => exact .blank n
  | literal l => exact .literal l
  | tripleTerm hs hp ho _ _ _ ihs ihp iho =>
    exact .tripleTerm (hext.getGraphElement hs) (hext.getGraphElement hp)
      (hext.getGraphElement ho) ihs ihp iho

end GraphElementManager

end RdfDatalog
