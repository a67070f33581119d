import RdfDatalog.Store.QuadTableInvariant

namespace RdfDatalog

open BucketIndex Placement

namespace QuadTable

/-- `l` lists exactly the stored quads with property `p`, each once. -/
structure Lists (t : QuadTable) (l : List Quad) (p : Quad → Prop) : Prop where
  nodup : l.Nodup
  mem : ∀ q, q ∈ l ↔ q ∈ t.quadList ∧ p q

variable {t : QuadTable} {p : Quad → Prop}

theorem WellFormed.lists_positions (h : t.WellFormed) {positions : List QuadListIndex}
    (hnd : positions.Nodup) (hmem : ∀ i, i ∈ positions ↔ ∃ q, t.Listed i q ∧ p q) :
    t.Lists (positions.filterMap t.getQuadListEntry) p := by
  constructor
  · refine hnd.filterMap ?_
    intro i j q hi hj
    exact h.indexed.injective hi hj
  · intro q
    rw [List.mem_filterMap]
    constructor
    · intro ⟨i, hi, hq⟩
      obtain ⟨r, hr, hp⟩ := (hmem i).mp hi
      obtain rfl : q = r := h.indexed.functional i q r hq hr
      exact ⟨List.mem_of_getElem? hr, hp⟩
    · intro ⟨hq, hp⟩
      obtain ⟨i, hi⟩ := List.mem_iff_getElem?.mp hq
      exact ⟨i, (hmem i).mpr ⟨q, hi, hp⟩, hi⟩

theorem Lists.filter {l : List Quad} (h : t.Lists l p) (c : Quad → Bool) :
    t.Lists (l.filter c) (fun q => p q ∧ c q = true) := by
  refine ⟨h.nodup.filter c, fun q => ?_⟩
  rw [List.mem_filter, h.mem q, and_assoc]

theorem Lists.congr {l : List Quad} {p' : Quad → Prop} (h : t.Lists l p) (hp : ∀ q, p q ↔ p' q) :
    t.Lists l p' :=
  ⟨h.nodup, fun q => (h.mem q).trans (and_congr_right fun _ => hp q)⟩

section FlatLookup

variable {t : QuadTable} {κ μ : Type} [DecidableEq κ] [DecidableEq μ] {f : Quad → κ}
  {g : Quad → μ}

theorem WellFormed.lists_bucket (h : t.WellFormed) {m : Flat κ QuadListIndex}
    (hm : m.Exact (t.Listed.keyed f)) (k : κ) :
    t.Lists ((m.bucket k).filterMap t.getQuadListEntry) (fun q => f q = k) :=
  h.lists_positions (hm.nodup k) (hm.mem k)

variable {m : Nested κ μ QuadListIndex}

theorem WellFormed.lists_inner_bucket (h : t.WellFormed) (hm : m.Exact (t.Listed.keyed₂ f g))
    (k : κ) (l : μ) :
    t.Lists (((m.inner k).bucket l).filterMap t.getQuadListEntry)
      (fun q => f q = k ∧ g q = l) :=
  h.lists_positions ((hm.flat k).nodup l) ((hm.flat k).mem l)

theorem WellFormed.lists_inner_values (h : t.WellFormed) (hm : m.Exact (t.Listed.keyed₂ f g))
    (k : κ) :
    t.Lists ((m.inner k).values.filterMap t.getQuadListEntry) (fun q => f q = k) := by
  refine h.lists_positions ((hm.flat k).values_nodup ?_) ?_
  · intro l l' i hl hl'
    obtain ⟨q, hq, -, rfl⟩ := hl
    obtain ⟨r, hr, -, rfl⟩ := hl'
    rw [h.indexed.functional i q r hq hr]
  · intro i
    rw [Flat.mem_values]
    constructor
    · intro ⟨l, hl⟩
      obtain ⟨q, hq, hk, -⟩ := ((hm.flat k).mem l i).mp hl
      exact ⟨q, hq, hk⟩
    · intro ⟨q, hq, hk⟩
      exact ⟨g q, ((hm.flat k).mem (g q) i).mpr ⟨q, hq, hk, rfl⟩⟩

end FlatLookup

/-- Every lookup returns exactly the matching stored quads, each once. -/
structure ExactLookups (t : QuadTable) : Prop where
  withSubject : ∀ s, t.Lists (t.getQuadsWithSubject s) (fun q => q.subject = s)
  withObject : ∀ o, t.Lists (t.getQuadsWithObject o) (fun q => q.obj = o)
  withPredicate : ∀ p, t.Lists (t.getQuadsWithPredicate p) (fun q => q.predicate = p)
  graph : ∀ g, t.Lists (t.getGraph g) (fun q => q.tripleId = g)
  withSubjectPredicate : ∀ s p, t.Lists (t.getQuadsWithSubjectPredicate s p)
    (fun q => q.subject = s ∧ q.predicate = p)
  withObjectPredicate : ∀ o p, t.Lists (t.getQuadsWithObjectPredicate o p)
    (fun q => q.obj = o ∧ q.predicate = p)
  withSubjectObject : ∀ s o, t.Lists (t.getQuadsWithSubjectObject s o)
    (fun q => q.subject = s ∧ q.obj = o)
  withIdSubject : ∀ g s, t.Lists (t.getQuadsWithIdSubject g s)
    (fun q => q.subject = s ∧ q.tripleId = g)
  withIdPredicate : ∀ g p, t.Lists (t.getQuadsWithIdPredicate g p)
    (fun q => q.predicate = p ∧ q.tripleId = g)
  withIdObject : ∀ g o, t.Lists (t.getQuadsWithIdObject g o)
    (fun q => q.obj = o ∧ q.tripleId = g)
  withIdSubjectPredicate : ∀ g s p, t.Lists (t.getQuadsWithIdSubjectPredicate g s p)
    (fun q => (q.subject = s ∧ q.predicate = p) ∧ q.tripleId = g)
  withIdSubjectObject : ∀ g s o, t.Lists (t.getQuadsWithIdSubjectObject g s o)
    (fun q => (q.subject = s ∧ q.obj = o) ∧ q.tripleId = g)
  withIdObjectPredicate : ∀ g o p, t.Lists (t.getQuadsWithIdObjectPredicate g o p)
    (fun q => (q.obj = o ∧ q.predicate = p) ∧ q.tripleId = g)
  exists_iff : ∀ g, t.graphExists g ↔ ∃ q ∈ t.quadList, q.tripleId = g

theorem WellFormed.graphExists_iff (h : t.WellFormed) (g : GraphElementId) :
    t.graphExists g ↔ ∃ q ∈ t.quadList, q.tripleId = g := by
  rw [graphExists, h.indexed.tripleId.lookup_isSome]
  constructor
  · intro ⟨i, q, hq, hg⟩
    exact ⟨q, List.mem_of_getElem? hq, hg⟩
  · intro ⟨q, hq, hg⟩
    obtain ⟨i, hi⟩ := List.mem_iff_getElem?.mp hq
    exact ⟨i, q, hi, hg⟩

theorem WellFormed.exactLookups (h : t.WellFormed) : t.ExactLookups := by
  have hs := h.lists_inner_values h.indexed.subjectPredicate
  have ho := h.lists_inner_values h.indexed.objectPredicate
  have hp := h.lists_bucket h.indexed.predicate
  have hsp := h.lists_inner_bucket h.indexed.subjectPredicate
  have hop := h.lists_inner_bucket h.indexed.objectPredicate
  have hso (s o : GraphElementId) : t.Lists (t.getQuadsWithSubjectObject s o)
      (fun q => q.subject = s ∧ q.obj = o) :=
    ((hs s).filter _).congr fun q => by simp
  exact
    { withSubject := hs
      withObject := ho
      withPredicate := hp
      graph := h.lists_bucket h.indexed.tripleId
      withSubjectPredicate := hsp
      withObjectPredicate := hop
      withSubjectObject := hso
      withIdSubject := fun g s => ((hs s).filter _).congr fun q => by simp
      withIdPredicate := fun g p => ((hp p).filter _).congr fun q => by simp
      withIdObject := fun g o => ((ho o).filter _).congr fun q => by simp
      withIdSubjectPredicate := fun g s p => ((hsp s p).filter _).congr fun q => by simp
      withIdSubjectObject := fun g s o => ((hso s o).filter _).congr fun q => by simp
      withIdObjectPredicate := fun g o p => ((hop o p).filter _).congr fun q => by simp
      exists_iff := h.graphExists_iff }

/-- The mutating operations of the table. -/
inductive Op where
  | addQuad (quad : Quad)
  | addIntensionalQuad (quad : Quad)
  | removeQuad (target : Quad)
  | truncateTo (len : Nat)
  | removeGraph (graphId : GraphElementId)

def Op.apply (t : QuadTable) : Op → QuadTable
  | .addQuad quad => t.addQuad quad
  | .addIntensionalQuad quad => t.addIntensionalQuad quad
  | .removeQuad target => t.removeQuad target
  | .truncateTo len => t.truncateTo len
  | .removeGraph graphId => t.removeGraph graphId

theorem WellFormed.apply (h : t.WellFormed) (op : Op) :
    (Op.apply t op).WellFormed := by
  cases op with
  | addQuad quad => exact h.addQuad quad
  | addIntensionalQuad quad => exact h.addIntensionalQuad quad
  | removeQuad target => exact h.removeQuad target
  | truncateTo len => exact h.truncateTo len
  | removeGraph graphId => exact h.removeGraph graphId

def run (ops : List Op) : QuadTable := ops.foldl Op.apply new

theorem foldl_apply_wellFormed (h : t.WellFormed) (ops : List Op) :
    (ops.foldl Op.apply t).WellFormed := by
  induction ops generalizing t with
  | nil => exact h
  | cons op ops ih => exact ih (h.apply op)

/-- Every reachable table satisfies the invariant, and all its lookups are exact. -/
theorem run_exact (ops : List Op) : (run ops).WellFormed ∧ (run ops).ExactLookups := by
  have h : (run ops).WellFormed := foldl_apply_wellFormed wellFormed_new ops
  exact ⟨h, h.exactLookups⟩

end QuadTable

end RdfDatalog
