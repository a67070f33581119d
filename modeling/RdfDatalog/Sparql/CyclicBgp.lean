import RdfDatalog.Math.JoinTree
import RdfDatalog.Sparql.Bgp

namespace RdfDatalog.Sparql

open Hypergraph

section Reduction

variable {V : Type} [DecidableEq V]

/-- The hyperedge is a subset of another one. Of equal ones this holds of all but the last. -/
def isContained (edges : List (Finset V)) (i : Fin edges.length) : Bool :=
  (List.finRange edges.length).any fun j =>
    decide (i ≠ j) && decide (edges.get i ⊆ edges.get j) &&
      (decide ((edges.get i).card < (edges.get j).card) || decide (i < j))

/-- The hyperedges that are no subset of another one. -/
def dropContained (edges : List (Finset V)) : List (Finset V) :=
  let keep := (List.finRange edges.length).map fun i => !isContained edges i
  (edges.zip keep).filterMap fun (e, k) => if k then some e else none

/-- The hyperedges without the vertices that occur only once. -/
def dropEars (edges : List (Finset V)) : List (Finset V) :=
  (edges.map fun e => e.filter fun v => occurrences edges v ≠ 1).filter fun e => e ≠ ∅

def reductionPass (edges : List (Finset V)) : List (Finset V) := dropEars (dropContained edges)

def totalVertices (edges : List (Finset V)) : Nat := (edges.map Finset.card).sum

theorem filterMap_zip_eq {α β : Type} (l : List α) (f : α → β) (keep : α → Bool) :
    ((l.map f).zip (l.map keep)).filterMap (fun (e, k) => if k then some e else none) =
      (l.filter keep).map f := by
  induction l with
  | nil => rfl
  | cons a l ih =>
    rw [List.map_cons, List.map_cons, List.zip_cons_cons, List.filterMap_cons, ih]
    cases hk : keep a with
    | false => rw [List.filter_cons_of_neg (by simp [hk])]; rfl
    | true => rw [List.filter_cons_of_pos hk]; rfl

variable (edges : List (Finset V))

theorem dropContained_eq :
    dropContained edges =
      ((List.finRange edges.length).filter fun i => !isContained edges i).map edges.get := by
  have hzip := filterMap_zip_eq (List.finRange edges.length) edges.get fun i => !isContained edges i
  rw [List.map_get_finRange] at hzip
  exact hzip

theorem isContained_iff {edges : List (Finset V)} {i : Fin edges.length} :
    isContained edges i = true ↔ ∃ j, i ≠ j ∧ edges.get i ⊆ edges.get j ∧
      ((edges.get i).card < (edges.get j).card ∨ i < j) := by
  simp only [isContained, List.any_eq_true, List.mem_finRange, true_and, Bool.and_eq_true,
    Bool.or_eq_true, decide_eq_true_eq, and_assoc]

/-- Every hyperedge lies in one that is kept. -/
theorem exists_kept (i : Fin edges.length) :
    ∃ j, isContained edges j = false ∧ edges.get i ⊆ edges.get j := by
  let above := Finset.univ.filter fun j => edges.get i ⊆ edges.get j
  have hi : i ∈ above := Finset.mem_filter.mpr ⟨Finset.mem_univ i, Finset.Subset.refl _⟩
  -- the greatest one above `i`, and of equal ones the last
  obtain ⟨j, hj, hmax⟩ := above.exists_max_image
    (fun j => toLex ((edges.get j).card, j)) ⟨i, hi⟩
  have hij : edges.get i ⊆ edges.get j := (Finset.mem_filter.mp hj).2
  refine ⟨j, Bool.eq_false_iff.mpr fun hcontained => ?_, hij⟩
  obtain ⟨k, -, hjk, hless⟩ := isContained_iff.mp hcontained
  have hk : k ∈ above := Finset.mem_filter.mpr ⟨Finset.mem_univ k, hij.trans hjk⟩
  have hle := hmax k hk
  rw [Prod.Lex.toLex_le_toLex] at hle
  have hcard := Finset.card_le_card hjk
  rcases hle with hlt | ⟨heq, hkj⟩
  · exact absurd hcard (Nat.not_le.mpr hlt)
  · rcases hless with hlt | hlt
    · exact absurd heq (Nat.ne_of_gt hlt)
    · exact absurd hkj (Fin.not_le.mpr hlt)

theorem hasOrder_dropContained_iff :
    HasOrder (dropContained edges) ↔ HasOrder edges := by
  let kept := (List.finRange edges.length).filter fun i => !isContained edges i
  let dropped := (List.finRange edges.length).filter fun i => !!isContained edges i
  have hperm : (dropped.map edges.get ++ kept.map edges.get).Perm edges := by
    have hsplit := List.filter_append_perm (fun i => !isContained edges i)
      (List.finRange edges.length)
    have hget := (List.perm_append_comm.trans hsplit).map edges.get
    rw [List.map_append, List.map_get_finRange] at hget
    exact hget
  have hdropped : ∀ e ∈ dropped.map edges.get, ∃ f ∈ kept.map edges.get, e ⊆ f := by
    intro e he
    obtain ⟨i, -, rfl⟩ := List.mem_map.mp he
    obtain ⟨j, hj, hij⟩ := exists_kept edges i
    refine ⟨edges.get j, List.mem_map_of_mem (List.mem_filter.mpr ⟨List.mem_finRange j, ?_⟩), hij⟩
    rw [hj]
    rfl
  rw [dropContained_eq, ← hasOrder_append_iff hdropped]
  exact ⟨fun h => h.perm hperm, fun h => h.perm hperm.symm⟩

theorem hasOrder_dropEars_iff :
    HasOrder (dropEars edges) ↔ HasOrder edges := by
  rw [dropEars, hasOrder_filter_nonempty_iff]
  apply hasOrder_map_filter_iff
  intro v hv
  omega

theorem hasOrder_reductionPass_iff :
    HasOrder (reductionPass edges) ↔ HasOrder edges := by
  rw [reductionPass, hasOrder_dropEars_iff, hasOrder_dropContained_iff]

theorem dropContained_sublist : (dropContained edges).Sublist edges := by
  have hsub := (List.filter_sublist
    (p := fun i => !isContained edges i) (l := List.finRange edges.length)).map edges.get
  rw [List.map_get_finRange] at hsub
  rw [dropContained_eq]
  exact hsub

omit [DecidableEq V] in
theorem totalVertices_sublist {edges edges' : List (Finset V)} (h : edges.Sublist edges') :
    totalVertices edges ≤ totalVertices edges' :=
  (h.map Finset.card).sum_le_sum fun _ _ => Nat.zero_le _

omit [DecidableEq V] in
theorem totalVertices_map_filter_le (P : V → Prop) [DecidablePred P] (edges : List (Finset V)) :
    totalVertices (edges.map fun e => e.filter P) ≤ totalVertices edges := by
  rw [totalVertices, totalVertices, List.map_map]
  exact List.sum_le_sum fun e _ => Finset.card_filter_le e P

variable (edges : List (Finset V))

theorem totalVertices_filter_nonempty :
    totalVertices (edges.filter fun e => e ≠ ∅) = totalVertices edges := by
  induction edges with
  | nil => rfl
  | cons e edges ih =>
    rw [totalVertices, totalVertices] at ih
    by_cases he : e = ∅
    · rw [List.filter_cons_of_neg (by simp [he])]
      simpa [totalVertices, he] using ih
    · rw [List.filter_cons_of_pos (by simp [he])]
      simpa [totalVertices] using ih

theorem reductionPass_length_le :
    (reductionPass edges).length ≤ edges.length := by
  have hfilter := List.length_filter_le (fun e : Finset V => decide (e ≠ ∅))
    ((dropContained edges).map fun e =>
      e.filter fun v => occurrences (dropContained edges) v ≠ 1)
  rw [List.length_map] at hfilter
  exact hfilter.trans (dropContained_sublist edges).length_le

theorem totalVertices_reductionPass_le :
    totalVertices (reductionPass edges) ≤ totalVertices edges := by
  rw [reductionPass, dropEars, totalVertices_filter_nonempty]
  exact (totalVertices_map_filter_le _ _).trans
    (totalVertices_sublist (dropContained_sublist edges))

/-- The passes up to the first one that changes nothing. -/
def reduceEdges (edges : List (Finset V)) : List (Finset V) :=
  if (reductionPass edges).length = edges.length ∧
      totalVertices (reductionPass edges) = totalVertices edges then
    reductionPass edges
  else reduceEdges (reductionPass edges)
termination_by edges.length + totalVertices edges
decreasing_by
  have hlength := reductionPass_length_le edges
  have htotal := totalVertices_reductionPass_le edges
  omega

theorem apart_of_dropContained_eq {edges : List (Finset V)} (h : dropContained edges = edges) :
    edges.Pairwise fun e f => ¬ e ⊆ f ∧ ¬ f ⊆ e := by
  have hlength := congrArg List.length h
  rw [dropContained_eq, List.length_map] at hlength
  have hkept (i : Fin edges.length) : ¬ isContained edges i = true := by
    have hfull : ((List.finRange edges.length).filter fun i => !isContained edges i).length =
        (List.finRange edges.length).length := by
      rw [hlength, List.length_finRange]
    have hi := List.length_filter_eq_length_iff.mp hfull i (List.mem_finRange i)
    simpa using hi
  rw [List.pairwise_iff_get]
  intro i j hij
  have hright : ¬ edges.get i ⊆ edges.get j := fun hsub =>
    hkept i (isContained_iff.mpr ⟨j, hij.ne, hsub, .inr hij⟩)
  refine ⟨hright, fun hsub => ?_⟩
  by_cases hcard : (edges.get j).card < (edges.get i).card
  · exact hkept j (isContained_iff.mpr ⟨i, hij.ne', hsub, .inl hcard⟩)
  · rw [Finset.eq_of_subset_of_card_le hsub (Nat.not_lt.mp hcard)] at hright
    exact hright (Finset.Subset.refl _)

theorem dropEars_eq_self {edges : List (Finset V)} (hlength : (dropEars edges).length =
    edges.length)
    (htotal : totalVertices (dropEars edges) = totalVertices edges) :
    dropEars edges = edges ∧ (∀ e ∈ edges, e.Nonempty) ∧
      ∀ e ∈ edges, ∀ v ∈ e, occurrences edges v ≠ 1 := by
  let trim : Finset V → Finset V := fun e => e.filter fun v => occurrences edges v ≠ 1
  rw [dropEars, totalVertices_filter_nonempty] at htotal
  rw [dropEars] at hlength
  -- no vertex is dropped, as the number of vertices is the same
  have hcard : ∀ e ∈ edges, (trim e).card = e.card := by
    intro e he
    by_contra hne
    have hless : (trim e).card < e.card := lt_of_le_of_ne (Finset.card_filter_le e _) hne
    have hsum := List.sum_lt_sum (fun e => (trim e).card) Finset.card
      (fun e _ => Finset.card_filter_le e _) ⟨e, he, hless⟩
    rw [totalVertices, totalVertices, List.map_map] at htotal
    exact absurd htotal hsum.ne
  have hshared : ∀ e ∈ edges, ∀ v ∈ e, occurrences edges v ≠ 1 := fun e he =>
    Finset.card_filter_eq_iff.mp (hcard e he)
  have hmap : edges.map trim = edges := by
    have hid : edges.map trim = edges.map id :=
      List.map_congr_left fun e he => Finset.filter_true_of_mem (hshared e he)
    rw [hid, List.map_id]
  rw [hmap] at hlength
  have hall := List.length_filter_eq_length_iff.mp hlength
  have hself : dropEars edges = edges := by
    rw [dropEars, hmap, List.filter_eq_self]
    exact hall
  exact ⟨hself, fun e he => Finset.nonempty_iff_ne_empty.mpr (by simpa using hall e he), hshared⟩

/-- A pass that changes nothing has reduced an acyclic hypergraph away. -/
theorem reductionPass_eq_nil_iff {edges : List (Finset V)}
    (hlength : (reductionPass edges).length = edges.length)
    (htotal : totalVertices (reductionPass edges) = totalVertices edges) :
    reductionPass edges = [] ↔ HasOrder edges := by
  have hsub := dropContained_sublist edges
  have hears : (dropEars (dropContained edges)).length ≤ (dropContained edges).length := by
    have hfilter := List.length_filter_le (fun e : Finset V => decide (e ≠ ∅))
      ((dropContained edges).map fun e =>
        e.filter fun v => occurrences (dropContained edges) v ≠ 1)
    rw [List.length_map] at hfilter
    exact hfilter
  have hdropped : dropContained edges = edges :=
    hsub.eq_of_length_le (hlength ▸ hears)
  rw [reductionPass, hdropped] at hlength htotal ⊢
  obtain ⟨hself, hnonempty, hshared⟩ := dropEars_eq_self hlength htotal
  rw [hself]
  constructor
  · intro hnil
    rw [hnil]
    exact hasOrder_nil
  · intro horder
    by_contra hne
    exact not_hasOrder hne hnonempty (apart_of_dropContained_eq hdropped) hshared horder

/-- The loop reduces exactly the acyclic hypergraphs away. -/
theorem reduceEdges_eq_nil_iff :
    reduceEdges edges = [] ↔ HasOrder edges := by
  induction edges using reduceEdges.induct with
  | case1 edges h =>
    rw [reduceEdges, if_pos h]
    exact reductionPass_eq_nil_iff h.1 h.2
  | case2 edges h ih =>
    rw [reduceEdges, if_neg h, ih]
    exact hasOrder_reductionPass_iff edges

end Reduction

section Patterns

variable {N : NativeTypes}

def Term.variable? : Term N → Option String
  | .var v => some v
  | .constant _ | .tripleTerm _ _ _ => none

def TriplePattern.variableTerms (tp : TriplePattern N) : Finset String :=
  ([tp.subject, tp.predicate, tp.object].filterMap Term.variable?).toFinset

def bgpHasCyclicJoinGraph (patterns : List (TriplePattern N)) : Bool :=
  let edges := (patterns.map TriplePattern.variableTerms).filter fun vars => vars ≠ ∅
  !(reduceEdges edges).isEmpty

theorem bgpHasCyclicJoinGraph_eq_false_iff (patterns : List (TriplePattern N)) :
    bgpHasCyclicJoinGraph patterns = false ↔
      HasOrder (patterns.map TriplePattern.variableTerms) := by
  rw [bgpHasCyclicJoinGraph, Bool.not_eq_false', List.isEmpty_iff, reduceEdges_eq_nil_iff,
    hasOrder_filter_nonempty_iff]

/-- The check answers whether the join hypergraph has no join tree, whatever the order of the
patterns and however often they are repeated. -/
theorem bgpHasCyclicJoinGraph_exact (patterns : List (TriplePattern N)) :
    (bgpHasCyclicJoinGraph patterns = false ↔
      AlphaAcyclic (patterns.map TriplePattern.variableTerms)) ∧
    ∀ patterns' : List (TriplePattern N), (∀ tp, tp ∈ patterns' ↔ tp ∈ patterns) →
      bgpHasCyclicJoinGraph patterns' = bgpHasCyclicJoinGraph patterns := by
  refine ⟨?_, fun patterns' hsame => ?_⟩
  · rw [bgpHasCyclicJoinGraph_eq_false_iff, alphaAcyclic_iff_hasOrder]
  · have hedges (e : Finset String) : e ∈ patterns'.map TriplePattern.variableTerms ↔
        e ∈ patterns.map TriplePattern.variableTerms := by
      simp only [List.mem_map, hsame]
    have hiff : bgpHasCyclicJoinGraph patterns' = false ↔
        bgpHasCyclicJoinGraph patterns = false := by
      rw [bgpHasCyclicJoinGraph_eq_false_iff, bgpHasCyclicJoinGraph_eq_false_iff,
        hasOrder_congr hedges]
    exact Bool.eq_iff_iff.mpr (by simpa using not_congr hiff)

/-- `<<( ?x :p ?y )>> :q :c . ?y :p ?z . ?z :p ?x` -/
def quotedTriangle : List (TriplePattern NativeTypes.text) :=
  let p : Term NativeTypes.text := .constant (.iri "p")
  [⟨.tripleTerm (.var "x") p (.var "y"), .constant (.iri "q"), .constant (.iri "c")⟩,
    ⟨.var "y", p, .var "z"⟩, ⟨.var "z", p, .var "x"⟩]

/-- With the variables inside the triple term the patterns form a triangle. -/
theorem not_bgpHasCyclicJoinGraph_exact :
    ¬ ∀ patterns : List (TriplePattern NativeTypes.text), bgpHasCyclicJoinGraph patterns = false ↔
      AlphaAcyclic (patterns.map TriplePattern.variables) := by
  intro h
  have hvariables : quotedTriangle.map TriplePattern.variables =
      [{"x", "y"}, {"y", "z"}, {"z", "x"}] := by decide
  have hterms : quotedTriangle.map TriplePattern.variableTerms =
      [∅, {"y", "z"}, {"z", "x"}] := by decide
  have hcyclic : ¬ HasOrder [{"x", "y"}, {"y", "z"}, ({"z", "x"} : Finset String)] :=
    not_hasOrder (by decide) (by decide) (by decide) (by decide)
  have hacyclic : HasOrder [∅, {"y", "z"}, ({"z", "x"} : Finset String)] := by
    refine ⟨_, .refl _, eliminates_cons List.mem_cons_self (fun v hv => by cases hv) ?_⟩
    exact eliminates_cons List.mem_cons_self (by decide) (eliminates_singleton _)
  have hquoted := (h quotedTriangle).mp
  rw [bgpHasCyclicJoinGraph_eq_false_iff, alphaAcyclic_iff_hasOrder, hvariables, hterms] at hquoted
  exact hcyclic (hquoted hacyclic)

end Patterns

end RdfDatalog.Sparql
