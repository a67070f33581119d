import Mathlib.Combinatorics.SimpleGraph.Acyclic

namespace RdfDatalog.Hypergraph

variable {V : Type}

section Trees

variable {ι : Type}

/-- A tree on the hyperedges in which the hyperedges with a common vertex are connected. Without
hyperedges it is empty. -/
structure IsJoinTree (E : ι → Finset V) (tree : SimpleGraph ι) : Prop where
  acyclic : tree.IsAcyclic
  connected : tree.Preconnected
  joins : ∀ v, (tree.induce {i | v ∈ E i}).Preconnected

def AlphaAcyclic (edges : List (Finset V)) : Prop :=
  ∃ tree : SimpleGraph (Fin edges.length), IsJoinTree edges.get tree

/-- An order of hyperedges in which what each of them shares with those after it lies in one of
those. -/
def Eliminates : List (Finset V) → Prop
  | [] => True
  | e :: rest =>
    (rest = [] ∨ ∃ f ∈ rest, ∀ v ∈ e, ∀ g ∈ rest, v ∈ g → v ∈ f) ∧ Eliminates rest

theorem eliminates_cons {e f : Finset V} {rest : List (Finset V)} (hf : f ∈ rest)
    (h : ∀ v ∈ e, ∀ g ∈ rest, v ∈ g → v ∈ f) (hrest : Eliminates rest) :
    Eliminates (e :: rest) :=
  ⟨.inr ⟨f, hf, h⟩, hrest⟩

theorem eliminates_singleton (e : Finset V) : Eliminates [e] := ⟨.inl rfl, trivial⟩

variable {E : ι → Finset V}

/-- A leaf of the tree shares its vertices with its neighbour only. -/
theorem IsJoinTree.mem_of_leaf {tree : SimpleGraph ι} (h : IsJoinTree E tree)
    {x y k : ι} (hleaf : ∀ z, tree.Adj x z → z = y) (hne : k ≠ x) {v : V} (hx : v ∈ E x)
    (hk : v ∈ E k) : v ∈ E y := by
  obtain ⟨walk⟩ := h.joins v ⟨x, hx⟩ ⟨k, hk⟩
  cases walk with
  | nil => exact absurd rfl hne
  | @cons _ z _ hadj _ =>
    have hz : (z : ι) = y := hleaf z hadj
    rw [← hz]
    exact z.2

theorem IsJoinTree.without {tree : SimpleGraph ι} (h : IsJoinTree E tree)
    {x : ι} (hleaf : (tree.neighborSet x).Subsingleton) :
    IsJoinTree (fun i : {i // i ≠ x} => E i) (tree.induce {i | i ≠ x}) where
  acyclic := h.acyclic.induce _
  connected := by
    apply h.connected.induce_of_degree_eq_one
    intro i hi
    rw [not_not.mp hi]
    exact hleaf
  joins v := by
    let among := tree.induce {i | v ∈ E i}
    have hwithout : (among.induce {i | i.1 ≠ x}).Preconnected := by
      apply (h.joins v).induce_of_degree_eq_one
      intro i hi a ha b hb
      have hix : i.1 = x := not_not.mp hi
      have hax : tree.Adj x a.1 := hix ▸ ha
      have hbx : tree.Adj x b.1 := hix ▸ hb
      exact Subtype.ext (hleaf hax hbx)
    let left := (tree.induce {i | i ≠ x}).induce {i : {i // i ≠ x} | v ∈ E i}
    let swap : among.induce {i | i.1 ≠ x} →g left :=
      ⟨fun i => ⟨⟨i.1.1, i.2⟩, i.1.2⟩, fun hadj => hadj⟩
    have hswap : Function.Surjective swap := fun i => ⟨⟨⟨i.1.1, i.2⟩, i.1.2⟩, rfl⟩
    exact hwithout.map swap hswap

/-- A join tree is taken apart leaf by leaf. -/
theorem IsJoinTree.exists_order [Finite ι] {E : ι → Finset V} {tree : SimpleGraph ι}
    (h : IsJoinTree E tree) :
    ∃ order : List ι, order.Nodup ∧ (∀ i, i ∈ order) ∧ Eliminates (order.map E) := by
  have := Fintype.ofFinite ι
  induction hn : Fintype.card ι generalizing ι with
  | zero =>
    have := Fintype.card_eq_zero_iff.mp hn
    exact ⟨[], List.nodup_nil, isEmptyElim, trivial⟩
  | succ n ih =>
    classical
    rcases subsingleton_or_nontrivial ι with hone | hmany
    · have hpos : 0 < Fintype.card ι := by omega
      obtain ⟨i⟩ := Fintype.card_pos_iff.mp hpos
      refine ⟨[i], List.nodup_singleton i, fun j => ?_, eliminates_singleton _⟩
      exact List.mem_singleton.mpr (Subsingleton.elim j i)
    · have htree : tree.IsTree := ⟨⟨h.connected⟩, h.acyclic⟩
      obtain ⟨x, hdegree⟩ := htree.exists_vert_degree_one_of_nontrivial
      obtain ⟨y, hadj, hleaf⟩ := SimpleGraph.degree_eq_one_iff_existsUnique_adj.mp hdegree
      have hcard : Fintype.card {i // i ≠ x} = n := by
        rw [Fintype.card_subtype_compl, hn, Fintype.card_subtype_eq]
        omega
      have hneighbours : (tree.neighborSet x).Subsingleton :=
        fun a ha b hb => (hleaf a ha).trans (hleaf b hb).symm
      obtain ⟨order, hnodup, hall, helim⟩ := ih (h.without hneighbours) inferInstance hcard
      have hyx : y ≠ x := hadj.ne'
      refine ⟨x :: order.map Subtype.val, ?_, fun i => ?_, ?_⟩
      · rw [List.nodup_cons]
        refine ⟨fun hx => ?_, hnodup.map Subtype.val_injective⟩
        obtain ⟨i, -, hi⟩ := List.mem_map.mp hx
        exact i.2 hi
      · by_cases hi : i = x
        · rw [hi]
          exact List.mem_cons_self
        · exact List.mem_cons_of_mem _ (List.mem_map_of_mem (hall ⟨i, hi⟩))
      · rw [List.map_cons, List.map_map]
        refine eliminates_cons (List.mem_map_of_mem (hall ⟨y, hyx⟩)) ?_ helim
        intro v hv g hg hvg
        obtain ⟨k, -, rfl⟩ := List.mem_map.mp hg
        exact h.mem_of_leaf hleaf k.2 hv hvg

/-- A join tree of some of the hyperedges. The others are isolated. -/
structure SpansJoinTree (E : ι → Finset V) (order : List ι) (tree : SimpleGraph ι) : Prop where
  acyclic : tree.IsAcyclic
  within : ∀ a b, tree.Adj a b → a ∈ order ∧ b ∈ order
  connected : ∀ a ∈ order, ∀ b ∈ order, tree.Reachable a b
  joins : ∀ v, ∀ a ∈ order, ∀ b ∈ order, ∀ (ha : v ∈ E a) (hb : v ∈ E b),
    (tree.induce {i | v ∈ E i}).Reachable ⟨a, ha⟩ ⟨b, hb⟩

theorem SpansJoinTree.cons {rest : List ι} {tree : SimpleGraph ι}
    (h : SpansJoinTree E rest tree) {x y : ι} (hx : x ∉ rest) (hy : y ∈ rest)
    (hparent : ∀ v ∈ E x, ∀ k ∈ rest, v ∈ E k → v ∈ E y) :
    SpansJoinTree E (x :: rest) (tree ⊔ SimpleGraph.edge x y) := by
  have hne : x ≠ y := fun heq => hx (heq ▸ hy)
  have hle : tree ≤ tree ⊔ SimpleGraph.edge x y := le_sup_left
  have hinduce (v : V) : tree.induce {i | v ∈ E i} ≤
      (tree ⊔ SimpleGraph.edge x y).induce {i | v ∈ E i} := fun _ _ hadj => hle hadj
  have hedge : (tree ⊔ SimpleGraph.edge x y).Adj x y := by
    rw [SimpleGraph.sup_adj, SimpleGraph.edge_adj]
    exact .inr ⟨.inl ⟨rfl, rfl⟩, hne⟩
  have hjoined {v : V} {a : ι} (hv : v ∈ E x) (ha : a ∈ rest) (hav : v ∈ E a) :
      ((tree ⊔ SimpleGraph.edge x y).induce {i | v ∈ E i}).Reachable ⟨x, hv⟩ ⟨a, hav⟩ := by
    have hyv : v ∈ E y := hparent v hv a ha hav
    have hfirst : ((tree ⊔ SimpleGraph.edge x y).induce {i | v ∈ E i}).Adj ⟨x, hv⟩ ⟨y, hyv⟩ :=
      hedge
    have hrest := h.joins v y hy a ha hyv hav
    exact hfirst.reachable.trans (hrest.mono (hinduce v))
  refine ⟨?_, fun a b hadj => ?_, fun a ha b hb => ?_, fun v a ha b hb hav hbv => ?_⟩
  · -- the new hyperedge was isolated
    refine h.acyclic.sup_edge_of_not_reachable fun ⟨walk⟩ => ?_
    cases walk with
    | nil => exact hne rfl
    | cons hadj _ => exact hx (h.within _ _ hadj).1
  · rw [SimpleGraph.sup_adj, SimpleGraph.edge_adj] at hadj
    rcases hadj with hadj | ⟨⟨rfl, rfl⟩ | ⟨rfl, rfl⟩, -⟩
    · have hab := h.within a b hadj
      exact ⟨List.mem_cons_of_mem _ hab.1, List.mem_cons_of_mem _ hab.2⟩
    · exact ⟨List.mem_cons_self, List.mem_cons_of_mem _ hy⟩
    · exact ⟨List.mem_cons_of_mem _ hy, List.mem_cons_self⟩
  · have hreach {c : ι} (hc : c ∈ rest) : (tree ⊔ SimpleGraph.edge x y).Reachable x c :=
      hedge.reachable.trans ((h.connected y hy c hc).mono hle)
    rcases List.mem_cons.mp ha with rfl | hrest
    · rcases List.mem_cons.mp hb with rfl | hb
      · rfl
      · exact hreach hb
    · rcases List.mem_cons.mp hb with rfl | hb
      · exact (hreach hrest).symm
      · exact (h.connected a hrest b hb).mono hle
  · rcases List.mem_cons.mp ha with rfl | hrest
    · rcases List.mem_cons.mp hb with rfl | hb
      · rfl
      · exact hjoined hav hb hbv
    · rcases List.mem_cons.mp hb with rfl | hb
      · exact (hjoined hbv hrest hav).symm
      · exact (h.joins v a hrest b hb hav hbv).mono (hinduce v)

/-- A join tree is built against the order of elimination. -/
theorem exists_spansJoinTree {order : List ι} (hnodup : order.Nodup)
    (h : Eliminates (order.map E)) : ∃ tree, SpansJoinTree E order tree := by
  induction order with
  | nil =>
    refine ⟨⊥, SimpleGraph.isAcyclic_bot, fun a b hadj => hadj.elim, fun a ha => ?_,
      fun v a ha => ?_⟩
    · cases ha
    · cases ha
  | cons x rest ih =>
    obtain ⟨hx, hnodup⟩ := List.nodup_cons.mp hnodup
    obtain ⟨hparent, hrest⟩ := h
    obtain ⟨tree, htree⟩ := ih hnodup hrest
    rcases hparent with hnil | ⟨f, hf, hparent⟩
    · have hnil : rest = [] := List.map_eq_nil_iff.mp hnil
      subst hnil
      refine ⟨tree, htree.acyclic, fun a b hadj => ?_, fun a ha b hb => ?_,
        fun v a ha b hb hav hbv => ?_⟩
      · cases (htree.within a b hadj).1
      · rw [List.mem_singleton.mp ha, List.mem_singleton.mp hb]
      · obtain rfl := List.mem_singleton.mp ha
        obtain rfl := List.mem_singleton.mp hb
        rfl
    · obtain ⟨y, hy, rfl⟩ := List.mem_map.mp hf
      exact ⟨_, htree.cons hx hy fun v hv k hk => hparent v hv _ (List.mem_map_of_mem hk)⟩

/-- The hyperedges can be put into an order of elimination. -/
def HasOrder (edges : List (Finset V)) : Prop :=
  ∃ order : List (Finset V), order.Perm edges ∧ Eliminates order

/-- A hypergraph has a join tree iff its hyperedges can be eliminated one after the other. -/
theorem alphaAcyclic_iff_hasOrder (edges : List (Finset V)) :
    AlphaAcyclic edges ↔ HasOrder edges := by
  constructor
  · intro ⟨tree, htree⟩
    obtain ⟨order, hnodup, hall, helim⟩ := htree.exists_order
    have hperm : order.Perm (List.finRange edges.length) :=
      (List.perm_ext_iff_of_nodup hnodup (List.nodup_finRange _)).mpr fun i =>
        iff_of_true (hall i) (List.mem_finRange i)
    have hmap := hperm.map edges.get
    rw [List.map_get_finRange] at hmap
    exact ⟨_, hmap, helim⟩
  · intro ⟨order, hperm, helim⟩
    have hcomp : Relation.Comp (· = List.map edges.get ·) List.Perm order
        (List.finRange edges.length) := by
      rw [List.eq_map_comp_perm]
      have hget : (List.finRange edges.length).map edges.get = edges := List.map_get_finRange edges
      show order.Perm ((List.finRange edges.length).map edges.get)
      rw [hget]
      exact hperm
    obtain ⟨indices, rfl, hindices⟩ := hcomp
    have hnodup : indices.Nodup := hindices.nodup_iff.mpr (List.nodup_finRange _)
    have hall (i : Fin edges.length) : i ∈ indices :=
      hindices.mem_iff.mpr (List.mem_finRange i)
    obtain ⟨tree, htree⟩ := exists_spansJoinTree hnodup helim
    exact ⟨tree, htree.acyclic, fun a b => htree.connected a (hall a) b (hall b),
      fun v a b => htree.joins v a (hall a) b (hall b) a.2 b.2⟩

end Trees

section Reduction

variable {edges order pre post : List (Finset V)} {e f : Finset V}

theorem HasOrder.perm {edges' : List (Finset V)} (h : HasOrder edges) (hperm : edges.Perm edges') :
    HasOrder edges' := by
  obtain ⟨order, horder, helim⟩ := h
  exact ⟨order, horder.trans hperm, helim⟩

/-- A hyperedge is replaced by a greater one that shares no more with the others. -/
theorem Eliminates.replace (h : Eliminates (pre ++ e :: post)) (hef : e ⊆ f)
    (hshare : ∀ v ∈ f, ∀ g ∈ pre ++ e :: post, v ∈ g → v ∈ e) :
    Eliminates (pre ++ f :: post) := by
  induction pre with
  | nil =>
    obtain ⟨hparent, hrest⟩ := h
    refine ⟨?_, hrest⟩
    rcases hparent with hnil | ⟨p, hp, hparent⟩
    · exact .inl hnil
    · refine .inr ⟨p, hp, fun v hv g hg hvg => ?_⟩
      have hve : v ∈ e := hshare v hv g (List.mem_cons_of_mem _ hg) hvg
      exact hparent v hve g hg hvg
  | cons x pre ih =>
    rw [List.cons_append, Eliminates] at h
    obtain ⟨hparent, hrest⟩ := h
    have hlater (v : V) (hv : v ∈ f) (g : Finset V) (hg : g ∈ pre ++ e :: post) (hvg : v ∈ g) :
        v ∈ e := hshare v hv g (List.mem_cons_of_mem _ hg) hvg
    rcases hparent with hnil | ⟨p, hp, hparent⟩
    · simp at hnil
    · -- what is shared with `f` is shared with `e`
      have hold (v : V) (hv : v ∈ x) (g : Finset V) (hg : g ∈ pre ++ f :: post) (hvg : v ∈ g) :
          v ∈ p := by
        have hcases : g = f ∨ g ∈ pre ++ e :: post := by
          simp only [List.mem_append, List.mem_cons] at hg ⊢
          tauto
        rcases hcases with rfl | hg
        · have hve : v ∈ e := hshare v hvg x List.mem_cons_self hv
          exact hparent v hv e (by simp) hve
        · exact hparent v hv g hg hvg
      have hcases : p = e ∨ p ∈ pre ++ f :: post := by
        simp only [List.mem_append, List.mem_cons] at hp ⊢
        tauto
      rcases hcases with rfl | hp
      · exact eliminates_cons (by simp) (fun v hv g hg hvg => hef (hold v hv g hg hvg))
          (ih hrest hlater)
      · exact eliminates_cons hp hold (ih hrest hlater)

/-- A hyperedge that lies in another one is taken out of an order of elimination. -/
theorem Eliminates.without (h : Eliminates (pre ++ e :: post)) (hf : f ∈ pre ++ post)
    (hef : e ⊆ f) : HasOrder (pre ++ post) := by
  induction pre generalizing f with
  | nil => exact ⟨post, .refl _, h.2⟩
  | cons x pre ih =>
    rw [List.cons_append, Eliminates] at h
    obtain ⟨hparent, hrest⟩ := h
    rcases hparent with hnil | ⟨p, hp, hparent⟩
    · simp at hnil
    have hle : ∀ g ∈ pre ++ post, g ∈ pre ++ e :: post := by
      intro g hg
      simp only [List.mem_append, List.mem_cons] at hg ⊢
      tauto
    -- `x` still has a parent if `e` lies in another hyperedge after it
    have hother (q : Finset V) (hq : q ∈ pre ++ post) (heq : e ⊆ q) :
        HasOrder (x :: pre ++ post) := by
      obtain ⟨order, horder, helim⟩ := ih hrest hq heq
      have hmem : ∃ p' ∈ pre ++ post, p ⊆ p' := by
        have hcases : p = e ∨ p ∈ pre ++ post := by
          simp only [List.mem_append, List.mem_cons] at hp ⊢
          tauto
        rcases hcases with rfl | hp
        · exact ⟨q, hq, heq⟩
        · exact ⟨p, hp, Finset.Subset.refl p⟩
      obtain ⟨p', hp', hpp'⟩ := hmem
      refine ⟨x :: order, horder.cons x, ?_⟩
      refine eliminates_cons (horder.mem_iff.mpr hp') (fun v hv g hg hvg => ?_) helim
      exact hpp' (hparent v hv g (hle g (horder.mem_iff.mp hg)) hvg)
    rcases List.mem_cons.mp hf with rfl | hf
    · by_cases hpe : p = e
      · have hreplaced : Eliminates (pre ++ f :: post) := by
          apply hrest.replace hef
          intro v hv g hg hvg
          rw [← hpe]
          exact hparent v hv g hg hvg
        exact ⟨_, List.perm_middle, hreplaced⟩
      · have hep : e ⊆ p := fun v hv => hparent v (hef hv) e (by simp) hv
        have hp : p ∈ pre ++ post := by
          simp only [List.mem_append, List.mem_cons] at hp ⊢
          tauto
        exact hother p hp hep
    · exact hother f hf hef

/-- A hyperedge that lies in another one does not matter. -/
theorem hasOrder_cons_iff (hf : f ∈ edges) (hef : e ⊆ f) :
    HasOrder (e :: edges) ↔ HasOrder edges := by
  constructor
  · intro ⟨order, horder, helim⟩
    obtain ⟨pre, post, rfl⟩ := List.append_of_mem (horder.mem_iff.mpr List.mem_cons_self)
    have hperm : (pre ++ post).Perm edges := (List.perm_middle.symm.trans horder).cons_inv
    exact (helim.without (hperm.mem_iff.mpr hf) hef).perm hperm
  · intro ⟨order, horder, helim⟩
    exact ⟨e :: order, horder.cons e,
      eliminates_cons (horder.mem_iff.mpr hf) (fun v hv _ _ _ => hef hv) helim⟩

theorem hasOrder_append_iff {dropped kept : List (Finset V)}
    (h : ∀ e ∈ dropped, ∃ f ∈ kept, e ⊆ f) : HasOrder (dropped ++ kept) ↔ HasOrder kept := by
  induction dropped with
  | nil => exact Iff.rfl
  | cons e dropped ih =>
    rw [List.forall_mem_cons] at h
    obtain ⟨⟨f, hf, hef⟩, hrest⟩ := h
    rw [List.cons_append, hasOrder_cons_iff (List.mem_append_right _ hf) hef, ih hrest]

/-- Only the set of hyperedges matters. -/
theorem hasOrder_congr {edges' : List (Finset V)} (h : ∀ e, e ∈ edges ↔ e ∈ edges') :
    HasOrder edges ↔ HasOrder edges' := by
  have hright : HasOrder (edges ++ edges') ↔ HasOrder edges' :=
    hasOrder_append_iff fun e he => ⟨e, (h e).mp he, Finset.Subset.refl e⟩
  have hleft : HasOrder (edges' ++ edges) ↔ HasOrder edges :=
    hasOrder_append_iff fun e he => ⟨e, (h e).mpr he, Finset.Subset.refl e⟩
  rw [← hright, ← hleft]
  exact ⟨fun hord => hord.perm List.perm_append_comm, fun hord => hord.perm List.perm_append_comm⟩

theorem hasOrder_nil : HasOrder ([] : List (Finset V)) := ⟨[], .refl _, trivial⟩

theorem hasOrder_of_empty (h : ∀ e ∈ edges, e = ∅) : HasOrder edges := by
  have hall : ∀ e ∈ edges, e ∈ [(∅ : Finset V)] := fun e he => List.mem_singleton.mpr (h e he)
  have hsubset : HasOrder (edges ++ [∅]) ↔ HasOrder [(∅ : Finset V)] :=
    hasOrder_append_iff fun e he => ⟨e, hall e he, Finset.Subset.refl e⟩
  cases edges with
  | nil => exact hasOrder_nil
  | cons e edges =>
    have hsame : HasOrder (e :: edges) ↔ HasOrder (e :: edges ++ [∅]) := by
      apply hasOrder_congr
      intro g
      rw [List.mem_append]
      refine ⟨.inl, fun hg => hg.elim id fun hg => ?_⟩
      rw [List.mem_singleton.mp hg, ← h e List.mem_cons_self]
      exact List.mem_cons_self
    rw [hsame, hsubset]
    exact ⟨[∅], .refl _, eliminates_singleton _⟩

variable [DecidableEq V]

/-- Hyperedges without vertices do not matter. -/
theorem hasOrder_filter_nonempty_iff :
    HasOrder (edges.filter fun e => e ≠ ∅) ↔ HasOrder edges := by
  have hperm := List.filter_append_perm (fun e : Finset V => decide (e ≠ ∅)) edges
  by_cases hnil : (edges.filter fun e => e ≠ ∅) = []
  · rw [hnil]
    refine iff_of_true hasOrder_nil (hasOrder_of_empty fun e he => ?_)
    by_contra hne
    have hmem : e ∈ edges.filter fun e => e ≠ ∅ := List.mem_filter.mpr ⟨he, decide_eq_true hne⟩
    rw [hnil] at hmem
    cases hmem
  · obtain ⟨f, hf⟩ := List.exists_mem_of_ne_nil _ hnil
    have hdropped : ∀ e ∈ edges.filter fun e => !decide (e ≠ ∅),
        ∃ f ∈ edges.filter fun e => e ≠ ∅, e ⊆ f := by
      intro e he
      have hempty : e = ∅ := by simpa using (List.mem_filter.mp he).2
      exact ⟨f, hf, by rw [hempty]; exact Finset.empty_subset f⟩
    rw [← hasOrder_append_iff hdropped]
    exact ⟨fun h => h.perm (List.perm_append_comm.trans hperm),
      fun h => h.perm (hperm.symm.trans List.perm_append_comm)⟩

/-- In how many hyperedges the vertex occurs. -/
def occurrences (edges : List (Finset V)) (v : V) : Nat := edges.countP fun e => v ∈ e

theorem eliminates_map_filter_iff {P : V → Prop} [DecidablePred P]
    (h : ∀ v, ¬ P v → occurrences edges v ≤ 1) :
    Eliminates (edges.map fun e => e.filter P) ↔ Eliminates edges := by
  induction edges with
  | nil => exact Iff.rfl
  | cons e edges ih =>
    have hrest (v : V) (hv : ¬ P v) : occurrences edges v ≤ 1 := by
      have hcons := h v hv
      rw [occurrences, List.countP_cons] at hcons
      rw [occurrences]
      omega
    have halone (v : V) (hv : v ∈ e) (g : Finset V) (hg : g ∈ edges) (hvg : v ∈ g) : P v := by
      by_contra hno
      have hcons := h v hno
      have hpos : 0 < edges.countP fun e => v ∈ e :=
        List.countP_pos_iff.mpr ⟨g, hg, decide_eq_true hvg⟩
      rw [occurrences, List.countP_cons, if_pos (decide_eq_true hv)] at hcons
      omega
    rw [List.map_cons, Eliminates, Eliminates, ih hrest, List.map_eq_nil_iff]
    refine and_congr_left fun _ => or_congr_right ⟨fun ⟨f, hf, hparent⟩ => ?_,
      fun ⟨f, hf, hparent⟩ => ?_⟩
    · obtain ⟨f', hf', rfl⟩ := List.mem_map.mp hf
      refine ⟨f', hf', fun v hv g hg hvg => ?_⟩
      have hP := halone v hv g hg hvg
      have hin := hparent v (Finset.mem_filter.mpr ⟨hv, hP⟩) _ (List.mem_map_of_mem hg)
        (Finset.mem_filter.mpr ⟨hvg, hP⟩)
      exact (Finset.mem_filter.mp hin).1
    · refine ⟨_, List.mem_map_of_mem hf, fun v hv g hg hvg => ?_⟩
      obtain ⟨g', hg', rfl⟩ := List.mem_map.mp hg
      obtain ⟨hve, hP⟩ := Finset.mem_filter.mp hv
      have hvg' := (Finset.mem_filter.mp hvg).1
      exact Finset.mem_filter.mpr ⟨hparent v hve g' hg' hvg', hP⟩

/-- Vertices that occur in one hyperedge only do not matter. -/
theorem hasOrder_map_filter_iff {P : V → Prop} [DecidablePred P]
    (h : ∀ v, ¬ P v → occurrences edges v ≤ 1) :
    HasOrder (edges.map fun e => e.filter P) ↔ HasOrder edges := by
  constructor
  · intro ⟨order, horder, helim⟩
    have hcomp : Relation.Comp (· = List.map (fun e : Finset V => e.filter P) ·) List.Perm order
        edges := by
      rw [List.eq_map_comp_perm]
      exact horder
    obtain ⟨order', rfl, horder'⟩ := hcomp
    refine ⟨order', horder', (eliminates_map_filter_iff fun v hv => ?_).mp helim⟩
    rw [occurrences, horder'.countP_eq]
    exact h v hv
  · intro ⟨order, horder, helim⟩
    refine ⟨_, horder.map _, (eliminates_map_filter_iff fun v hv => ?_).mpr helim⟩
    rw [occurrences, horder.countP_eq]
    exact h v hv

/-- If nothing can be dropped, there is no join tree. -/
theorem not_hasOrder (hne : edges ≠ []) (hnonempty : ∀ e ∈ edges, e.Nonempty)
    (hapart : edges.Pairwise fun e f => ¬ e ⊆ f ∧ ¬ f ⊆ e)
    (hshared : ∀ e ∈ edges, ∀ v ∈ e, occurrences edges v ≠ 1) : ¬ HasOrder edges := by
  intro ⟨order, horder, helim⟩
  have hapart : order.Pairwise fun e f => ¬ e ⊆ f ∧ ¬ f ⊆ e :=
    hapart.perm horder.symm fun hef => ⟨hef.2, hef.1⟩
  cases order with
  | nil => exact hne (List.nil_perm.mp horder)
  | cons e rest =>
    have he : e ∈ edges := horder.mem_iff.mp List.mem_cons_self
    have hagain (v : V) (hv : v ∈ e) : ∃ g ∈ rest, v ∈ g := by
      have hcount := hshared e he v hv
      rw [occurrences, ← horder.countP_eq, List.countP_cons, if_pos (decide_eq_true hv)] at hcount
      have hpos : 0 < rest.countP fun g => v ∈ g := by omega
      obtain ⟨g, hg, hvg⟩ := List.countP_pos_iff.mp hpos
      exact ⟨g, hg, of_decide_eq_true hvg⟩
    rcases helim.1 with hnil | ⟨f, hf, hparent⟩
    · obtain ⟨v, hv⟩ := hnonempty e he
      obtain ⟨g, hg, -⟩ := hagain v hv
      rw [hnil] at hg
      cases hg
    · refine ((List.pairwise_cons.mp hapart).1 f hf).1 fun v hv => ?_
      obtain ⟨g, hg, hvg⟩ := hagain v hv
      exact hparent v hv g hg hvg

end Reduction

end RdfDatalog.Hypergraph
