import RdfDatalog.Store.Datastore

namespace RdfDatalog

namespace QuadTable

/-- The lookup for the positions that are given, the most selective index first. -/
def quadsMatching (t : QuadTable) :
    Option GraphElementId → Option GraphElementId → Option GraphElementId →
      Option GraphElementId → List Quad
  | some g, some s, some p, some o => if t.contains ⟨g, s, p, o⟩ then [⟨g, s, p, o⟩] else []
  | some g, some s, some p, none => t.getQuadsWithIdSubjectPredicate g s p
  | some g, some s, none, some o => t.getQuadsWithIdSubjectObject g s o
  | some g, none, some p, some o => t.getQuadsWithIdObjectPredicate g o p
  | some g, some s, none, none => t.getQuadsWithIdSubject g s
  | some g, none, some p, none => t.getQuadsWithIdPredicate g p
  | some g, none, none, some o => t.getQuadsWithIdObject g o
  | some g, none, none, none => t.getGraph g
  | none, some s, some p, some o =>
    t.getAllQuads.filter fun q => q.subject = s ∧ q.predicate = p ∧ q.obj = o
  | none, some s, some p, none => t.getQuadsWithSubjectPredicate s p
  | none, some s, none, some o => t.getQuadsWithSubjectObject s o
  | none, none, some p, some o => t.getQuadsWithObjectPredicate o p
  | none, some s, none, none => t.getQuadsWithSubject s
  | none, none, some p, none => t.getQuadsWithPredicate p
  | none, none, none, some o => t.getQuadsWithObject o
  | none, none, none, none => t.getAllQuads

/-- The quad agrees with every position that is given. -/
def Fits (g s p o : Option GraphElementId) (q : Quad) : Prop :=
  (∀ x ∈ g, q.tripleId = x) ∧ (∀ x ∈ s, q.subject = x) ∧ (∀ x ∈ p, q.predicate = x) ∧
    ∀ x ∈ o, q.obj = x

theorem lists_getAllQuads {t : QuadTable} (h : t.WellFormed) :
    t.Lists t.getAllQuads fun _ => True :=
  ⟨h.nodup, fun _ => (and_iff_left trivial).symm⟩

theorem lists_singleton {t : QuadTable} (h : t.WellFormed) (q : Quad) :
    t.Lists (if t.contains q then [q] else []) fun r => r = q := by
  have hc := h.contains_iff q
  split_ifs with hmem
  · refine ⟨List.nodup_singleton q, fun r => ?_⟩
    rw [List.mem_singleton]
    constructor
    · intro hr
      exact ⟨hr ▸ hc.mp hmem, hr⟩
    · exact And.right
  · refine ⟨List.nodup_nil, fun r => ?_⟩
    constructor
    · intro hr
      cases hr
    · intro ⟨hr, heq⟩
      exact absurd (hc.mpr (heq ▸ hr)) hmem

theorem WellFormed.lists_quadsMatching {t : QuadTable} (h : t.WellFormed)
    (g s p o : Option GraphElementId) :
    t.Lists (t.quadsMatching g s p o) (Fits g s p o) := by
  have all := h.exactLookups
  match g, s, p, o with
  | some g, some s, some p, some o =>
    exact (lists_singleton h ⟨g, s, p, o⟩).congr fun q => by simp [Fits, Quad.ext_iff]
  | some g, some s, some p, none =>
    exact (all.withIdSubjectPredicate g s p).congr fun q => by simp [Fits]; tauto
  | some g, some s, none, some o =>
    exact (all.withIdSubjectObject g s o).congr fun q => by simp [Fits]; tauto
  | some g, none, some p, some o =>
    exact (all.withIdObjectPredicate g o p).congr fun q => by simp [Fits]; tauto
  | some g, some s, none, none =>
    exact (all.withIdSubject g s).congr fun q => by simp [Fits]; tauto
  | some g, none, some p, none =>
    exact (all.withIdPredicate g p).congr fun q => by simp [Fits]; tauto
  | some g, none, none, some o =>
    exact (all.withIdObject g o).congr fun q => by simp [Fits]; tauto
  | some g, none, none, none => exact (all.graph g).congr fun q => by simp [Fits]
  | none, some s, some p, some o =>
    exact ((lists_getAllQuads h).filter _).congr fun q => by simp [Fits]
  | none, some s, some p, none =>
    exact (all.withSubjectPredicate s p).congr fun q => by simp [Fits]
  | none, some s, none, some o =>
    exact (all.withSubjectObject s o).congr fun q => by simp [Fits]
  | none, none, some p, some o =>
    exact (all.withObjectPredicate o p).congr fun q => by simp [Fits]; tauto
  | none, some s, none, none => exact (all.withSubject s).congr fun q => by simp [Fits]
  | none, none, some p, none => exact (all.withPredicate p).congr fun q => by simp [Fits]
  | none, none, none, some o => exact (all.withObject o).congr fun q => by simp [Fits]
  | none, none, none, none => exact (lists_getAllQuads h).congr fun q => by simp [Fits]

end QuadTable

namespace QuadStore

/-- All quads of the store that agree with the given positions. -/
def quadsMatching (s : QuadStore) (graph subject predicate object : Option GraphElementId) :
    List Quad :=
  s.table.quadsMatching graph subject predicate object

/-- Like `quadsMatching`, but at most `limit` quads when a limit is given; the lookup of a single
quad does not look at the limit. -/
def quadsMatchingLimited (s : QuadStore)
    (graph subject predicate object : Option GraphElementId) (limit : Option Nat) : List Quad :=
  let quads := s.quadsMatching graph subject predicate object
  match graph, subject, predicate, object, limit with
  | some _, some _, some _, some _, _ => quads
  | _, _, _, _, none => quads
  | _, _, _, _, some take => quads.take take

theorem nodup_quadsMatching (st : QuadStore) (g s p o : Option GraphElementId) :
    (st.quadsMatching g s p o).Nodup :=
  (st.wellFormed.lists_quadsMatching g s p o).nodup

variable {st : QuadStore} {g s p o : Option GraphElementId}

theorem mem_quadsMatching {q : Quad} :
    q ∈ st.quadsMatching g s p o ↔ q ∈ st ∧ QuadTable.Fits g s p o q :=
  (st.wellFormed.lists_quadsMatching g s p o).mem q

@[simp] theorem quadsMatchingLimited_none (st : QuadStore) (g s p o : Option GraphElementId) :
    st.quadsMatchingLimited g s p o none = st.quadsMatching g s p o := by
  unfold quadsMatchingLimited
  split
  · rfl
  · rfl
  · next heq => cases heq

theorem quadsMatchingLimited_some (st : QuadStore) (g s p o : Option GraphElementId) {limit : Nat}
    (h : 0 < limit) : st.quadsMatchingLimited g s p o (some limit) =
      (st.quadsMatching g s p o).take limit := by
  unfold quadsMatchingLimited
  split
  · next g s p o =>
    rw [List.take_of_length_le]
    change (QuadTable.quadsMatching _ (some g) (some s) (some p) (some o)).length ≤ limit
    rw [QuadTable.quadsMatching]
    split_ifs
    · exact h
    · exact Nat.zero_le limit
  · next heq => cases heq
  · next heq => rw [Option.some.inj heq]

instance (g s p o : Option GraphElementId) : DecidablePred (QuadTable.Fits g s p o) := fun q =>
  inferInstanceAs (Decidable ((∀ x ∈ g, q.tripleId = x) ∧ (∀ x ∈ s, q.subject = x) ∧
    (∀ x ∈ p, q.predicate = x) ∧ ∀ x ∈ o, q.obj = x))

/-- The scan that the lookups stand for: every stored quad, filtered. -/
def scanned (st : QuadStore) (g s p o : Option GraphElementId) : List Quad :=
  st.quadList.filter fun q => QuadTable.Fits g s p o q

theorem mem_scanned {q : Quad} :
    q ∈ st.scanned g s p o ↔ q ∈ st ∧ QuadTable.Fits g s p o q := by
  rw [scanned, List.mem_filter, mem_quadList, decide_eq_true_eq]

theorem quadsMatching_perm_scanned (st : QuadStore) (g s p o : Option GraphElementId) :
    (st.quadsMatching g s p o).Perm (st.scanned g s p o) := by
  apply (List.perm_ext_iff_of_nodup (st.nodup_quadsMatching g s p o) ?_).mpr
  · intro q
    rw [mem_quadsMatching, mem_scanned]
  · exact st.nodup_quadList.filter _

/-- `found` lists distinct stored quads that agree with the positions: as many as the limit
allows, and without a limit all of them. -/
structure AgreesWithScan (st : QuadStore) (g s p o : Option GraphElementId) (limit : Option Nat)
    (found : List Quad) : Prop where
  nodup : found.Nodup
  fits : ∀ q ∈ found, q ∈ st ∧ QuadTable.Fits g s p o q
  length : found.length =
    limit.elim (st.scanned g s p o).length fun n => min n (st.scanned g s p o).length
  all : limit = none → ∀ q, q ∈ found ↔ q ∈ st.scanned g s p o

theorem agreesWithScan_quadsMatching (st : QuadStore) (g s p o : Option GraphElementId) :
    st.AgreesWithScan g s p o none (st.quadsMatching g s p o) where
  nodup := st.nodup_quadsMatching g s p o
  fits _ hq := mem_quadsMatching.mp hq
  length := (st.quadsMatching_perm_scanned g s p o).length_eq
  all _ _ := (st.quadsMatching_perm_scanned g s p o).mem_iff

theorem agreesWithScan_take (st : QuadStore) (g s p o : Option GraphElementId) (n : Nat) :
    st.AgreesWithScan g s p o (some n) ((st.quadsMatching g s p o).take n) where
  nodup := (st.nodup_quadsMatching g s p o).sublist (List.take_sublist n _)
  fits _ hq := mem_quadsMatching.mp (List.mem_of_mem_take hq)
  length := by
    rw [List.length_take, (st.quadsMatching_perm_scanned g s p o).length_eq]
    rfl
  all h := by cases h

/-- All four positions are given, and they name a stored quad. -/
def NamesStored (st : QuadStore) (g s p o : Option GraphElementId) : Prop :=
  ∃ q ∈ st, g = some q.tripleId ∧ s = some q.subject ∧ p = some q.predicate ∧ o = some q.obj

theorem quadsMatchingLimited_zero_named (h : st.NamesStored g s p o) :
    ∃ q, st.quadsMatchingLimited g s p o (some 0) = [q] := by
  obtain ⟨q, hq, rfl, rfl, rfl, rfl⟩ := h
  have hc : st.table.contains q = true := (st.wellFormed.contains_iff q).mpr hq
  exact ⟨q, by simp [quadsMatchingLimited, quadsMatching, QuadTable.quadsMatching, hc]⟩

theorem quadsMatchingLimited_zero (h : ¬ st.NamesStored g s p o) :
    st.quadsMatchingLimited g s p o (some 0) = [] := by
  unfold quadsMatchingLimited
  split
  · next g s p o =>
    apply List.eq_nil_iff_forall_not_mem.mpr
    intro q hq
    obtain ⟨hmem, hfit⟩ := mem_quadsMatching.mp hq
    obtain ⟨hg, hs, hp, ho⟩ := hfit
    apply h
    exact ⟨q, hmem, by rw [hg g rfl], by rw [hs s rfl], by rw [hp p rfl], by rw [ho o rfl]⟩
  · next heq => cases heq
  · next heq =>
    rw [← Option.some.inj heq]
    exact List.take_zero

end QuadStore

open QuadStore in
/-- Every index-chosen scan is the filter over all quads, cut off at the limit, except that a
stored quad asked for by all four positions is returned under a limit of zero too. -/
theorem quadsMatchingLimited_agreesWithScan_iff {N : NativeTypes} (ds : Datastore N)
    (g s p o : Option GraphElementId) (limit : Option Nat) :
    ds.namedGraphs.AgreesWithScan g s p o limit
        (ds.namedGraphs.quadsMatchingLimited g s p o limit) ↔
      ¬ (limit = some 0 ∧ ds.namedGraphs.NamesStored g s p o) := by
  cases limit with
  | none =>
    rw [quadsMatchingLimited_none]
    have h := ds.namedGraphs.agreesWithScan_quadsMatching g s p o
    simp [h]
  | some n =>
    have htake := ds.namedGraphs.agreesWithScan_take g s p o n
    cases n with
    | succ n =>
      rw [quadsMatchingLimited_some _ g s p o (Nat.zero_lt_succ n)]
      simp [htake]
    | zero =>
      by_cases hnamed : ds.namedGraphs.NamesStored g s p o
      · obtain ⟨q, hq⟩ := quadsMatchingLimited_zero_named hnamed
        have hlength : ¬ ds.namedGraphs.AgreesWithScan g s p o (some 0) [q] := by
          intro h
          have hlen := h.length
          simp at hlen
        simp [hq, hlength, hnamed]
      · rw [quadsMatchingLimited_zero hnamed]
        rw [List.take_zero] at htake
        simp [htake, hnamed]

theorem quadsMatchingLimited_ignores_zero :
    ¬ ∀ (ds : Datastore NativeTypes.text) (g s p o : Option GraphElementId) (limit : Option Nat),
      ds.namedGraphs.AgreesWithScan g s p o limit
        (ds.namedGraphs.quadsMatchingLimited g s p o limit) := by
  intro h
  have hlen := (h (Datastore.new.addQuad ⟨0, 1, 2, 3⟩) (some 0) (some 1) (some 2) (some 3)
    (some 0)).length
  revert hlen
  decide

end RdfDatalog
