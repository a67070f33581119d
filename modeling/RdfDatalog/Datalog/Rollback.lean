import RdfDatalog.Datalog.NegationCoverage

namespace RdfDatalog

open FallibleFold Datalog QuadStore

/-- The two stores hold the same quads, in the same order and with the same flags. -/
structure QuadStore.SameContents (base base' : QuadStore) : Prop where
  quads : base'.quadList = base.quadList
  derived : ∀ q, base'.Derived q ↔ base.Derived q

theorem QuadStore.Grown.sameContents {base base' : QuadStore} (h : base.Grown base') :
    base.SameContents (base'.truncateTo base.table.quadCount) := by
  refine ⟨?_, fun q => ?_⟩
  · rw [quadList_truncateTo, take_quadCount h.isPrefix]
  · rw [derived_truncateTo, take_quadCount h.isPrefix, mem_quadList]
    constructor
    · intro ⟨hd, hq⟩
      by_contra hno
      exact ((h.status q hq).mpr ⟨hq, hno⟩).2 hd
    · intro hd
      refine ⟨?_, hd.mem⟩
      by_contra hno
      exact ((h.status q hd.mem).mp ⟨h.isPrefix.subset hd.mem, hno⟩).2 hd

theorem QuadStore.mem_foldl_addIntensionalQuad (base : QuadStore) (l : List Quad) (q : Quad) :
    q ∈ l.foldl QuadStore.addIntensionalQuad base ↔ q ∈ base ∨ q ∈ l := by
  induction l generalizing base with
  | nil => simp
  | cons x l ih => rw [List.foldl_cons, ih]; simp [or_assoc]

theorem QuadStore.derived_foldl_addIntensionalQuad {base : QuadStore} {l : List Quad}
    (hl : ∀ q ∈ l, ¬ base.Extensional q) (q : Quad) :
    (l.foldl QuadStore.addIntensionalQuad base).Derived q ↔ base.Derived q ∨ q ∈ l := by
  induction l generalizing base with
  | nil => simp
  | cons x l ih =>
    have hstep (y : Quad) : (base.addIntensionalQuad x).Extensional y ↔ base.Extensional y :=
      (⟨base, .new, []⟩ : Materialisation).extensional_derive y x ⟨0, []⟩
    have hx : ¬ base.Extensional x := hl x List.mem_cons_self
    rw [List.foldl_cons, ih fun y hy => mt (hstep y).mp (hl y (List.mem_cons_of_mem x hy))]
    simp [hx, or_assoc]

namespace Datalog

variable {Expr : Type}

namespace DerivedFromIndex

theorem derivationsFor_foldl_remove (pd : List Quad) (x : DerivedFromIndex) (q : Quad) :
    (pd.foldl DerivedFromIndex.remove x).derivationsFor q =
      if q ∈ pd then [] else x.derivationsFor q := by
  induction pd generalizing x with
  | nil => simp
  | cons p pd ih =>
    rw [List.foldl_cons, ih, derivationsFor_remove]
    by_cases hq : q = p
    · simp [hq]
    · simp [hq]

theorem derivationsFor_foldl_record {q : Quad} {ds : List Derivation} (hds : ds.Nodup)
    {y : DerivedFromIndex} (hy : y.derivationsFor q = [] ∨ y.derivationsFor q = ds) (q' : Quad) :
    (ds.foldl (fun x d => (x.record q d).1) y).derivationsFor q' =
      if q' = q then ds else y.derivationsFor q' := by
  have hother (ds : List Derivation) (y : DerivedFromIndex) (hne : q' ≠ q) :
      (ds.foldl (fun x d => (x.record q d).1) y).derivationsFor q' = y.derivationsFor q' := by
    induction ds generalizing y with
    | nil => rfl
    | cons d ds ih =>
      rw [List.foldl_cons, ih]
      by_cases hold : y.Recorded q d
      · rw [record_of_recorded y q d hold]
      · rw [derivationsFor_record y q q' d hold, if_neg hne]
  have happend (ds : List Derivation) (y : DerivedFromIndex)
      (hnodup : (y.derivationsFor q ++ ds).Nodup) :
      (ds.foldl (fun x d => (x.record q d).1) y).derivationsFor q = y.derivationsFor q ++ ds := by
    induction ds generalizing y with
    | nil => exact (List.append_nil _).symm
    | cons d ds ih =>
      have hnew : ¬ y.Recorded q d := fun hold =>
        (List.nodup_append.mp hnodup).2.2 d hold d List.mem_cons_self rfl
      have hstep : (y.record q d).1.derivationsFor q = y.derivationsFor q ++ [d] := by
        rw [derivationsFor_record y q q d hnew, if_pos rfl]
      rw [List.foldl_cons, ih, hstep, List.append_assoc, List.singleton_append]
      rw [hstep, List.append_assoc, List.singleton_append]
      exact hnodup
  have hold (ds : List Derivation) (hsub : ∀ d ∈ ds, y.Recorded q d) :
      ds.foldl (fun x d => (x.record q d).1) y = y := by
    induction ds with
    | nil => rfl
    | cons d ds ih =>
      rw [List.foldl_cons, record_of_recorded y q d (hsub d List.mem_cons_self)]
      exact ih fun d' hd' => hsub d' (List.mem_cons_of_mem d hd')
  split_ifs with hq
  · subst hq
    rcases hy with hnone | hsame
    · rw [happend ds y (by rw [hnone]; exact hds), hnone, List.nil_append]
    · rw [hold ds fun d hd => by rw [Recorded, hsame]; exact hd, hsame]
  · exact hother ds y hq

end DerivedFromIndex

theorem DerivedFromIndex.derivationsFor_restore {x : DerivedFromIndex} (hx : x.Exact)
    {removed : List (Quad × Nat × List Derivation)}
    (hremoved : ∀ e ∈ removed, e.2.2 = x.derivationsFor e.1) {y : DerivedFromIndex}
    (hy : ∀ q, y.derivationsFor q = [] ∨ y.derivationsFor q = x.derivationsFor q) (q : Quad) :
    (removed.foldl (fun x e => e.2.2.foldl (fun x d => (x.record e.1 d).1) x) y).derivationsFor q =
      if q ∈ removed.map Prod.fst then x.derivationsFor q else y.derivationsFor q := by
  induction removed generalizing y with
  | nil => rfl
  | cons e removed ih =>
    have hstep := derivationsFor_foldl_record (hx.nodup e.1) (hy e.1)
    rw [← hremoved e List.mem_cons_self] at hstep
    rw [List.foldl_cons, ih fun e' he' => hremoved e' (List.mem_cons_of_mem e he')]
    · rw [hstep, hremoved e List.mem_cons_self]
      by_cases hq : q = e.1
      · simp [hq]
      · simp only [hq, if_false, List.map_cons, List.mem_cons, false_or]
    · intro q'
      rw [hstep, hremoved e List.mem_cons_self]
      split_ifs with hq
      · exact .inr (by rw [hq])
      · exact hy q'

namespace IncrementalReasoner

open DerivedFromIndex

section Restore

theorem getElem?_foldl_modify {ι : Type} (place : ι → Nat)
    (f : ι → DatalogProgram Expr → DatalogProgram Expr) (l : List ι)
    (programs : List (DatalogProgram Expr)) (i : Nat) :
    (l.foldl (fun programs e => programs.modify (place e) (f e)) programs)[i]? =
      programs[i]?.map fun p => (l.filter fun e => place e = i).foldl (fun p e => f e p) p := by
  induction l generalizing programs with
  | nil => cases h : programs[i]? <;> rw [List.foldl_nil, h] <;> rfl
  | cons e l ih =>
    rw [List.foldl_cons, ih, List.getElem?_modify, List.filter_cons]
    cases programs[i]? with
    | none => rfl
    | some p => by_cases hi : place e = i <;> simp [hi]

theorem foldl_withDerivedFrom {ι : Type} (g : ι → DerivedFromIndex → DerivedFromIndex)
    (l : List ι) (p : DatalogProgram Expr) :
    l.foldl (fun p e => p.withDerivedFrom (g e p.derivedFrom)) p =
      p.withDerivedFrom (l.foldl (fun x e => g e x) p.derivedFrom) := by
  induction l generalizing p with
  | nil => rfl
  | cons e l ih => exact ih (p.withDerivedFrom (g e p.derivedFrom))

variable {programs : List (DatalogProgram Expr)} {pd : List Quad}

theorem getElem?_foldl_retract (pd : List Quad) (m : IncrementalReasoner Expr) (i : Nat) :
    (pd.foldl retract m).programs[i]? = m.programs[i]?.map fun p =>
      p.withDerivedFrom (pd.foldl DerivedFromIndex.remove p.derivedFrom) := by
  induction pd generalizing m with
  | nil => cases h : m.programs[i]? <;> rw [List.foldl_nil, h] <;> rfl
  | cons q pd ih =>
    rw [List.foldl_cons, ih, retract, List.getElem?_map, Option.map_map]
    rfl

theorem mem_removedDerivations {e : Quad × Nat × List Derivation} :
    e ∈ removedDerivations programs pd ↔ e.1 ∈ pd ∧ ∃ p, programs[e.2.1]? = some p ∧
      e.2.2 = p.derivedFrom.derivationsFor e.1 ∧ e.2.2 ≠ [] := by
  unfold removedDerivations
  simp only [List.mem_flatMap, List.mem_filterMap]
  constructor
  · rintro ⟨q, hq, ⟨p, i⟩, hp, he⟩
    rw [List.mem_zipIdx_iff_getElem?] at hp
    split_ifs at he with hempty
    cases he
    exact ⟨hq, p, hp, rfl, fun hnil => hempty (List.isEmpty_iff.mpr hnil)⟩
  · obtain ⟨q, i, ds⟩ := e
    rintro ⟨hq, p, hp, hds, hne⟩
    dsimp only at hq hp hds hne
    subst hds
    refine ⟨q, hq, (p, i), List.mem_zipIdx_iff_getElem?.mpr hp, ?_⟩
    rw [if_neg fun hempty => hne (List.isEmpty_iff.mp hempty)]

theorem undoRederive_derivations (env : ReasonerEnv Expr) {m : IncrementalReasoner Expr}
    {f : Fault Expr} {s : Sweep Expr} (h : rederive env m pd = .error (f, s)) {i : Nat}
    {p p' : DatalogProgram Expr} (hp : m.programs[i]? = some p) (hexact : p.derivedFrom.Exact)
    (hp' : (undoRederive m pd s).programs[i]? = some p') (q : Quad) :
    p'.derivedFrom.derivationsFor q = p.derivedFrom.derivationsFor q := by
  have hlogged := (materialiseAll_runsOn env (pd.foldl retract m).programs
    (pd.foldl retract m).base).loggedAt
  rw [rederive] at h
  rw [h, reached_error] at hlogged
  have hstart : (pd.foldl retract m).programs[i]? =
      some (p.withDerivedFrom (pd.foldl DerivedFromIndex.remove p.derivedFrom)) := by
    rw [getElem?_foldl_retract, hp, Option.map_some]
  obtain ⟨p₁, hp₁, hlog⟩ := hlogged i _ hstart
  have hundone (q : Quad) := (hlog.undo q).trans (derivationsFor_foldl_remove pd p.derivedFrom q)
  rw [undoRederive, restoreDerivations, getElem?_foldl_modify, getElem?_undoTracked, hp₁,
    Option.map_some, Option.map_some, Option.some.injEq] at hp'
  rw [← hp', foldl_withDerivedFrom fun (e : Quad × Nat × List Derivation) x =>
    e.2.2.foldl (fun x d => (x.record e.1 d).1) x]
  refine (derivationsFor_restore hexact ?_ ?_ q).trans ?_
  · intro e he
    obtain ⟨he, hi⟩ := List.mem_filter.mp he
    obtain ⟨-, p₂, hp₂, hds, -⟩ := mem_removedDerivations.mp he
    rw [of_decide_eq_true hi, hp] at hp₂
    cases hp₂
    exact hds
  · intro q'
    have hq' := hundone q'
    split_ifs at hq'
    · exact .inl hq'
    · exact .inr hq'
  · have hq := hundone q
    split_ifs with hmem
    · rfl
    · refine hq.trans ?_
      split_ifs with hpd
      · by_contra hne
        refine hmem (List.mem_map.mpr ⟨(q, i, p.derivedFrom.derivationsFor q), ?_, rfl⟩)
        exact List.mem_filter.mpr
          ⟨mem_removedDerivations.mpr ⟨hpd, p, hp, rfl, fun hnil => hne hnil.symm⟩,
            decide_eq_true rfl⟩
      · rfl

/-- What undoing a failed re-derivation leaves in the store: `pd` is there, marked as derived. -/
theorem undoRederive_base (env : ReasonerEnv Expr) {m : IncrementalReasoner Expr}
    {f : Fault Expr} {s : Sweep Expr} (h : rederive env m pd = .error (f, s)) (q : Quad) :
    (q ∈ (undoRederive m pd s).base ↔ q ∈ m.base ∨ q ∈ pd) ∧
      ((undoRederive m pd s).base.Derived q ↔ m.base.Derived q ∨ q ∈ pd) := by
  have hgrown := rederive_grown env m pd
  rw [h, reached_error] at hgrown
  have hback := hgrown.sameContents
  have hmem (x : Quad) : x ∈ s.base.truncateTo (pd.foldl retract m).base.table.quadCount ↔
      x ∈ m.base ∧ x ∉ pd := by
    rw [← mem_quadList, hback.quads, mem_quadList, mem_foldl_retract]
  have hderived : (s.base.truncateTo (pd.foldl retract m).base.table.quadCount).Derived q ↔
      m.base.Derived q ∧ q ∉ pd := by
    rw [hback.derived, foldl_retract_base, derived_foldl_removeQuad]
  rw [undoRederive]
  dsimp only
  rw [mem_foldl_addIntensionalQuad, derived_foldl_addIntensionalQuad, hmem,
    hderived]
  · by_cases hq : q ∈ pd <;> simp [hq]
  · exact fun x hx hext => ((hmem x).mp hext.1).2 hx

end Restore

section Insertion

/-- `m'` is `m` again: the store has the same contents, and the programs are the same, with the
same rules enabled and the same derivations and counts on record. -/
structure RolledBack (m m' : IncrementalReasoner Expr) : Prop where
  base : m.base.SameContents m'.base
  programs : List.Forall₂ (fun p p' => ∃ x, p' = p.withDerivedFrom x ∧ p.derivedFrom.Agrees x)
    m.programs m'.programs

theorem SameRules.indexes {ps ps' : List (DatalogProgram Expr)}
    {R : DerivedFromIndex → DerivedFromIndex → Prop} (hsame : SameRules ps ps')
    (h : ∀ (i : Nat) (p p' : DatalogProgram Expr), ps[i]? = some p → ps'[i]? = some p' →
      R p.derivedFrom p'.derivedFrom) :
    List.Forall₂ (fun p p' => ∃ x, p' = p.withDerivedFrom x ∧ R p.derivedFrom x) ps ps' := by
  refine List.forall₂_iff_get.mpr ⟨hsame.length_eq, fun i hi hi' => ?_⟩
  obtain ⟨x, hx⟩ := (List.forall₂_iff_get.mp hsame).2 i hi hi'
  have hrel := h i ps[i] ps'[i] (List.getElem?_eq_getElem hi) (List.getElem?_eq_getElem hi')
  rw [List.get_eq_getElem, List.get_eq_getElem] at hx
  rw [hx] at hrel
  exact ⟨x, hx, hrel⟩

variable {env : ReasonerEnv Expr} {m m' : IncrementalReasoner Expr} {f : Fault Expr}

theorem applyInsertions_rolledBack (hm : ∀ p ∈ m.programs, p.derivedFrom.Exact) (fuel : Nat)
    {inserts : List Quad} {s : Sweep Expr} (h : materialiseForward env inserts m.programs
      (inserts.foldl QuadStore.addQuad m.base) = .error (f, s)) :
    ∃ m', applyInsertions env fuel m inserts = .error (f, m') ∧ RolledBack m m' := by
  refine ⟨undoInsertions m.base.table.quadCount s, by rw [applyInsertions, h], ?_, ?_⟩
  · have hgrown := (materialiseForward_runsOn env inserts m.programs
      (inserts.foldl QuadStore.addQuad m.base)).grown
    rw [h, reached_error] at hgrown
    exact ((QuadStore.Grown.foldl_addQuad m.base inserts).trans hgrown).sameContents
  · have hsame := @sweep_sameRules Expr
      (fun delta p base => p.materialiseSeminaiveTrackedFromFacts env base delta) inserts m.programs
      (inserts.foldl QuadStore.addQuad m.base)
    have hlogged := (materialiseForward_runsOn env inserts m.programs
      (inserts.foldl QuadStore.addQuad m.base)).loggedAt
    rw [materialiseForward] at h
    rw [h, reached_error] at hsame
    rw [materialiseForward, h, reached_error] at hlogged
    refine (SameRules.undoTracked hsame s.tracked).indexes fun i p p' hp hp' => ?_
    obtain ⟨p₁, hp₁, hlog⟩ := hlogged i p hp
    rw [getElem?_undoTracked, hp₁, Option.map_some, Option.some.injEq] at hp'
    rw [← hp']
    exact (hlog.edited.trans (edited_foldl_unrecord _ _)).agrees (hm p (List.mem_of_getElem? hp))
      hlog.undo

variable [DecidableEq Expr]

theorem applyRuleInsertions_rolledBack (hm : ∀ p ∈ m.programs, p.derivedFrom.Exact)
    {newRules : List (Rule Expr)} (h : applyRuleInsertions env m newRules = .error (f, m')) :
    RolledBack m m' := by
  have hsame := applyRuleInsertions_error_sameRules h
  rw [applyRuleInsertions] at h
  dsimp only at h
  split_ifs at h
  split at h
  · cases h
    exact ⟨⟨rfl, fun _ => Iff.rfl⟩, List.forall₂_same.mpr fun p _ =>
      ⟨p.derivedFrom, rfl, fun _ => rfl, fun _ _ => rfl⟩⟩
  · rename_i fresh hfresh
    have hgrown := insertRules_grown env ⟨m.programs, m.base, [], []⟩
      (requestedRules m.programs newRules).reactivate fresh
    have hlogged := insertRules_loggedAt env m.programs m.base
      (requestedRules m.programs newRules).reactivate fresh
    split at h
    · rename_i f' st hst
      cases h
      rw [hst, reached_error] at hgrown hlogged
      refine ⟨hgrown.sameContents, hsame.indexes fun i p p' hp hp' => ?_⟩
      obtain ⟨p₁, hp₁, hlog⟩ := hlogged i p hp
      have hi : i < m.programs.length := (List.getElem?_eq_some_iff.mp hp).1
      rw [undoRuleInsertions] at hp'
      dsimp only at hp'
      rw [getElem?_disableRules, List.getElem?_take, if_pos hi, getElem?_foldl_modify, hp₁,
        Option.map_some, Option.map_some, Option.some.injEq] at hp'
      rw [← hp', foldl_withDerivedFrom fun (e : Nat × List (Quad × Derivation)) x =>
        e.2.foldl (fun x e => x.unrecord e.1 e.2) x]
      have hflat : ((st.tracked.filter fun e => e.1 = i).foldl (fun x e =>
          e.2.foldl (fun x e => x.unrecord e.1 e.2) x) p₁.derivedFrom) =
          (logOf st.tracked i).foldl (fun x e => x.unrecord e.1 e.2) p₁.derivedFrom := by
        rw [logOf, List.foldl_flatMap]
      dsimp only [DatalogProgram.withDerivedFrom]
      rw [hflat]
      exact (hlog.edited.trans (edited_foldl_unrecord _ _)).agrees
        (hm p (List.mem_of_getElem? hp)) hlog.undo
    · cases h

/-- In every state of a reasoner and over every store, an insertion whose first pass fails, and an
insertion of rules that fails, leave everything as it was. -/
theorem failedInsertion_rolledBack (hm : Reachable env m) (base : QuadStore) :
    (∀ fuel inserts f s, materialiseForward env inserts m.programs
      (inserts.foldl QuadStore.addQuad base) = .error (f, s) →
        ∃ m', applyInsertions env fuel { m with base := base } inserts = .error (f, m') ∧
          RolledBack { m with base := base } m') ∧
      ∀ newRules f m', applyRuleInsertions env { m with base := base } newRules = .error (f, m') →
        RolledBack { m with base := base } m' := by
  refine ⟨?_, ?_⟩
  · intro fuel inserts f s h
    exact applyInsertions_rolledBack (m := { m with base := base }) hm.exact fuel h
  · intro newRules f m' h
    exact applyRuleInsertions_rolledBack (m := { m with base := base }) hm.exact h

/-- A rule that no quad may satisfy together with `pos` and without `neg`. -/
def unaryDenial (pos neg : List GraphElementId) : Rule Empty :=
  { unaryRule 0 pos neg with head := .contradiction }

theorem failedInsertion_rolledBack_unary : ∃ m : IncrementalReasoner Empty,
    new .plain [unaryDenial [3] [], unaryRule 2 [1] []] (storeOf [unaryQuad 1 0]) = .ok m ∧
      (∃ f m', applyInsertions .plain 2 m [unaryQuad 1 1, unaryQuad 3 0] = .error (f, m') ∧
        RolledBack m m') ∧
      ∃ f m', applyRuleInsertions .plain m [unaryDenial [2] []] = .error (f, m') ∧
        RolledBack m m' := by
  obtain ⟨m, hnew, hforward, hdenied⟩ :
      ∃ m, new .plain [unaryDenial [3] [], unaryRule 2 [1] []] (storeOf [unaryQuad 1 0]) = .ok m ∧
        (materialiseForward .plain [unaryQuad 1 1, unaryQuad 3 0] m.programs
          ([unaryQuad 1 1, unaryQuad 3 0].foldl QuadStore.addQuad m.base)).toBool = false ∧
        (applyRuleInsertions .plain m [unaryDenial [2] []]).toBool = false := by decide
  obtain ⟨hinsert, hrules⟩ := failedInsertion_rolledBack (.new hnew) m.base
  refine ⟨m, hnew, ?_, ?_⟩
  · cases hs : materialiseForward .plain [unaryQuad 1 1, unaryQuad 3 0] m.programs
        ([unaryQuad 1 1, unaryQuad 3 0].foldl QuadStore.addQuad m.base) with
    | error e => exact ⟨e.1, hinsert 2 _ e.1 e.2 hs⟩
    | ok s => rw [hs] at hforward; cases hforward
  · cases hs : applyRuleInsertions .plain m [unaryDenial [2] []] with
    | error e => exact ⟨e.1, e.2, rfl, hrules _ e.1 e.2 hs⟩
    | ok s => rw [hs] at hdenied; cases hdenied

end Insertion

section Deletion

/-- The store has the same quads with the same flags as before, and the programs are the same, with
the same rules enabled and the same derivations on record. -/
structure Restored (m m' : IncrementalReasoner Expr) : Prop where
  quads : ∀ q, q ∈ m'.base ↔ q ∈ m.base
  derived : ∀ q, m'.base.Derived q ↔ m.base.Derived q
  programs : List.Forall₂ (fun p p' => ∃ x, p' = p.withDerivedFrom x ∧
    ∀ q, x.derivationsFor q = p.derivedFrom.derivationsFor q) m.programs m'.programs

variable {env : ReasonerEnv Expr} {m m' : IncrementalReasoner Expr} {f : Fault Expr}

/-- What a failed incremental deletion leaves: the suspect quads are marked as derived, the other
deleted ones as asserted. -/
theorem applyDeletions_error_iff (hm : ∀ p ∈ m.programs, p.derivedFrom.Exact)
    {deletes : List Quad} (hfall : ¬ m.FallsBack deletes)
    (h : applyDeletions env m deletes = .error (f, m')) :
    Restored m m' ↔ (∀ q ∈ backwardPhase m.programs deletes, m.base.Derived q) ∧
      ∀ q ∈ deletes, q ∉ backwardPhase m.programs deletes → m.base.Extensional q := by
  rw [applyDeletions] at h
  dsimp only at h
  split_ifs at h with hempty hf
  · exact absurd hf hfall
  · have hpd (q : Quad) : q ∈ env.quadOrder (backwardPhase m.programs deletes) ↔
        q ∈ backwardPhase m.programs deletes := (env.quadOrder_perm _).mem_iff
    generalize env.quadOrder (backwardPhase m.programs deletes) = pd at h hpd
    rw [forwardPhase] at h
    split at h
    · rename_i f' s hs
      cases h
      have hbase := undoRederive_base env hs
      have hsame := rederive_sameRules env
        { m with base := deletes.foldl QuadStore.removeQuad m.base } pd
      rw [hs, reached_error] at hsame
      have hprograms := SameRules.indexes
        (R := fun x y => ∀ q, y.derivationsFor q = x.derivationsFor q)
        ((hsame.undoTracked s.tracked).restoreDerivations
          (removedDerivations m.programs pd))
        fun i p p' hp hp' q =>
          undoRederive_derivations env hs hp (hm p (List.mem_of_getElem? hp)) hp' q
      have hquads (q : Quad) : q ∈ (undoDeletions
          { m with base := deletes.foldl QuadStore.removeQuad m.base } pd deletes s).base ↔
          q ∈ m.base ∨ q ∈ pd ∨ q ∈ deletes := by
        rw [undoDeletions, mem_foldl_addQuad, (hbase q).1, mem_foldl_removeQuad]
        by_cases hq : q ∈ deletes <;> simp [hq]
      have hderived (q : Quad) : (undoDeletions
          { m with base := deletes.foldl QuadStore.removeQuad m.base }
          pd deletes s).base.Derived q ↔
          (m.base.Derived q ∧ q ∉ deletes) ∨ q ∈ pd := by
        rw [undoDeletions, derived_foldl_addQuad, (hbase q).2,
          derived_foldl_removeQuad]
      constructor
      · intro hrestored
        refine ⟨fun q hq => ?_, fun q hq hno => ⟨?_, fun hd => ?_⟩⟩
        · exact (hrestored.derived q).mp ((hderived q).mpr (.inr ((hpd q).mpr hq)))
        · exact (hrestored.quads q).mp ((hquads q).mpr (.inr (.inr hq)))
        · rcases (hderived q).mp ((hrestored.derived q).mpr hd) with hd | hd
          · exact hd.2 hq
          · exact hno ((hpd q).mp hd)
      · rintro ⟨hsuspect, htargets⟩
        refine ⟨fun q => ?_, fun q => ?_, hprograms⟩
        · rw [hquads]
          refine ⟨?_, .inl⟩
          rintro (hq | hq | hq)
          · exact hq
          · exact (hsuspect q ((hpd q).mp hq)).mem
          · by_cases hin : q ∈ backwardPhase m.programs deletes
            · exact (hsuspect q hin).mem
            · exact (htargets q hq hin).1
        · rw [hderived]
          constructor
          · rintro (hq | hq)
            · exact hq.1
            · exact hsuspect q ((hpd q).mp hq)
          · intro hd
            by_cases hq : q ∈ deletes
            · by_cases hin : q ∈ backwardPhase m.programs deletes
              · exact .inr ((hpd q).mpr hin)
              · exact absurd hd (htargets q hq hin).2
            · exact .inl ⟨hd, hq⟩
    · cases h

theorem getElem?_derivedFrom_enableRules {targets : List (Nat × Nat)}
    {ps : List (DatalogProgram Expr)} {i : Nat} {p : DatalogProgram Expr}
    (hp : (enableRules targets ps)[i]? = some p) :
    ∃ p', ps[i]? = some p' ∧ p'.derivedFrom = p.derivedFrom := by
  rw [getElem?_enableRules, Option.map_eq_some_iff] at hp
  obtain ⟨p', hp', rfl⟩ := hp
  exact ⟨p', hp', rfl⟩

variable [DecidableEq Expr]

theorem applyRuleDeletions_error_iff (hm : ∀ p ∈ m.programs, p.derivedFrom.Exact)
    {R : List (Rule Expr)} (h : applyRuleDeletions env m R = .error (f, m')) :
    Restored m m' ↔ m.RulesFallBack R ∨
      ∀ q ∈ backwardPhaseFromRuleRemoval m (deletionTargets m.programs R), q ∈ m.base := by
  have hsame := applyRuleDeletions_error_sameRules h
  rw [applyRuleDeletions] at h
  dsimp only at h
  split_ifs at h with hempty hnone hfall
  · rw [fullRematerialiseRules_error env h]
    exact iff_of_true ⟨fun _ => Iff.rfl, fun _ => Iff.rfl,
      List.forall₂_same.mpr fun p _ => ⟨p.derivedFrom, rfl, fun _ => rfl⟩⟩ (.inl hfall)
  · have hpd (q : Quad) : q ∈ env.quadOrder
        (backwardPhaseFromRuleRemoval m (deletionTargets m.programs R)) ↔
        q ∈ backwardPhaseFromRuleRemoval m (deletionTargets m.programs R) :=
      (env.quadOrder_perm _).mem_iff
    generalize env.quadOrder (backwardPhaseFromRuleRemoval m (deletionTargets m.programs R)) = pd
      at h hpd
    rw [forwardPhaseRules] at h
    split at h
    · rename_i f' s hs
      cases h
      have hbase := undoRederive_base env hs
      have hprograms := hsame.indexes
        (R := fun x y => ∀ q, y.derivationsFor q = x.derivationsFor q) fun i p p' hp hp' q => by
          obtain ⟨p₁, hp₁, hx⟩ := getElem?_derivedFrom_enableRules hp'
          have hdisabled := getElem?_disableRules (deletionTargets m.programs R) m.programs i
          rw [hp, Option.map_some] at hdisabled
          have hexact := hm p (List.mem_of_getElem? hp)
          rw [← hx]
          exact undoRederive_derivations env hs hdisabled hexact hp₁ q
      constructor
      · intro hrestored
        refine .inr fun q hq => ?_
        exact (hrestored.quads q).mp ((hbase q).1.mpr (.inr ((hpd q).mpr hq)))
      · intro hstored
        have hstored := hstored.resolve_left hfall
        have hsuspect (q : Quad) (hq : q ∈ pd) : m.base.Derived q := by
          by_contra hno
          exact (mem_backwardPhaseFromRuleRemoval.mp ((hpd q).mp hq)).not_extensional
            ⟨hstored q ((hpd q).mp hq), hno⟩
        refine ⟨fun q => (hbase q).1.trans ?_, fun q => (hbase q).2.trans ?_, hprograms⟩
        · exact or_iff_left_of_imp fun hq => (hsuspect q hq).mem
        · exact or_iff_left_of_imp (hsuspect q)
    · cases h

/-- In every state of a reasoner and over every store, a deletion that fails on the incremental path
is undone exactly iff the suspect quads are stored as derived ones and the other targets as asserted
ones; a failed deletion of rules is undone exactly iff it rebuilt or the suspects are stored. -/
theorem failedDeletion_restored_iff (hm : Reachable env m) (base : QuadStore) :
    (∀ deletes f m', ¬ m.FallsBack deletes →
      applyDeletions env { m with base := base } deletes = .error (f, m') →
        (Restored { m with base := base } m' ↔
          (∀ q ∈ backwardPhase m.programs deletes, base.Derived q) ∧
            ∀ q ∈ deletes, q ∉ backwardPhase m.programs deletes → base.Extensional q)) ∧
      ∀ R f m', applyRuleDeletions env { m with base := base } R = .error (f, m') →
        (Restored { m with base := base } m' ↔ RulesFallBack { m with base := base } R ∨
          ∀ q ∈ backwardPhaseFromRuleRemoval { m with base := base }
            (deletionTargets m.programs R), q ∈ base) := by
  refine ⟨?_, ?_⟩
  · intro deletes f m' hfall h
    exact applyDeletions_error_iff (m := { m with base := base }) hm.exact hfall h
  · intro R f m' h
    exact applyRuleDeletions_error_iff (m := { m with base := base }) hm.exact h

/-- The rules and the store of the example below: `3(0)`, derived from `2(0)`, keeps a denial from
firing. -/
def deniedRules : List (Rule Empty) := [unaryDenial [1] [3], unaryRule 3 [2] [], unaryRule 6 [5] []]

def deniedStore : QuadStore :=
  storeOf [unaryQuad 1 0, unaryQuad 2 0, unaryQuad 5 0, unaryQuad 5 1, unaryQuad 5 2]

theorem failedDeletion_restored_iff_unary : ∃ m : IncrementalReasoner Empty,
    new .plain deniedRules deniedStore = .ok m ∧
      (∃ f m', applyDeletions .plain m [unaryQuad 2 0] = .error (f, m') ∧ Restored m m') ∧
      ∃ f m', applyRuleDeletions .plain m [unaryRule 3 [2] []] = .error (f, m') ∧
        Restored m m' := by
  obtain ⟨m, hnew, hfall, hsuspect, htarget, hstored, ⟨e, hs, -⟩, ⟨e', hs', -⟩⟩ :
      ∃ m, new .plain deniedRules deniedStore = .ok m ∧
        exceedsThreshold m.programs (backwardPhase m.programs [unaryQuad 2 0]) = false ∧
        (∀ q ∈ backwardPhase m.programs [unaryQuad 2 0], m.base.Derived q) ∧
        m.base.Extensional (unaryQuad 2 0) ∧
        (∀ q ∈ backwardPhaseFromRuleRemoval m (deletionTargets m.programs [unaryRule 3 [2] []]),
          q ∈ m.base) ∧
        (∃ e, applyDeletions .plain m [unaryQuad 2 0] = .error e ∧ e.2.programs ≠ []) ∧
        ∃ e, applyRuleDeletions .plain m [unaryRule 3 [2] []] = .error e ∧ e.2.programs ≠ [] := by
    decide
  obtain ⟨hdelete, hdeleteRules⟩ := failedDeletion_restored_iff (.new hnew) m.base
  refine ⟨m, hnew, ?_, ?_⟩
  · have hincremental : ¬ m.FallsBack [unaryQuad 2 0] := by
      rw [FallsBack, hfall]
      exact Bool.false_ne_true
    refine ⟨e.1, e.2, hs, (hdelete _ e.1 e.2 hincremental hs).mpr ⟨hsuspect, ?_⟩⟩
    intro q hq _
    rw [List.mem_singleton.mp hq]
    exact htarget
  · exact ⟨e'.1, e'.2, hs', (hdeleteRules _ e'.1 e'.2 hs').mpr (.inr hstored)⟩

/-- Deleting an absent quad together with one that guards a denial fails, and leaves the absent one
in the store. -/
theorem failedDeletion_adds_absent : ∃ m m' : IncrementalReasoner Empty, ∃ f,
    new .plain [unaryDenial [1] [3]] (storeOf [unaryQuad 1 0, unaryQuad 3 0]) = .ok m ∧
      ¬ m.FallsBack [unaryQuad 3 0, unaryQuad 5 0] ∧
      applyDeletions .plain m [unaryQuad 3 0, unaryQuad 5 0] = .error (f, m') ∧
      unaryQuad 5 0 ∉ m.base ∧ unaryQuad 5 0 ∈ m'.base ∧ ¬ Restored m m' := by
  obtain ⟨m, hnew, hfall, e, hdel, hout, hin⟩ :
      ∃ m, new .plain [unaryDenial [1] [3]] (storeOf [unaryQuad 1 0, unaryQuad 3 0]) = .ok m ∧
        exceedsThreshold m.programs
          (backwardPhase m.programs [unaryQuad 3 0, unaryQuad 5 0]) = false ∧
        ∃ e, applyDeletions .plain m [unaryQuad 3 0, unaryQuad 5 0] = .error e ∧
          unaryQuad 5 0 ∉ m.base ∧ unaryQuad 5 0 ∈ e.2.base := by decide
  refine ⟨m, e.2, e.1, hnew, ?_, hdel, hout, hin, fun hrestored => ?_⟩
  · rw [FallsBack, hfall]
    exact Bool.false_ne_true
  · exact hout ((hrestored.quads _).mp hin)

end Deletion

end IncrementalReasoner

end Datalog

end RdfDatalog
