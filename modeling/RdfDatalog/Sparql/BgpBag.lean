import RdfDatalog.Sparql.PatternBag

namespace RdfDatalog.Sparql

open Mapping

variable {N : NativeTypes} {ds : Datastore N}

section TripleTerms

/-- What the evaluation relies on: every quad has interned ids, and the table of the reified triples
holds exactly the interned triple terms. -/
structure QueryStore.WellFormed (qs : QueryStore N) : Prop where
  interned : qs.toDatastore.Interned
  reifiedInterned : ∀ q ∈ qs.reifiedTriples, qs.resources.Interned q
  reified : ∀ q : Quad, q ∈ qs.reifiedTriples ↔
    qs.resources.resourceMap.lookup (.tripleTerm ⟨q.subject, q.predicate, q.obj⟩) = some q.tripleId

variable {sub : PartialSub N} {T : Term N} {slot : Slot} {id : GraphElementId} {t : GraphElement N}

/-- What an embedded position adds to a solution. -/
def freeSolution : Slot → GraphElement N → Mapping String (GraphElement N)
  | .free v, t => single v t
  | .known _, _ | .unmatchable, _ => empty

theorem bindEnd_of_slot (hid : ds.resources.getGraphElement id = some t)
    {m : Mapping String (GraphElement N)} (hm : ∀ v e, meaning ds sub v = some e → m v = some e)
    (hslot : resolveSlot ds sub T = slot) (hmatch : slot ≠ .unmatchable)
    (hfit : ∀ x ∈ slot.id, id = x) : bindEnd m T t = m.merge (freeSolution slot t) := by
  subst hslot
  cases T with
  | var v =>
    rw [resolveSlot] at hmatch hfit ⊢
    cases hv : sub.lookup v with
    | none => exact bindVar_eq_merge m v t
    | some val =>
      simp only [hv] at hmatch hfit ⊢
      cases hval : val.toId ds with
      | none => rw [hval] at hmatch; exact absurd rfl hmatch
      | some x =>
        simp only [hval] at hfit ⊢
        have hx : id = x := hfit x rfl
        have hres := PartialSubValue.resolve_of_toId hval
        rw [← hx, hid] at hres
        have hmv : m v = some t := hm v t (by rw [meaning, hv]; exact hres)
        rw [freeSolution, merge_empty, bindEnd, bindVar_of_some hmv, if_pos rfl]
  | constant gel =>
    rw [resolveSlot] at hmatch hfit ⊢
    cases hgel : ds.resources.resourceMap.lookup gel with
    | none => rw [hgel] at hmatch; exact absurd rfl hmatch
    | some x =>
      simp only [hgel] at hfit ⊢
      have hx : id = x := hfit x rfl
      have hget : ds.resources.getGraphElement x = some gel := (ds.resources.exact gel x).mp hgel
      rw [← hx, hid] at hget
      rw [freeSolution, merge_empty, bindEnd, if_pos (Option.some.inj hget).symm]
  | tripleTerm s p o => exact absurd rfl hmatch

theorem bindFree_meaning {b : PartialSub N} (h : Valid ds b)
    (hid : ds.resources.getGraphElement id = some t) (slot : Slot) :
    (bindFree ds id b slot).map (meaning ds) = (meaning ds b).merge (freeSolution slot t) ∧
      ∀ r ∈ bindFree ds id b slot, Valid ds r := by
  cases slot with
  | free v =>
    rw [freeSolution, ← bindVar_eq_merge]
    exact bindVariable_meaning h hid
  | known | unmatchable =>
    rw [freeSolution, merge_empty]
    refine ⟨rfl, fun r hr => ?_⟩
    obtain rfl := Option.some.inj hr
    exact h

theorem slot_of_bindEnd (h : Valid ds sub) (hid : ds.resources.getGraphElement id = some t)
    {m m' : Mapping String (GraphElement N)} (hm : ∀ v e, meaning ds sub v = some e → m v = some e)
    (hbind : bindEnd m T t = some m') :
    resolveSlot ds sub T ≠ .unmatchable ∧ ∀ x ∈ (resolveSlot ds sub T).id, id = x := by
  obtain ⟨hnever, hfit⟩ := fits_of_bindEnd h hid hm hbind
  cases T with
  | var v =>
    rw [resolveMatchTerm] at hnever hfit
    rw [resolveSlot]
    cases hv : sub.lookup v with
    | none => simp [Slot.id]
    | some val =>
      simp only [hv] at hnever hfit ⊢
      cases hval : val.toId ds with
      | none => rw [hval] at hnever; exact absurd rfl hnever
      | some x =>
        simp only [hval] at hfit
        simpa [Slot.id] using hfit x rfl
  | constant gel =>
    rw [resolveMatchTerm] at hnever hfit
    rw [resolveSlot]
    cases hgel : ds.resources.resourceMap.lookup gel with
    | none => rw [hgel] at hnever; exact absurd rfl hnever
    | some x =>
      simp only [hgel] at hfit
      simpa [Slot.id] using hfit x rfl
  | tripleTerm s p o => cases hbind

variable {qs : QueryStore N}

theorem reifiedQuads_lists (hqs : qs.WellFormed) (s p o : Slot) :
    (reifiedQuads qs s p o).Nodup ∧ ∀ q, q ∈ reifiedQuads qs s p o ↔ q ∈ qs.reifiedTriples ∧
      (∀ x ∈ s.id, q.subject = x) ∧ (∀ x ∈ p.id, q.predicate = x) ∧ ∀ x ∈ o.id, q.obj = x := by
  by_cases hknown : ∃ i j k, s = .known i ∧ p = .known j ∧ o = .known k
  · obtain ⟨i, j, k, rfl, rfl, rfl⟩ := hknown
    rw [reifiedQuads]
    cases hterm : qs.resources.resourceMap.lookup (.tripleTerm ⟨i, j, k⟩) with
    | none =>
      refine ⟨List.nodup_nil, fun q => ?_⟩
      simp only [List.not_mem_nil, false_iff]
      rintro ⟨hq, hs, hp, ho⟩
      have hlookup := (hqs.reified q).mp hq
      rw [hs i rfl, hp j rfl, ho k rfl, hterm] at hlookup
      cases hlookup
    | some id =>
      refine ⟨List.nodup_singleton _, fun q => ?_⟩
      rw [List.mem_singleton]
      constructor
      · intro hq
        subst hq
        exact ⟨(hqs.reified ⟨id, i, j, k⟩).mpr hterm, fun x hx => Option.some.inj hx,
          fun x hx => Option.some.inj hx, fun x hx => Option.some.inj hx⟩
      · rintro ⟨hq, hs, hp, ho⟩
        have hlookup := (hqs.reified q).mp hq
        rw [hs i rfl, hp j rfl, ho k rfl, hterm] at hlookup
        exact Quad.ext (Option.some.inj hlookup).symm (hs i rfl) (hp j rfl) (ho k rfl)
  · have hscan : reifiedQuads qs s p o = qs.reifiedTriples.quadsMatching none s.id p.id o.id := by
      rw [reifiedQuads.eq_def]
      split
      · next i j k => exact absurd ⟨i, j, k, rfl, rfl, rfl⟩ hknown
      · rfl
    rw [hscan]
    refine ⟨QuadStore.nodup_quadsMatching .., fun q => ?_⟩
    rw [QuadStore.mem_quadsMatching, QuadTable.Fits]
    simp

def embeddedSolution (s p o : Term N) (e : QuadResource N) (m : Mapping String (GraphElement N)) :
    Option (Mapping String (GraphElement N)) :=
  bindTriple m ⟨s, p, o⟩ e.subject e.predicate e.obj

theorem merges_embeddedSolution (s p o : Term N) (e : QuadResource N) :
    Merges (embeddedSolution s p o e) :=
  (merges_bindEnd s e.subject).bind
    ((merges_bindEnd p e.predicate).bind (merges_bindEnd o e.obj))

theorem candidate_meaning (h : Valid ds sub) {s p o : Term N} {q : Quad} {e : QuadResource N}
    (he : ds.resources.getResourceQuad q = some e)
    (hs : resolveSlot ds sub s ≠ .unmatchable ∧ ∀ x ∈ (resolveSlot ds sub s).id, q.subject = x)
    (hp : resolveSlot ds sub p ≠ .unmatchable ∧ ∀ x ∈ (resolveSlot ds sub p).id, q.predicate = x)
    (ho : resolveSlot ds sub o ≠ .unmatchable ∧ ∀ x ∈ (resolveSlot ds sub o).id, q.obj = x) :
    let bindings := (bindFree ds q.subject ∅ (resolveSlot ds sub s)).bind fun b =>
      (bindFree ds q.predicate b (resolveSlot ds sub p)).bind fun b =>
        bindFree ds q.obj b (resolveSlot ds sub o)
    (bindings.bind (mergeSolutions ds sub)).map (meaning ds) =
        embeddedSolution s p o e (meaning ds sub) ∧
      ∀ r ∈ bindings.bind (mergeSolutions ds sub), Valid ds r := by
  intro bindings
  obtain ⟨-, hes, hep, heo⟩ := GraphElementManager.getResourceQuad_eq_some.mp he
  let free (m : Mapping String (GraphElement N)) : Option (Mapping String (GraphElement N)) :=
    (m.merge (freeSolution (resolveSlot ds sub s) e.subject)).bind fun m =>
      (m.merge (freeSolution (resolveSlot ds sub p) e.predicate)).bind fun m =>
        m.merge (freeSolution (resolveSlot ds sub o) e.obj)
  have hmerges (d : Mapping String (GraphElement N)) :
      Merges fun m : Mapping String (GraphElement N) => m.merge d := by
    intro m
    change m.merge d = (empty.merge d).bind m.merge
    rw [empty_merge, Option.bind_some]
  have hfree : Merges free := (hmerges _).bind ((hmerges _).bind (hmerges _))
  have hbindings : bindings.map (meaning ds) = free empty ∧ ∀ r ∈ bindings, Valid ds r := by
    apply bind_meaning
    · have hb := bindFree_meaning (valid_empty ds) hes (resolveSlot ds sub s)
      rwa [meaning_empty] at hb
    intro b₁ h₁
    apply bind_meaning (bindFree_meaning h₁ hep _)
    intro b₂ h₂
    exact bindFree_meaning h₂ heo _
  have hsolution : embeddedSolution s p o e (meaning ds sub) = free (meaning ds sub) := by
    rw [embeddedSolution, bindTriple,
      bindEnd_of_slot hes (fun _ _ hv => hv) rfl hs.1 hs.2]
    apply Option.bind_congr
    intro m₁ hm₁
    have hext₁ (v : String) (x : GraphElement N) (hv : meaning ds sub v = some x) :
        m₁ v = some x := by
      rw [← (merge_eq_some.mp hm₁).2, Mapping.union, hv, Option.some_or]
    rw [bindEnd_of_slot hep hext₁ rfl hp.1 hp.2]
    apply Option.bind_congr
    intro m₂ hm₂
    have hext₂ (v : String) (x : GraphElement N) (hv : meaning ds sub v = some x) :
        m₂ v = some x := by
      rw [← (merge_eq_some.mp hm₂).2, Mapping.union, hext₁ v x hv, Option.some_or]
    exact bindEnd_of_slot heo hext₂ rfl ho.1 ho.2
  rw [hsolution, hfree (meaning ds sub)]
  exact bind_meaning hbindings fun b hb => mergeSolutions_meaning h hb

def reifiedList (qs : QueryStore N) : List Quad :=
  qs.reifiedTriples.quadsMatching none none none none

theorem mem_reifiedList {q : Quad} : q ∈ reifiedList qs ↔ q ∈ qs.reifiedTriples := by
  simp [reifiedList, QuadStore.mem_quadsMatching, QuadTable.Fits]

/-- What the triple term `q` makes of a solution, as the subject `s p o` of a pattern. -/
def termSolution (qs : QueryStore N) (s p o : Term N) (q : Quad)
    (m : Mapping String (GraphElement N)) : Option (Mapping String (GraphElement N)) :=
  (qs.resources.getResourceQuad q).bind fun e => embeddedSolution s p o e m

/-- The solutions of a pattern that extend `m` and have the triple term `q` for their subject. -/
noncomputable def termBag (qs : QueryStore N) (ag : ActiveGraph) (tp : TriplePattern N)
    (s p o : Term N) (m : Mapping String (GraphElement N)) (q : Quad) :
    Multiset (Mapping String (GraphElement N)) :=
  ((termSolution qs s p o q m).map
    (join (coreBag qs.toDatastore ag tp (some q.tripleId)))).getD 0

/-- The solutions of a pattern on its own. -/
noncomputable def patternBag (qs : QueryStore N) (ag : ActiveGraph) (tp : TriplePattern N) :
    Multiset (Mapping String (GraphElement N)) :=
  match tp.subject with
  | .tripleTerm s p o => (reifiedList qs : Multiset Quad).bind (termBag qs ag tp s p o empty)
  | _ => coreBag qs.toDatastore ag tp none

def termRows (qs : QueryStore N) (ag : ActiveGraph) (tp : TriplePattern N) (sub : PartialSub N)
    (s p o : Slot) (q : Quad) : List (PartialSub N) :=
  ((((bindFree qs.toDatastore q.subject ∅ s).bind fun b =>
    (bindFree qs.toDatastore q.predicate b p).bind fun b =>
      bindFree qs.toDatastore q.obj b o).bind (mergeSolutions qs.toDatastore sub)).map fun merged =>
        evalTriplePatternCore qs.toDatastore ag tp (some q.tripleId) merged none).getD []

theorem evalTriplePattern_tripleTerm {ag : ActiveGraph} {tp : TriplePattern N} {s p o : Term N}
    (hT : tp.subject = .tripleTerm s p o)
    (hs : resolveSlot qs.toDatastore sub s ≠ .unmatchable)
    (hp : resolveSlot qs.toDatastore sub p ≠ .unmatchable)
    (ho : resolveSlot qs.toDatastore sub o ≠ .unmatchable) :
    evalTriplePattern qs ag tp sub none =
      (reifiedQuads qs (resolveSlot qs.toDatastore sub s) (resolveSlot qs.toDatastore sub p)
        (resolveSlot qs.toDatastore sub o)).flatMap
          (termRows qs ag tp sub (resolveSlot qs.toDatastore sub s)
            (resolveSlot qs.toDatastore sub p) (resolveSlot qs.toDatastore sub o)) := by
  have hflat {α β γ : Type} (f : α → Option β) (g : β → List γ) (l : List α) :
      (l.filterMap f).flatMap g = l.flatMap fun a => ((f a).map g).getD [] := by
    induction l with
    | nil => rfl
    | cons a l ih =>
      rw [List.filterMap_cons, List.flatMap_cons, ← ih]
      cases f a with
      | none => rfl
      | some b => rw [List.flatMap_cons]; rfl
  rw [evalTriplePattern, hT]
  simp only [tripleTermCandidates, hs, hp, ho, or_self, if_false]
  rw [hflat]
  congr 1
  funext q
  rw [termRows]
  cases (bindFree qs.toDatastore q.subject ∅ (resolveSlot qs.toDatastore sub s)).bind fun b =>
      (bindFree qs.toDatastore q.predicate b (resolveSlot qs.toDatastore sub p)).bind fun b =>
        bindFree qs.toDatastore q.obj b (resolveSlot qs.toDatastore sub o) with
  | none => rfl
  | some b =>
    simp only [Option.map_some, Option.getD_some, Option.bind_some]
    cases mergeSolutions qs.toDatastore sub b <;> rfl

theorem join_patternBag {ag : ActiveGraph} {tp : TriplePattern N} {s p o : Term N}
    (hT : tp.subject = .tripleTerm s p o) (m : Mapping String (GraphElement N)) :
    join (patternBag qs ag tp) m =
      (reifiedList qs : Multiset Quad).bind (termBag qs ag tp s p o m) := by
  rw [patternBag, hT, join, Multiset.filterMap_bind]
  apply Multiset.bind_congr
  intro q _
  have hmerges : Merges (termSolution qs s p o q) := by
    unfold termSolution
    cases qs.resources.getResourceQuad q with
    | none => exact merges_none
    | some e => exact merges_embeddedSolution s p o e
  rw [termBag, termBag, hmerges m, bind_filterMap_merge]
  rfl

theorem mem_reifiedQuads_of_solution (hqs : qs.WellFormed) (h : Valid qs.toDatastore sub)
    {s p o : Term N} {q : Quad} (hq : q ∈ qs.reifiedTriples)
    (hsome : (termSolution qs s p o q (meaning qs.toDatastore sub)).isSome) :
    resolveSlot qs.toDatastore sub s ≠ .unmatchable ∧
      resolveSlot qs.toDatastore sub p ≠ .unmatchable ∧
        resolveSlot qs.toDatastore sub o ≠ .unmatchable ∧
          q ∈ reifiedQuads qs (resolveSlot qs.toDatastore sub s)
            (resolveSlot qs.toDatastore sub p) (resolveSlot qs.toDatastore sub o) := by
  obtain ⟨m, hm⟩ := Option.isSome_iff_exists.mp hsome
  obtain ⟨e, he, hm⟩ := Option.bind_eq_some_iff.mp hm
  obtain ⟨-, hes, hep, heo⟩ := GraphElementManager.getResourceQuad_eq_some.mp he
  obtain ⟨m₁, hm₁, hm⟩ := Option.bind_eq_some_iff.mp hm
  obtain ⟨m₂, hm₂, hm⟩ := Option.bind_eq_some_iff.mp hm
  have hext₁ (v : String) (x : GraphElement N) (hv : meaning qs.toDatastore sub v = some x) :
      m₁ v = some x := bindEnd_extends hm₁ hv
  have hext₂ (v : String) (x : GraphElement N) (hv : meaning qs.toDatastore sub v = some x) :
      m₂ v = some x := bindEnd_extends hm₂ (hext₁ v x hv)
  obtain ⟨hs, hfs⟩ := slot_of_bindEnd h hes (fun _ _ hv => hv) hm₁
  obtain ⟨hp, hfp⟩ := slot_of_bindEnd h hep hext₁ hm₂
  obtain ⟨ho, hfo⟩ := slot_of_bindEnd h heo hext₂ hm
  exact ⟨hs, hp, ho, ((reifiedQuads_lists hqs _ _ _).2 q).mpr ⟨hq, hfs, hfp, hfo⟩⟩

theorem termRows_spec (hqs : qs.WellFormed) (h : Valid qs.toDatastore sub) (ag : ActiveGraph)
    {tp : TriplePattern N} {s p o : Term N} (hT : tp.subject = .tripleTerm s p o)
    (hs : resolveSlot qs.toDatastore sub s ≠ .unmatchable)
    (hp : resolveSlot qs.toDatastore sub p ≠ .unmatchable)
    (ho : resolveSlot qs.toDatastore sub o ≠ .unmatchable) {q : Quad}
    (hq : q ∈ reifiedQuads qs (resolveSlot qs.toDatastore sub s)
      (resolveSlot qs.toDatastore sub p) (resolveSlot qs.toDatastore sub o)) :
    let rows := termRows qs ag tp sub (resolveSlot qs.toDatastore sub s)
      (resolveSlot qs.toDatastore sub p) (resolveSlot qs.toDatastore sub o) q
    (∀ r ∈ rows, Valid qs.toDatastore r) ∧ bag (meaning qs.toDatastore) rows =
      termBag qs ag tp s p o (meaning qs.toDatastore sub) q := by
  intro rows
  have hplaced : Placed tp (some q.tripleId) := by simp [Placed, hT, Term.isPlain]
  obtain ⟨hstored, hfs, hfp, hfo⟩ := ((reifiedQuads_lists hqs _ _ _).2 q).mp hq
  obtain ⟨e, he⟩ := Option.isSome_iff_exists.mp (hqs.reifiedInterned q hstored)
  obtain ⟨hsome, hvalid⟩ := candidate_meaning h he ⟨hs, hfs⟩ ⟨hp, hfp⟩ ⟨ho, hfo⟩
  have hsolution : termSolution qs s p o q (meaning qs.toDatastore sub) =
      embeddedSolution s p o e (meaning qs.toDatastore sub) := by
    rw [termSolution, he, Option.bind_some]
  rw [termBag, hsolution, ← hsome]
  cases hmerged : ((bindFree qs.toDatastore q.subject ∅
      (resolveSlot qs.toDatastore sub s)).bind fun b =>
        (bindFree qs.toDatastore q.predicate b (resolveSlot qs.toDatastore sub p)).bind fun b =>
          bindFree qs.toDatastore q.obj b (resolveSlot qs.toDatastore sub o)).bind
            (mergeSolutions qs.toDatastore sub) with
  | none =>
    have hrows : rows = [] := by
      simp only [rows, termRows, hmerged, Option.map_none, Option.getD_none]
    rw [hrows]
    exact ⟨fun r hr => (List.not_mem_nil hr).elim, rfl⟩
  | some merged =>
    have hrows : rows =
        evalTriplePatternCore qs.toDatastore ag tp (some q.tripleId) merged none := by
      simp only [rows, termRows, hmerged, Option.map_some, Option.getD_some]
    rw [hrows]
    exact ⟨(rows_of_fetched hqs.interned (hvalid merged hmerged) hplaced).1,
      bag_evalTriplePatternCore hqs.interned (hvalid merged hmerged) hplaced⟩

theorem bind_getD_congr {α β γ : Type} {f : α → Option β} {xs ys : List α} (hxs : xs.Nodup)
    (hys : ys.Nodup) (h : ∀ a, (f a).isSome → (a ∈ xs ↔ a ∈ ys)) (g : α → β → Multiset γ) :
    (xs : Multiset α).bind (fun a => ((f a).map (g a)).getD 0) =
      (ys : Multiset α).bind fun a => ((f a).map (g a)).getD 0 := by
  have hbind (zs : List α) : (zs : Multiset α).bind (fun a => ((f a).map (g a)).getD 0) =
      ((zs.filterMap fun a => (f a).map (Prod.mk a) : List (α × β)) : Multiset (α × β)).bind
        fun x => g x.1 x.2 := by
    rw [← Multiset.filterMap_coe, Multiset.bind_filterMap]
    apply Multiset.bind_congr
    intro a _
    cases f a <;> rfl
  rw [hbind, hbind]
  congr 1
  apply Multiset.coe_eq_coe.mpr
  apply filterMap_perm hxs hys
  intro a ha
  rw [Option.isSome_map] at ha
  exact h a ha

theorem evalTriplePattern_spec (hqs : qs.WellFormed) (ag : ActiveGraph) (tp : TriplePattern N)
    (h : Valid qs.toDatastore sub) :
    (∀ r ∈ evalTriplePattern qs ag tp sub none, Valid qs.toDatastore r) ∧
      bag (meaning qs.toDatastore) (evalTriplePattern qs ag tp sub none) =
        join (patternBag qs ag tp) (meaning qs.toDatastore sub) := by
  cases hT : tp.subject with
  | var | constant =>
    have hplaced : Placed tp none := by simp [Placed, hT, Term.isPlain]
    rw [evalTriplePattern, patternBag, hT]
    exact ⟨(rows_of_fetched hqs.interned h hplaced).1,
      bag_evalTriplePatternCore hqs.interned h hplaced⟩
  | tripleTerm s p o =>
    rw [join_patternBag hT]
    have hall : (reifiedList qs).Nodup := QuadStore.nodup_quadsMatching ..
    by_cases hmatch : resolveSlot qs.toDatastore sub s ≠ .unmatchable ∧
        resolveSlot qs.toDatastore sub p ≠ .unmatchable ∧
          resolveSlot qs.toDatastore sub o ≠ .unmatchable
    · obtain ⟨hs, hp, ho⟩ := hmatch
      obtain ⟨hnodup, hmem⟩ := reifiedQuads_lists hqs (resolveSlot qs.toDatastore sub s)
        (resolveSlot qs.toDatastore sub p) (resolveSlot qs.toDatastore sub o)
      rw [evalTriplePattern_tripleTerm hT hs hp ho]
      constructor
      · intro r hr
        obtain ⟨q, hq, hr⟩ := List.mem_flatMap.mp hr
        exact (termRows_spec hqs h ag hT hs hp ho hq).1 r hr
      · rw [bag_flatMap, Multiset.bind_congr fun q hq => (termRows_spec hqs h ag hT hs hp ho hq).2]
        apply bind_getD_congr hnodup hall
        intro q hsome
        rw [mem_reifiedList]
        constructor
        · intro hq
          exact ((hmem q).mp hq).1
        · intro hq
          exact (mem_reifiedQuads_of_solution hqs h hq hsome).2.2.2
    · have hrows : evalTriplePattern qs ag tp sub none = [] := by
        have hor : resolveSlot qs.toDatastore sub s = .unmatchable ∨
            resolveSlot qs.toDatastore sub p = .unmatchable ∨
              resolveSlot qs.toDatastore sub o = .unmatchable := by
          simpa only [not_and_or, not_not, ne_eq] using hmatch
        rw [evalTriplePattern, hT]
        simp only [tripleTermCandidates, if_pos hor, List.flatMap_nil]
      rw [hrows]
      refine ⟨fun r hr => (List.not_mem_nil hr).elim, ?_⟩
      apply bind_getD_congr List.nodup_nil hall
      intro q hsome
      rw [mem_reifiedList]
      refine ⟨fun hq => (List.not_mem_nil hq).elim, fun hq => ?_⟩
      obtain ⟨hs, hp, ho, -⟩ := mem_reifiedQuads_of_solution hqs h hq hsome
      exact absurd ⟨hs, hp, ho⟩ hmatch

end TripleTerms

section Bgp

variable {qs : QueryStore N} {ag : ActiveGraph}

/-- The solutions of a BGP on its own. -/
noncomputable def bgpBag (qs : QueryStore N) (ag : ActiveGraph) :
    List (TriplePattern N) → Multiset (Mapping String (GraphElement N))
  | [] => {empty}
  | tp :: tps => (patternBag qs ag tp).bind (join (bgpBag qs ag tps))

theorem join_bgpBag_cons (tp : TriplePattern N) (tps : List (TriplePattern N))
    (m : Mapping String (GraphElement N)) :
    join (bgpBag qs ag (tp :: tps)) m =
      (join (patternBag qs ag tp) m).bind (join (bgpBag qs ag tps)) :=
  (join_bind _ _ m).symm

theorem bgpBag_perm {tps tps' : List (TriplePattern N)} (h : tps.Perm tps') :
    bgpBag qs ag tps = bgpBag qs ag tps' := by
  induction h with
  | nil => rfl
  | cons tp _ ih => rw [bgpBag, bgpBag, ih]
  | swap tp tp' tps =>
    have hstep (tp tp' : TriplePattern N) : bgpBag qs ag (tp :: tp' :: tps) =
        ((patternBag qs ag tp).bind (join (patternBag qs ag tp'))).bind
          (join (bgpBag qs ag tps)) := by
      rw [bgpBag, Multiset.bind_assoc]
      exact Multiset.bind_congr fun m _ => join_bgpBag_cons tp' tps m
    rw [hstep tp' tp, hstep tp tp', bind_join_comm (patternBag qs ag tp')]
  | trans _ _ ih ih' => exact ih.trans ih'

theorem evalPattern_denotes (hqs : qs.WellFormed) (tp : TriplePattern N) :
    RdfDatalog.Denotes (meaning qs.toDatastore) (Valid qs.toDatastore)
      (evalPatternRows (evalTriplePattern qs ag tp) none) (join (patternBag qs ag tp)) :=
  denotes_flatMap (fun _ h => (evalTriplePattern_spec hqs ag tp h).1)
    fun _ h => (evalTriplePattern_spec hqs ag tp h).2

theorem evalOrdered_denotes (hqs : qs.WellFormed) (tps : List (TriplePattern N)) :
    RdfDatalog.Denotes (meaning qs.toDatastore) (Valid qs.toDatastore) (evalOrdered qs ag none tps)
      (join (bgpBag qs ag tps)) := by
  induction tps with
  | nil =>
    have hjoin : join (bgpBag qs ag []) = fun m => {m} := by
      funext m
      simp [bgpBag, join, Multiset.filterMap_eq_bind]
    rw [hjoin]
    refine ⟨fun rows hrows => hrows, fun rows _ => ?_⟩
    rw [Multiset.bind_singleton, Multiset.map_id']
    rfl
  | cons tp tps ih =>
    have hstep : evalOrdered qs ag none (tp :: tps) = fun rows =>
        evalOrdered qs ag none tps (evalPatternRows (evalTriplePattern qs ag tp) none rows) := by
      funext rows
      rw [evalOrdered, ite_self]
      cases hnext : evalPatternRows (evalTriplePattern qs ag tp) none rows with
      | cons r rest => rfl
      | nil =>
        have hnil : evalOrdered qs ag none tps [] = [] := by
          cases tps with
          | nil => rfl
          | cons tp tps =>
            rw [evalOrdered, ite_self]
            rfl
        rw [hnil]
        rfl
    rw [hstep, funext (join_bgpBag_cons tp tps)]
    exact (evalPattern_denotes hqs tp).comp ih

theorem evalBgp_denotes (hqs : qs.WellFormed) (patterns : List (TriplePattern N)) :
    RdfDatalog.Denotes (meaning qs.toDatastore) (Valid qs.toDatastore)
      (fun rows => evalBgp qs ag patterns rows none) (join (bgpBag qs ag patterns)) := by
  constructor
  · intro rows hrows
    exact (evalOrdered_denotes hqs _).good rows hrows
  · intro rows hrows
    rw [evalBgp.eq_def, (evalOrdered_denotes hqs _).bag_eq rows hrows,
      bgpBag_perm (orderPatterns_perm qs.toDatastore patterns _)]

end Bgp

section Variables

variable {qs : QueryStore N} {ag : ActiveGraph} {tp : TriplePattern N}
  {m m' d : Mapping String (GraphElement N)}

def ActiveGraph.variables : ActiveGraph → Finset String
  | .fixed _ => ∅
  | .var v => {v}

theorem bindVar_binds {v : String} {t : GraphElement N} (h : m.bindVar v t = some m') :
    Binds {v} m m' := by
  obtain ⟨hor, rfl⟩ := Mapping.bindVar_eq_some.mp h
  refine ⟨fun w hw => Mapping.set_of_ne hw, fun w x hw => ?_, fun w hw => ?_⟩
  · by_cases hwv : w = v
    · subst hwv
      rw [hw] at hor
      rw [Mapping.set_same]
      exact (hor.resolve_left (by simp)).symm
    · rw [Mapping.set_of_ne hwv, hw]
  · obtain rfl : w = v := hw
    rw [Mapping.set_same]
    exact Option.some_ne_none t

theorem bindEnd_binds {T : Term N} {t : GraphElement N} (h : bindEnd m T t = some m') :
    Binds ↑T.variables m m' := by
  cases T with
  | var v =>
    rw [Term.variables, Finset.coe_singleton]
    exact bindVar_binds h
  | constant gel =>
    rw [bindEnd] at h
    split_ifs at h
    obtain rfl := Option.some.inj h
    rw [Term.variables, Finset.coe_empty]
    exact Binds.refl m
  | tripleTerm s p o => cases h

/-- The variables of a subject; those of a triple term are bound when it is looked up. -/
def Term.ownVariables : Term N → Finset String
  | .tripleTerm _ _ _ => ∅
  | T => T.variables

def bgpVariables (patterns : List (TriplePattern N)) : Finset String :=
  patterns.foldr (fun tp vars => tp.variables ∪ vars) ∅

/-- The variable of the active graph, where a BGP binds it. -/
def scopeVariables (ag : ActiveGraph) : List (TriplePattern N) → Finset String
  | [] => ∅
  | _ :: _ => ag.variables

end Variables

end RdfDatalog.Sparql
