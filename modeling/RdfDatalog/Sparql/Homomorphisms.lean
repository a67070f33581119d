import RdfDatalog.Sparql.BgpBag

namespace RdfDatalog.Sparql

open Mapping GraphElementManager

variable {N : NativeTypes}

section Meaning

def Term.IsElement (ds : Datastore N) (m : Mapping String (GraphElement N)) :
    Term N → GraphElement N → Prop
  | .var v, e => m v = some e
  | .constant gel, e => gel = e
  | .tripleTerm s p o, e => ∃ k es ep eo, e = .tripleTerm k ∧ e ∈ ds.resources.resourceList ∧
      ds.resources.getGraphElement k.subject = some es ∧
      ds.resources.getGraphElement k.predicate = some ep ∧
      ds.resources.getGraphElement k.obj = some eo ∧
      s.IsElement ds m es ∧ p.IsElement ds m ep ∧ o.IsElement ds m eo

def TriplePattern.Holds (ds : Datastore N) (g : GraphElementId) (tp : TriplePattern N)
    (m : Mapping String (GraphElement N)) : Prop :=
  ∃ q ∈ ds.namedGraphs, q.tripleId = g ∧ ∃ e, ds.resources.getResourceQuad q = some e ∧
    tp.subject.IsElement ds m e.subject ∧ tp.predicate.IsElement ds m e.predicate ∧
    tp.object.IsElement ds m e.obj

/-- The ways to extend a mapping to the variables of the patterns such that each of them is a
stored quad of the graph. -/
def homomorphisms (ds : Datastore N) (g : GraphElementId) (patterns : List (TriplePattern N))
    (m : Mapping String (GraphElement N)) : Set (Mapping String (GraphElement N)) :=
  {x | Binds ↑(bgpVariables patterns) m x ∧ ∀ tp ∈ patterns, tp.Holds ds g x}

/-- A triple term stands at most for the subject, and its parts are no triple terms. -/
def TriplePattern.isSupported (tp : TriplePattern N) : Bool :=
  tp.predicate.isPlain && tp.object.isPlain && match tp.subject with
    | .tripleTerm s p o => s.isPlain && p.isPlain && o.isPlain
    | _ => true

end Meaning

section Ends

variable {ds : Datastore N} {m m' : Mapping String (GraphElement N)} {T : Term N}
  {t t' : GraphElement N}

theorem reads_isElement (ds : Datastore N) (T : Term N) (t : GraphElement N) :
    Reads ↑T.variables fun m => T.IsElement ds m t := by
  induction T generalizing t with
  | var v =>
    intro m m' h hm
    exact (h v (by simp [Term.variables])).symm.trans hm
  | constant gel => exact fun _ _ _ hm => hm
  | tripleTerm s p o hs hp ho =>
    rintro m m' h ⟨k, es, ep, eo, ht, hmem, hes, hep, heo, h₁, h₂, h₃⟩
    have hsub {U : Finset String} (hU : U ⊆ (Term.tripleTerm s p o).variables) : AgreeOn ↑U m m' :=
      h.mono (Finset.coe_subset.mpr hU)
    refine ⟨k, es, ep, eo, ht, hmem, hes, hep, heo, hs _ m m' (hsub ?_) h₁,
      hp _ m m' (hsub ?_) h₂, ho _ m m' (hsub ?_) h₃⟩
    · exact (Finset.subset_union_left).trans Finset.subset_union_left
    · exact (Finset.subset_union_right).trans Finset.subset_union_left
    · exact Finset.subset_union_right

theorem isElement_unique (h : T.isPlain = true) (ht : T.IsElement ds m t)
    (ht' : T.IsElement ds m t') : t = t' := by
  cases T with
  | var v => exact Option.some.inj (ht.symm.trans ht')
  | constant gel => exact ht.symm.trans ht'
  | tripleTerm s p o => cases h

theorem bindsBy_bindEnd (ds : Datastore N) (h : T.isPlain = true) (t : GraphElement N) :
    BindsBy ↑T.variables (fun m => T.IsElement ds m t) fun m => bindEnd m T t := by
  intro m m'
  constructor
  · intro hm
    refine ⟨bindEnd_binds hm, ?_⟩
    cases T with
    | var v =>
      obtain ⟨-, rfl⟩ := Mapping.bindVar_eq_some.mp hm
      exact Mapping.set_same m v t
    | constant gel =>
      simp only [bindEnd] at hm
      split_ifs at hm with heq
      exact heq
    | tripleTerm s p o => cases h
  · rintro ⟨hb, hm'⟩
    cases T with
    | var v =>
      have hv : m' v = some t := hm'
      refine Mapping.bindVar_eq_some.mpr ⟨?_, ?_⟩
      · cases hmv : m v with
        | none => exact .inl rfl
        | some x =>
          rw [← hv, hb.grows v x hmv]
          exact .inr rfl
      · funext w
        by_cases hw : w = v
        · rw [hw, hv, Mapping.set_same]
        · rw [Mapping.set_of_ne hw]
          exact hb.keeps w (by simp [Term.variables, hw])
    | constant gel =>
      have heq : m' = m := funext fun v => hb.keeps v (by simp [Term.variables])
      have hgel : gel = t := hm'
      simp only [bindEnd, if_pos hgel, heq]
    | tripleTerm s p o => cases h

end Ends

section Patterns

variable {qs : QueryStore N} {g : GraphElementId} {tp : TriplePattern N}
  {forced : Option GraphElementId} {q : Quad} {e : QuadResource N}

/-- The subject of a quad is right, unless it was looked up before. -/
def SubjectIs (ds : Datastore N) (T : Term N) (t : GraphElement N)
    (m : Mapping String (GraphElement N)) : Prop :=
  T.isPlain = true → T.IsElement ds m t

theorem ownVariables_of_isPlain {T : Term N} (h : T.isPlain = true) :
    T.ownVariables = T.variables := by
  cases T with
  | tripleTerm s p o => cases h
  | _ => rfl

variable (ds : Datastore N)

include ds

theorem reads_subjectIs (T : Term N) (t : GraphElement N) :
    Reads ↑T.ownVariables (SubjectIs ds T t) := by
  intro m m' h hm hplain
  rw [ownVariables_of_isPlain hplain] at h
  exact reads_isElement ds T t m m' h (hm hplain)

theorem bindsBy_bindSubject (T : Term N) (t : GraphElement N) :
    BindsBy ↑T.ownVariables (SubjectIs ds T t) fun m => bindSubject m T t := by
  by_cases hplain : T.isPlain = true
  · intro m m'
    have h := bindsBy_bindEnd ds hplain t m m'
    change bindSubject m T t = some m' ↔ _
    change bindEnd m T t = some m' ↔ _ at h
    rw [bindSubject_of_isPlain hplain, ownVariables_of_isPlain hplain, h]
    exact and_congr_right fun _ => ⟨fun hm' _ => hm', fun hm' => hm' hplain⟩
  · cases T with
    | tripleTerm s p o =>
      intro m m'
      have h := bindsBy_some m m'
      simpa [bindSubject, Term.ownVariables, SubjectIs, Term.isPlain] using h
    | var v => exact absurd rfl hplain
    | constant gel => exact absurd rfl hplain

omit ds

def Matches (ds : Datastore N) (tp : TriplePattern N) (e : QuadResource N)
    (m : Mapping String (GraphElement N)) : Prop :=
  SubjectIs ds tp.subject e.subject m ∧ tp.predicate.IsElement ds m e.predicate ∧
    tp.object.IsElement ds m e.obj

/-- The variables that a quad binds. -/
def TriplePattern.ownVariables (tp : TriplePattern N) : Set String :=
  ↑tp.subject.ownVariables ∪ (↑tp.predicate.variables ∪ ↑tp.object.variables)

include ds

theorem reads_matches (tp : TriplePattern N) (e : QuadResource N) :
    Reads tp.ownVariables (Matches ds tp e) :=
  (reads_subjectIs ds _ _).and ((reads_isElement ds _ _).and (reads_isElement ds _ _))

theorem bindsBy_quadSolution (hp : tp.predicate.isPlain = true)
    (ho : tp.object.isPlain = true) (e : QuadResource N) :
    BindsBy tp.ownVariables (Matches ds tp e) (quadSolution (.fixed g) tp e) := by
  have hscope (m : Mapping String (GraphElement N)) :
      (bindEnd m tp.object e.obj).bind (fun m => bindScope m (.fixed g) e.graph) =
        bindEnd m tp.object e.obj := by
    cases bindEnd m tp.object e.obj <;> rfl
  have hobject : BindsBy ↑tp.object.variables (fun m => tp.object.IsElement ds m e.obj)
      fun m => (bindEnd m tp.object e.obj).bind fun m => bindScope m (.fixed g) e.graph := by
    simp only [hscope]
    exact bindsBy_bindEnd ds ho e.obj
  exact (bindsBy_bindSubject ds tp.subject e.subject).bind
    ((bindsBy_bindEnd ds hp e.predicate).bind hobject (reads_isElement ds _ _))
    (reads_subjectIs ds _ _)

omit ds

/-- A quad of the graph that is an instance of the pattern, with the given subject. -/
def HoldsAt (ds : Datastore N) (g : GraphElementId) (tp : TriplePattern N)
    (forced : Option GraphElementId) (m : Mapping String (GraphElement N)) : Prop :=
  ∃ q ∈ ds.namedGraphs, q.tripleId = g ∧ (∀ x ∈ forced, q.subject = x) ∧
    ∃ e, ds.resources.getResourceQuad q = some e ∧ Matches ds tp e m

include ds

theorem reads_holdsAt (g : GraphElementId) (tp : TriplePattern N)
    (forced : Option GraphElementId) : Reads tp.ownVariables (HoldsAt ds g tp forced) := by
  intro m m' h ⟨q, hq, hg, hs, e, he, hm⟩
  exact ⟨q, hq, hg, hs, e, he, reads_matches ds tp e m m' h hm⟩

theorem listsOnce_coreBag (hp : tp.predicate.isPlain = true)
    (ho : tp.object.isPlain = true) (hplaced : Placed tp forced) :
    ListsOnce tp.ownVariables (HoldsAt ds g tp forced) (coreBag ds (.fixed g) tp forced) where
  nodup := by
    rw [coreBag, ← Multiset.filterMap_coe]
    apply nodup_filterMap_of_inj (Multiset.coe_nodup.mpr (nodup_patternQuads ..))
    intro q hq q' hq' d hd hd'
    obtain ⟨-, hg, hs⟩ := mem_patternQuads.mp (Multiset.mem_coe.mp hq)
    obtain ⟨-, hg', hs'⟩ := mem_patternQuads.mp (Multiset.mem_coe.mp hq')
    obtain ⟨e, he, hd⟩ := Option.bind_eq_some_iff.mp hd
    obtain ⟨e', he', hd'⟩ := Option.bind_eq_some_iff.mp hd'
    obtain ⟨-, hms, hmp, hmo⟩ := (bindsBy_quadSolution ds hp ho e _ d).mp hd
    obtain ⟨-, hms', hmp', hmo'⟩ := (bindsBy_quadSolution ds hp ho e' _ d).mp hd'
    obtain ⟨-, hes, hep, heo⟩ := getResourceQuad_eq_some.mp he
    obtain ⟨-, hes', hep', heo'⟩ := getResourceQuad_eq_some.mp he'
    have hsubject : q.subject = q'.subject := by
      cases forced with
      | some x => rw [hs x rfl, hs' x rfl]
      | none =>
        have hplain := hplaced.mp rfl
        rw [isElement_unique hplain (hms' hplain) (hms hplain)] at hes'
        exact getGraphElement_inj hes hes'
    rw [isElement_unique hp hmp' hmp] at hep'
    rw [isElement_unique ho hmo' hmo] at heo'
    exact Quad.ext ((hg g rfl).trans (hg' g rfl).symm) hsubject
      (getGraphElement_inj hep hep')
      (getGraphElement_inj heo heo')
  mem d := by
    rw [coreBag, Multiset.mem_coe, List.mem_filterMap]
    constructor
    · rintro ⟨q, hq, hd⟩
      obtain ⟨hmem, hg, hs⟩ := mem_patternQuads.mp hq
      obtain ⟨e, he, hd⟩ := Option.bind_eq_some_iff.mp hd
      obtain ⟨hb, hm⟩ := (bindsBy_quadSolution ds hp ho e _ d).mp hd
      exact ⟨hb, q, hmem, hg g rfl, hs, e, he, hm⟩
    · rintro ⟨hb, q, hmem, hg, hs, e, he, hm⟩
      refine ⟨q, mem_patternQuads.mpr ⟨hmem, fun id hid => ?_, hs⟩, ?_⟩
      · cases hid
        exact hg
      · rw [he]
        exact (bindsBy_quadSolution ds hp ho e _ d).mpr ⟨hb, hm⟩

omit ds

variable {s p o : Term N} {m : Mapping String (GraphElement N)}

include ds in
theorem bindsBy_embeddedSolution (hs : s.isPlain = true) (hp : p.isPlain = true)
    (ho : o.isPlain = true) (e : QuadResource N) :
    BindsBy (↑s.variables ∪ (↑p.variables ∪ ↑o.variables))
      (fun m => s.IsElement ds m e.subject ∧ p.IsElement ds m e.predicate ∧
        o.IsElement ds m e.obj) (embeddedSolution s p o e) :=
  (bindsBy_bindEnd ds hs e.subject).bind
    ((bindsBy_bindEnd ds hp e.predicate).bind (bindsBy_bindEnd ds ho e.obj)
      (reads_isElement ds _ _)) (reads_isElement ds _ _)

/-- The triple term `q` is the embedded triple. -/
def Embeds (ds : Datastore N) (s p o : Term N) (q : Quad) (m : Mapping String (GraphElement N)) :
    Prop :=
  ∃ e, ds.resources.getResourceQuad q = some e ∧ s.IsElement ds m e.subject ∧
    p.IsElement ds m e.predicate ∧ o.IsElement ds m e.obj

include ds in
theorem reads_embeds (s p o : Term N) (q : Quad) :
    Reads (↑s.variables ∪ (↑p.variables ∪ ↑o.variables)) (Embeds ds s p o q) := by
  intro m m' h ⟨e, he, hm⟩
  have hreads := (reads_isElement ds s e.subject).and
    ((reads_isElement ds p e.predicate).and (reads_isElement ds o e.obj))
  exact ⟨e, he, hreads m m' h hm⟩

theorem bindsBy_termSolution (hs : s.isPlain = true) (hp : p.isPlain = true) (ho : o.isPlain = true)
    (hq : qs.resources.Interned q) :
    BindsBy (↑s.variables ∪ (↑p.variables ∪ ↑o.variables)) (Embeds qs.toDatastore s p o q)
      (termSolution qs s p o q) := by
  obtain ⟨e, he⟩ := Option.isSome_iff_exists.mp hq
  intro m m'
  have h := bindsBy_embeddedSolution qs.toDatastore hs hp ho e m m'
  rw [termSolution, he, Option.bind_some, h]
  refine and_congr_right fun _ => ⟨fun hm => ⟨e, he, hm⟩, ?_⟩
  rintro ⟨e', he', hm⟩
  cases he.symm.trans he'
  exact hm

variable (hqs : qs.WellFormed)

include hqs

theorem exists_embeds_iff {id : GraphElementId} {t : GraphElement N}
    (hid : qs.resources.getGraphElement id = some t) :
    (∃ q ∈ reifiedList qs, Embeds qs.toDatastore s p o q m ∧ id = q.tripleId) ↔
      (Term.tripleTerm s p o).IsElement qs.toDatastore m t := by
  constructor
  · intro ⟨q, hq, ⟨e, he, hs, hp, ho⟩, heq⟩
    have hlookup := (hqs.reified q).mp (mem_reifiedList.mp hq)
    have hget := (qs.resources.exact _ _).mp hlookup
    obtain ⟨-, hes, hep, heo⟩ := getResourceQuad_eq_some.mp he
    rw [heq] at hid
    obtain rfl := Option.some.inj (hid.symm.trans hget)
    exact ⟨_, _, _, _, rfl, List.mem_of_getElem? hget, hes, hep, heo, hs, hp, ho⟩
  · intro ⟨k, es, ep, eo, ht, _, hes, hep, heo, hs, hp, ho⟩
    subst ht
    have hquad : (⟨id, k.subject, k.predicate, k.obj⟩ : Quad) ∈ qs.reifiedTriples :=
      (hqs.reified _).mpr ((qs.resources.exact _ _).mpr hid)
    refine ⟨_, mem_reifiedList.mpr hquad, ⟨⟨.tripleTerm k, es, ep, eo⟩, ?_, hs, hp, ho⟩, rfl⟩
    exact getResourceQuad_eq_some.mpr ⟨hid, hes, hep, heo⟩

theorem embeds_unique (hs : s.isPlain = true) (hp : p.isPlain = true)
    (ho : o.isPlain = true) {q q' : Quad} (hq : q ∈ reifiedList qs) (hq' : q' ∈ reifiedList qs)
    (h : Embeds qs.toDatastore s p o q m) (h' : Embeds qs.toDatastore s p o q' m) : q = q' := by
  obtain ⟨e, he, hms, hmp, hmo⟩ := h
  obtain ⟨e', he', hms', hmp', hmo'⟩ := h'
  obtain ⟨-, hes, hep, heo⟩ := getResourceQuad_eq_some.mp he
  obtain ⟨-, hes', hep', heo'⟩ := getResourceQuad_eq_some.mp he'
  rw [isElement_unique hs hms' hms] at hes'
  rw [isElement_unique hp hmp' hmp] at hep'
  rw [isElement_unique ho hmo' hmo] at heo'
  have hsubject := getGraphElement_inj hes hes'
  have hpredicate := getGraphElement_inj hep hep'
  have hobject := getGraphElement_inj heo heo'
  have hlookup := (hqs.reified q).mp (mem_reifiedList.mp hq)
  have hlookup' := (hqs.reified q').mp (mem_reifiedList.mp hq')
  rw [hsubject, hpredicate, hobject, hlookup'] at hlookup
  exact Quad.ext (Option.some.inj hlookup).symm hsubject hpredicate hobject

theorem listsOnce_termBag (hT : tp.subject = .tripleTerm s p o)
    (hs : s.isPlain = true) (hp : p.isPlain = true) (ho : o.isPlain = true)
    (hpred : tp.predicate.isPlain = true) (hobj : tp.object.isPlain = true)
    (hq : q ∈ reifiedList qs) :
    ListsOnce (↑s.variables ∪ (↑p.variables ∪ ↑o.variables) ∪ tp.ownVariables)
      (fun m => Embeds qs.toDatastore s p o q m ∧
        HoldsAt qs.toDatastore g tp (some q.tripleId) m)
      (termBag qs (.fixed g) tp s p o empty q) := by
  have hplaced : Placed tp (some q.tripleId) := by simp [Placed, hT, Term.isPlain]
  have hterm := (bindsBy_termSolution hs hp ho
    (hqs.reifiedInterned q (mem_reifiedList.mp hq))).listsOnce
  have hcore := listsOnce_coreBag (g := g) qs.toDatastore hpred hobj hplaced
  have hbind := hterm.bind_join hcore (reads_embeds _ _ _ _ _) (reads_holdsAt _ _ _ _)
  have hbag : termBag qs (.fixed g) tp s p o empty q =
      (((termSolution qs s p o q empty).map singleton).getD (0 : Multiset _)).bind
        (join (coreBag qs.toDatastore (.fixed g) tp (some q.tripleId))) := by
    rw [termBag]
    cases termSolution qs s p o q empty with
    | none => rfl
    | some m => exact (Multiset.singleton_bind ..).symm
  rw [hbag]
  exact hbind

theorem listsOnce_patternBag (h : tp.isSupported = true) :
    ListsOnce ↑tp.variables (tp.Holds qs.toDatastore g) (patternBag qs (.fixed g) tp) := by
  rw [TriplePattern.isSupported, Bool.and_eq_true, Bool.and_eq_true] at h
  obtain ⟨⟨hp, ho⟩, hsubject⟩ := h
  by_cases hplain : tp.subject.isPlain = true
  · have hbag : patternBag qs (.fixed g) tp = coreBag qs.toDatastore (.fixed g) tp none := by
      rw [patternBag]
      cases hT : tp.subject with
      | tripleTerm s p o =>
        rw [hT] at hplain
        cases hplain
      | var v => rfl
      | constant gel => rfl
    rw [hbag]
    refine (listsOnce_coreBag qs.toDatastore hp ho (iff_of_true rfl hplain)).congr ?_ fun m => ?_
    · rw [TriplePattern.ownVariables, ownVariables_of_isPlain hplain, TriplePattern.variables,
        Finset.coe_union, Finset.coe_union, Set.union_assoc]
    · simp only [HoldsAt, TriplePattern.Holds, Matches, SubjectIs, hplain, Option.mem_def,
        reduceCtorEq, false_implies, implies_true, true_and, forall_const]
  · cases hT : tp.subject with
    | var v => exact absurd (by rw [hT]; rfl) hplain
    | constant gel => exact absurd (by rw [hT]; rfl) hplain
    | tripleTerm s p o =>
      rw [hT, Bool.and_eq_true, Bool.and_eq_true] at hsubject
      obtain ⟨⟨hs', hp'⟩, ho'⟩ := hsubject
      have hbag : patternBag qs (.fixed g) tp =
          (reifiedList qs : Multiset Quad).bind (termBag qs (.fixed g) tp s p o empty) := by
        rw [patternBag, hT]
      rw [hbag]
      have hlists := ListsOnce.bind (Multiset.coe_nodup.mpr (QuadStore.nodup_quadsMatching ..))
        (fun q hq => listsOnce_termBag (g := g) hqs hT hs' hp' ho' hp ho (Multiset.mem_coe.mp hq))
        fun q hq q' hq' m hm hm' => embeds_unique hqs hs' hp' ho' (Multiset.mem_coe.mp hq)
          (Multiset.mem_coe.mp hq') hm.1 hm'.1
      refine hlists.congr ?_ fun m => ?_
      · simp [TriplePattern.ownVariables, TriplePattern.variables, hT, Term.ownVariables,
          Term.variables, Set.union_assoc]
      · constructor
        · rintro ⟨q, hq, hm, q', hmem, hg, hs, e, he, _, hmp, hmo⟩
          have hes := (getResourceQuad_eq_some.mp he).2.1
          refine ⟨q', hmem, hg, e, he, ?_, hmp, hmo⟩
          rw [hT]
          exact (exists_embeds_iff hqs hes).mp ⟨q, Multiset.mem_coe.mp hq, hm, hs _ rfl⟩
        · rintro ⟨q', hmem, hg, e, he, hms, hmp, hmo⟩
          have hes := (getResourceQuad_eq_some.mp he).2.1
          rw [hT] at hms
          obtain ⟨q, hq, hm, hs⟩ := (exists_embeds_iff hqs hes).mpr hms
          refine ⟨q, Multiset.mem_coe.mpr hq, hm, q', hmem, hg, fun x hx => ?_, e, he,
            fun h => absurd h hplain, hmp, hmo⟩
          exact hs.trans (Option.some.inj hx)

omit hqs

theorem bindEnd_of_not_isPlain {T : Term N} (h : T.isPlain = false)
    (m : Mapping String (GraphElement N)) (t : GraphElement N) : bindEnd m T t = none := by
  cases T with
  | tripleTerm s p o => rfl
  | _ => cases h

include ds in
theorem coreBag_eq_zero {ag : ActiveGraph}
    (h : tp.predicate.isPlain = false ∨ tp.object.isPlain = false) :
    coreBag ds ag tp forced = 0 := by
  have hnone (e : QuadResource N) : quadSolution ag tp e empty = none := by
    rw [quadSolution]
    apply Option.bind_eq_none_iff.mpr
    intro m₁ _
    apply Option.bind_eq_none_iff.mpr
    intro m₂ hm₂
    rcases h with hp | ho
    · rw [bindEnd_of_not_isPlain hp] at hm₂
      cases hm₂
    · rw [bindEnd_of_not_isPlain ho]
      rfl
  rw [coreBag, Multiset.coe_eq_zero, List.filterMap_eq_nil_iff]
  intro q _
  apply Option.bind_eq_none_iff.mpr
  intro e _
  exact hnone e

theorem embeddedSolution_eq_none (h : s.isPlain = false ∨ p.isPlain = false ∨ o.isPlain = false)
    (e : QuadResource N) (m : Mapping String (GraphElement N)) :
    embeddedSolution s p o e m = none := by
  rw [embeddedSolution, bindTriple]
  apply Option.bind_eq_none_iff.mpr
  intro m₁ hm₁
  apply Option.bind_eq_none_iff.mpr
  intro m₂ hm₂
  rcases h with hs | hp | ho
  · rw [bindEnd_of_not_isPlain hs] at hm₁
    cases hm₁
  · rw [bindEnd_of_not_isPlain hp] at hm₂
    cases hm₂
  · exact bindEnd_of_not_isPlain ho m₂ e.obj

theorem patternBag_eq_zero {ag : ActiveGraph} (h : tp.isSupported = false) :
    patternBag qs ag tp = 0 := by
  cases hT : tp.subject with
  | tripleTerm s p o =>
    have hbag : patternBag qs ag tp =
        (reifiedList qs : Multiset Quad).bind (termBag qs ag tp s p o empty) := by
      rw [patternBag, hT]
    have hzero (q : Quad) : termBag qs ag tp s p o empty q = 0 := by
      rw [termBag]
      by_cases hcore : tp.predicate.isPlain = false ∨ tp.object.isPlain = false
      · rw [coreBag_eq_zero qs.toDatastore hcore]
        cases termSolution qs s p o q empty <;> rfl
      · have hparts : s.isPlain = false ∨ p.isPlain = false ∨ o.isPlain = false := by
          simp only [not_or, Bool.not_eq_false] at hcore
          simp only [TriplePattern.isSupported, hT, hcore.1, hcore.2, Bool.true_and,
            Bool.and_eq_false_iff, or_assoc] at h
          exact h
        have hnone : termSolution qs s p o q empty = none := by
          rw [termSolution]
          apply Option.bind_eq_none_iff.mpr
          intro e _
          exact embeddedSolution_eq_none hparts e empty
        rw [hnone]
        rfl
    rw [hbag, Multiset.bind_congr fun q _ => hzero q, Multiset.bind_zero]
  | var | constant =>
    rw [patternBag, hT]
    simp only [TriplePattern.isSupported, hT, Bool.and_true, Bool.and_eq_false_iff] at h
    exact coreBag_eq_zero qs.toDatastore h

include ds in
theorem reads_holds (g : GraphElementId) (tp : TriplePattern N) :
    Reads ↑tp.variables (tp.Holds ds g) := by
  intro m m' h ⟨q, hq, hg, e, he, hs, hp, ho⟩
  have hreads := ((reads_isElement ds tp.subject e.subject).and
    (reads_isElement ds tp.predicate e.predicate)).and (reads_isElement ds tp.object e.obj)
  rw [TriplePattern.variables, Finset.coe_union, Finset.coe_union] at h
  obtain ⟨⟨hs', hp'⟩, ho'⟩ := hreads m m' h ⟨⟨hs, hp⟩, ho⟩
  exact ⟨q, hq, hg, e, he, hs', hp', ho'⟩

end Patterns

section Bgps

variable {qs : QueryStore N} {g : GraphElementId} {patterns : List (TriplePattern N)}

theorem coe_bgpVariables_cons (tp : TriplePattern N) (tps : List (TriplePattern N)) :
    (↑(bgpVariables (tp :: tps)) : Set String) = ↑tp.variables ∪ ↑(bgpVariables tps) :=
  Finset.coe_union _ _

theorem reads_all_holds (ds : Datastore N) (g : GraphElementId)
    (patterns : List (TriplePattern N)) :
    Reads ↑(bgpVariables patterns) fun m => ∀ tp ∈ patterns, tp.Holds ds g m := by
  induction patterns with
  | nil => exact fun _ _ _ _ tp htp => (List.not_mem_nil htp).elim
  | cons tp tps ih =>
    intro m m' h hm
    rw [List.forall_mem_cons] at hm ⊢
    rw [coe_bgpVariables_cons] at h
    exact (reads_holds ds g tp).and ih m m' h hm

theorem listsOnce_bgpBag (hqs : qs.WellFormed) (h : ∀ tp ∈ patterns, tp.isSupported = true) :
    ListsOnce ↑(bgpVariables patterns) (fun m => ∀ tp ∈ patterns, tp.Holds qs.toDatastore g m)
      (bgpBag qs (.fixed g) patterns) := by
  induction patterns with
  | nil => exact listsOnce_empty.congr (by simp [bgpVariables]) fun m => by simp
  | cons tp tps ih =>
    rw [List.forall_mem_cons] at h
    have hhead := listsOnce_patternBag (g := g) hqs h.1
    have htail := ih h.2
    refine (hhead.bind_join htail (reads_holds _ _ _) (reads_all_holds _ _ _)).congr
      (coe_bgpVariables_cons tp tps).symm fun m => ?_
    rw [List.forall_mem_cons]

theorem bgpBag_eq_zero {ag : ActiveGraph} (h : ∃ tp ∈ patterns, tp.isSupported = false) :
    bgpBag qs ag patterns = 0 := by
  induction patterns with
  | nil =>
    obtain ⟨tp, htp, -⟩ := h
    cases htp
  | cons tp tps ih =>
    obtain ⟨tp', htp', hno⟩ := h
    rw [bgpBag]
    rcases List.mem_cons.mp htp' with rfl | htail
    · rw [patternBag_eq_zero hno, Multiset.zero_bind]
    · rw [ih ⟨tp', htail, hno⟩]
      exact (Multiset.bind_congr fun m _ => join_zero m).trans (Multiset.bind_zero _)

def answers (qs : QueryStore N) (g : GraphElementId) (patterns : List (TriplePattern N))
    (r : PartialSub N) : Multiset (Mapping String (GraphElement N)) :=
  bag (meaning qs.toDatastore) (evalBgp qs (.fixed g) patterns [r] none)

theorem answers_eq_zero (hqs : qs.WellFormed) {r : PartialSub N} (hr : Valid qs.toDatastore r)
    (h : ∃ tp ∈ patterns, tp.isSupported = false) : answers qs g patterns r = 0 := by
  rw [answers, ((evalBgp_denotes hqs patterns).one hr).2, bgpBag_eq_zero h, join_zero]

/-- A BGP without a budget extends each row to the homomorphisms that extend it, once each, in any
order of its patterns. There are none where a triple term stands for a predicate, for an object or
in another triple term. -/
theorem evalBgp_homomorphisms (hqs : qs.WellFormed) (g : GraphElementId)
    (patterns : List (TriplePattern N)) {rows : List (PartialSub N)}
    (hrows : ∀ r ∈ rows, Valid qs.toDatastore r) :
    (∀ r ∈ rows, (answers qs g patterns r).Nodup ∧ ∀ x, x ∈ answers qs g patterns r ↔
      (∀ tp ∈ patterns, tp.isSupported = true) ∧
        x ∈ homomorphisms qs.toDatastore g patterns (meaning qs.toDatastore r)) ∧
    bag (meaning qs.toDatastore) (evalBgp qs (.fixed g) patterns rows none) =
      (rows : Multiset (PartialSub N)).bind (answers qs g patterns) ∧
    ∀ order : List (TriplePattern N), order.Perm patterns →
      bag (meaning qs.toDatastore) (evalOrdered qs (.fixed g) none order rows) =
        bag (meaning qs.toDatastore) (evalBgp qs (.fixed g) patterns rows none) := by
  have hdenotes : RdfDatalog.Denotes (meaning qs.toDatastore) (Valid qs.toDatastore)
      (fun rows => evalBgp qs (.fixed g) patterns rows none)
      (join (bgpBag qs (.fixed g) patterns)) := evalBgp_denotes hqs patterns
  refine ⟨fun r hr => ?_, ?_, fun order horder => ?_⟩
  · by_cases hall : ∀ tp ∈ patterns, tp.isSupported = true
    · have hlists := (listsOnce_bgpBag (g := g) hqs hall).join (reads_all_holds _ _ _)
        (meaning qs.toDatastore r)
      rw [answers, (hdenotes.one (hrows r hr)).2]
      refine ⟨hlists.1, fun x => ?_⟩
      rw [hlists.2 x]
      exact (and_iff_right hall).symm
    · have hsome : ∃ tp ∈ patterns, tp.isSupported = false := by
        simpa only [not_forall, Bool.not_eq_true, exists_prop] using hall
      rw [answers_eq_zero hqs (hrows r hr) hsome]
      refine ⟨Multiset.nodup_zero, fun x => ?_⟩
      constructor
      · intro hx
        exact (Multiset.notMem_zero x hx).elim
      · intro hx
        exact absurd hx.1 hall
  · rw [hdenotes.bag_eq rows hrows, bag_bind]
    apply Multiset.bind_congr
    intro r hr
    exact ((hdenotes.one (hrows r (Multiset.mem_coe.mp hr))).2).symm
  · rw [(evalOrdered_denotes hqs order).bag_eq rows hrows, hdenotes.bag_eq rows hrows,
      bgpBag_perm horder]

end Bgps

section Sample

/-- Elements: `a`, `p`, the triple term of `a p a`, and that of `<<a p a>> p a`. -/
def nestedTerms : GraphElementManager NativeTypes.text :=
  ((((GraphElementManager.new.addResource (.iri "a")).1.addResource (.iri "p")).1.addResource
    (.tripleTerm ⟨1, 2, 1⟩)).1.addResource (.tripleTerm ⟨3, 2, 1⟩)).1

def nestedStore : QueryStore NativeTypes.text where
  namedGraphs := QuadStore.new.addQuad ⟨0, 4, 2, 1⟩
  resources := nestedTerms
  reifiedTriples := (QuadStore.new.addQuad ⟨3, 1, 2, 1⟩).addQuad ⟨4, 3, 2, 1⟩

theorem nestedStore_wellFormed : nestedStore.WellFormed := by
  have hquads : nestedStore.namedGraphs.quadList = [⟨0, 4, 2, 1⟩] := by decide
  have hreified : nestedStore.reifiedTriples.quadList = [⟨3, 1, 2, 1⟩, ⟨4, 3, 2, 1⟩] := by decide
  have hlist : nestedStore.resources.resourceList = [.iri defaultGraphIri, .iri "a", .iri "p",
      .tripleTerm ⟨1, 2, 1⟩, .tripleTerm ⟨3, 2, 1⟩] := by decide
  refine ⟨fun q hq => ?_, fun q hq => ?_, fun q => ?_⟩
  · rw [← QuadStore.mem_quadList, hquads, List.mem_singleton] at hq
    subst hq
    unfold GraphElementManager.Interned
    decide
  · rw [← QuadStore.mem_quadList, hreified] at hq
    simp only [List.mem_cons, List.not_mem_nil, or_false] at hq
    unfold GraphElementManager.Interned
    rcases hq with rfl | rfl <;> decide
  · rw [← QuadStore.mem_quadList, hreified, nestedStore.resources.exact, hlist]
    obtain ⟨id, s, p, o⟩ := q
    rcases id with _ | _ | _ | _ | _ | n <;> simp [eq_comm]

/-- `<<<<a p a>> p a>> p a`. -/
def nestedPattern : TriplePattern NativeTypes.text :=
  ⟨.tripleTerm (.tripleTerm (.constant (.iri "a")) (.constant (.iri "p")) (.constant (.iri "a")))
    (.constant (.iri "p")) (.constant (.iri "a")), .constant (.iri "p"), .constant (.iri "a")⟩

/-- `?x ?y ?z`. -/
def openPattern : TriplePattern NativeTypes.text := ⟨.var "x", .var "y", .var "z"⟩

theorem evalBgp_homomorphisms_open :
    (answers nestedStore 0 [openPattern] ∅).Nodup ∧
      ∀ x, x ∈ answers nestedStore 0 [openPattern] ∅ ↔
        (∀ tp ∈ [openPattern], tp.isSupported = true) ∧
          x ∈ homomorphisms nestedStore.toDatastore 0 [openPattern]
            (meaning nestedStore.toDatastore ∅) := by
  have hvalid : ∀ r ∈ [(∅ : PartialSub NativeTypes.text)], Valid nestedStore.toDatastore r := by
    intro r hr
    rw [List.mem_singleton.mp hr]
    exact valid_empty _
  exact (evalBgp_homomorphisms nestedStore_wellFormed 0 [openPattern] hvalid).1 ∅
    List.mem_cons_self

/-- The nested pattern is the stored quad, but it is not answered. -/
theorem evalBgp_not_homomorphisms :
    ¬ ∀ (qs : QueryStore NativeTypes.text) (g : GraphElementId)
      (patterns : List (TriplePattern NativeTypes.text))
      (rows : List (PartialSub NativeTypes.text)), qs.WellFormed →
      (∀ r ∈ rows, Valid qs.toDatastore r) → ∀ r ∈ rows, (answers qs g patterns r).Nodup ∧
        ∀ x, x ∈ answers qs g patterns r ↔
          x ∈ homomorphisms qs.toDatastore g patterns (meaning qs.toDatastore r) := by
  intro h
  have hvalid : ∀ r ∈ [(∅ : PartialSub NativeTypes.text)], Valid nestedStore.toDatastore r := by
    intro r hr
    rw [List.mem_singleton.mp hr]
    exact valid_empty _
  have hanswers := (h nestedStore 0 [nestedPattern] [∅] nestedStore_wellFormed hvalid ∅
    List.mem_cons_self).2 empty
  rw [answers_eq_zero nestedStore_wellFormed (valid_empty _) ⟨nestedPattern, by simp, by decide⟩]
    at hanswers
  apply Multiset.notMem_zero _ (hanswers.mpr ⟨?_, ?_⟩)
  · have hvars : bgpVariables [nestedPattern] = ∅ := by decide
    rw [hvars, Finset.coe_empty]
    exact Binds.refl empty
  · intro tp htp
    rw [List.mem_singleton.mp htp]
    refine ⟨⟨0, 4, 2, 1⟩, by decide, rfl, ⟨.iri defaultGraphIri, .tripleTerm ⟨3, 2, 1⟩, .iri "p",
      .iri "a"⟩, by decide, ?_, rfl, rfl⟩
    refine ⟨⟨3, 2, 1⟩, .tripleTerm ⟨1, 2, 1⟩, .iri "p", .iri "a", rfl, by decide, by decide,
      by decide, by decide, ?_, rfl, rfl⟩
    exact ⟨⟨1, 2, 1⟩, .iri "a", .iri "p", .iri "a", rfl, by decide, by decide, by decide,
      by decide, rfl, rfl, rfl⟩

end Sample

end RdfDatalog.Sparql
