import RdfDatalog.Sparql.Budget
import RdfDatalog.Sparql.PatternMeaning

namespace RdfDatalog.Sparql

open Mapping QuadStore

variable {N : NativeTypes} {ds : Datastore N}

section Merging

variable {a b : PartialSub N}

theorem compatible_iff (ha : Valid ds a) (hb : Valid ds b) :
    compatible ds a b = true ↔ (meaning ds a).Compatible (meaning ds b) := by
  have hkey (k : String) : (k ∈ a.keys → agree ds true (a.lookup k) (b.lookup k) = true) ↔
      (meaning ds a k = none ∨ meaning ds b k = none ∨ meaning ds a k = meaning ds b k) := by
    rw [ha.meaning_eq_none, hb.meaning_eq_none, Finmap.mem_keys]
    cases hka : a.lookup k with
    | none => simp [Finmap.lookup_eq_none.mp hka]
    | some va =>
      have hmem : k ∈ a := Finmap.mem_iff.mpr ⟨va, hka⟩
      cases hkb : b.lookup k with
      | none => simp [agree]
      | some vb =>
        have heq := PartialSubValue.psvEq_iff (b := vb) (ha k va hka)
        simp [hmem, agree, heq, meaning, hka, hkb]
  rw [compatible, decide_eq_true_iff]
  exact forall_congr' hkey

theorem meaning_union (ha : Valid ds a) : meaning ds (a ∪ b) =
    (meaning ds a).union (meaning ds b) := by
  funext k
  rw [union]
  by_cases hk : k ∈ a
  · obtain ⟨va, hva⟩ := Finmap.mem_iff.mp hk
    obtain ⟨e, he⟩ := Option.isSome_iff_exists.mp (ha k va hva)
    have hka : meaning ds a k = some e := by rw [meaning, hva]; exact he
    rw [hka, Option.some_or, meaning, Finmap.lookup_union_left hk, hva]
    exact he
  · have hka : meaning ds a k = none := by rw [meaning, Finmap.lookup_eq_none.mpr hk]; rfl
    rw [hka, Option.none_or, meaning, Finmap.lookup_union_right hk]
    rfl

theorem Valid.union (ha : Valid ds a) (hb : Valid ds b) : Valid ds (a ∪ b) := by
  intro k val hk
  by_cases hka : k ∈ a
  · rw [Finmap.lookup_union_left hka] at hk
    exact ha k val hk
  · rw [Finmap.lookup_union_right hka] at hk
    exact hb k val hk

theorem mergeSolutions_meaning (ha : Valid ds a) (hb : Valid ds b) :
    (mergeSolutions ds a b).map (meaning ds) = (meaning ds a).merge (meaning ds b) ∧
      ∀ r ∈ mergeSolutions ds a b, Valid ds r := by
  rw [mergeSolutions, merge_comm, merge]
  have hiff := compatible_iff hb ha
  by_cases h : (meaning ds b).Compatible (meaning ds a)
  · rw [if_pos (hiff.mpr h), if_pos h]
    refine ⟨congrArg some (meaning_union hb), fun r hr => ?_⟩
    obtain rfl := Option.some.inj hr
    exact hb.union ha
  · rw [if_neg (mt hiff.mp h), if_neg h]
    exact ⟨rfl, by simp⟩

end Merging

section Quads

variable {ag : ActiveGraph} {tp : TriplePattern N} {forced : Option GraphElementId}
  {sub : PartialSub N} {q : Quad} {e : QuadResource N}

theorem merges_bindEnd (T : Term N) (t : GraphElement N) : Merges fun m => bindEnd m T t := by
  cases T with
  | var v => exact merges_bindVar v t
  | constant gel =>
    by_cases h : gel = t
    · simp only [bindEnd, h, if_true]
      exact merges_some
    · simp only [bindEnd, h, if_false]
      exact merges_none
  | tripleTerm s p o => exact merges_none

/-- The subject of a quad; a triple term has been looked up before. -/
def bindSubject (m : Mapping String (GraphElement N)) : Term N → GraphElement N →
    Option (Mapping String (GraphElement N))
  | .tripleTerm _ _ _, _ => some m
  | T, t => bindEnd m T t

theorem bindSubject_of_isPlain {T : Term N} (h : T.isPlain = true)
    (m : Mapping String (GraphElement N)) (t : GraphElement N) :
    bindSubject m T t = bindEnd m T t := by
  cases T with
  | tripleTerm s p o => cases h
  | _ => rfl

/-- The graph of a quad. -/
def bindScope (m : Mapping String (GraphElement N)) : ActiveGraph → GraphElement N →
    Option (Mapping String (GraphElement N))
  | .fixed _, _ => some m
  | .var v, g => m.bindVar v g

/-- How a quad extends a solution. -/
def quadSolution (ag : ActiveGraph) (tp : TriplePattern N) (e : QuadResource N)
    (m : Mapping String (GraphElement N)) : Option (Mapping String (GraphElement N)) :=
  (bindSubject m tp.subject e.subject).bind fun m => (bindEnd m tp.predicate e.predicate).bind
    fun m => (bindEnd m tp.object e.obj).bind fun m => bindScope m ag e.graph

theorem merges_quadSolution (ag : ActiveGraph) (tp : TriplePattern N) (e : QuadResource N) :
    Merges (quadSolution ag tp e) := by
  have hsubject : Merges fun m => bindSubject m tp.subject e.subject := by
    cases tp.subject with
    | tripleTerm s p o => exact merges_some
    | var v => exact merges_bindEnd (.var v) e.subject
    | constant gel => exact merges_bindEnd (.constant gel) e.subject
  have hscope : Merges fun m => bindScope m ag e.graph := by
    cases ag with
    | fixed id => exact merges_some
    | var v => exact merges_bindVar v e.graph
  exact hsubject.bind ((merges_bindEnd tp.predicate e.predicate).bind
    ((merges_bindEnd tp.object e.obj).bind hscope))

/-- What a pattern asks of the subject of a quad. -/
def subjectMatch (ds : Datastore N) (sub : PartialSub N) (tp : TriplePattern N) :
    Option GraphElementId → MatchTerm
  | some id => .bound id
  | none => resolveMatchTerm ds sub tp.subject

/-- The quads that the evaluation of a pattern looks at. -/
def fetchedQuads (ds : Datastore N) (ag : ActiveGraph) (tp : TriplePattern N)
    (forced : Option GraphElementId) (sub : PartialSub N) : List Quad :=
  if subjectMatch ds sub tp forced = .never ∨ resolveMatchTerm ds sub tp.predicate = .never ∨
      resolveMatchTerm ds sub tp.object = .never then []
  else
    ds.namedGraphs.quadsMatching (ag.id ds sub) (subjectMatch ds sub tp forced).intoQueryArg
      (resolveMatchTerm ds sub tp.predicate).intoQueryArg
      (resolveMatchTerm ds sub tp.object).intoQueryArg

theorem isKnown_eq_false {T : Term N} (h : isKnown ds T = false) :
    resolveMatchTerm ds sub T = .never := by
  by_contra hne
  rw [isKnown_of_ne_never hne] at h
  cases h

/-- The subject is looked up beforehand if it is a triple term, and only then. -/
def Placed (tp : TriplePattern N) (forced : Option GraphElementId) : Prop :=
  forced = none ↔ tp.subject.isPlain = true

theorem evalTriplePatternCore_eq (hplaced : Placed tp forced) :
    evalTriplePatternCore ds ag tp forced sub none =
      (fetchedQuads ds ag tp forced sub).filterMap (extend ds ag tp sub) := by
  have hcore : evalTriplePatternCore ds ag tp forced sub none =
      if !(isKnown ds tp.subject && isKnown ds tp.predicate && isKnown ds tp.object) then []
      else (fetchedQuads ds ag tp forced sub).filterMap (extend ds ag tp sub) := by
    rw [fetchedQuads, apply_ite (List.filterMap (extend ds ag tp sub)), List.filterMap_nil]
    cases forced <;>
      simp only [evalTriplePatternCore, ite_self, quadsMatchingLimited_none,
        collectSolutions_none] <;> rfl
  rw [hcore]
  split_ifs with hknown
  · simp only [Bool.not_eq_true', Bool.and_eq_false_iff] at hknown
    have hnever : subjectMatch ds sub tp forced = .never ∨
        resolveMatchTerm ds sub tp.predicate = .never ∨
          resolveMatchTerm ds sub tp.object = .never := by
      rcases hknown with (hs | hp) | ho
      · left
        cases forced with
        | none => exact isKnown_eq_false hs
        | some id =>
          cases hT : tp.subject with
          | tripleTerm s p o => rw [hT] at hs; cases hs
          | var | constant => exact absurd (hplaced.mpr (by rw [hT]; rfl)) (by simp)
      · exact .inr (.inl (isKnown_eq_false hp))
      · exact .inr (.inr (isKnown_eq_false ho))
    rw [fetchedQuads, if_pos hnever, List.filterMap_nil]
  · rfl

theorem isPlain_of_ne_never {T : Term N} (h : resolveMatchTerm ds sub T ≠ .never) :
    T.isPlain = true := by
  cases T with
  | tripleTerm s p o => exact absurd rfl h
  | _ => rfl

theorem bindGraph_meaning (h : Valid ds sub) {id : GraphElementId} {g : GraphElement N}
    (hid : ds.resources.getGraphElement id = some g) :
    (bindGraph ds id sub ag).map (meaning ds) = bindScope (meaning ds sub) ag g ∧
      ∀ r ∈ bindGraph ds id sub ag, Valid ds r := by
  cases ag with
  | fixed id =>
    refine ⟨rfl, fun r hr => ?_⟩
    obtain rfl := Option.some.inj hr
    exact h
  | var v => exact bindVariable_meaning h hid

theorem bind_meaning {x : Option (PartialSub N)} {X : Option (Mapping String (GraphElement N))}
    {f : PartialSub N → Option (PartialSub N)}
    {F : Mapping String (GraphElement N) → Option (Mapping String (GraphElement N))}
    (hx : x.map (meaning ds) = X ∧ ∀ r ∈ x, Valid ds r)
    (hf : ∀ r, Valid ds r → (f r).map (meaning ds) = F (meaning ds r) ∧ ∀ r' ∈ f r, Valid ds r') :
    (x.bind f).map (meaning ds) = X.bind F ∧ ∀ r ∈ x.bind f, Valid ds r := by
  obtain ⟨rfl, hvalid⟩ := hx
  cases x with
  | none => exact ⟨rfl, hvalid⟩
  | some r => exact hf r (hvalid r rfl)

theorem extend_meaning_of_fetched (h : Valid ds sub) (hplaced : Placed tp forced)
    (hq : q ∈ fetchedQuads ds ag tp forced sub) (he : ds.resources.getResourceQuad q = some e) :
    (extend ds ag tp sub q).map (meaning ds) = quadSolution ag tp e (meaning ds sub) ∧
      ∀ r ∈ extend ds ag tp sub q, Valid ds r := by
  obtain ⟨hg, hs, hp, ho⟩ := GraphElementManager.getResourceQuad_eq_some.mp he
  rw [fetchedQuads] at hq
  split_ifs at hq with hnever
  · cases hq
  · simp only [not_or] at hnever
    obtain ⟨hns, hnp, hno⟩ := hnever
    obtain ⟨-, -, hfs, hfp, hfo⟩ := mem_quadsMatching.mp hq
    have hsubject : (bindTerm ds q.subject sub tp.subject).map (meaning ds) =
        bindSubject (meaning ds sub) tp.subject e.subject ∧
          ∀ r ∈ bindTerm ds q.subject sub tp.subject, Valid ds r := by
      cases forced with
      | none =>
        have hplain := hplaced.mp rfl
        rw [bindSubject_of_isPlain hplain]
        exact bindTerm_meaning h hs hplain hfs hns
      | some id =>
        cases hT : tp.subject with
        | tripleTerm s p o =>
          refine ⟨rfl, fun r hr => ?_⟩
          obtain rfl := Option.some.inj hr
          exact h
        | var | constant => exact absurd (hplaced.mpr (by rw [hT]; rfl)) (by simp)
    apply bind_meaning hsubject
    intro r₁ h₁
    apply bind_meaning (bindTerm_meaning h₁ hp (isPlain_of_ne_never hnp) hfp hnp)
    intro r₂ h₂
    apply bind_meaning (bindTerm_meaning h₂ ho (isPlain_of_ne_never hno) hfo hno)
    intro r₃ h₃
    exact bindGraph_meaning h₃ hg

/-- The quads a pattern is about, whatever the solution. -/
def patternQuads (ds : Datastore N) (ag : ActiveGraph) (forced : Option GraphElementId) :
    List Quad :=
  match ag with
  | .fixed id => ds.namedGraphs.quadsMatching (some id) forced none none
  | .var _ => ds.namedGraphs.quadsMatching none forced none none

theorem nodup_patternQuads (ds : Datastore N) (ag : ActiveGraph) (forced : Option GraphElementId) :
    (patternQuads ds ag forced).Nodup := by
  cases ag <;> exact nodup_quadsMatching ..

theorem mem_patternQuads : q ∈ patternQuads ds ag forced ↔
    q ∈ ds.namedGraphs ∧ (∀ id, ag = .fixed id → q.tripleId = id) ∧
      ∀ x ∈ forced, q.subject = x := by
  cases ag <;> simp [patternQuads, mem_quadsMatching, QuadTable.Fits]

theorem nodup_fetchedQuads (ds : Datastore N) (ag : ActiveGraph) (tp : TriplePattern N)
    (forced : Option GraphElementId) (sub : PartialSub N) :
    (fetchedQuads ds ag tp forced sub).Nodup := by
  rw [fetchedQuads]
  split_ifs
  · exact List.nodup_nil
  · exact nodup_quadsMatching ..

theorem mem_patternQuads_of_fetched (hq : q ∈ fetchedQuads ds ag tp forced sub) :
    q ∈ patternQuads ds ag forced := by
  rw [fetchedQuads] at hq
  split_ifs at hq
  · cases hq
  · obtain ⟨hmem, hg, hs, -, -⟩ := mem_quadsMatching.mp hq
    refine mem_patternQuads.mpr ⟨hmem, fun id hid => ?_, fun x hx => ?_⟩
    · subst hid
      exact hg id rfl
    · cases forced with
      | none => cases hx
      | some id => exact hs x hx

theorem mem_fetchedQuads_of_solution (h : Valid ds sub) (hplaced : Placed tp forced)
    (hq : q ∈ patternQuads ds ag forced) (he : ds.resources.getResourceQuad q = some e)
    {m : Mapping String (GraphElement N)}
    (hm : quadSolution ag tp e (meaning ds sub) = some m) :
    q ∈ fetchedQuads ds ag tp forced sub := by
  obtain ⟨hg, hs, hp, ho⟩ := GraphElementManager.getResourceQuad_eq_some.mp he
  obtain ⟨hmem, hfixed, hforced⟩ := mem_patternQuads.mp hq
  obtain ⟨m₁, hm₁, hm⟩ := Option.bind_eq_some_iff.mp hm
  obtain ⟨m₂, hm₂, hm⟩ := Option.bind_eq_some_iff.mp hm
  obtain ⟨m₃, hm₃, hm⟩ := Option.bind_eq_some_iff.mp hm
  have hsubject : (subjectMatch ds sub tp forced ≠ .never ∧
      ∀ x ∈ (subjectMatch ds sub tp forced).intoQueryArg, q.subject = x) ∧
        ∀ v t, meaning ds sub v = some t → m₁ v = some t := by
    cases forced with
    | none =>
      have hplain := hplaced.mp rfl
      rw [bindSubject_of_isPlain hplain] at hm₁
      exact ⟨fits_of_bindEnd h hs (fun _ _ hv => hv) hm₁, fun v t => bindEnd_extends hm₁⟩
    | some id =>
      cases hT : tp.subject with
      | tripleTerm s p o =>
        rw [hT] at hm₁
        obtain rfl := Option.some.inj hm₁
        refine ⟨⟨by simp [subjectMatch], fun x hx => hforced x hx⟩, fun _ _ hv => hv⟩
      | var | constant => exact absurd (hplaced.mpr (by rw [hT]; rfl)) (by simp)
  obtain ⟨⟨hns, hfs⟩, hext₁⟩ := hsubject
  have hext₂ (v : String) (t : GraphElement N) (hv : meaning ds sub v = some t) : m₂ v = some t :=
    bindEnd_extends hm₂ (hext₁ v t hv)
  have hext₃ (v : String) (t : GraphElement N) (hv : meaning ds sub v = some t) : m₃ v = some t :=
    bindEnd_extends hm₃ (hext₂ v t hv)
  obtain ⟨hnp, hfp⟩ := fits_of_bindEnd h hp hext₁ hm₂
  obtain ⟨hno, hfo⟩ := fits_of_bindEnd h ho hext₂ hm₃
  rw [fetchedQuads, if_neg (by simp only [hns, hnp, hno, or_self, not_false_eq_true])]
  refine mem_quadsMatching.mpr ⟨hmem, fun x hx => ?_, hfs, hfp, hfo⟩
  cases ag with
  | fixed id =>
    obtain rfl := Option.some.inj hx
    exact hfixed _ rfl
  | var v =>
    rw [ActiveGraph.id] at hx
    cases hv : sub.lookup v with
    | none => rw [hv] at hx; cases hx
    | some val =>
      obtain ⟨t, ht⟩ := Option.isSome_iff_exists.mp (h v val hv)
      have hmv : m₃ v = some t := hext₃ v t (by rw [meaning, hv]; exact ht)
      obtain ⟨hor, -⟩ := Mapping.bindVar_eq_some.mp hm
      rw [hmv] at hor
      obtain rfl : t = e.graph := Option.some.inj (hor.resolve_left (by simp))
      have hid := PartialSubValue.toId_eq_some hg ht
      rw [hv, Option.bind_some, hid] at hx
      exact Option.some.inj hx

theorem filterMap_perm {α β : Type} {f : α → Option β} {xs ys : List α} (hxs : xs.Nodup)
    (hys : ys.Nodup) (h : ∀ a, (f a).isSome → (a ∈ xs ↔ a ∈ ys)) :
    (xs.filterMap f).Perm (ys.filterMap f) := by
  have hfilter (zs : List α) : zs.filterMap f = (zs.filter fun a => (f a).isSome).filterMap f := by
    rw [List.filterMap_filter]
    apply List.filterMap_congr
    intro a _
    cases f a <;> rfl
  rw [hfilter xs, hfilter ys]
  apply List.Perm.filterMap
  apply (List.perm_ext_iff_of_nodup (hxs.filter _) (hys.filter _)).mpr
  intro a
  simp only [List.mem_filter]
  exact and_congr_left fun ha => h a ha

/-- The solutions of a pattern on its own. -/
def coreBag (ds : Datastore N) (ag : ActiveGraph) (tp : TriplePattern N)
    (forced : Option GraphElementId) : Multiset (Mapping String (GraphElement N)) :=
  (patternQuads ds ag forced).filterMap fun q =>
    (ds.resources.getResourceQuad q).bind fun e => quadSolution ag tp e empty

theorem rows_of_fetched (hds : ds.Interned) (h : Valid ds sub) (hplaced : Placed tp forced) :
    (∀ r ∈ evalTriplePatternCore ds ag tp forced sub none, Valid ds r) ∧
      (evalTriplePatternCore ds ag tp forced sub none).map (meaning ds) =
        (fetchedQuads ds ag tp forced sub).filterMap fun q =>
          (ds.resources.getResourceQuad q).bind fun e => quadSolution ag tp e (meaning ds sub) := by
  have hquad (q : Quad) (hq : q ∈ fetchedQuads ds ag tp forced sub) :
      ∃ e, ds.resources.getResourceQuad q = some e :=
    Option.isSome_iff_exists.mp (hds q (mem_patternQuads.mp (mem_patternQuads_of_fetched hq)).1)
  rw [evalTriplePatternCore_eq hplaced]
  constructor
  · intro r hr
    obtain ⟨q, hq, hr⟩ := List.mem_filterMap.mp hr
    obtain ⟨e, he⟩ := hquad q hq
    exact (extend_meaning_of_fetched h hplaced hq he).2 r hr
  · rw [List.map_filterMap]
    apply List.filterMap_congr
    intro q hq
    obtain ⟨e, he⟩ := hquad q hq
    rw [he, Option.bind_some]
    exact (extend_meaning_of_fetched h hplaced hq he).1

theorem bag_evalTriplePatternCore (hds : ds.Interned) (h : Valid ds sub)
    (hplaced : Placed tp forced) :
    bag (meaning ds) (evalTriplePatternCore ds ag tp forced sub none) =
      join (coreBag ds ag tp forced) (meaning ds sub) := by
  have hmerges (q : Quad) : Merges fun m => (ds.resources.getResourceQuad q).bind fun e =>
      quadSolution ag tp e m := by
    cases ds.resources.getResourceQuad q with
    | none => exact merges_none
    | some e => exact merges_quadSolution ag tp e
  rw [coreBag, ← Multiset.filterMap_coe, ← filterMap_eq_join hmerges, Multiset.filterMap_coe, bag,
    (rows_of_fetched hds h hplaced).2, Multiset.coe_eq_coe]
  apply filterMap_perm (nodup_fetchedQuads ..) (nodup_patternQuads ..)
  intro q hsome
  constructor
  · exact mem_patternQuads_of_fetched
  · intro hq
    cases he : ds.resources.getResourceQuad q with
    | none => rw [he] at hsome; cases hsome
    | some e =>
      rw [he, Option.bind_some] at hsome
      obtain ⟨m, hm⟩ := Option.isSome_iff_exists.mp hsome
      exact mem_fetchedQuads_of_solution h hplaced hq he hm

end Quads

end RdfDatalog.Sparql
