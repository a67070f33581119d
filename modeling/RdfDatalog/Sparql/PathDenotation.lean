import RdfDatalog.Sparql.PathSearch

namespace RdfDatalog.Sparql

open LoopRelation Relation

variable {N : NativeTypes} {ds : Datastore N} {g : GraphElementId}

theorem extensions_or (m : Mapping String (GraphElement N)) (S O : Term N)
    (C C' : GraphElement N → GraphElement N → Prop) :
    extensions m S O (fun a b => C a b ∨ C' a b) = extensions m S O C ∪ extensions m S O C' := by
  ext m'
  simp only [extensions, Set.mem_union, Set.mem_ofPred_eq, or_and_right, exists_or]

section Steps

theorem iri_evaluates (qs : QueryStore N) (hds : qs.toDatastore.Interned) (gel : GraphElement N) :
    Evaluates qs.toDatastore g
      (fun ag s o sub => pure (evalTriplePattern qs ag ⟨s, .constant gel, o⟩ sub none))
      (fun a b => graphTriples qs.toDatastore g a gel b) (fun _ => true) (fun _ => false) := by
  intro sub S O c hvalid hS hO _ _
  have hcore : evalTriplePattern qs (.fixed g) ⟨S, .constant gel, O⟩ sub none =
      evalTriplePatternCore qs.toDatastore (.fixed g) ⟨S, .constant gel, O⟩ none sub none := by
    cases S with
    | var v => rfl
    | constant gel => rfl
    | tripleTerm s p o => cases hS
  apply computes_pure
  rw [hcore]
  apply (evalTriplePatternCore_answers hds g hS rfl hO hvalid).congr
  intro m
  have hbind : ∀ m' p b, (bindEnd m' (.constant gel) p).bind (fun m => bindEnd m O b) =
      if gel = p then bindEnd m' O b else none := by
    intro m' p b
    rw [bindEnd]
    split_ifs <;> rfl
  simp only [extensions, withLoops, bindTriple, hbind, Bool.false_eq_true, and_false, or_false,
    Set.mem_ofPred_eq]
  constructor
  · rintro ⟨a, p, b, htriple, hm⟩
    obtain ⟨mS, hmS, hmO⟩ := Option.bind_eq_some_iff.mp hm
    split_ifs at hmO with hp
    subst hp
    exact ⟨a, b, htriple, by rw [hmS, Option.bind_some, hmO]⟩
  · rintro ⟨a, b, htriple, hm⟩
    exact ⟨a, gel, b, htriple, by simpa only [if_true] using hm⟩

theorem bindEnds_meaning {sub : PartialSub N} (h : Valid ds sub) {S O : Term N}
    (hS : S.isPlain = true) (hO : O.isPlain = true) {q : Quad} {s o : GraphElement N}
    (hqs : ds.resources.getGraphElement q.subject = some s)
    (hqo : ds.resources.getGraphElement q.obj = some o)
    (hns : resolveMatchTerm ds sub S ≠ .never) (hno : resolveMatchTerm ds sub O ≠ .never)
    (hfs : ∀ x ∈ (resolveMatchTerm ds sub S).intoQueryArg, q.subject = x)
    (hfo : ∀ x ∈ (resolveMatchTerm ds sub O).intoQueryArg, q.obj = x) :
    let extended := (bindTerm ds q.subject sub S).bind fun sub => bindTerm ds q.obj sub O
    extended.map (meaning ds) = (bindEnd (meaning ds sub) S s).bind (fun m => bindEnd m O o) ∧
      ∀ r ∈ extended, Valid ds r := by
  obtain ⟨hs, hv⟩ := bindTerm_meaning h hqs hS hfs hns
  rw [← hs]
  cases hb : bindTerm ds q.subject sub S with
  | none => simp
  | some sub₁ => exact bindTerm_meaning (hv sub₁ hb) hqo hO hfo hno

theorem mem_excludedIds {excluded : List (GraphElement N)} {id : GraphElementId}
    {p : GraphElement N} (hp : ds.resources.getGraphElement id = some p) :
    id ∈ excluded.filterMap ds.resources.resourceMap.lookup ↔ p ∈ excluded := by
  rw [List.mem_filterMap]
  constructor
  · intro ⟨e, he, hid⟩
    have heq := (ds.resources.exact e id).mp hid
    exact Option.some.inj (heq.symm.trans hp) ▸ he
  · intro hmem
    exact ⟨p, hmem, (ds.resources.exact p id).mpr hp⟩

theorem negatedSet_evaluates (hds : ds.Interned) (excluded : List (GraphElement N)) :
    Evaluates ds g (fun ag s o sub => pure (evalNegatedSet ds excluded ag s o sub))
      (fun a b => ∃ p, p ∉ excluded ∧ graphTriples ds g a p b) (fun _ => true)
      (fun _ => false) := by
  intro sub S O c hvalid hS hO _ _
  apply computes_pure
  have hext : ∀ m, m ∈ extensions (meaning ds sub) S O (withLoops
      (fun a b => ∃ p, p ∉ excluded ∧ graphTriples ds g a p b) fun _ => false = true) ↔
        ∃ a b, (∃ p, p ∉ excluded ∧ graphTriples ds g a p b) ∧
          (bindEnd (meaning ds sub) S a).bind (fun m => bindEnd m O b) = some m := by
    intro m
    simp only [extensions, withLoops, Bool.false_eq_true, and_false, or_false,
      Set.mem_ofPred_eq]
  -- a quad that extends the row fits what the two ends ask for
  have hfits : ∀ {q : Quad} {a b : GraphElement N} {m : Mapping String (GraphElement N)},
      ds.resources.getGraphElement q.subject = some a →
      ds.resources.getGraphElement q.obj = some b →
      (bindEnd (meaning ds sub) S a).bind (fun m => bindEnd m O b) = some m →
      (resolveMatchTerm ds sub S ≠ .never ∧
        ∀ x ∈ (resolveMatchTerm ds sub S).intoQueryArg, q.subject = x) ∧
      resolveMatchTerm ds sub O ≠ .never ∧
        ∀ x ∈ (resolveMatchTerm ds sub O).intoQueryArg, q.obj = x := by
    intro q a b m hqs hqo hm
    obtain ⟨mS, hmS, hm⟩ := Option.bind_eq_some_iff.mp hm
    exact ⟨fits_of_bindEnd hvalid hqs (fun _ _ hv => hv) hmS,
      fits_of_bindEnd hvalid hqo (fun _ _ hv => bindEnd_extends hmS hv) hm⟩
  rw [evalNegatedSet]
  by_cases hnever : resolveMatchTerm ds sub S = .never ∨ resolveMatchTerm ds sub O = .never
  · rw [if_pos hnever]
    refine answers_nil.congr fun m => ?_
    rw [hext]
    simp only [Set.mem_empty_iff_false, false_iff]
    rintro ⟨a, b, ⟨p, _, q, _, _, hqs, _, hqo⟩, hm⟩
    obtain ⟨hs, ho⟩ := hfits hqs hqo hm
    exact hnever.elim hs.1 ho.1
  · rw [if_neg hnever]
    rw [not_or] at hnever
    constructor
    · intro r hr
      obtain ⟨q, hq, hr⟩ := List.mem_filterMap.mp hr
      obtain ⟨hmem, -, hfs, -, hfo⟩ := QuadStore.mem_quadsMatching.mp hq
      obtain ⟨s, p, o, hqs, hqp, hqo⟩ := exists_elements hds hmem
      split_ifs at hr
      exact (bindEnds_meaning hvalid hS hO hqs hqo hnever.1 hnever.2 hfs hfo).2 r hr
    · intro m
      rw [hext]
      constructor
      · rintro ⟨r, hr, hm⟩
        obtain ⟨q, hq, hr⟩ := List.mem_filterMap.mp hr
        obtain ⟨hmem, hg, hfs, -, hfo⟩ := QuadStore.mem_quadsMatching.mp hq
        obtain ⟨s, p, o, hqs, hqp, hqo⟩ := exists_elements hds hmem
        split_ifs at hr with hex
        have hp : p ∉ excluded := fun hp => hex ((mem_excludedIds hqp).mpr hp)
        refine ⟨s, o, ⟨p, hp, q, hmem, hg g rfl, hqs, hqp, hqo⟩, ?_⟩
        have hmap := (bindEnds_meaning hvalid hS hO hqs hqo hnever.1 hnever.2 hfs hfo).1
        rw [← hmap, hr, Option.map_some, hm]
      · rintro ⟨a, b, ⟨p, hp, q, hmem, hg, hqs, hqp, hqo⟩, hm⟩
        obtain ⟨⟨-, hfs⟩, -, hfo⟩ := hfits hqs hqo hm
        have hmap := (bindEnds_meaning hvalid hS hO hqs hqo hnever.1 hnever.2 hfs hfo).1
        rw [hm] at hmap
        obtain ⟨r, hr, hrm⟩ := Option.map_eq_some_iff.mp hmap
        have hquad : QuadTable.Fits (some g) (resolveMatchTerm ds sub S).intoQueryArg none
            (resolveMatchTerm ds sub O).intoQueryArg q :=
          ⟨fun x hx => hg.trans (Option.some.inj hx), hfs, fun x hx => (by cases hx), hfo⟩
        have hex : q.predicate ∉ excluded.filterMap ds.resources.resourceMap.lookup :=
          fun hex => hp ((mem_excludedIds hqp).mp hex)
        refine ⟨r, List.mem_filterMap.mpr ⟨q, QuadStore.mem_quadsMatching.mpr ⟨hmem, hquad⟩, ?_⟩,
          hrm⟩
        rw [if_neg hex]
        exact hr

end Steps

section Combinations

variable {eval : PathEval N} {R : GraphElement N → GraphElement N → Prop}
  {sound loops : Mode → Bool}

theorem inverse_evaluates (h : Evaluates ds g eval R sound loops) :
    Evaluates ds g (fun ag s o sub => eval ag o s sub) (fun a b => R b a)
      (fun k => sound k.swap) fun k => loops k.swap := by
  intro sub S O c hvalid hS hO hfresh hsound
  simp only [← Mode.of_swap] at hsound ⊢
  apply (h hvalid hO hS hfresh.swap hsound).congr
  intro m
  rw [← extensions_swap]
  apply extensions_congr
  intro a b
  exact withLoops_flip R _ a b

theorem evalAlternatives_evaluates {ι : Type} {l : List ι} {eval : ι → PathEval N}
    {R : ι → GraphElement N → GraphElement N → Prop} {sound loops : ι → Mode → Bool}
    (h : ∀ i ∈ l, Evaluates ds g (eval i) (R i) (sound i) (loops i)) :
    Evaluates ds g (evalAlternatives (l.map eval)) (fun a b => ∃ i ∈ l, R i a b)
      (fun k => l.all fun i => sound i k) fun k => l.any fun i => loops i k := by
  induction l with
  | nil =>
    intro sub S O c hvalid hS hO hfresh hsound
    apply computes_pure
    refine answers_nil.congr fun m => ?_
    simp [extensions, withLoops]
  | cons i l ih =>
    intro sub S O c hvalid hS hO hfresh hsound c' hc
    simp only [List.all_cons, Bool.and_eq_true] at hsound
    obtain ⟨hfirst, hcount⟩ := h i (.head l) hvalid hS hO hfresh hsound.1 c' hc
    obtain ⟨hrest, hcount'⟩ := ih (fun j hj => h j (.tail i hj)) hvalid hS hO hfresh hsound.2
      _ (hc.trans hcount)
    refine ⟨(hfirst.append hrest).congr fun m => ?_, hcount.trans hcount'⟩
    rw [← extensions_or]
    apply extensions_congr
    intro a b
    rw [withLoops_or]
    simp only [List.mem_cons, List.any_cons, Bool.or_eq_true, or_and_right, exists_or,
      exists_eq_left]

theorem zeroOrOne_computes (hds : ds.Interned) (h : Evaluates ds g eval R sound loops)
    {sub : PartialSub N} {S O : Term N} {c : Nat} (hvalid : Valid ds sub) (hS : S.isPlain = true)
    (hO : O.isPlain = true) (hfresh : Fresh c (meaning ds sub) S O)
    (hsound : sound (Mode.of (meaning ds sub) S O) = true) :
    let prog : StateM Nat (List (PartialSub N)) := do
      let oneHop ← eval (.fixed g) S O sub
      pure (oneHop.foldl (pushNew ds) (zeroHopSolutions ds (.fixed g) S O sub))
    Computes ds c (extensions (meaning ds sub) S O (withLoops
      (fun a b => idOn (nodes (graphTriples ds g)) a b ∨ R a b) fun _ =>
        (zeroLoops (Mode.of (meaning ds sub) S O) || loops (Mode.of (meaning ds sub) S O)) = true))
      prog ∧ Distinct ds c prog := by
  intro prog
  rw [Computes, Distinct, ← forall₂_and]
  intro c' hc
  obtain ⟨honeHop, hcount⟩ := h hvalid hS hO hfresh hsound c' hc
  obtain ⟨hzero, hnodup⟩ := zeroHopSolutions_answers (g := g) hds hvalid hS hO
  obtain ⟨hanswers, hdistinct⟩ := foldl_pushNew hzero hnodup honeHop
  refine ⟨⟨hanswers.congr fun m => ?_, hcount⟩, hdistinct⟩
  rw [← extensions_or]
  apply extensions_congr
  intro a b
  rw [withLoops_or]
  simp only [Bool.or_eq_true]

theorem evalExactRepeat_evaluates (hds : ds.Interned) (h : Evaluates ds g eval R sound loops)
    (hR : OnNodes (nodes (graphTriples ds g)) R fun _ => ∃ k, loops k = true) (i : Nat) :
    Evaluates ds g (evalExactRepeat ds eval i)
      (chain (nodes (graphTriples ds g)) (List.replicate i R))
      (fun k => i = 0 || stepsSound (List.replicate i sound) k)
      fun k => if i = 0 then zeroLoops k else stepsLoops (List.replicate i loops) k := by
  rw [evalExactRepeat]
  by_cases hi : i = 0
  · subst hi
    intro sub S O c hvalid hS hO _ _
    apply computes_pure
    simp only [if_pos, List.replicate_zero, chain]
    exact (zeroHopSolutions_answers hds hvalid hS hO).1
  · have hsteps := evalSequence_evaluates (List.replicate i ⟨eval, R, sound, loops⟩)
      fun s hs => by
        rw [List.eq_of_mem_replicate hs]
        exact ⟨h, hR⟩
    simp only [List.map_replicate] at hsteps
    simp only [hi, if_false, decide_false, Bool.false_or]
    exact hsteps

end Combinations

theorem onNodes_loops (E : Triples N) (path : PropertyPath N) :
    OnNodes (nodes E) (pathRel E (nodes E) path) fun _ => ∃ k, pathLoops path k = true :=
  (onNodes_pathRel E path).mono fun _ ⟨_, hk⟩ => nullable_of_pathLoops path hk

section Closures

variable (E : Triples N) (U : Set (GraphElement N)) (path : PropertyPath N)

theorem pathRel_zeroOrMore : pathRel E U (.zeroOrMore path) =
    closure U true (pathRel E U path) := by
  funext a b
  simp [pathRel, closure]

theorem pathRel_oneOrMore : pathRel E U (.oneOrMore path) = closure U false (pathRel E U path) := by
  funext a b
  simp [pathRel, closure]

theorem pathRel_repeat (min n : Nat) : pathRel E U (.repeat path min (some n)) = fun a b =>
    ∃ i ∈ List.range' min (n + 1 - min), chain U (List.replicate i (pathRel E U path)) a b := by
  funext a b
  simp only [pathRel, List.mem_range'_1, Option.mem_some_iff, forall_eq', and_assoc]
  refine propext (exists_congr fun i => and_congr_right fun hmin => and_congr_left fun _ => ?_)
  omega

theorem pathRel_repeatOpen (min : Nat) (h : ∀ a b, pathRel E U path a b → b ∈ U) :
    pathRel E U (.repeat path min none) =
      chain U (List.replicate min (pathRel E U path) ++ [closure U true (pathRel E U path)]) := by
  funext a b
  rw [← pathRel_zeroOrMore]
  have hcount := chain_replicate_star h min a b
  simp only [pathRel, Option.not_mem_none, false_implies, implies_true, true_and, ← hcount]

end Closures

theorem evalPathPattern_evaluates (qs : QueryStore N) (hds : qs.toDatastore.Interned)
    (path : PropertyPath N) :
    Evaluates qs.toDatastore g (evalPathPattern qs path)
      (pathRel (graphTriples qs.toDatastore g) (nodes (graphTriples qs.toDatastore g)) path)
      (pathSound path) (pathLoops path) := by
  induction path with
  | iri gel => exact iri_evaluates qs hds gel
  | sequence steps ih =>
    let toStep (path : PropertyPath N) : Step N := ⟨evalPathPattern qs path,
      pathRel (graphTriples qs.toDatastore g) (nodes (graphTriples qs.toDatastore g)) path,
      pathSound path, pathLoops path⟩
    have hsteps := evalSequence_evaluates (steps.map toStep) fun s hs => by
      obtain ⟨path, hpath, rfl⟩ := List.mem_map.mp hs
      exact ⟨ih path hpath, onNodes_loops _ path⟩
    simp only [List.map_map] at hsteps
    rw [evalPathPattern, evalPathPatterns_eq_map, pathRel, pathRels_eq_map, pathSound,
      pathSound_all, pathLoops, pathLoops_all]
    exact hsteps
  | alternative left right ihl ihr =>
    have halt := evalAlternatives_evaluates (l := [left, right]) fun path hpath => by
      rcases List.mem_pair.mp hpath with rfl | rfl
      · exact ihl
      · exact ihr
    simpa [evalPathPattern, pathRel, pathSound, pathLoops] using halt
  | inverse inner ih => exact inverse_evaluates ih
  | zeroOrMore inner ih =>
    rw [pathRel_zeroOrMore]
    exact transitiveClosure_evaluates hds ih (onNodes_loops _ inner) true
  | oneOrMore inner ih =>
    rw [pathRel_oneOrMore]
    exact transitiveClosure_evaluates hds ih (onNodes_loops _ inner) false
  | zeroOrOne inner ih =>
    intro sub S O c hvalid hS hO hfresh hsound
    exact (zeroOrOne_computes hds ih hvalid hS hO hfresh hsound).1
  | repeat_ inner min max ih =>
    have hR := onNodes_loops (graphTriples qs.toDatastore g) inner
    cases max with
    | some n =>
      rw [pathRel_repeat]
      exact evalAlternatives_evaluates fun i _ => evalExactRepeat_evaluates hds ih hR i
    | none =>
      have hstar := onNodes_closure hR true
      have hclosure := transitiveClosure_evaluates hds ih hR true
      rw [← pathRel_zeroOrMore] at hstar hclosure
      rw [pathRel_repeatOpen _ _ _ _ hR.right, ← pathRel_zeroOrMore]
      let star : Step N := ⟨transitiveClosure qs.toDatastore (evalPathPattern qs inner) true,
        pathRel (graphTriples qs.toDatastore g) (nodes (graphTriples qs.toDatastore g))
          (.zeroOrMore inner), closureSound (pathSound inner) true,
        closureLoops (pathLoops inner) true⟩
      have hsteps := evalSequence_evaluates (List.replicate min ⟨_, _, _, _⟩ ++ [star])
        fun s hs => by
          rcases List.mem_append.mp hs with hs | hs
          · rw [List.eq_of_mem_replicate hs]
            exact ⟨ih, hR⟩
          · rw [List.mem_singleton.mp hs]
            exact ⟨hclosure, hstar.mono fun _ _ => .inl rfl⟩
      simp only [List.map_append, List.map_replicate, List.map_singleton] at hsteps
      exact hsteps
  | negatedSet excluded => exact negatedSet_evaluates hds excluded

end RdfDatalog.Sparql
