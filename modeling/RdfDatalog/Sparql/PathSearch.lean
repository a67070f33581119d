import RdfDatalog.Sparql.PathEnds

namespace RdfDatalog.Sparql

open LoopRelation Relation StackSearch

variable {N : NativeTypes} {ds : Datastore N} {g : GraphElementId}

section Closure

variable {α : Type} {V : Set α} {R : α → α → Prop} {F : α → Prop}

/-- One or more steps of a relation, or any number of them. -/
def closure (V : Set α) (includeZero : Bool) (R : α → α → Prop) (a b : α) : Prop :=
  (includeZero = true ∧ idOn V a b) ∨ TransGen R a b

theorem onNodes_closure (h : OnNodes V R F) (includeZero : Bool) :
    OnNodes V (closure V includeZero R) fun a => includeZero = true ∨ F a := by
  constructor
  · rintro a b (⟨-, hab⟩ | hab)
    · exact hab.2
    · exact h.transGen.left a b hab
  · rintro a b (⟨-, hab⟩ | hab)
    · exact hab.1 ▸ hab.2
    · exact h.transGen.right a b hab
  · rintro a ha (hzero | hF)
    · exact .inl ⟨hzero, rfl, ha⟩
    · exact .inr (.single (h.loop a ha hF))

theorem closure_flip (V : Set α) (includeZero : Bool) (R : α → α → Prop) (a b : α) :
    closure V includeZero (fun a b => R b a) a b ↔ closure V includeZero R b a := by
  have hid : idOn V a b ↔ idOn V b a := by
    simp only [idOn]
    constructor
    · rintro ⟨hab, ha⟩
      exact ⟨hab.symm, hab ▸ ha⟩
    · rintro ⟨hab, ha⟩
      exact ⟨hab.symm, hab ▸ ha⟩
  rw [closure, closure, hid]
  apply or_congr Iff.rfl
  exact transGen_swap

theorem transGen_or_start_iff (includeZero : Bool) (a b : α) :
    (TransGen (withLoops R F) a b ∨ (includeZero = true ∧ b = a)) ↔
      withLoops (closure V includeZero R) (fun a => includeZero = true ∨ F a) a b := by
  rw [transGen_withLoops]
  simp only [withLoops, closure, idOn, eq_comm (a := b)]
  tauto

end Closure

section Search

theorem mem_resourceList_of_node {x : GraphElement N} (h : x ∈ nodes (graphTriples ds g)) :
    x ∈ ds.resources.resourceList := by
  obtain ⟨p, y, ⟨q, -, -, hx, -, -⟩ | ⟨q, -, -, -, -, hx⟩⟩ := h
  · exact List.mem_of_getElem? hx
  · exact List.mem_of_getElem? hx

variable {R : GraphElement N → GraphElement N → Prop} {F : Prop} {c : Nat}

/-- What a hop has to compute: the row with the search variable at the next element. -/
def Hops (ds : Datastore N) (c : Nat) (m : Mapping String (GraphElement N)) (target : String)
    (next : GraphElement N → GraphElement N → Prop)
    (hop : GraphElement N → StateM Nat (List (PartialSub N))) : Prop :=
  ∀ x, Computes ds c {m' | ∃ y, next x y ∧ m.set target y = m'} (hop x)

theorem reachableFrom_correct (hR : OnNodes (nodes (graphTriples ds g)) R fun _ => F)
    {m : Mapping String (GraphElement N)} {target : String}
    {hop : GraphElement N → StateM Nat (List (PartialSub N))}
    (hhop : Hops ds c m target (withLoops R fun _ => F) hop) (includeZero : Bool)
    (start : GraphElement N) {c' : Nat} (hc : c ≤ c') :
    let out := reachableFrom ds hop target includeZero start c'
    out.1.Nodup ∧ (∀ y, y ∈ out.1 ↔ withLoops (closure (nodes (graphTriples ds g)) includeZero R)
      (fun _ => includeZero = true ∨ F) start y) ∧ c' ≤ out.2 := by
  let next := withLoops R fun _ => F
  let step (current : GraphElement N) : StateM Nat (List (GraphElement N)) := do
    let rows ← hop current
    pure (rows.filterMap fun row => (row.lookup target).bind (·.resolve ds))
  have hstep : ∀ x st, c' ≤ st → c' ≤ (step x st).2 ∧ ∀ y, y ∈ (step x st).1 ↔ next x y := by
    intro x st hst
    obtain ⟨hanswers, hcount⟩ := hhop x st (hc.trans hst)
    refine ⟨hst.trans hcount, fun y => ?_⟩
    have hmem : y ∈ (step x st).1 ↔ ∃ row ∈ (hop x st).1, meaning ds row target = some y :=
      List.mem_filterMap
    rw [hmem]
    constructor
    · intro ⟨row, hrow, hy⟩
      obtain ⟨y', hy', heq⟩ := (hanswers.exact (meaning ds row)).mp ⟨row, hrow, rfl⟩
      rw [← heq, Mapping.set_same] at hy
      exact Option.some.inj hy ▸ hy'
    · intro hy
      obtain ⟨row, hrow, hm⟩ := (hanswers.exact (m.set target y)).mpr ⟨y, hy, rfl⟩
      exact ⟨row, hrow, by rw [hm, Mapping.set_same]⟩
  -- a search leaves its start for nodes of the graph only
  let scope := insert start ds.resources.resourceList.toFinset
  have hscope : ∀ x y, x = start ∨ TransGen next start x → next x y → y ∈ scope := by
    intro x y hx hxy
    have hy : TransGen next start y := by
      rcases hx with rfl | hx
      · exact .single hxy
      · exact hx.tail hxy
    rcases (transGen_withLoops start y).mp hy with hy | ⟨heq, -⟩
    · have hnode := hR.transGen.right start y hy
      exact Finset.mem_insert_of_mem (List.mem_toFinset.mpr (mem_resourceList_of_node hnode))
    · exact heq ▸ Finset.mem_insert_self start _
  have hfuel : work scope ⟨[start], []⟩ < searchFuel ds := by
    have hcard : (scope \ ([] : List (GraphElement N)).toFinset).card ≤
        ds.resources.resourceCount + 1 := by
      rw [ds.resources.count]
      exact (Finset.card_le_card Finset.sdiff_subset).trans
        ((Finset.card_insert_le _ _).trans (Nat.succ_le_succ (List.toFinset_card_le _)))
    change 1 + (scope \ ([] : List (GraphElement N)).toFinset).card < ds.resources.resourceCount + 4
    omega
  obtain ⟨hcount, hnodup, hvisited⟩ := search_correct hstep hscope searching_start hfuel le_rfl
  let visited := (search step (searchFuel ds) ⟨[start], []⟩ c').1
  have hresult : (reachableFrom ds hop target includeZero start c').1 =
      if includeZero && !visited.contains start then visited ++ [start] else visited := rfl
  refine ⟨?_, fun y => ?_, hcount⟩
  · rw [hresult]
    split_ifs with hnew
    · have hstart : start ∉ visited := by
        intro hmem
        simp [hmem] at hnew
      exact hnodup.append (List.nodup_singleton start) (List.disjoint_singleton.mpr hstart)
    · exact hnodup
  · rw [hresult, ← transGen_or_start_iff, ← hvisited]
    split_ifs with hnew
    · have hzero : includeZero = true := (Bool.and_eq_true_iff.mp hnew).1
      simp [hzero, visited]
    · cases includeZero with
      | false => simp [visited]
      | true =>
        have hstart : start ∈ visited := by simpa using hnew
        constructor
        · exact .inl
        · rintro (hy | ⟨-, rfl⟩)
          · exact hy
          · exact hstart

end Search

section TransitiveClosure

variable {eval : PathEval N} {R : GraphElement N → GraphElement N → Prop}
  {sound loops : Mode → Bool} {c : Nat} {sub : PartialSub N} {S O : Term N}

theorem Fresh.forward (h : Fresh c (meaning ds sub) S O) (x : GraphElement N) :
    Fresh c (meaning ds sub) (.constant x) (.var tcNext) :=
  ⟨h.unbound, fun _ _ heq => (by cases heq),
    fun i _ heq => bridgeName_ne_tcNext i (Term.var.inj heq).symm⟩

theorem Fresh.backward (h : Fresh c (meaning ds sub) S O) (x : GraphElement N) :
    Fresh c (meaning ds sub) (.var tcPrev) (.constant x) :=
  ⟨h.unbound, fun i _ heq => bridgeName_ne_tcPrev i (Term.var.inj heq).symm,
    fun _ _ heq => (by cases heq)⟩

variable (h : Evaluates ds g eval R sound loops)

include h

theorem hops_forward (hvalid : Valid ds sub)
    (hfresh : Fresh c (meaning ds sub) S O) (hnext : meaning ds sub tcNext = none)
    (hsound : sound (Mode.of (meaning ds sub) S O).forward = true) :
    Hops ds c (meaning ds sub) tcNext
      (withLoops R fun _ => loops (Mode.of (meaning ds sub) S O).forward = true)
      fun x => eval (.fixed g) (.constant x) (.var tcNext) sub := by
  intro x
  have hmode := Mode.of_forward hnext S O x
  rw [← hmode] at hsound ⊢
  apply (h hvalid rfl rfl (hfresh.forward x) hsound).congr
  intro m
  exact mem_extensions_of_subject rfl hnext

theorem hops_backward (hvalid : Valid ds sub)
    (hfresh : Fresh c (meaning ds sub) S O) (hprev : meaning ds sub tcPrev = none)
    (hsound : sound (Mode.of (meaning ds sub) S O).backward = true) :
    Hops ds c (meaning ds sub) tcPrev
      (withLoops (fun a b => R b a) fun _ => loops (Mode.of (meaning ds sub) S O).backward = true)
      fun x => eval (.fixed g) (.var tcPrev) (.constant x) sub := by
  intro x
  have hmode := Mode.of_backward hprev S O x
  rw [← hmode] at hsound ⊢
  apply (h hvalid rfl rfl (hfresh.backward x) hsound).congr
  intro m
  rw [mem_extensions_of_object hprev rfl]
  exact exists_congr fun y => and_congr (withLoops_flip R _ x y) Iff.rfl

omit h

variable {c' : Nat} {v : String} {includeZero : Bool}

theorem forNodes_correct {reach : GraphElement N → StateM Nat (List (GraphElement N))}
    {P : GraphElement N → GraphElement N → Prop}
    (h : ∀ s c', c ≤ c' → (∀ y, y ∈ (reach s c').1 ↔ P s y) ∧ c' ≤ (reach s c').2)
    (xs : List (GraphElement N)) (hc : c ≤ c') :
    (∀ s y, (s, y) ∈ (forNodes reach xs c').1 ↔ s ∈ xs ∧ P s y) ∧
      c' ≤ (forNodes reach xs c').2 := by
  induction xs generalizing c' with
  | nil =>
    refine ⟨fun s y => ?_, le_rfl⟩
    change (s, y) ∈ [] ↔ _
    simp
  | cons x xs ih =>
    obtain ⟨hreach, hcount⟩ := h x c' hc
    obtain ⟨hrest, hcount'⟩ := ih (hc.trans hcount)
    refine ⟨fun s y => ?_, hcount.trans hcount'⟩
    change (s, y) ∈ ((reach x c').1.map (Prod.mk x)) ++ (forNodes reach xs (reach x c').2).1 ↔ _
    rw [List.mem_append, hrest, List.mem_cons, or_and_right]
    apply or_congr _ Iff.rfl
    rw [List.mem_map]
    constructor
    · intro ⟨y', hy', heq⟩
      obtain ⟨rfl, rfl⟩ := Prod.mk.inj heq
      exact ⟨rfl, (hreach y').mp hy'⟩
    · intro ⟨heq, hy⟩
      subst heq
      exact ⟨y, (hreach y).mpr hy, rfl⟩

/-- No solution is computed twice. -/
def Distinct (ds : Datastore N) (c : Nat) (prog : StateM Nat (List (PartialSub N))) : Prop :=
  ∀ c', c ≤ c' → ((prog c').1.map (meaning ds)).Nodup

/-- The meanings that the closure of a relation gives a row. -/
def closureExtensions (ds : Datastore N) (g : GraphElementId)
    (R : GraphElement N → GraphElement N → Prop) (loops : Mode → Bool) (includeZero : Bool)
    (S O : Term N) (sub : PartialSub N) : Set (Mapping String (GraphElement N)) :=
  extensions (meaning ds sub) S O (withLoops (closure (nodes (graphTriples ds g)) includeZero R)
    fun _ => closureLoops loops includeZero (Mode.of (meaning ds sub) S O) = true)

theorem isSome_eq_false {m : Mapping String (GraphElement N)} (h : (m v).isSome = false) :
    m v = none := by
  simpa using h

include h

variable (hR : OnNodes (nodes (graphTriples ds g)) R fun _ => ∃ k, loops k = true)

include hR

theorem transitiveClosure_subject
    (hvalid : Valid ds sub) (hS : S.isPlain = true) (hO : O.isPlain = true)
    (hfresh : Fresh c (meaning ds sub) S O)
    (hsound : closureSound sound includeZero (Mode.of (meaning ds sub) S O) = true)
    {s : GraphElement N} (hs : endValue (meaning ds sub) S = some s) (hc : c ≤ c') :
    let out := transitiveClosure ds eval includeZero (.fixed g) S O sub c'
    (Answers ds out.1 (closureExtensions ds g R loops includeZero S O sub) ∧ c' ≤ out.2) ∧
      (out.1.map (meaning ds)).Nodup := by
  have hport : (Mode.of (meaning ds sub) S O).subject = .bound := port_of_endValue hS hs
  rw [closureSound, if_pos hport, Bool.and_eq_true, Bool.not_eq_true'] at hsound
  have hhops := hops_forward h hvalid hfresh (isSome_eq_false hsound.1) hsound.2
  obtain ⟨hnodup, hmem, hcount⟩ := reachableFrom_correct (hR.mono fun _ hloop => ⟨_, hloop⟩)
    hhops includeZero s hc
  have hrel : ∀ y, withLoops (closure (nodes (graphTriples ds g)) includeZero R) (fun _ =>
      closureLoops loops includeZero (Mode.of (meaning ds sub) S O) = true) s y ↔
        y ∈ (reachableFrom ds (fun x => eval (.fixed g) (.constant x) (.var tcNext) sub)
          tcNext includeZero s c').1 := by
    intro y
    rw [hmem, closureLoops, if_pos hport]
    simp only [Bool.or_eq_true]
  let found := (reachableFrom ds (fun x => eval (.fixed g) (.constant x) (.var tcNext) sub)
    tcNext includeZero s c').1
  unfold transitiveClosure
  rw [resolveTermToGel_eq, resolveTermToGel_eq, hs]
  cases ho : endValue (meaning ds sub) O with
  | some o =>
    refine ⟨⟨answers_keep (P := found.contains o = true) hvalid fun m => ?_, hcount⟩,
      nodup_keep (found.contains o = true)⟩
    rw [closureExtensions, mem_extensions_of_bound hs ho, hrel, List.contains_iff_mem]
  | none =>
    obtain ⟨w, rfl, hw⟩ := exists_var_of_endValue hO ho
    refine ⟨⟨answers_insert hvalid w found fun m => ?_, hcount⟩, nodup_insert w hnodup⟩
    rw [closureExtensions, mem_extensions_of_subject hs hw]
    simp only [hrel, found]

theorem transitiveClosure_object
    (hvalid : Valid ds sub) (hO : O.isPlain = true) (hfresh : Fresh c (meaning ds sub) (.var v) O)
    (hsound : closureSound sound includeZero (Mode.of (meaning ds sub) (.var v) O) = true)
    (hv : meaning ds sub v = none) {o : GraphElement N} (ho : endValue (meaning ds sub) O = some o)
    (hc : c ≤ c') :
    let out := transitiveClosure ds eval includeZero (.fixed g) (.var v) O sub c'
    (Answers ds out.1 (closureExtensions ds g R loops includeZero (.var v) O sub) ∧ c' ≤ out.2) ∧
      (out.1.map (meaning ds)).Nodup := by
  have hnone : endValue (meaning ds sub) (.var v) = none := hv
  have hport : (Mode.of (meaning ds sub) (.var v) O).subject ≠ .bound := port_of_free rfl hnone
  have hporto : (Mode.of (meaning ds sub) (.var v) O).object = .bound := port_of_endValue hO ho
  rw [closureSound, if_neg hport, if_pos hporto, Bool.and_eq_true, Bool.not_eq_true'] at hsound
  have hhops := hops_backward h hvalid hfresh (isSome_eq_false hsound.1) hsound.2
  obtain ⟨hnodup, hmem, hcount⟩ := reachableFrom_correct (hR.flip.mono fun _ hloop => ⟨_, hloop⟩)
    hhops includeZero o hc
  have hrel : ∀ x, withLoops (closure (nodes (graphTriples ds g)) includeZero R) (fun _ =>
      closureLoops loops includeZero (Mode.of (meaning ds sub) (.var v) O) = true) x o ↔
        x ∈ (reachableFrom ds (fun x => eval (.fixed g) (.var tcPrev) (.constant x) sub)
          tcPrev includeZero o c').1 := by
    intro x
    rw [hmem, withLoops_flip, closureLoops, if_neg hport, if_pos hporto]
    simp only [withLoops, closure_flip, Bool.or_eq_true]
  let found := (reachableFrom ds (fun x => eval (.fixed g) (.var tcPrev) (.constant x) sub)
    tcPrev includeZero o c').1
  unfold transitiveClosure
  rw [resolveTermToGel_eq, resolveTermToGel_eq, hnone, ho]
  refine ⟨⟨answers_insert hvalid v found fun m => ?_, hcount⟩, nodup_insert v hnodup⟩
  rw [closureExtensions, mem_extensions_of_object hv ho]
  simp only [hrel, found]

omit hR

omit h

theorem transitiveClosure_free (hds : ds.Interned) (h : Evaluates ds g eval R sound loops)
    (hR : OnNodes (nodes (graphTriples ds g)) R fun _ => ∃ k, loops k = true)
    (hvalid : Valid ds sub) {w : String} (hfresh : Fresh c (meaning ds sub) (.var v) (.var w))
    (hsound : closureSound sound includeZero (Mode.of (meaning ds sub) (.var v) (.var w)) = true)
    (hv : meaning ds sub v = none) (hw : meaning ds sub w = none) (hc : c ≤ c') :
    let out := transitiveClosure ds eval includeZero (.fixed g) (.var v) (.var w) sub c'
    (Answers ds out.1 (closureExtensions ds g R loops includeZero (.var v) (.var w) sub) ∧
      c' ≤ out.2) ∧ (out.1.map (meaning ds)).Nodup := by
  have hnonev : endValue (meaning ds sub) (.var v) = none := hv
  have hnonew : endValue (meaning ds sub) (.var w) = none := hw
  have hport : (Mode.of (meaning ds sub) (.var v) (.var w)).subject ≠ .bound :=
    port_of_free rfl hnonev
  have hporto : (Mode.of (meaning ds sub) (.var v) (.var w)).object ≠ .bound :=
    port_of_free rfl hnonew
  rw [closureSound, if_neg hport, if_neg hporto, Bool.and_eq_true, Bool.and_eq_true,
    Bool.not_eq_true', Bool.or_eq_true, Bool.not_eq_true'] at hsound
  obtain ⟨⟨hnext, hforward⟩, hsame⟩ := hsound
  have hhops := hops_forward h hvalid hfresh (isSome_eq_false hnext) hforward
  have hclosure := onNodes_closure hR includeZero
  obtain ⟨hpairs, hcount⟩ := forNodes_correct (fun s c' hc => (reachableFrom_correct
    (hR.mono fun _ hloop => ⟨_, hloop⟩) hhops includeZero s hc).2) (graphNodes ds (some g)) hc
  let pairs := (forNodes (reachableFrom ds (fun x => eval (.fixed g) (.constant x)
    (.var tcNext) sub) tcNext includeZero) (graphNodes ds (some g)) c').1
  have hmeaning (s y : GraphElement N) : meaning ds ((sub.insert v (.computed s)).insert w
      (.computed y)) = ((meaning ds sub).set v s).set w y := by
    rw [meaning_computed, meaning_computed]
  have hrows : Answers ds (pairs.map (fun p =>
      (sub.insert v (.computed p.1)).insert w (.computed p.2)) ++ [])
      (closureExtensions ds g R loops includeZero (.var v) (.var w) sub) := by
    rw [List.append_nil]
    constructor
    · intro r hr
      obtain ⟨⟨s, y⟩, -, rfl⟩ := List.mem_map.mp hr
      exact (hvalid.computed v s).computed w y
    · intro m
      rw [closureExtensions, mem_extensions_of_free hv hw]
      simp only [closureLoops, if_neg hport, if_neg hporto, Bool.false_eq_true, withLoops,
        and_false, or_false]
      constructor
      · rintro ⟨r, hr, hm⟩
        obtain ⟨⟨s, y⟩, hsy, rfl⟩ := List.mem_map.mp hr
        obtain ⟨hnode, hsy⟩ := (hpairs s y).mp hsy
        have hclose : closure (nodes (graphTriples ds g)) includeZero R s y := by
          rcases hsy with hsy | ⟨rfl, hloop⟩
          · exact hsy
          · exact hclosure.loop s ((mem_graphNodes hds s).mp hnode)
              (hloop.imp_right fun hloop => ⟨_, hloop⟩)
        rw [hmeaning] at hm
        by_cases hvw : v = w
        · subst hvw
          -- the second end wins, which is right when it has a path to itself
          have hzero : includeZero = true := by
            apply hsame.resolve_right
            simpa [Mode.of] using hport
          rw [Mapping.set_set_same] at hm
          refine ⟨y, y, hclosure.loop y (hclosure.right s y hclose) (.inl hzero), fun _ => rfl, ?_⟩
          rw [Mapping.set_set_same, hm]
        · exact ⟨s, y, hclose, fun h => absurd h hvw, hm⟩
      · rintro ⟨s, y, hclose, _, hm⟩
        have hnode := (mem_graphNodes hds s).mpr (hclosure.left s y hclose)
        exact ⟨_, List.mem_map_of_mem ((hpairs s y).mpr ⟨hnode, .inl hclose⟩),
          (hmeaning s y).trans hm⟩
  obtain ⟨hanswers, hnodup⟩ := foldl_pushNew answers_nil List.nodup_nil hrows
  unfold transitiveClosure
  rw [resolveTermToGel_eq, resolveTermToGel_eq, hnonev, hnonew]
  refine ⟨⟨hanswers.congr fun m => ?_, hcount⟩, hnodup⟩
  rw [Set.empty_union]

theorem transitiveClosure_computes (hds : ds.Interned) (h : Evaluates ds g eval R sound loops)
    (hR : OnNodes (nodes (graphTriples ds g)) R fun _ => ∃ k, loops k = true)
    (hvalid : Valid ds sub) (hS : S.isPlain = true) (hO : O.isPlain = true)
    (hfresh : Fresh c (meaning ds sub) S O)
    (hsound : closureSound sound includeZero (Mode.of (meaning ds sub) S O) = true) :
    Computes ds c (closureExtensions ds g R loops includeZero S O sub)
      (transitiveClosure ds eval includeZero (.fixed g) S O sub) ∧
    Distinct ds c (transitiveClosure ds eval includeZero (.fixed g) S O sub) := by
  rw [Computes, Distinct, ← forall₂_and]
  intro c' hc
  cases hs : endValue (meaning ds sub) S with
  | some s => exact transitiveClosure_subject h hR hvalid hS hO hfresh hsound hs hc
  | none =>
    obtain ⟨v, rfl, hv⟩ := exists_var_of_endValue hS hs
    cases ho : endValue (meaning ds sub) O with
    | some o => exact transitiveClosure_object h hR hvalid hO hfresh hsound hv ho hc
    | none =>
      obtain ⟨w, rfl, hw⟩ := exists_var_of_endValue hO ho
      exact transitiveClosure_free hds h hR hvalid hfresh hsound hv hw hc

theorem transitiveClosure_evaluates (hds : ds.Interned) (h : Evaluates ds g eval R sound loops)
    (hR : OnNodes (nodes (graphTriples ds g)) R fun _ => ∃ k, loops k = true)
    (includeZero : Bool) :
    Evaluates ds g (transitiveClosure ds eval includeZero)
      (closure (nodes (graphTriples ds g)) includeZero R) (closureSound sound includeZero)
      (closureLoops loops includeZero) :=
  fun _ _ _ _ hvalid hS hO hfresh hsound =>
    (transitiveClosure_computes hds h hR hvalid hS hO hfresh hsound).1

end TransitiveClosure

end RdfDatalog.Sparql
