import RdfDatalog.Sparql.BgpBag
import RdfDatalog.Sparql.QueryForms

namespace RdfDatalog.Sparql

variable {N : NativeTypes} {K : Finset String} {ds : Datastore N} {qs : QueryStore N}

/-- The solution binds none but the variables. -/
def Within (K : Finset String) (sub : PartialSub N) : Prop := ∀ v ∈ sub, v ∈ K

/-- All rows bind none but the variables. -/
def AllWithin (K : Finset String) (rows : List (PartialSub N)) : Prop := ∀ sub ∈ rows, Within K sub

section Rows

variable {sub row a b m : PartialSub N} {v : String} {val : PartialSubValue N}

theorem within_empty : Within K (∅ : PartialSub N) := by
  intro v hv
  exact absurd hv Finmap.notMem_empty

theorem Within.mono {K' : Finset String} (h : Within K sub) (hK : K ⊆ K') : Within K' sub :=
  fun v hv => hK (h v hv)

theorem Within.insert (h : Within K sub) (hv : v ∈ K) (val : PartialSubValue N) :
    Within K (sub.insert v val) := by
  intro w hw
  rcases Finmap.mem_insert.mp hw with rfl | hw
  · exact hv
  · exact h w hw

theorem Within.union (ha : Within K a) (hb : Within K b) : Within K (a ∪ b) := by
  intro v hv
  rcases Finmap.mem_union.mp hv with hv | hv
  · exact ha v hv
  · exact hb v hv

theorem Within.bindVariable (h : Within K sub) (hv : v ∈ K)
    (hrow : bindVariable ds sub v val = some row) : Within K row := by
  unfold Sparql.bindVariable at hrow
  split at hrow
  · split_ifs at hrow
    cases hrow
    exact h.insert hv val
  · cases hrow
    exact h.insert hv val

theorem Within.mergeSolutions (ha : Within K a) (hb : Within K b)
    (h : mergeSolutions ds a b = some m) : Within K m := by
  unfold Sparql.mergeSolutions at h
  split_ifs at h
  cases h
  exact hb.union ha

theorem allWithin_nil : AllWithin K ([] : List (PartialSub N)) := by
  intro sub hsub
  cases hsub

theorem allWithin_singleton (h : Within K sub) : AllWithin K [sub] := by
  intro row hrow
  rw [List.mem_singleton.mp hrow]
  exact h

theorem AllWithin.append {xs ys : List (PartialSub N)} (hxs : AllWithin K xs)
    (hys : AllWithin K ys) : AllWithin K (xs ++ ys) := by
  intro sub hsub
  rcases List.mem_append.mp hsub with hsub | hsub
  · exact hxs sub hsub
  · exact hys sub hsub

theorem allWithin_flatMap {α : Type} {xs : List α} {f : α → List (PartialSub N)}
    (h : ∀ x ∈ xs, AllWithin K (f x)) : AllWithin K (xs.flatMap f) := by
  intro sub hsub
  obtain ⟨x, hx, hsub⟩ := List.mem_flatMap.mp hsub
  exact h x hx sub hsub

variable {rows : List (PartialSub N)}

theorem AllWithin.pushNew (h : AllWithin K rows) (hrow : Within K row) :
    AllWithin K (pushNew ds rows row) := by
  unfold Sparql.pushNew
  split_ifs
  · exact h
  · exact h.append (allWithin_singleton hrow)

theorem AllWithin.pushAll {more : List (PartialSub N)} (h : AllWithin K rows)
    (hmore : AllWithin K more) : AllWithin K (more.foldl (Sparql.pushNew ds) rows) := by
  induction more generalizing rows with
  | nil => exact h
  | cons row more ih =>
    exact ih (h.pushNew (hmore row List.mem_cons_self)) fun sub hsub =>
      hmore sub (List.mem_cons_of_mem row hsub)

theorem AllWithin.joinRows {outer : List (PartialSub N)} (houter : AllWithin K outer)
    (hrows : AllWithin K rows) : AllWithin K (joinRows ds outer rows) := by
  refine allWithin_flatMap fun sub hsub row hrow => ?_
  obtain ⟨inner, hinner, hmerge⟩ := List.mem_filterMap.mp hrow
  exact (houter sub hsub).mergeSolutions (hrows inner hinner) hmerge

end Rows

section Patterns

variable {ag : ActiveGraph} {sub row : PartialSub N} {tp : TriplePattern N} {T : Term N}
  {budget : Option Nat} {id : GraphElementId}

theorem Within.bindTerm (h : Within K sub) (hT : T.variables ⊆ K)
    (hrow : bindTerm ds id sub T = some row) : Within K row := by
  cases T with
  | var v => exact h.bindVariable (hT (Finset.mem_singleton_self v)) hrow
  | constant | tripleTerm =>
    cases hrow
    exact h

theorem Within.bindGraph (h : Within K sub) (hag : ag.variables ⊆ K)
    (hrow : bindGraph ds id sub ag = some row) : Within K row := by
  cases ag with
  | fixed g =>
    cases hrow
    exact h
  | var v => exact h.bindVariable (hag (Finset.mem_singleton_self v)) hrow

theorem allWithin_collectSolutions {extend : Quad → Option (PartialSub N)} {quads : List Quad}
    (h : ∀ quad row, extend quad = some row → Within K row) :
    AllWithin K (collectSolutions extend budget quads) := by
  induction quads generalizing budget with
  | nil => exact allWithin_nil
  | cons quad quads ih =>
    rw [collectSolutions]
    cases hquad : extend quad with
    | none => exact ih
    | some row =>
      have hrow := h quad row hquad
      cases budget with
      | none => exact (allWithin_singleton hrow).append ih
      | some b =>
        dsimp only
        split_ifs
        · exact allWithin_singleton hrow
        · exact (allWithin_singleton hrow).append ih

theorem Within.evalTriplePatternCore {forced : Option GraphElementId} (h : Within K sub)
    (htp : tp.variables ⊆ K) (hag : ag.variables ⊆ K) :
    AllWithin K (evalTriplePatternCore ds ag tp forced sub budget) := by
  have hsubject : tp.subject.variables ⊆ K := fun v hv =>
    htp (Finset.mem_union_left _ (Finset.mem_union_left _ hv))
  have hpredicate : tp.predicate.variables ⊆ K := fun v hv =>
    htp (Finset.mem_union_left _ (Finset.mem_union_right _ hv))
  have hobject : tp.object.variables ⊆ K := fun v hv => htp (Finset.mem_union_right _ hv)
  have hcollect (limit : Option Nat) (quads : List Quad) :
      AllWithin K (collectSolutions (fun quad =>
      (Sparql.bindTerm ds quad.subject sub tp.subject).bind fun sub =>
        (Sparql.bindTerm ds quad.predicate sub tp.predicate).bind fun sub =>
          (Sparql.bindTerm ds quad.obj sub tp.object).bind fun sub =>
            Sparql.bindGraph ds quad.tripleId sub ag) limit quads) := by
    refine allWithin_collectSolutions fun quad row hrow => ?_
    simp only [Option.bind_eq_some_iff] at hrow
    obtain ⟨r₁, h₁, r₂, h₂, r₃, h₃, h₄⟩ := hrow
    have hw₁ := h.bindTerm hsubject h₁
    have hw₂ := hw₁.bindTerm hpredicate h₂
    have hw₃ := hw₂.bindTerm hobject h₃
    exact hw₃.bindGraph hag h₄
  unfold Sparql.evalTriplePatternCore
  dsimp only
  split_ifs
  · exact allWithin_nil
  · exact allWithin_nil
  · exact hcollect _ _
  · exact hcollect _ _

theorem slot_free_mem {v : String} (h : resolveSlot ds sub T = .free v) : v ∈ T.variables := by
  unfold resolveSlot at h
  split at h
  · split at h <;> cases h
  · split at h
    · split at h <;> cases h
    · cases h
      exact Finset.mem_singleton_self _
  · cases h

theorem Within.bindFree {slot : Slot} (h : Within K sub) (hslot : ∀ v, slot = .free v → v ∈ K)
    (hrow : bindFree ds id sub slot = some row) : Within K row := by
  cases slot with
  | free v => exact h.bindVariable (hslot v rfl) hrow
  | known | unmatchable =>
    cases hrow
    exact h

theorem within_tripleTermCandidates {s p o : Term N} (hs : s.variables ⊆ K) (hp : p.variables ⊆ K)
    (ho : o.variables ⊆ K) {x : GraphElementId × PartialSub N}
    (hx : x ∈ tripleTermCandidates qs sub s p o) : Within K x.2 := by
  unfold tripleTermCandidates at hx
  dsimp only at hx
  split_ifs at hx
  · cases hx
  · obtain ⟨quad, -, hquad⟩ := List.mem_filterMap.mp hx
    obtain ⟨b, hb, rfl⟩ := Option.map_eq_some_iff.mp hquad
    simp only [Option.bind_eq_some_iff] at hb
    obtain ⟨r₁, h₁, r₂, h₂, h₃⟩ := hb
    have hw₁ := within_empty.bindFree (fun v hv => hs (slot_free_mem hv)) h₁
    have hw₂ := hw₁.bindFree (fun v hv => hp (slot_free_mem hv)) h₂
    exact hw₂.bindFree (fun v hv => ho (slot_free_mem hv)) h₃

theorem Within.evalTriplePattern (h : Within K sub) (htp : tp.variables ⊆ K)
    (hag : ag.variables ⊆ K) : AllWithin K (evalTriplePattern qs ag tp sub budget) := by
  unfold Sparql.evalTriplePattern
  split
  · next s p o hsubject =>
    have hterm : (Term.tripleTerm s p o).variables ⊆ K := fun v hv => by
      rw [← hsubject] at hv
      exact htp (Finset.mem_union_left _ (Finset.mem_union_left _ hv))
    refine allWithin_flatMap fun x hx => ?_
    have hx' : Within K x.2 := within_tripleTermCandidates
      (fun v hv => hterm (Finset.mem_union_left _ (Finset.mem_union_left _ hv)))
      (fun v hv => hterm (Finset.mem_union_left _ (Finset.mem_union_right _ hv)))
      (fun v hv => hterm (Finset.mem_union_right _ hv)) hx
    dsimp only
    cases hmerged : Sparql.mergeSolutions qs.toDatastore sub x.2 with
    | none => exact allWithin_nil
    | some merged => exact (h.mergeSolutions hx' hmerged).evalTriplePatternCore htp hag
  · exact h.evalTriplePatternCore htp hag

variable {rows : List (PartialSub N)}

theorem allWithin_evalPatternRows {eval : PartialSub N → Option Nat → List (PartialSub N)}
    (h : ∀ sub ∈ rows, ∀ budget, AllWithin K (eval sub budget)) :
    AllWithin K (evalPatternRows eval budget rows) := by
  have hbudgeted (b : Nat) (acc : List (PartialSub N)) (hacc : AllWithin K acc) :
      AllWithin K (budgetedRows eval b acc rows) := by
    induction rows generalizing acc with
    | nil => exact hacc
    | cons sub rest ih =>
      rw [budgetedRows]
      split_ifs
      · exact hacc
      · exact ih (fun r hr => h r (List.mem_cons_of_mem sub hr)) _
          (hacc.append (h sub List.mem_cons_self _))
  cases budget with
  | none => exact allWithin_flatMap fun sub hsub => h sub hsub none
  | some b => exact hbudgeted b [] allWithin_nil

variable {patterns : List (TriplePattern N)}

theorem AllWithin.evalOrdered (h : AllWithin K rows) (htps : ∀ tp ∈ patterns, tp.variables ⊆ K)
    (hag : ag.variables ⊆ K) :
    AllWithin K (evalOrdered qs ag budget patterns rows) := by
  induction patterns generalizing rows with
  | nil => exact h
  | cons tp rest ih =>
    have hnext (b : Option Nat) :
        AllWithin K (evalPatternRows (Sparql.evalTriplePattern qs ag tp) b rows) :=
      allWithin_evalPatternRows fun sub hsub _ =>
        (h sub hsub).evalTriplePattern (htps tp List.mem_cons_self) hag
    rw [Sparql.evalOrdered]
    split_ifs
    · exact hnext _
    · exact ih (hnext _) fun tp' htp' => htps tp' (List.mem_cons_of_mem tp htp')
    · exact hnext _
    · exact ih (hnext _) fun tp' htp' => htps tp' (List.mem_cons_of_mem tp htp')

theorem AllWithin.evalBgp (h : AllWithin K rows) (htps : ∀ tp ∈ patterns, tp.variables ⊆ K)
    (hag : ag.variables ⊆ K) :
    AllWithin K (evalBgp qs ag patterns rows budget) :=
  h.evalOrdered (fun tp htp => htps tp ((orderPatterns_perm _ _ _).mem_iff.mp htp)) hag

end Patterns

section PropertyPaths

variable {ag : ActiveGraph} {sub : PartialSub N} {S O : Term N} {c : Nat}

def PathEval.BindsEnds (eval : PathEval N) : Prop :=
  ∀ (K : Finset String) (ag : ActiveGraph) (S O : Term N) (sub : PartialSub N) (c : Nat),
    Within K sub → S.variables ⊆ K → O.variables ⊆ K → ag.variables ⊆ K →
      AllWithin K (eval ag S O sub c).1

variable {rows : List (PartialSub N)} {steps : List (PathEval N)}

theorem allWithin_forRows {eval : PartialSub N → StateM Nat (List (PartialSub N))}
    (h : ∀ sub ∈ rows, ∀ c, AllWithin K (eval sub c).1) :
    AllWithin K (forRows eval rows c).1 := by
  induction rows generalizing c with
  | nil => exact allWithin_nil
  | cons sub rest ih =>
    exact (h sub List.mem_cons_self c).append
      (ih fun r hr => h r (List.mem_cons_of_mem sub hr))

theorem allWithin_evalSteps (hsteps : ∀ step ∈ steps, step.BindsEnds) (h : AllWithin K rows)
    (hS : S.variables ⊆ K) (hO : O.variables ⊆ K) (hag : ag.variables ⊆ K) :
    AllWithin (K ∪ (evalSteps ag O steps S rows c).1.2.toFinset)
      (evalSteps ag O steps S rows c).1.1 := by
  induction steps generalizing K S rows c with
  | nil => exact fun sub hsub => (h sub hsub).mono Finset.subset_union_left
  | cons step rest ih =>
    have hstep := hsteps step List.mem_cons_self
    cases rest with
    | nil =>
      intro sub hsub
      refine Within.mono ?_ Finset.subset_union_left
      exact allWithin_forRows (fun r hr c => hstep K ag S O r c (h r hr) hS hO hag) sub hsub
    | cons next steps =>
      have hK : K ⊆ insert (bridgeName c) K := Finset.subset_insert _ _
      have hbridge : (Term.var (bridgeName c) : Term N).variables ⊆ insert (bridgeName c) K :=
        Finset.singleton_subset_iff.mpr (Finset.mem_insert_self _ _)
      have hrows : AllWithin (insert (bridgeName c) K)
          (forRows (step ag S (.var (bridgeName c))) rows (c + 1)).1 :=
        allWithin_forRows fun r hr c' => hstep _ ag S _ r c' ((h r hr).mono hK)
          (hS.trans hK) hbridge (hag.trans hK)
      have hrest := ih (fun s hs => hsteps s (List.mem_cons_of_mem step hs)) hrows hbridge
        (hO.trans hK) (hag.trans hK)
        (c := (forRows (step ag S (.var (bridgeName c))) rows (c + 1)).2)
      intro sub hsub
      refine (hrest sub hsub).mono fun v hv => ?_
      change v ∈ K ∪ (bridgeName c :: _).toFinset
      rw [List.toFinset_cons, Finset.union_insert, ← Finset.insert_union]
      exact hv

theorem mem_removeAll {names : List String} {v : String} (h : v ∈ removeAll names sub) :
    v ∈ sub ∧ v ∉ names := by
  induction names generalizing sub with
  | nil => exact ⟨h, List.not_mem_nil⟩
  | cons name names ih =>
    obtain ⟨hmem, hnames⟩ := ih h
    rw [Finmap.mem_erase] at hmem
    exact ⟨hmem.2, fun hv => (List.mem_cons.mp hv).elim hmem.1 hnames⟩

theorem bindsEnds_evalSequence (hsteps : ∀ step ∈ steps, step.BindsEnds) :
    (evalSequence steps).BindsEnds := by
  intro K ag S O sub c h hS hO hag row hrow
  have hall := allWithin_evalSteps (c := c) hsteps (allWithin_singleton h) hS hO hag
  obtain ⟨r, hr, rfl⟩ := List.mem_map.mp hrow
  intro v hv
  obtain ⟨hmem, hnames⟩ := mem_removeAll hv
  rcases Finset.mem_union.mp (hall r hr v hmem) with hv | hv
  · exact hv
  · exact absurd (List.mem_toFinset.mp hv) hnames

theorem Within.insertVar {v : String} (h : Within K sub) (hT : (Term.var v : Term N).variables ⊆ K)
    (val : PartialSubValue N) : Within K (sub.insert v val) :=
  h.insert (hT (Finset.mem_singleton_self v)) val

theorem Within.zeroHopSolutions (h : Within K sub) (hS : S.variables ⊆ K) (hO : O.variables ⊆ K)
    (hag : ag.variables ⊆ K) : AllWithin K (zeroHopSolutions ds ag S O sub) := by
  have hgraph (base : PartialSub N) (hbase : Within K base) (sv ov : String) (gid : GraphElementId)
      (hsv : S = .var sv) (hov : O = .var ov) :
      AllWithin K ((graphNodes ds (some gid)).map fun gel =>
        (base.insert sv (.computed gel)).insert ov (.computed gel)) := by
    subst hsv hov
    intro row hrow
    obtain ⟨gel, -, rfl⟩ := List.mem_map.mp hrow
    exact (hbase.insertVar hS _).insertVar hO _
  unfold Sparql.zeroHopSolutions
  split
  · split_ifs
    · exact allWithin_singleton h
    · exact allWithin_nil
  · split
    · exact allWithin_singleton (h.insertVar hO _)
    · exact allWithin_nil
  · split
    · exact allWithin_singleton (h.insertVar hS _)
    · exact allWithin_nil
  · split
    · next sv ov _ _ =>
      unfold zeroHopAllNodes
      cases ag with
      | fixed id => exact hgraph sub h sv ov id rfl rfl
      | var g =>
        dsimp only
        split
        · exact hgraph sub h sv ov _ rfl rfl
        · exact allWithin_flatMap fun id _ => hgraph _
            (h.insert (hag (Finset.mem_singleton_self g)) _) sv ov id rfl rfl
    · exact allWithin_nil

theorem within_graphScopes (h : Within K sub) (hag : ag.variables ⊆ K)
    {scope : PartialSub N × ActiveGraph × GraphElementId} (hscope : scope ∈ graphScopes ds ag sub) :
    Within K scope.1 := by
  unfold graphScopes at hscope
  split at hscope
  · rw [List.mem_singleton.mp hscope]
    exact h
  · next g =>
    split at hscope
    · rw [List.mem_singleton.mp hscope]
      exact h
    · obtain ⟨id, -, rfl⟩ := List.mem_map.mp hscope
      exact h.insert (hag (Finset.mem_singleton_self g)) _

theorem allWithin_closureAllNodes {eval : PathEval N} {zero : Bool} {sv ov : String}
    {scopes : List (PartialSub N × ActiveGraph × GraphElementId)}
    (h : ∀ scope ∈ scopes, Within K scope.1) (hsv : sv ∈ K) (hov : ov ∈ K) :
    AllWithin K (closureAllNodes ds eval zero sv ov scopes c).1 := by
  induction scopes generalizing c with
  | nil => exact allWithin_nil
  | cons scope scopes ih =>
    obtain ⟨base, ag, gid⟩ := scope
    refine AllWithin.append (fun row hrow => ?_)
      (ih fun scope hscope => h scope (List.mem_cons_of_mem _ hscope))
    obtain ⟨pair, -, rfl⟩ := List.mem_map.mp hrow
    exact ((h _ List.mem_cons_self).insert hsv _).insert hov _

theorem bindsEnds_transitiveClosure (ds : Datastore N) (eval : PathEval N) (zero : Bool) :
    (transitiveClosure ds eval zero).BindsEnds := by
  intro K ag S O sub c h hS hO hag
  have hinsert {v : String} (gels : List (GraphElement N))
      (hv : (Term.var v : Term N).variables ⊆ K) :
      AllWithin K (gels.map fun gel => sub.insert v (.computed gel)) := by
    intro row hrow
    obtain ⟨gel, -, rfl⟩ := List.mem_map.mp hrow
    exact h.insertVar hv _
  unfold transitiveClosure
  cases resolveTermToGel ds sub S with
  | some s =>
    cases resolveTermToGel ds sub O with
    | some o =>
      change AllWithin K (if (reachableFrom ds (fun current =>
        eval ag (.constant current) (.var tcNext) sub) tcNext zero s c).1.contains
          o then [sub] else [])
      split_ifs
      · exact allWithin_singleton h
      · exact allWithin_nil
    | none =>
      cases O with
      | var v => exact hinsert _ hO
      | constant | tripleTerm => exact allWithin_nil
  | none =>
    cases resolveTermToGel ds sub O with
    | some o =>
      cases S with
      | var v => exact hinsert _ hS
      | constant | tripleTerm => exact allWithin_nil
    | none =>
      cases S with
      | var sv =>
        cases O with
        | var ov =>
          exact allWithin_nil.pushAll (allWithin_closureAllNodes
            (fun scope hscope => within_graphScopes h hag hscope)
              (hS (Finset.mem_singleton_self sv))
            (hO (Finset.mem_singleton_self ov)))
        | constant | tripleTerm => exact allWithin_nil
      | constant | tripleTerm => exact allWithin_nil

theorem bindsEnds_evalExactRepeat {inner : PathEval N} (h : inner.BindsEnds) (k : Nat) :
    (evalExactRepeat ds inner k).BindsEnds := by
  unfold evalExactRepeat
  split_ifs
  · exact fun K ag S O sub c hsub hS hO hag => hsub.zeroHopSolutions hS hO hag
  · refine bindsEnds_evalSequence fun step hstep => ?_
    rw [List.eq_of_mem_replicate hstep]
    exact h

theorem bindsEnds_evalAlternatives {evals : List (PathEval N)}
    (h : ∀ eval ∈ evals, eval.BindsEnds) : (evalAlternatives evals).BindsEnds := by
  induction evals with
  | nil => exact fun K ag S O sub c _ _ _ _ => allWithin_nil
  | cons eval evals ih =>
    intro K ag S O sub c hsub hS hO hag
    exact (h eval List.mem_cons_self K ag S O sub c hsub hS hO hag).append
      (ih (fun e he => h e (List.mem_cons_of_mem eval he)) K ag S O sub _ hsub hS hO hag)

theorem bindsEnds_evalRepeatPath {inner : PathEval N} (h : inner.BindsEnds) (min : Nat)
    (max : Option Nat) : (evalRepeatPath ds inner min max).BindsEnds := by
  cases max with
  | some max =>
    refine bindsEnds_evalAlternatives fun eval heval => ?_
    obtain ⟨k, -, rfl⟩ := List.mem_map.mp heval
    exact bindsEnds_evalExactRepeat h k
  | none =>
    refine bindsEnds_evalSequence fun step hstep => ?_
    rcases List.mem_append.mp hstep with hstep | hstep
    · rw [List.eq_of_mem_replicate hstep]
      exact h
    · rw [List.mem_singleton.mp hstep]
      exact bindsEnds_transitiveClosure ds inner true

theorem Within.evalNegatedSet (h : Within K sub) (hS : S.variables ⊆ K) (hO : O.variables ⊆ K)
    (excluded : List (GraphElement N)) : AllWithin K (evalNegatedSet ds excluded ag S O sub) := by
  unfold Sparql.evalNegatedSet
  dsimp only
  split_ifs
  · exact allWithin_nil
  · intro row hrow
    obtain ⟨quad, -, hquad⟩ := List.mem_filterMap.mp hrow
    split_ifs at hquad
    obtain ⟨r, h₁, h₂⟩ := Option.bind_eq_some_iff.mp hquad
    exact (h.bindTerm hS h₁).bindTerm hO h₂

theorem bindsEnds_evalPathPattern (qs : QueryStore N) (path : PropertyPath N) :
    (evalPathPattern qs path).BindsEnds := by
  induction path with
  | iri gel =>
    intro K ag S O sub c h hS hO hag
    refine h.evalTriplePattern ?_ hag
    exact Finset.union_subset (Finset.union_subset hS (Finset.empty_subset K)) hO
  | sequence steps ih =>
    rw [evalPathPattern, evalPathPatterns_eq_map]
    refine bindsEnds_evalSequence fun step hstep => ?_
    obtain ⟨path, hpath, rfl⟩ := List.mem_map.mp hstep
    exact ih path hpath
  | alternative left right ihl ihr =>
    refine bindsEnds_evalAlternatives fun eval heval => ?_
    rcases List.mem_cons.mp heval with rfl | heval
    · exact ihl
    · rw [List.mem_singleton.mp heval]
      exact ihr
  | inverse inner ih => exact fun K ag S O sub c h hS hO hag => ih K ag O S sub c h hO hS hag
  | zeroOrOne inner ih =>
    intro K ag S O sub c h hS hO hag
    exact (h.zeroHopSolutions hS hO hag).pushAll (ih K ag S O sub c h hS hO hag)
  | oneOrMore inner ih => exact bindsEnds_transitiveClosure _ _ false
  | zeroOrMore inner ih => exact bindsEnds_transitiveClosure _ _ true
  | repeat_ inner min max ih => exact bindsEnds_evalRepeatPath ih min max
  | negatedSet excluded => exact fun K ag S O sub c h hS hO hag => h.evalNegatedSet hS hO excluded

end PropertyPaths

section Scopes

def projectedName : ProjectionElement N → Option String
  | .var v => some v
  | .expression _ aliasName => some aliasName
  | .star => none

def patternVariables (patterns : List (TriplePattern N)) : Finset String :=
  patterns.foldr (fun tp acc => tp.variables ∪ acc) ∅

theorem variables_subset_patternVariables {tp : TriplePattern N} {patterns : List (TriplePattern N)}
    (h : tp ∈ patterns) : tp.variables ⊆ patternVariables patterns := by
  induction patterns with
  | nil => cases h
  | cons first rest ih =>
    rcases List.mem_cons.mp h with rfl | h
    · exact Finset.subset_union_left
    · exact (ih h).trans Finset.subset_union_right

mutual

def inScopeOf : QueryComponent N → Finset String
  | .bgp patterns => patternVariables patterns
  | .pathPattern subject _ object => subject.variables ∪ object.variables
  | .subquery query => inScopeOfQuery query
  | .optional inner | .group inner => inScope inner
  | .union left right => inScope left ∪ inScope right
  | .filter _ | .minus _ => ∅
  | .bind _ aliasName => {aliasName}
  | .values vars _ => vars.toFinset
  | .graph graphTerm inner => graphTerm.variables ∪ inScope inner
  | .service endpoint inner _ => endpoint.variables ∪ inScope inner

def inScope : List (QueryComponent N) → Finset String
  | [] => ∅
  | comp :: comps => inScopeOf comp ∪ inScope comps

def inScopeOfQuery : Query N → Finset String
  | .select projection _ whereClause _ _ _ _ _ _ =>
    (projection.filterMap projectedName).toFinset ∪
      if projection.any isStar then inScope whereClause else ∅
  | _ => ∅

end

end Scopes

section Components

variable {ag : ActiveGraph} {budget : Option Nat} {rows : List (PartialSub N)} {V : Finset String}
  {inner : List (Planned N)} {ctx : Context N}

def ComponentEval.Binds (V : Finset String) (eval : ComponentEval N) : Prop :=
  ∀ (K : Finset String) (ag : ActiveGraph) (budget : Option Nat) (rows : List (PartialSub N)),
    V ⊆ K → ag.variables ⊆ K → AllWithin K rows → AllWithin K (eval ag budget rows)

def BindAll (V : Finset String) (components : List (Planned N)) : Prop :=
  ∀ comp ∈ components, ComponentEval.Binds V comp.2

section Within

variable (h : BindAll V inner) (hV : V ⊆ K) (hag : ag.variables ⊆ K) (hrows : AllWithin K rows)
include h hV hag hrows

theorem allWithin_runComponents : AllWithin K (runComponents ag budget inner rows) := by
  induction inner generalizing rows with
  | nil => exact hrows
  | cons comp rest ih =>
    have hnext (b : Option Nat) := h comp List.mem_cons_self K ag b rows hV hag hrows
    have hrest (b : Option Nat) := ih (fun c hc => h c (List.mem_cons_of_mem comp hc)) (hnext b)
    rw [runComponents]
    split_ifs
    · exact hnext _
    · exact hrest _
    · exact hnext _
    · exact hrest _

theorem allWithin_evalComponentsBudgeted :
    AllWithin K (evalComponentsBudgeted ds inner rows ag budget) :=
  allWithin_runComponents
    (fun comp hcomp => h comp ((scheduleComponents_perm _ _ _).mem_iff.mp hcomp)) hV hag hrows

theorem allWithin_evalComponents : AllWithin K (evalComponents ds inner rows ag) :=
  allWithin_evalComponentsBudgeted h hV hag hrows

theorem allWithin_evalIndependentThenJoin :
    AllWithin K (evalIndependentThenJoin ds inner rows ag) :=
  hrows.joinRows (allWithin_evalComponents h hV hag (allWithin_singleton within_empty))

theorem allWithin_evalOptional : AllWithin K (evalOptional ds inner rows ag) := by
  refine allWithin_flatMap fun sub hsub => ?_
  dsimp only
  split_ifs
  · exact allWithin_singleton (hrows sub hsub)
  · exact allWithin_evalComponents h hV hag (allWithin_singleton (hrows sub hsub))

end Within

theorem AllWithin.filter (h : AllWithin K rows) (p : PartialSub N → Bool) :
    AllWithin K (rows.filter p) := fun sub hsub => h sub (List.mem_of_mem_filter hsub)

theorem allWithin_evalGraph {T : Term N} (h : BindAll V inner) (hV : V ⊆ K) (hT : T.variables ⊆ K)
    (hrows : AllWithin K rows) : AllWithin K (evalGraph ds T inner rows) := by
  refine allWithin_flatMap fun sub hsub => ?_
  have hscoped (ag : ActiveGraph) (hag : scopedGraph ds sub T = some ag) : ag.variables ⊆ K := by
    unfold scopedGraph at hag
    split at hag
    · obtain ⟨id, -, rfl⟩ := Option.map_eq_some_iff.mp hag
      exact Finset.empty_subset K
    · split at hag
      · cases hag
        exact Finset.empty_subset K
      · cases hag
        exact hT
    · cases hag
  cases hag : scopedGraph ds sub T with
  | none => exact allWithin_nil
  | some ag =>
    exact allWithin_evalComponents h hV (hscoped ag hag) (allWithin_singleton (hrows sub hsub))

theorem AllWithin.evalBind {expr : ExprEval N} {aliasName : String} (h : AllWithin K rows)
    (halias : aliasName ∈ K) : AllWithin K (evalBind expr aliasName rows) := by
  intro row hrow
  obtain ⟨sub, hsub, rfl⟩ := List.mem_map.mp hrow
  split
  · exact (h sub hsub).insert halias _
  · exact h sub hsub

theorem Within.bindValues {row : List (String × Option (GraphElement N))} {sub out : PartialSub N}
    (h : Within K sub) (hvars : ∀ x ∈ row, x.1 ∈ K) (hout : bindValues ds row sub = some out) :
    Within K out := by
  induction row generalizing sub with
  | nil =>
    cases hout
    exact h
  | cons x rest ih =>
    have hrest : ∀ y ∈ rest, y.1 ∈ K := fun y hy => hvars y (List.mem_cons_of_mem x hy)
    obtain ⟨v, val⟩ := x
    cases val with
    | none => exact ih h hrest hout
    | some gel =>
      obtain ⟨r, hr, hout⟩ := Option.bind_eq_some_iff.mp hout
      exact ih (h.bindVariable (hvars (v, some gel) List.mem_cons_self) hr) hrest hout

theorem AllWithin.joinSolutionsWithValues {vars : List String}
    {data : List (List (Option (GraphElement N)))} (h : AllWithin K rows)
    (hvars : vars.toFinset ⊆ K) : AllWithin K (joinSolutionsWithValues ds rows vars data) := by
  refine allWithin_flatMap fun sub hsub out hout => ?_
  obtain ⟨row, -, hrow⟩ := List.mem_filterMap.mp hout
  split_ifs at hrow
  refine (h sub hsub).bindValues (fun x hx => ?_) hrow
  exact hvars (List.mem_toFinset.mpr (List.of_mem_zip hx).1)

end Components

section Selects

variable {ag : ActiveGraph} {rows : List (PartialSub N)} {plan : SelectPlan N} {sub : PartialSub N}
  {ctx : Context N}

def Projected.isStar : Projected N → Bool
  | .star => true
  | _ => false

def Projected.name : Projected N → Option String
  | .var v => some v
  | .expression _ aliasName => some aliasName
  | .star => none

theorem within_foldl {α σ : Type} {elems : List α} {step : σ → α → σ} (row : σ → PartialSub N)
    (h : ∀ acc, ∀ elem ∈ elems, Within K (row acc) → Within K (row (step acc elem))) {acc : σ}
    (hacc : Within K (row acc)) : Within K (row (elems.foldl step acc)) := by
  induction elems generalizing acc with
  | nil => exact hacc
  | cons elem rest ih =>
    exact ih (fun acc' elem' helem' => h acc' elem' (List.mem_cons_of_mem elem helem'))
      (h acc elem List.mem_cons_self hacc)

variable {projection : List (Projected N)}

variable (hnames : (projection.filterMap Projected.name).toFinset ⊆ K)

include hnames

theorem name_mem {elem : Projected N} {v : String} (helem : elem ∈ projection)
    (hv : elem.name = some v) : v ∈ K :=
  hnames (List.mem_toFinset.mpr (List.mem_filterMap.mpr ⟨elem, helem, hv⟩))

theorem within_projectWithExprsPartial
    (hstar : projection.any Projected.isStar → Within K sub) :
    Within K (projectWithExprsPartial sub projection) := by
  refine within_foldl Prod.fst (fun acc elem helem hacc => ?_) within_empty
  obtain ⟨row, extended⟩ := acc
  cases elem with
  | star => exact (hstar (List.any_eq_true.mpr ⟨_, helem, rfl⟩)).union hacc
  | var | expression =>
    dsimp only
    split
    · exact hacc.insert (name_mem hnames helem rfl) _
    · exact hacc

theorem within_projectAggregateRow {group : List (PartialSub N)} :
    Within K (projectAggregateRow projection group) := by
  refine within_foldl id (fun row elem helem hacc => ?_) within_empty
  cases elem with
  | star => exact hacc
  | var | expression =>
    dsimp only
    split
    · exact hacc.insert (name_mem hnames helem rfl) _
    · exact hacc

omit hnames

namespace SelectPlan

theorem allWithin_projectRows (hnames : (plan.projection.filterMap Projected.name).toFinset ⊆ K)
    (hstar : plan.projection.any Projected.isStar → AllWithin K rows) :
    AllWithin K (plan.projectRows rows) := by
  unfold projectRows
  split_ifs
  · intro row hrow
    obtain ⟨group, -, rfl⟩ := List.mem_map.mp hrow
    exact within_projectAggregateRow hnames
  · intro row hrow
    obtain ⟨sub, hsub, rfl⟩ := List.mem_map.mp hrow
    exact within_projectWithExprsPartial hnames fun hany => hstar hany sub hsub

variable {row : PartialSub N}

theorem mem_of_mem_distinctRows (h : row ∈ distinctRows ds rows) : row ∈ rows :=
  (mem_foldl_pushNew h).resolve_left List.not_mem_nil

theorem sliceRows_sublist (offset limit : Option Nat) (rows : List (PartialSub N)) :
    (sliceRows offset limit rows).Sublist rows := by
  cases offset with
  | none =>
    cases limit with
    | none => exact List.Sublist.refl rows
    | some lim => exact List.take_sublist lim rows
  | some off =>
    cases limit with
    | none => exact List.drop_sublist off rows
    | some lim => exact (List.take_sublist lim _).trans (List.drop_sublist off rows)

theorem mem_of_mem_applyModifiers {lib : Library N} (h : row ∈ plan.applyModifiers lib ds rows) :
    row ∈ rows := by
  unfold applyModifiers at h
  have hsorted :
      row ∈ (if plan.orderBy.isEmpty then rows else sortSolutions lib rows plan.orderBy) := by
    have hslice := (sliceRows_sublist _ _ _).mem h
    cases hdistinct : plan.distinct with
    | false =>
      rw [hdistinct] at hslice
      exact hslice
    | true =>
      rw [hdistinct] at hslice
      exact mem_of_mem_distinctRows hslice
  split_ifs at hsorted
  · exact hsorted
  · exact (List.mergeSort_perm _ _).mem_iff.mp hsorted

end SelectPlan

theorem allWithin_executeSelectInner {V : Finset String} {lib : Library N}
    (h : BindAll V plan.whereClause)
    (hnames : (plan.projection.filterMap Projected.name).toFinset ⊆ K)
    (hstar : plan.projection.any Projected.isStar → V ⊆ K) (hag : ag.variables ⊆ K) :
    AllWithin K (executeSelectInner lib ds ag plan) := by
  intro row hrow
  refine SelectPlan.allWithin_projectRows hnames (fun hany => ?_) row
    (SelectPlan.mem_of_mem_applyModifiers hrow)
  exact allWithin_evalComponentsBudgeted h (hstar hany) hag (allWithin_singleton within_empty)

theorem planProjection_names (projection : List (ProjectionElement N)) :
    (planProjection ctx projection).filterMap Projected.name =
      projection.filterMap projectedName := by
  induction projection with
  | nil => rfl
  | cons elem rest ih =>
    cases elem with
    | star => exact ih
    | var v => exact congrArg (v :: ·) ih
    | expression expr aliasName => exact congrArg (aliasName :: ·) ih

theorem planProjection_any_isStar (projection : List (ProjectionElement N)) :
    (planProjection ctx projection).any Projected.isStar = projection.any isStar := by
  induction projection with
  | nil => rfl
  | cons elem rest ih => cases elem <;> exact congrArg (_ || ·) ih

end Selects

section Evaluation

variable {ctx : Context N}

/-- The rows of a remote answer bind variables of the body that was sent. -/
def ServicesBind (ctx : Context N) : Prop :=
  ∀ endpoint inner rows, ctx.lib.preResolvedServiceResults endpoint inner = some rows →
    AllWithin (inScope inner) rows

mutual

theorem evalComponent_binds (hctx : ServicesBind ctx) :
    (comp : QueryComponent N) → ComponentEval.Binds (inScopeOf comp) (evalComponent ctx comp)
  | .bgp patterns => fun K ag budget rows hV hag hrows => by
    exact hrows.evalBgp (fun tp htp => (variables_subset_patternVariables htp).trans hV) hag
  | .pathPattern subject path object => fun K ag budget rows hV hag hrows =>
    allWithin_flatMap fun sub hsub =>
      bindsEnds_evalPathPattern ctx.store path K ag subject object sub
      ctx.bridge (hrows sub hsub) (Finset.union_subset_left hV) (Finset.union_subset_right hV) hag
  | .subquery query => fun K ag budget rows hV hag hrows => by
    cases query with
    | select projection dataset whereClause groupBy having orderBy limit offset distinct =>
      refine hrows.joinRows (allWithin_executeSelectInner (planComponents_binds hctx whereClause)
        ?_ (fun hstar => ?_) hag)
      · rw [planProjection_names]
        exact Finset.union_subset_left hV
      · rw [planProjection_any_isStar] at hstar
        have hwhere := Finset.union_subset_right hV
        rwa [if_pos hstar] at hwhere
    | ask | construct | describe => exact hrows.joinRows allWithin_nil
  | .optional inner => fun K ag budget rows hV hag hrows =>
    allWithin_evalOptional (planComponents_binds hctx inner) hV hag hrows
  | .union left right => fun K ag budget rows hV hag hrows =>
    (allWithin_evalIndependentThenJoin (planComponents_binds hctx left)
      (Finset.union_subset_left hV) hag hrows).append
      (allWithin_evalIndependentThenJoin (planComponents_binds hctx right)
        (Finset.union_subset_right hV) hag hrows)
  | .filter expr => fun K ag budget rows hV hag hrows => hrows.filter _
  | .bind expr aliasName => fun K ag budget rows hV hag hrows =>
    hrows.evalBind (Finset.singleton_subset_iff.mp hV)
  | .values vars data => fun K ag budget rows hV hag hrows => hrows.joinSolutionsWithValues hV
  | .minus inner => fun K ag budget rows hV hag hrows => hrows.filter _
  | .graph graphTerm inner => fun K ag budget rows hV hag hrows =>
    allWithin_evalGraph (planComponents_binds hctx inner) (Finset.union_subset_right hV)
      (Finset.union_subset_left hV) hrows
  | .service endpoint inner silent => fun K ag budget rows hV hag hrows => by
    change AllWithin K (match ctx.lib.preResolvedServiceResults endpoint inner with
      | some answers => joinRows ctx.store.toDatastore rows answers
      | none => [])
    cases hanswers : ctx.lib.preResolvedServiceResults endpoint inner with
    | none => exact allWithin_nil
    | some answers =>
      exact hrows.joinRows fun sub hsub => (hctx endpoint inner answers hanswers sub hsub).mono
        (Finset.union_subset_right hV)
  | .group inner => fun K ag budget rows hV hag hrows =>
    allWithin_evalIndependentThenJoin (planComponents_binds hctx inner) hV hag hrows

theorem planComponents_binds (hctx : ServicesBind ctx) :
    (comps : List (QueryComponent N)) → BindAll (inScope comps) (planComponents ctx comps)
  | [] => nofun
  | first :: rest => fun comp hcomp => by
    rcases List.mem_cons.mp hcomp with rfl | hcomp
    · exact fun K ag budget rows hV =>
        evalComponent_binds hctx first K ag budget rows (Finset.union_subset_left hV)
    · exact fun K ag budget rows hV =>
        planComponents_binds hctx rest comp hcomp K ag budget rows (Finset.union_subset_right hV)

end

end Evaluation

end RdfDatalog.Sparql
