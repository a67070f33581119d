import RdfDatalog.Sparql.PathSequence

namespace RdfDatalog.Sparql

open LoopRelation Relation Mapping

variable {N : NativeTypes} {ds : Datastore N} {g : GraphElementId}

section EndValue

variable {m m' : Mapping String (GraphElement N)} {S O T : Term N} {a s o : GraphElement N}

/-- The element an end stands for already. -/
def endValue (m : Mapping String (GraphElement N)) : Term N → Option (GraphElement N)
  | .var v => m v
  | .constant gel => some gel
  | .tripleTerm _ _ _ => none

theorem resolveTermToGel_eq (ds : Datastore N) (sub : PartialSub N) (T : Term N) :
    resolveTermToGel ds sub T = endValue (meaning ds sub) T := by
  cases T <;> rfl

theorem bindEnd_of_endValue (h : endValue m T = some s) (a : GraphElement N) :
    bindEnd m T a = if s = a then some m else none := by
  cases T with
  | var v =>
    have hv : m v = some s := h
    exact bindVar_of_some hv a
  | constant gel =>
    obtain rfl := Option.some.inj h
    rfl
  | tripleTerm s p o => cases h

variable (hT : T.isPlain = true)

include hT

theorem exists_var_of_endValue (h : endValue m T = none) :
    ∃ v, T = .var v ∧ m v = none := by
  cases T with
  | var v => exact ⟨v, rfl, h⟩
  | constant gel => cases h
  | tripleTerm s p o => cases hT

theorem port_bound_iff :
    port m T = .bound ↔ (endValue m T).isSome = true := by
  cases T with
  | var v =>
    rw [port, endValue]
    split_ifs with h
    · simp [h]
    · simp [h]
    · simp [h]
    · simp [h]
  | constant gel => simp [port, endValue]
  | tripleTerm s p o => cases hT

theorem port_of_endValue (h : endValue m T = some s) :
    port m T = .bound := by
  rw [port_bound_iff hT, h]
  rfl

theorem port_of_free (h : endValue m T = none) : port m T ≠ .bound := by
  rw [ne_eq, port_bound_iff hT, h]
  exact Bool.false_ne_true

omit hT

end EndValue

section Extensions

variable {m m' : Mapping String (GraphElement N)} {S O : Term N} {s o : GraphElement N}
  {v w : String} {C : GraphElement N → GraphElement N → Prop}

theorem mem_extensions_of_bound (hs : endValue m S = some s) (ho : endValue m O = some o) :
    m' ∈ extensions m S O C ↔ C s o ∧ m' = m := by
  constructor
  · intro ⟨a, b, hC, hm⟩
    rw [bindEnd_of_endValue hs] at hm
    split_ifs at hm with hsa
    · rw [Option.bind_some, bindEnd_of_endValue ho] at hm
      split_ifs at hm with hob
      rw [hsa, hob]
      exact ⟨hC, (Option.some.inj hm).symm⟩
    · cases hm
  · intro ⟨hC, hm⟩
    refine ⟨s, o, hC, ?_⟩
    rw [bindEnd_of_endValue hs, if_pos rfl, Option.bind_some, bindEnd_of_endValue ho, if_pos rfl,
      hm]

theorem mem_extensions_of_subject (hs : endValue m S = some s) (hw : m w = none) :
    m' ∈ extensions m S (.var w) C ↔ ∃ b, C s b ∧ m.set w b = m' := by
  constructor
  · intro ⟨a, b, hC, hm⟩
    rw [bindEnd_of_endValue hs] at hm
    split_ifs at hm with hsa
    · rw [Option.bind_some, bindEnd_of_none hw] at hm
      exact ⟨b, hsa ▸ hC, Option.some.inj hm⟩
    · cases hm
  · intro ⟨b, hC, hm⟩
    refine ⟨s, b, hC, ?_⟩
    rw [bindEnd_of_endValue hs, if_pos rfl, Option.bind_some, bindEnd_of_none hw, hm]

theorem mem_extensions_of_object (hv : m v = none) (ho : endValue m O = some o) :
    m' ∈ extensions m (.var v) O C ↔ ∃ a, C a o ∧ m.set v a = m' := by
  rw [← extensions_swap, mem_extensions_of_subject ho hv]

theorem mem_extensions_of_free (hv : m v = none) (hw : m w = none) :
    m' ∈ extensions m (.var v) (.var w) C ↔
      ∃ a b, C a b ∧ (v = w → a = b) ∧ (m.set v a).set w b = m' := by
  simp only [extensions, bindEnd_of_none hv, Option.bind_some]
  apply exists_congr
  intro a
  apply exists_congr
  intro b
  apply and_congr_right
  intro _
  by_cases hvw : v = w
  · subst hvw
    have hbind : bindEnd (m.set v a) (.var v) b = if a = b then some (m.set v a) else none :=
      bindVar_of_some (set_same m v a) b
    rw [hbind]
    split_ifs with hab
    · subst hab
      simp [set_set_same]
    · simp [hab]
  · rw [bindEnd_of_none ((set_of_ne (Ne.symm hvw)).trans hw)]
    simp [hvw]

end Extensions

section ZeroHop

theorem mem_graphNodes (hds : ds.Interned) (x : GraphElement N) :
    x ∈ graphNodes ds (some g) ↔ x ∈ nodes (graphTriples ds g) := by
  rw [graphNodes, List.mem_dedup, List.mem_flatMap]
  constructor
  · intro ⟨q, hq, hx⟩
    obtain ⟨hmem, hg, -⟩ := QuadStore.mem_quadsMatching.mp hq
    obtain ⟨s, p, o, hs, hp, ho⟩ := exists_elements hds hmem
    obtain ⟨id, hid, hx⟩ := List.mem_filterMap.mp hx
    rcases List.mem_pair.mp hid with rfl | rfl
    · exact ⟨p, o, .inl ⟨q, hmem, hg g rfl, hx, hp, ho⟩⟩
    · exact ⟨p, s, .inr ⟨q, hmem, hg g rfl, hs, hp, hx⟩⟩
  · intro ⟨p, y, hxy⟩
    have hfits (q : Quad) (hg : q.tripleId = g) : QuadTable.Fits (some g) none none none q := by
      simp [QuadTable.Fits, hg]
    rcases hxy with ⟨q, hmem, hg, hx, -, -⟩ | ⟨q, hmem, hg, -, -, hx⟩
    · exact ⟨q, QuadStore.mem_quadsMatching.mpr ⟨hmem, hfits q hg⟩,
        List.mem_filterMap.mpr ⟨_, .head _, hx⟩⟩
    · exact ⟨q, QuadStore.mem_quadsMatching.mpr ⟨hmem, hfits q hg⟩,
        List.mem_filterMap.mpr ⟨_, .tail _ (.head _), hx⟩⟩

theorem nodup_graphNodes (ds : Datastore N) (graph : Option GraphElementId) :
    (graphNodes ds graph).Nodup :=
  List.nodup_dedup _

variable {sub : PartialSub N} {v w : String} {e e' : GraphElement N}

theorem meaning_computed (e : GraphElement N) :
    meaning ds (sub.insert v (.computed e)) = (meaning ds sub).set v e :=
  meaning_insert rfl

theorem Valid.computed (h : Valid ds sub) (v : String) (e : GraphElement N) :
    Valid ds (sub.insert v (.computed e)) :=
  h.insert rfl

theorem answers_insert (h : Valid ds sub) (v : String) (xs : List (GraphElement N))
    {X : Set (Mapping String (GraphElement N))}
    (hX : ∀ m, m ∈ X ↔ ∃ x ∈ xs, (meaning ds sub).set v x = m) :
    Answers ds (xs.map fun x => sub.insert v (.computed x)) X := by
  constructor
  · intro r hr
    obtain ⟨x, -, rfl⟩ := List.mem_map.mp hr
    exact h.computed v x
  · intro m
    rw [hX]
    constructor
    · intro ⟨r, hr, hm⟩
      obtain ⟨x, hx, rfl⟩ := List.mem_map.mp hr
      exact ⟨x, hx, (meaning_computed x).symm.trans hm⟩
    · intro ⟨x, hx, hm⟩
      exact ⟨_, List.mem_map_of_mem hx, (meaning_computed x).trans hm⟩

theorem nodup_insert (v : String) {xs : List (GraphElement N)} (hxs : xs.Nodup) :
    ((xs.map fun x => sub.insert v (.computed x)).map (meaning ds)).Nodup := by
  rw [List.map_map]
  apply hxs.map
  intro x y hxy
  simp only [Function.comp_apply, meaning_computed] at hxy
  exact set_inj hxy

theorem answers_keep (h : Valid ds sub) {P : Prop} [Decidable P]
    {X : Set (Mapping String (GraphElement N))} (hX : ∀ m, m ∈ X ↔ P ∧ m = meaning ds sub) :
    Answers ds (if P then [sub] else []) X := by
  split_ifs with hP
  · constructor
    · intro r hr
      rw [List.mem_singleton.mp hr]
      exact h
    · intro m
      simp [hX, hP, eq_comm]
  · refine answers_nil.congr fun m => ?_
    simp [hX, hP]

theorem nodup_keep (P : Prop) [Decidable P] :
    ((if P then [sub] else []).map (meaning ds)).Nodup := by
  split_ifs
  · exact List.nodup_singleton _
  · exact List.nodup_nil

theorem zeroHopSolutions_answers (hds : ds.Interned) {sub : PartialSub N} (h : Valid ds sub)
    {S O : Term N} (hS : S.isPlain = true) (hO : O.isPlain = true) :
    Answers ds (zeroHopSolutions ds (.fixed g) S O sub) (extensions (meaning ds sub) S O
      (withLoops (idOn (nodes (graphTriples ds g))) fun _ =>
        zeroLoops (Mode.of (meaning ds sub) S O) = true)) ∧
    ((zeroHopSolutions ds (.fixed g) S O sub).map (meaning ds)).Nodup := by
  have hbound (hb : port (meaning ds sub) S = .bound ∨ port (meaning ds sub) O = .bound)
      (a b : GraphElement N) : withLoops (idOn (nodes (graphTriples ds g))) (fun _ =>
        zeroLoops (Mode.of (meaning ds sub) S O) = true) a b ↔ a = b := by
    have hloops : zeroLoops (Mode.of (meaning ds sub) S O) = true := by
      simpa [zeroLoops, Mode.of] using hb
    simp only [withLoops, idOn, hloops, and_true]
    tauto
  unfold zeroHopSolutions
  rw [resolveTermToGel_eq, resolveTermToGel_eq]
  cases hs : endValue (meaning ds sub) S with
  | some s =>
    have hrel := hbound (.inl (port_of_endValue hS hs))
    cases ho : endValue (meaning ds sub) O with
    | some o =>
      refine ⟨answers_keep h fun m => ?_, nodup_keep _⟩
      rw [mem_extensions_of_bound hs ho, hrel]
    | none =>
      obtain ⟨w, rfl, hw⟩ := exists_var_of_endValue hO ho
      refine ⟨answers_insert h w [s] fun m => ?_, nodup_insert w (List.nodup_singleton s)⟩
      rw [mem_extensions_of_subject hs hw]
      simp only [hrel, List.mem_singleton, eq_comm (a := s)]
  | none =>
    obtain ⟨v, rfl, hv⟩ := exists_var_of_endValue hS hs
    cases ho : endValue (meaning ds sub) O with
    | some o =>
      have hrel := hbound (.inr (port_of_endValue hO ho))
      refine ⟨answers_insert h v [o] fun m => ?_, nodup_insert v (List.nodup_singleton o)⟩
      rw [mem_extensions_of_object hv ho]
      simp only [hrel, List.mem_singleton]
    | none =>
      obtain ⟨w, rfl, hw⟩ := exists_var_of_endValue hO ho
      have hopen : zeroLoops (Mode.of (meaning ds sub) (.var v) (.var w)) = false := by
        have hpv := port_of_free hS hs
        have hpw := port_of_free hO ho
        simp [zeroLoops, Mode.of, hpv, hpw]
      have hrows : ∀ x, meaning ds ((sub.insert v (.computed x)).insert w (.computed x)) =
          ((meaning ds sub).set v x).set w x := by
        intro x
        rw [meaning_computed, meaning_computed]
      refine ⟨⟨?_, fun m => ?_⟩, ?_⟩
      · intro r hr
        obtain ⟨x, -, rfl⟩ := List.mem_map.mp hr
        exact (h.computed v x).computed w x
      · rw [mem_extensions_of_free hv hw]
        simp only [withLoops, hopen, Bool.false_eq_true, and_false, or_false, idOn]
        constructor
        · rintro ⟨r, hr, hm⟩
          obtain ⟨x, hx, rfl⟩ := List.mem_map.mp hr
          exact ⟨x, x, ⟨rfl, (mem_graphNodes hds x).mp hx⟩, fun _ => rfl, (hrows x).symm.trans hm⟩
        · rintro ⟨x, y, ⟨hxy, hx⟩, _, hm⟩
          subst hxy
          exact ⟨_, List.mem_map_of_mem ((mem_graphNodes hds x).mpr hx), (hrows x).trans hm⟩
      · change (((graphNodes ds (some g)).map fun x =>
          (sub.insert v (.computed x)).insert w (.computed x)).map (meaning ds)).Nodup
        rw [List.map_map]
        apply (nodup_graphNodes ds _).map
        intro x y hxy
        have hxy' : ((meaning ds sub).set v x).set w x = ((meaning ds sub).set v y).set w y :=
          (hrows x).symm.trans (hxy.trans (hrows y))
        have hw := congrFun hxy' w
        rw [set_same, set_same] at hw
        exact Option.some.inj hw

end ZeroHop

section PushNew

theorem foldl_pushNew {rows acc : List (PartialSub N)} {X Y : Set (Mapping String (GraphElement N))}
    (hacc : Answers ds acc X) (hnodup : (acc.map (meaning ds)).Nodup) (hrows : Answers ds rows Y) :
    Answers ds (rows.foldl (pushNew ds) acc) (X ∪ Y) ∧
      ((rows.foldl (pushNew ds) acc).map (meaning ds)).Nodup := by
  induction rows generalizing acc X Y with
  | nil =>
    have hY : ∀ m, m ∉ Y := fun m hm => by
      obtain ⟨r, hr, -⟩ := (hrows.exact m).mpr hm
      cases hr
    exact ⟨hacc.congr fun m => by simp [hY m], hnodup⟩
  | cons row rows ih =>
    have hrow := hrows.valid row (.head rows)
    have hrest : Answers ds rows {m | ∃ r ∈ rows, meaning ds r = m} :=
      ⟨fun r hr => hrows.valid r (.tail row hr), fun m => Iff.rfl⟩
    have hY : ∀ m, m ∈ Y ↔ m = meaning ds row ∨ ∃ r ∈ rows, meaning ds r = m := by
      intro m
      rw [← hrows.exact]
      simp [eq_comm]
    have hany : (acc.any fun r => partialSubsEqual ds r row) = true ↔ meaning ds row ∈ X := by
      rw [List.any_eq_true, ← hacc.exact]
      apply exists_congr
      intro r
      apply and_congr_right
      intro hr
      exact partialSubsEqual_iff (hacc.valid r hr) hrow
    rw [List.foldl_cons, pushNew]
    split_ifs with hold
    · obtain ⟨hanswers, hnew⟩ := ih hacc hnodup hrest
      refine ⟨hanswers.congr fun m => ?_, hnew⟩
      have hmem := hany.mp hold
      rw [Set.mem_union, Set.mem_union, hY]
      constructor
      · exact fun hm => hm.imp_right .inr
      · rintro (hm | rfl | hm)
        · exact .inl hm
        · exact .inl hmem
        · exact .inr hm
    · have hone : Answers ds [row] {meaning ds row} := by
        constructor
        · intro r hr
          rw [List.mem_singleton.mp hr]
          exact hrow
        · intro m
          simp [eq_comm]
      have hsnoc : ((acc ++ [row]).map (meaning ds)).Nodup := by
        rw [List.map_append, List.nodup_append]
        refine ⟨hnodup, List.nodup_singleton _, ?_⟩
        intro m hm m' hm' heq
        obtain ⟨r, hr, rfl⟩ := List.mem_map.mp hm
        have hm' := List.mem_singleton.mp hm'
        exact hold (hany.mpr ((hacc.exact _).mp ⟨r, hr, heq.trans hm'⟩))
      obtain ⟨hanswers, hnew⟩ := ih (hacc.append hone) hsnoc hrest
      refine ⟨hanswers.congr fun m => ?_, hnew⟩
      rw [Set.mem_union, Set.mem_union, Set.mem_union, hY, or_assoc]
      exact Iff.rfl

end PushNew

end RdfDatalog.Sparql
