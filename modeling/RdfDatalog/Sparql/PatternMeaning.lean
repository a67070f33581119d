import RdfDatalog.Sparql.SolutionMeaning

namespace RdfDatalog.Sparql

variable {N : NativeTypes} {ds : Datastore N}

/-- The rows are valid, and their meanings are those of `X`. -/
structure Answers (ds : Datastore N) (rows : List (PartialSub N))
    (X : Set (Mapping String (GraphElement N))) : Prop where
  valid : ∀ r ∈ rows, Valid ds r
  exact : ∀ m, (∃ r ∈ rows, meaning ds r = m) ↔ m ∈ X

theorem answers_nil : Answers ds [] ∅ := ⟨by simp, by simp⟩

variable {X X' : Set (Mapping String (GraphElement N))} {sub : PartialSub N} {tp : TriplePattern N}

theorem Answers.append {rows rows' : List (PartialSub N)} (h : Answers ds rows X)
    (h' : Answers ds rows' X') : Answers ds (rows ++ rows') (X ∪ X') := by
  constructor
  · intro r hr
    exact (List.mem_append.mp hr).elim (h.valid r) (h'.valid r)
  · intro m
    rw [Set.mem_union, ← h.exact, ← h'.exact]
    simp only [List.mem_append, or_and_right, exists_or]

theorem Answers.congr {rows : List (PartialSub N)} (h : Answers ds rows X)
    (hX : ∀ m, m ∈ X ↔ m ∈ X') : Answers ds rows X' :=
  ⟨h.valid, fun m => (h.exact m).trans (hX m)⟩

theorem exists_elements (hds : ds.Interned) {q : Quad} (hq : q ∈ ds.namedGraphs) :
    ∃ s p o, ds.resources.getGraphElement q.subject = some s ∧
      ds.resources.getGraphElement q.predicate = some p ∧
        ds.resources.getGraphElement q.obj = some o := by
  obtain ⟨r, hr⟩ := Option.isSome_iff_exists.mp (hds q hq)
  obtain ⟨-, hs, hp, ho⟩ := GraphElementManager.getResourceQuad_eq_some.mp hr
  exact ⟨r.subject, r.predicate, r.obj, hs, hp, ho⟩

def bindTriple (m : Mapping String (GraphElement N)) (tp : TriplePattern N)
    (s p o : GraphElement N) : Option (Mapping String (GraphElement N)) :=
  (bindEnd m tp.subject s).bind fun m => (bindEnd m tp.predicate p).bind fun m =>
    bindEnd m tp.object o

theorem extend_meaning (h : Valid ds sub) (hs : tp.subject.isPlain = true)
    (hp : tp.predicate.isPlain = true) (ho : tp.object.isPlain = true) {q : Quad}
    {s p o : GraphElement N} (hqs : ds.resources.getGraphElement q.subject = some s)
    (hqp : ds.resources.getGraphElement q.predicate = some p)
    (hqo : ds.resources.getGraphElement q.obj = some o)
    (hns : resolveMatchTerm ds sub tp.subject ≠ .never)
    (hnp : resolveMatchTerm ds sub tp.predicate ≠ .never)
    (hno : resolveMatchTerm ds sub tp.object ≠ .never)
    (hfs : ∀ x ∈ (resolveMatchTerm ds sub tp.subject).intoQueryArg, q.subject = x)
    (hfp : ∀ x ∈ (resolveMatchTerm ds sub tp.predicate).intoQueryArg, q.predicate = x)
    (hfo : ∀ x ∈ (resolveMatchTerm ds sub tp.object).intoQueryArg, q.obj = x) :
    let extended := (bindTerm ds q.subject sub tp.subject).bind fun sub =>
      (bindTerm ds q.predicate sub tp.predicate).bind fun sub => bindTerm ds q.obj sub tp.object
    extended.map (meaning ds) = bindTriple (meaning ds sub) tp s p o ∧
      ∀ r ∈ extended, Valid ds r := by
  obtain ⟨hs₁, hv₁⟩ := bindTerm_meaning h hqs hs hfs hns
  rw [bindTriple, ← hs₁]
  cases hb₁ : bindTerm ds q.subject sub tp.subject with
  | none => simp
  | some sub₁ =>
    have hsub₁ := hv₁ sub₁ hb₁
    obtain ⟨hs₂, hv₂⟩ := bindTerm_meaning hsub₁ hqp hp hfp hnp
    simp only [Option.map_some, Option.bind_some, ← hs₂]
    cases hb₂ : bindTerm ds q.predicate sub₁ tp.predicate with
    | none => simp
    | some sub₂ => exact bindTerm_meaning (hv₂ sub₂ hb₂) hqo ho hfo hno

theorem bindTriple_fits (h : Valid ds sub) {q : Quad} {s p o : GraphElement N}
    (hqs : ds.resources.getGraphElement q.subject = some s)
    (hqp : ds.resources.getGraphElement q.predicate = some p)
    (hqo : ds.resources.getGraphElement q.obj = some o) {m : Mapping String (GraphElement N)}
    (hm : bindTriple (meaning ds sub) tp s p o = some m) :
    (resolveMatchTerm ds sub tp.subject ≠ .never ∧
        ∀ x ∈ (resolveMatchTerm ds sub tp.subject).intoQueryArg, q.subject = x) ∧
      (resolveMatchTerm ds sub tp.predicate ≠ .never ∧
        ∀ x ∈ (resolveMatchTerm ds sub tp.predicate).intoQueryArg, q.predicate = x) ∧
      (resolveMatchTerm ds sub tp.object ≠ .never ∧
        ∀ x ∈ (resolveMatchTerm ds sub tp.object).intoQueryArg, q.obj = x) := by
  obtain ⟨m₁, hm₁, hm⟩ := Option.bind_eq_some_iff.mp hm
  obtain ⟨m₂, hm₂, hm⟩ := Option.bind_eq_some_iff.mp hm
  have hext₁ : ∀ v e, meaning ds sub v = some e → m₁ v = some e :=
    fun v e hv => bindEnd_extends hm₁ hv
  have hext₂ : ∀ v e, meaning ds sub v = some e → m₂ v = some e :=
    fun v e hv => bindEnd_extends hm₂ (hext₁ v e hv)
  exact ⟨fits_of_bindEnd h hqs (fun _ _ hv => hv) hm₁, fits_of_bindEnd h hqp hext₁ hm₂,
    fits_of_bindEnd h hqo hext₂ hm⟩

theorem isKnown_of_ne_never {T : Term N} (h : resolveMatchTerm ds sub T ≠ .never) :
    isKnown ds T = true := by
  cases T with
  | var v => rfl
  | constant gel =>
    rw [resolveMatchTerm] at h
    rw [isKnown]
    cases hlookup : ds.resources.resourceMap.lookup gel with
    | none => rw [hlookup] at h; exact absurd rfl h
    | some x => rfl
  | tripleTerm s p o => rfl

theorem evalTriplePatternCore_answers (hds : ds.Interned) (g : GraphElementId)
    (hs : tp.subject.isPlain = true) (hp : tp.predicate.isPlain = true)
    (ho : tp.object.isPlain = true) (h : Valid ds sub) :
    Answers ds (evalTriplePatternCore ds (.fixed g) tp none sub none)
      {m | ∃ s p o, graphTriples ds g s p o ∧ bindTriple (meaning ds sub) tp s p o = some m} := by
  by_cases hnever : resolveMatchTerm ds sub tp.subject ≠ .never ∧
      resolveMatchTerm ds sub tp.predicate ≠ .never ∧ resolveMatchTerm ds sub tp.object ≠ .never
  · obtain ⟨hns, hnp, hno⟩ := hnever
    have hrows : evalTriplePatternCore ds (.fixed g) tp none sub none =
        (ds.namedGraphs.quadsMatching (some g) (resolveMatchTerm ds sub tp.subject).intoQueryArg
          (resolveMatchTerm ds sub tp.predicate).intoQueryArg
          (resolveMatchTerm ds sub tp.object).intoQueryArg).filterMap fun q =>
            (bindTerm ds q.subject sub tp.subject).bind fun sub =>
              (bindTerm ds q.predicate sub tp.predicate).bind fun sub =>
                bindTerm ds q.obj sub tp.object := by
      have hks := isKnown_of_ne_never hns
      have hkp := isKnown_of_ne_never hnp
      have hko := isKnown_of_ne_never hno
      simp only [evalTriplePatternCore, hks, hkp, hko, Bool.and_self, Bool.not_true,
        Bool.false_eq_true, if_false, hns, hnp, hno, or_self, Option.isNone_none, Bool.true_and,
        ite_self, QuadStore.quadsMatchingLimited_none, collectSolutions_none, ActiveGraph.id,
        bindGraph, Option.bind_fun_some]
    rw [hrows]
    constructor
    · intro r hr
      obtain ⟨q, hq, hr⟩ := List.mem_filterMap.mp hr
      obtain ⟨hmem, -, hfs, hfp, hfo⟩ := QuadStore.mem_quadsMatching.mp hq
      obtain ⟨s, p, o, hqs, hqp, hqo⟩ := exists_elements hds hmem
      exact (extend_meaning h hs hp ho hqs hqp hqo hns hnp hno hfs hfp hfo).2 r hr
    · intro m
      constructor
      · intro ⟨r, hr, hm⟩
        obtain ⟨q, hq, hr⟩ := List.mem_filterMap.mp hr
        obtain ⟨hmem, hg, hfs, hfp, hfo⟩ := QuadStore.mem_quadsMatching.mp hq
        obtain ⟨s, p, o, hqs, hqp, hqo⟩ := exists_elements hds hmem
        refine ⟨s, p, o, ⟨q, hmem, hg g rfl, hqs, hqp, hqo⟩, ?_⟩
        have hext := (extend_meaning h hs hp ho hqs hqp hqo hns hnp hno hfs hfp hfo).1
        rw [← hext, hr, Option.map_some, hm]
      · intro ⟨s, p, o, ⟨q, hmem, hg, hqs, hqp, hqo⟩, hm⟩
        obtain ⟨⟨-, hfs⟩, ⟨-, hfp⟩, -, hfo⟩ := bindTriple_fits h hqs hqp hqo hm
        have hext := (extend_meaning h hs hp ho hqs hqp hqo hns hnp hno hfs hfp hfo).1
        rw [hm] at hext
        obtain ⟨r, hr, hrm⟩ := Option.map_eq_some_iff.mp hext
        have hfits : QuadTable.Fits (some g) (resolveMatchTerm ds sub tp.subject).intoQueryArg
            (resolveMatchTerm ds sub tp.predicate).intoQueryArg
            (resolveMatchTerm ds sub tp.object).intoQueryArg q :=
          ⟨fun x hx => hg.trans (Option.some.inj hx), hfs, hfp, hfo⟩
        exact ⟨r, List.mem_filterMap.mpr ⟨q, QuadStore.mem_quadsMatching.mpr ⟨hmem, hfits⟩, hr⟩,
          hrm⟩
  · have hempty : evalTriplePatternCore ds (.fixed g) tp none sub none = [] := by
      have hor : resolveMatchTerm ds sub tp.subject = .never ∨
          resolveMatchTerm ds sub tp.predicate = .never ∨
            resolveMatchTerm ds sub tp.object = .never := by
        simpa only [not_and_or, not_not, ne_eq] using hnever
      simp only [evalTriplePatternCore, if_pos hor, ite_self]
    rw [hempty]
    refine answers_nil.congr fun m => ?_
    simp only [Set.mem_empty_iff_false, false_iff]
    intro ⟨s, p, o, ⟨q, hmem, hg, hqs, hqp, hqo⟩, hm⟩
    obtain ⟨hfs, hfp, hfo⟩ := bindTriple_fits h hqs hqp hqo hm
    exact hnever ⟨hfs.1, hfp.1, hfo.1⟩

end RdfDatalog.Sparql
