import RdfDatalog.Endpoint.SparqlJsonRoundTrip

namespace RdfDatalog.Endpoint

open GraphElementManager LabelNumbering

variable {N : NativeTypes}

/-- A row of terms: `none` for the unbound variables. -/
abbrev TermRow (N : NativeTypes) := String → Option (RdfTerm N)

namespace TermRow

/-- The blank nodes of a row, in the order in which the decoder reads them. -/
def blanks (vars : List String) (row : TermRow N) : List Nat :=
  vars.flatMap fun v => ((row v).map RdfTerm.blanks).getD []

/-- The literals of the row are in the form that the parsers make. -/
def Parsed (row : TermRow N) : Prop :=
  ∀ v t, row v = some t → ∀ l ∈ t.literals, l.isNative = false

theorem blanks_cons (v : String) (vars : List String) (row : TermRow N) :
    row.blanks (v :: vars) = ((row v).map RdfTerm.blanks).getD [] ++ row.blanks vars := rfl

/-- The decoder does not panic on the literals of the variables. -/
def Returns (parsers : LexicalParsers N) (vars : List String) (row : TermRow N) : Prop :=
  ∀ v ∈ vars, ∀ t, row v = some t → ∀ l ∈ t.literals, parsers.Returns l

theorem returns_cons {parsers : LexicalParsers N} {v : String} {vars : List String}
    {row : TermRow N} : row.Returns parsers (v :: vars) ↔
      (∀ t, row v = some t → ∀ l ∈ t.literals, parsers.Returns l) ∧ row.Returns parsers vars :=
  List.forall_mem_cons

theorem mem_blanks {vars : List String} {row : TermRow N} {n : Nat} :
    n ∈ row.blanks vars ↔ ∃ v ∈ vars, ∃ t, row v = some t ∧ n ∈ t.blanks := by
  rw [blanks, List.mem_flatMap]
  apply exists_congr
  intro v
  cases h : row v with
  | none => simp
  | some t => simp

end TermRow

section Rows

variable {m : GraphElementManager N} {seen : List Nat} {st : DecodeState N}
  {parsers : LexicalParsers N}

theorem map_newNumber_of_isPrefix {t : RdfTerm N} {seen seen' : List Nat} (hpre : seen <+: seen')
    (hmem : ∀ n ∈ t.blanks, n ∈ seen) :
    t.map (newNumber m seen) parsers.reread = t.map (newNumber m seen') parsers.reread :=
  (RdfTerm.map_eq_map_iff t).mpr
    ⟨fun n hn => (newNumber_of_isPrefix m (hmem n hn) hpre).symm, fun _ _ => rfl⟩

variable {terms : TermRow N} {binding : List (String × Json)} {vars : List String}

theorem readRow_spec (hterms : terms.Parsed)
    (hbinding : ∀ v ∈ vars, binding.lookup v = (terms v).map termToJson) (row : SolutionRow N)
    (h : Numbered m seen st) :
    PanicsUnless (terms.Returns parsers vars)
      (readRow (literalFromLexical parsers) binding vars row st) fun read =>
      Numbered m ((terms.blanks vars).foldl addSeen seen) read.2 ∧
      st.store.resources.Extends read.2.store.resources ∧
      (∀ v ∈ vars, ∀ t, terms v = some t → ∃ e, read.1 v = some e ∧
        read.2.store.resources.Resolves e
          (t.map (newNumber m ((terms.blanks vars).foldl addSeen seen)) parsers.reread)) ∧
      ∀ v, v ∉ vars ∨ terms v = none → read.1 v = row v := by
  induction vars generalizing row seen st with
  | nil =>
    refine (PanicsUnless.pure ?_).congr (by simp [TermRow.Returns])
    exact ⟨h, .refl _, fun v hv => absurd hv List.not_mem_nil, fun _ _ => rfl⟩
  | cons u vars ih =>
    have hu := hbinding u List.mem_cons_self
    have hvars : ∀ v ∈ vars, binding.lookup v = (terms v).map termToJson :=
      fun v hv => hbinding v (List.mem_cons_of_mem u hv)
    rw [readRow, hu, TermRow.blanks_cons, List.foldl_append]
    cases htu : terms u with
    | none =>
      refine ((ih hvars row h).imp fun read hread => ?_).congr ?_
      · obtain ⟨hnum, hext, hbound, hother⟩ := hread
        refine ⟨hnum, hext, ?_, ?_⟩
        · intro v hv t ht
          have hv : v ∈ vars := by
            rcases List.mem_cons.mp hv with rfl | hv
            · rw [htu] at ht
              cases ht
            · exact hv
          exact hbound v hv t ht
        · intro v hv
          exact hother v (hv.imp_left fun hv hmem => hv (List.mem_cons_of_mem u hmem))
      · simp [TermRow.returns_cons, htu]
    | some t =>
      refine PanicsUnless.congr (.bind (jsonToGraphElement_termToJson parsers (hterms u t htu) h)
        fun ⟨e, st₁⟩ ⟨hnum₁, hext₁, hres⟩ =>
          (ih hvars (Function.update row u (some e)) hnum₁).imp fun read hread => ?_) ?_
      · obtain ⟨hnum, hext, hbound, hother⟩ := hread
        refine ⟨hnum, hext₁.trans hext, ?_, ?_⟩
        · intro v hv t' ht'
          by_cases hmem : v ∈ vars
          · exact hbound v hmem t' ht'
          · -- the variable is not read again, so it keeps the value read here
            obtain rfl := (List.mem_cons.mp hv).resolve_right hmem
            obtain rfl := Option.some.inj (htu.symm.trans ht')
            refine ⟨e, ?_, ?_⟩
            · rw [hother v (.inl hmem), Function.update_self]
            · have hlater := hres.extends hext
              rwa [map_newNumber_of_isPrefix (isPrefix_foldl_addSeen _ _)
                fun n hn => mem_foldl_addSeen.mpr (.inr hn)] at hlater
        · intro v hv
          have hne : v ≠ u := by
            intro heq
            subst heq
            rcases hv with hv | hv
            · exact hv List.mem_cons_self
            · rw [htu] at hv
              cases hv
          rw [hother v (hv.imp_left fun hv hmem => hv (List.mem_cons_of_mem u hmem)),
            Function.update_of_ne hne]
      · simp [TermRow.returns_cons, htu]

/-- The terms of a row as they are read back. -/
def rereadRow (m : GraphElementManager N) (parsers : LexicalParsers N) (seen : List Nat)
    (vars : List String) (terms : TermRow N) : TermRow N := fun v =>
  if v ∈ vars then (terms v).map fun t => t.map (newNumber m seen) parsers.reread else none

theorem readRow_resolves (hterms : terms.Parsed)
    (hbinding : ∀ v ∈ vars, binding.lookup v = (terms v).map termToJson) (h : Numbered m seen st) :
    PanicsUnless (terms.Returns parsers vars)
      (readRow (literalFromLexical parsers) binding vars (fun _ => none) st) fun read =>
      Numbered m ((terms.blanks vars).foldl addSeen seen) read.2 ∧
      st.store.resources.Extends read.2.store.resources ∧
      RowResolves read.2.store.resources read.1
        (rereadRow m parsers ((terms.blanks vars).foldl addSeen seen) vars terms) := by
  refine (readRow_spec hterms hbinding (fun _ => none) h).imp fun read hread => ?_
  obtain ⟨hnum, hext, hbound, hother⟩ := hread
  refine ⟨hnum, hext, fun v => ?_⟩
  rw [rereadRow]
  by_cases hv : v ∈ vars
  · rw [if_pos hv]
    cases ht : terms v with
    | none =>
      rw [hother v (.inr ht)]
      exact .none
    | some t =>
      obtain ⟨e, he, hres⟩ := hbound v hv t ht
      rw [he]
      exact .some hres
  · rw [if_neg hv, hother v (.inl hv)]
    exact .none

theorem RowResolves.extends {m m' : GraphElementManager N} {row : SolutionRow N}
    (h : RowResolves m row terms) (hext : m.Extends m') :
    RowResolves m' row terms := by
  intro v
  have hv := h v
  generalize row v = element at hv ⊢
  generalize terms v = term at hv ⊢
  cases hv with
  | some hres => exact .some (hres.extends hext)
  | none => exact .none

theorem rereadRow_of_isPrefix {seen seen' : List Nat} (hpre : seen <+: seen')
    (hmem : ∀ n ∈ terms.blanks vars, n ∈ seen) :
    rereadRow m parsers seen vars terms = rereadRow m parsers seen' vars terms := by
  funext v
  rw [rereadRow, rereadRow]
  by_cases hv : v ∈ vars
  · rw [if_pos hv, if_pos hv]
    cases ht : terms v with
    | none => rfl
    | some t =>
      have ht' : ∀ n ∈ t.blanks, n ∈ seen :=
        fun n hn => hmem n (TermRow.mem_blanks.mpr ⟨v, hv, t, ht, hn⟩)
      rw [Option.map_some, Option.map_some, map_newNumber_of_isPrefix hpre ht']
  · rw [if_neg hv, if_neg hv]

def Encodes (vars : List String) (binding : Json) (terms : TermRow N) : Prop :=
  ∃ fields, binding = .object fields ∧
    ∀ v ∈ vars, fields.lookup v = (terms v).map termToJson

theorem readRows_resolves {bindings : List Json} {rows : List (TermRow N)}
    (hrows : ∀ terms ∈ rows, terms.Parsed) (h : List.Forall₂ (Encodes vars) bindings rows)
    (hnum : Numbered m seen st) :
    PanicsUnless (∀ terms ∈ rows, terms.Returns parsers vars)
      (readRows (literalFromLexical parsers) vars bindings st) fun read =>
      Numbered m ((rows.flatMap (TermRow.blanks vars)).foldl addSeen seen) read.2 ∧
      List.Forall₂ (RowResolves read.2.store.resources) read.1 (rows.map (rereadRow m parsers
        ((rows.flatMap (TermRow.blanks vars)).foldl addSeen seen) vars)) ∧
      st.store.resources.Extends read.2.store.resources := by
  induction h generalizing seen st with
  | nil => exact (PanicsUnless.pure ⟨hnum, .nil, .refl _⟩).congr (by simp)
  | @cons binding terms bindings rows hbinding _ ih =>
    obtain ⟨fields, rfl, hfields⟩ := hbinding
    rw [readRows, List.flatMap_cons, List.foldl_append, List.map_cons]
    refine PanicsUnless.congr (.bind
      (readRow_resolves (hrows terms List.mem_cons_self) hfields hnum)
      fun ⟨row, st₁⟩ ⟨hnum₁, hext₁, hres⟩ => .bind
        (ih (fun terms ht => hrows terms (List.mem_cons_of_mem _ ht)) hnum₁)
        fun ⟨rows', st'⟩ ⟨hnum', hall, hext⟩ => .pure ?_) ?_
    · refine ⟨hnum', .cons ?_ hall, hext₁.trans hext⟩
      have hlater := hres.extends hext
      rwa [rereadRow_of_isPrefix (isPrefix_foldl_addSeen _ _)
        fun n hn => mem_foldl_addSeen.mpr (.inr hn)] at hlater
    · simp only [List.forall_mem_cons, and_true]

end Rows

end RdfDatalog.Endpoint
