import RdfDatalog.Endpoint.SparqlJson
import RdfDatalog.Math.Labels
import RdfDatalog.Store.FreshNodes

namespace RdfDatalog.Endpoint

open GraphElementManager LabelNumbering

variable {N : NativeTypes}

section Lookup

theorem lookup_foldl_insertField {key : String} {fields : List (String × Json)}
    (h : ∀ field ∈ fields, field.1 ≠ key) (acc : List (String × Json)) :
    (fields.foldl (fun acc field => insertField field.1 field.2 acc) acc).lookup key =
      acc.lookup key := by
  induction fields generalizing acc with
  | nil => rfl
  | cons field fields ih =>
    have hhead : key ≠ field.1 := (h field List.mem_cons_self).symm
    rw [List.foldl_cons, ih fun f hf => h f (List.mem_cons_of_mem _ hf),
      lookup_insertField_ne hhead]

theorem lookup_jsonObject {fields : List (String × Json)}
    (h : (fields.map Prod.fst).Nodup) (key : String) (acc : List (String × Json)) :
    (fields.foldl (fun acc field => insertField field.1 field.2 acc) acc).lookup key =
      (fields.lookup key).or (acc.lookup key) := by
  induction fields generalizing acc with
  | nil => rfl
  | cons field fields ih =>
    obtain ⟨k, v⟩ := field
    obtain ⟨hk, h⟩ := List.nodup_cons.mp h
    rw [List.foldl_cons, List.lookup_cons]
    by_cases heq : key = k
    · subst heq
      have hne : ∀ field ∈ fields, field.1 ≠ key :=
        fun field hf heq => hk (List.mem_map.mpr ⟨field, hf, heq⟩)
      rw [lookup_foldl_insertField hne, lookup_insertField_self]
      simp
    · have hbeq : (key == k) = false := by simpa using heq
      rw [ih h, lookup_insertField_ne heq, hbeq]

end Lookup

section Encoding

def termToJson : RdfTerm N → Json
  | .iri iri => jsonObject [("type", .string "uri"), ("value", .string iri)]
  | .blank id => jsonObject [("type", .string "bnode"), ("value", .string (blankLabel id))]
  | .literal l => literalToJson l
  | .triple s p o => tripleJson (termToJson s) (termToJson p) (termToJson o)

variable {m : GraphElementManager N} {e : GraphElement N} {t : RdfTerm N}

theorem graphElementToJson_eq (h : m.Resolves e t) {fuel : Nat} {json : Json}
    (hjson : graphElementToJson m fuel e = some json) : json = termToJson t := by
  induction h generalizing fuel json with
  | iri | blank | literal => cases fuel <;> exact (Option.some.inj hjson).symm
  | @tripleTerm k es ep eo s p o hs hp ho _ _ _ ihs ihp iho =>
    cases fuel with
    | zero => cases hjson
    | succ fuel =>
      rw [graphElementToJson, hs, hp, ho] at hjson
      obtain ⟨js, hjs, hjson⟩ := Option.bind_eq_some_iff.mp hjson
      obtain ⟨jp, hjp, hjson⟩ := Option.bind_eq_some_iff.mp hjson
      obtain ⟨jo, hjo, hjson⟩ := Option.bind_eq_some_iff.mp hjson
      rw [ihs hjs, ihp hjp, iho hjo] at hjson
      exact (Option.some.inj hjson).symm

theorem exists_graphElementToJson (h : m.Resolves e t) :
    ∃ n, ∀ fuel ≥ n, graphElementToJson m fuel e = some (termToJson t) := by
  induction h with
  | iri | blank | literal => exact ⟨0, fun fuel _ => by cases fuel <;> rfl⟩
  | @tripleTerm k es ep eo s p o hs hp ho _ _ _ ihs ihp iho =>
    obtain ⟨ns, ihs⟩ := ihs
    obtain ⟨np, ihp⟩ := ihp
    obtain ⟨no, iho⟩ := iho
    refine ⟨ns + np + no + 1, fun fuel hfuel => ?_⟩
    cases fuel with
    | zero => omega
    | succ fuel =>
      rw [graphElementToJson, hs, hp, ho]
      dsimp only [Option.bind_some]
      rw [ihs fuel (by omega), ihp fuel (by omega), iho fuel (by omega)]
      rfl

/-- A row resolved over the store; unbound variables stay so. -/
def RowResolves (m : GraphElementManager N) (row : SolutionRow N)
    (terms : String → Option (RdfTerm N)) : Prop :=
  ∀ v, Option.Rel m.Resolves (row v) (terms v)

theorem bindingFields_lookup {row : SolutionRow N} {terms : String → Option (RdfTerm N)}
    (hrow : RowResolves m row terms) {fuel : Nat} {vars : List String}
    {fields fields' : List (String × Json)}
    (h : bindingFields m fuel row vars fields = some fields') (v : String) :
    fields'.lookup v = if v ∈ vars then ((terms v).map termToJson).or (fields.lookup v)
      else fields.lookup v := by
  induction vars generalizing fields with
  | nil =>
    cases h
    rw [if_neg List.not_mem_nil]
  | cons u vars ih =>
    have hu := hrow u
    rw [bindingFields] at h
    cases hrowu : row u with
    | none =>
      rw [hrowu] at h hu
      dsimp only at h
      cases hterms : terms u with
      | some t =>
        rw [hterms] at hu
        cases hu
      | none =>
        rw [ih h]
        by_cases hv : v = u
        · subst hv
          rw [hterms]
          simp
        · simp [hv]
    | some e =>
      rw [hrowu] at h hu
      dsimp only at h
      obtain ⟨json, hjson, h⟩ := Option.bind_eq_some_iff.mp h
      cases hterms : terms u with
      | none =>
        rw [hterms] at hu
        cases hu
      | some t =>
        rw [hterms, Option.rel_some_some] at hu
        have heq := graphElementToJson_eq hu hjson
        rw [ih h]
        by_cases hv : v = u
        · subst hv
          rw [lookup_insertField_self, hterms, heq]
          simp
        · rw [lookup_insertField_ne hv]
          simp [hv]

end Encoding

section Decoding

/-- The lexical form of the datatype is read, but not as a literal variant of its own. -/
def LexicalParsers.Keeps (parsers : LexicalParsers N) (datatype : IriReference)
    (lexical : String) : Prop :=
  datatype ≠ xsdString ∧
    (datatype = xsdBoolean → lexical ∉ ["true", "1", "false", "0"]) ∧
    (datatype = xsdInteger → parsers.integer lexical = none) ∧
    (datatype = xsdDecimal → parsers.decimal lexical = none) ∧
    (datatype = xsdFloat → parsers.float lexical = none) ∧
    (datatype = xsdDouble → parsers.float lexical = none) ∧
    (datatype = xsdDateTime → parsers.dateTime lexical = none) ∧
    (datatype = xsdDate → parsers.date lexical = none) ∧
    (datatype = xsdTime → parsers.time lexical = none) ∧
    (datatype = xsdDuration → parseXsdDuration lexical = some none)

theorem getD_map_eq_typedLiteral_iff {α : Type} {x : Option α} {f : α → RdfLiteral N}
    (hf : ∀ a, (f a).isNative = true) (datatype : IriReference) (lexical : String) :
    (x.map f).getD (.typedLiteral datatype lexical) = .typedLiteral datatype lexical ↔
      x = none := by
  cases x with
  | none => simp
  | some a =>
    refine iff_of_false (fun h => ?_) (by simp)
    have hnative := hf a
    rw [show f a = .typedLiteral datatype lexical from h] at hnative
    cases hnative

theorem literalFromLexical_eq_iff (parsers : LexicalParsers N) (datatype : IriReference)
    (lexical : String) : literalFromLexical parsers datatype lexical =
      some (.typedLiteral datatype lexical) ↔ parsers.Keeps datatype lexical := by
  rw [literalFromLexical, LexicalParsers.Keeps]
  by_cases h : datatype ∈ [xsdString, xsdBoolean, xsdInteger, xsdDecimal, xsdFloat, xsdDouble,
    xsdDateTime, xsdDate, xsdTime, xsdDuration]
  · simp only [List.mem_cons, List.not_mem_nil, or_false] at h
    rcases h with rfl | rfl | rfl | rfl | rfl | rfl | rfl | rfl | rfl | rfl
    case inl => simp
    case inr.inl =>
      simp only [xsdString, xsdBoolean, xsdInteger, xsdDecimal, xsdFloat, xsdDouble, xsdDateTime,
        xsdDate, xsdTime, xsdDuration]
      by_cases htrue : lexical = "true" ∨ lexical = "1"
      · rcases htrue with rfl | rfl <;> simp
      · by_cases hfalse : lexical = "false" ∨ lexical = "0"
        · rcases hfalse with rfl | rfl <;> simp
        · simp_all
    case inr.inr.inr.inr.inr.inr.inr.inr.inr =>
      simp only [xsdString, xsdBoolean, xsdInteger, xsdDecimal, xsdFloat, xsdDouble, xsdDateTime,
        xsdDate, xsdTime, xsdDuration]
      cases parseXsdDuration lexical with
      | none => simp
      | some nanos =>
        cases nanos with
        | none => simp
        | some n => simp
    all_goals
      simp only [xsdString, xsdBoolean, xsdInteger, xsdDecimal, xsdFloat, xsdDouble, xsdDateTime,
        xsdDate, xsdTime, xsdDuration]
      simpa using getD_map_eq_typedLiteral_iff (fun _ => rfl) _ _
  · simp only [List.mem_cons, List.not_mem_nil, or_false, not_or] at h
    simp [h]

/-- A literal as it is read back. -/
def LexicalParsers.reread (parsers : LexicalParsers N) : RdfLiteral N → RdfLiteral N
  | .typedLiteral datatype lexical =>
    (literalFromLexical parsers datatype lexical).getD (.typedLiteral datatype lexical)
  | l => l

/-- The decoder does not panic on the literal. -/
def LexicalParsers.Returns (parsers : LexicalParsers N) (l : RdfLiteral N) : Prop :=
  ∀ datatype lexical, l = .typedLiteral datatype lexical →
    (literalFromLexical parsers datatype lexical).isSome

/-- The reading panics unless `ok` holds, and then has a result with `P`. -/
structure PanicsUnless {α : Type} (ok : Prop) (x : Decoded Option α) (P : α → Prop) : Prop where
  returns : ok → ∃ a, x = pure a ∧ P a
  panics : ¬ ok → x.run = none

namespace PanicsUnless

variable {α β : Type} {ok ok' : Prop} {x : Decoded Option α} {P : α → Prop} {Q : β → Prop}

theorem pure {a : α} (h : P a) : PanicsUnless True (Pure.pure a) P :=
  ⟨fun _ => ⟨a, rfl, h⟩, fun hok => absurd trivial hok⟩

theorem bind {f : α → Decoded Option β} (h : PanicsUnless ok x P)
    (hf : ∀ a, P a → PanicsUnless ok' (f a) Q) : PanicsUnless (ok ∧ ok') (x >>= f) Q := by
  constructor
  · rintro ⟨hok, hok'⟩
    obtain ⟨a, rfl, ha⟩ := h.returns hok
    exact (hf a ha).returns hok'
  · intro hnot
    by_cases hok : ok
    · obtain ⟨a, rfl, ha⟩ := h.returns hok
      exact (hf a ha).panics fun hok' => hnot ⟨hok, hok'⟩
    · rw [ExceptT.run_bind, h.panics hok]
      rfl

theorem congr (h : PanicsUnless ok x P) (hok : ok ↔ ok') : PanicsUnless ok' x P :=
  ⟨fun h' => h.returns (hok.mpr h'), fun h' => h.panics fun h => h' (hok.mp h)⟩

theorem imp {P' : α → Prop} (h : PanicsUnless ok x P) (hP : ∀ a, P a → P' a) :
    PanicsUnless ok x P' :=
  ⟨fun hok => (h.returns hok).imp fun _ ha => ha.imp_right (hP _), h.panics⟩

end PanicsUnless

/-- The number of the node made for the blank node `n`: those of `seen` are numbered on from the
last number of the store. -/
def newNumber (m : GraphElementManager N) (seen : List Nat) (n : Nat) : Nat :=
  number m.anonResourceCount seen n

theorem newNumber_of_isPrefix (m : GraphElementManager N) {seen seen' : List Nat} {n : Nat}
    (hn : n ∈ seen) (h : seen <+: seen') : newNumber m seen' n = newNumber m seen n :=
  number_of_isPrefix _ hn h

/-- The blank nodes seen so far have nodes of their own in the store. -/
structure Numbered (m : GraphElementManager N) (seen : List Nat) (st : DecodeState N) : Prop where
  nodup : seen.Nodup
  grows : m.Extends st.store.resources
  count : st.store.resources.anonResourceCount = m.anonResourceCount + seen.length
  labels : ∀ n, st.bnodes.lookup (blankLabel n) =
    if n ∈ seen then some (.nodeOrEdge (.anonymousBlankNode (newNumber m seen n))) else none

theorem blankLabel_injective : Function.Injective blankLabel := by
  intro n n' h
  have hlist := congrArg String.toList h
  rw [blankLabel, blankLabel, String.toList_append, String.toList_append] at hlist
  exact toString_injective (String.toList_inj.mp (List.append_cancel_left hlist))

variable {m : GraphElementManager N} {seen : List Nat} {st : DecodeState N}

theorem Numbered.bnodeOf (h : Numbered m seen st) (n : Nat) :
    (bnodeOf st (blankLabel n)).1 =
        .nodeOrEdge (.anonymousBlankNode (newNumber m (addSeen seen n) n)) ∧
      Numbered m (addSeen seen n) (bnodeOf st (blankLabel n)).2 ∧
      st.store.resources.Extends (bnodeOf st (blankLabel n)).2.store.resources := by
  have hlabel := h.labels n
  by_cases hn : n ∈ seen
  · rw [if_pos hn] at hlabel
    rw [Endpoint.bnodeOf, hlabel, addSeen_of_mem hn]
    exact ⟨rfl, h, .refl _⟩
  · rw [if_neg hn] at hlabel
    obtain ⟨hext, hcount⟩ := createUnnamedAnonResource_spec st.store.resources
    have hnew : newNumber m (addSeen seen n) n = st.store.resources.anonResourceCount + 1 := by
      rw [newNumber, number_addSeen hn, h.count]
    rw [Endpoint.bnodeOf, hlabel]
    dsimp only
    rw [hcount, hnew]
    refine ⟨rfl, ⟨nodup_addSeen h.nodup n, h.grows.trans hext, ?_, ?_⟩, hext⟩
    · rw [hcount, h.count, addSeen_of_notMem hn, List.length_append, List.length_singleton,
        Nat.add_assoc]
    · intro k
      rw [List.lookup_cons]
      by_cases hk : k = n
      · subst hk
        simp [hnew]
      · have hne : (blankLabel k == blankLabel n) = false := by
          simpa using fun heq => hk (blankLabel_injective heq)
        rw [hne]
        dsimp only
        rw [h.labels k]
        by_cases hmem : k ∈ seen
        · rw [if_pos hmem, if_pos (mem_addSeen.mpr (.inl hmem)),
            newNumber_of_isPrefix m hmem (isPrefix_addSeen seen n)]
        · rw [if_neg hmem, if_neg (by simp [hmem, hk])]

theorem Numbered.addResource (h : Numbered m seen st) (e : GraphElement N) :
    Numbered m seen { st with store := (st.store.addResource e).1 } :=
  ⟨h.nodup, h.grows.trans (addResource_extends _ _),
    (addResource_anonResourceCount _ _).trans h.count, h.labels⟩

theorem Numbered.internTripleTerm (h : Numbered m seen st) {es ep eo : GraphElement N}
    {s p o : RdfTerm N} (hs : st.store.resources.Resolves es s)
    (hp : st.store.resources.Resolves ep p) (ho : st.store.resources.Resolves eo o) :
    Numbered m seen (internTripleTerm st es ep eo).2 ∧
      st.store.resources.Extends (internTripleTerm st es ep eo).2.store.resources ∧
      (internTripleTerm st es ep eo).2.store.resources.Resolves
        (internTripleTerm st es ep eo).1 (.triple s p o) := by
  have h₁ := addResource_extends st.store.resources es
  have h₂ := addResource_extends (st.store.resources.addResource es).1 ep
  have h₃ := addResource_extends ((st.store.resources.addResource es).1.addResource ep).1 eo
  have h₄ := addResource_extends
    (((st.store.resources.addResource es).1.addResource ep).1.addResource eo).1
    (Endpoint.internTripleTerm st es ep eo).1
  have hext := ((h₁.trans h₂).trans h₃).trans h₄
  refine ⟨(((h.addResource es).addResource ep).addResource eo).addResource _, hext, ?_⟩
  refine .tripleTerm ?_ ?_ ?_ (hs.extends hext) (hp.extends hext) (ho.extends hext)
  · exact ((h₂.trans h₃).trans h₄).getGraphElement (addResource_get _ es)
  · exact (h₃.trans h₄).getGraphElement (addResource_get _ ep)
  · exact h₄.getGraphElement (addResource_get _ eo)

theorem jsonStrField_object {fields : List (String × Json)} (h : (fields.map Prod.fst).Nodup)
    {key value : String} (hvalue : fields.lookup key = some (.string value)) :
    jsonStrField (fields.foldl (fun acc field => insertField field.1 field.2 acc) []) key =
      .ok value := by
  rw [jsonStrField, lookup_jsonObject h, hvalue]
  rfl

variable (parsers : LexicalParsers N)

theorem jsonToGraphElement_literal {l : RdfLiteral N}
    (hl : l.isNative = false) (st : DecodeState N) :
    PanicsUnless (parsers.Returns l)
      (jsonToGraphElement (literalFromLexical parsers) (literalToJson l) st)
      (· = (.graphLiteral (parsers.reread l), st)) := by
  have hplain (heq : jsonToGraphElement (literalFromLexical parsers) (literalToJson l) st =
      pure (.graphLiteral (parsers.reread l), st)) (hreturns : parsers.Returns l) :
      PanicsUnless (parsers.Returns l)
        (jsonToGraphElement (literalFromLexical parsers) (literalToJson l) st)
        (· = (.graphLiteral (parsers.reread l), st)) :=
    ⟨fun _ => ⟨_, heq, rfl⟩, fun hnot => absurd hreturns hnot⟩
  cases l with
  | literalString s =>
    have hkeys : ([("type", Json.string "literal"), ("value", Json.string s)].map
      Prod.fst).Nodup := by simp
    refine hplain ?_ (fun _ _ heq => by cases heq)
    rw [literalToJson, jsonObject, jsonToGraphElement, jsonStrField_object hkeys rfl,
      jsonStrField_object hkeys rfl, lookup_jsonObject hkeys, lookup_jsonObject hkeys]
    rfl
  | langLiteral lang s =>
    have hkeys : ([("type", Json.string "literal"), ("value", Json.string s),
      ("xml:lang", Json.string lang)].map Prod.fst).Nodup := by simp
    refine hplain ?_ (fun _ _ heq => by cases heq)
    rw [literalToJson, jsonObject, jsonToGraphElement, jsonStrField_object hkeys rfl,
      jsonStrField_object hkeys rfl, lookup_jsonObject hkeys, lookup_jsonObject hkeys]
    rfl
  | typedLiteral datatype s =>
    have hkeys : ([("type", Json.string "literal"), ("value", Json.string s),
      ("datatype", Json.string datatype)].map Prod.fst).Nodup := by simp
    have hread : jsonToGraphElement (literalFromLexical parsers)
        (literalToJson (.typedLiteral datatype s : RdfLiteral N)) st =
          ExceptT.lift (literalFromLexical parsers datatype s) >>=
            fun lit => pure (.graphLiteral lit, st) := by
      rw [literalToJson, typedJson, jsonObject, jsonToGraphElement, jsonStrField_object hkeys rfl,
        jsonStrField_object hkeys rfl, lookup_jsonObject hkeys, lookup_jsonObject hkeys]
      rfl
    rw [hread]
    cases hlit : literalFromLexical parsers datatype s with
    | none =>
      refine ⟨fun hreturns => ?_, fun _ => rfl⟩
      have hsome := hreturns datatype s rfl
      rw [hlit] at hsome
      cases hsome
    | some lit =>
      refine ⟨fun _ => ⟨_, rfl, ?_⟩, fun hnot => absurd ?_ hnot⟩
      · rw [LexicalParsers.reread, hlit]
        rfl
      · intro datatype' s' heq
        cases heq
        rw [hlit]
        rfl
  | _ => cases hl

theorem tripleComponent_eq {parts : List (String × Json)} {key : String} {value : Json}
    (h : parts.lookup key = some value) :
    tripleComponent parts key = .ok ⟨value, sizeOf_of_lookup h⟩ := by
  unfold tripleComponent
  split
  · next hnone =>
    rw [hnone] at h
    cases h
  · next value' hsome =>
    cases hsome.symm.trans h
    rfl

theorem jsonToGraphElement_triple (js jp jo : Json)
    (st : DecodeState N) :
    jsonToGraphElement (literalFromLexical parsers) (tripleJson js jp jo) st = (do
      let (es, st) ← jsonToGraphElement (literalFromLexical parsers) js st
      let (ep, st) ← jsonToGraphElement (literalFromLexical parsers) jp st
      let (eo, st) ← jsonToGraphElement (literalFromLexical parsers) jo st
      return internTripleTerm st es ep eo) := by
  have hparts : ([("subject", js), ("predicate", jp), ("object", jo)].map Prod.fst).Nodup := by
    simp
  have hkeys : ([("type", Json.string "triple"), ("value", jsonObject [("subject", js),
    ("predicate", jp), ("object", jo)])].map Prod.fst).Nodup := by simp
  have hvalue := lookup_jsonObject hkeys "value" []
  have hbind {α β : Type} (a : α) (f : α → Decoded Option β) :
      (liftM (Except.ok a : Except SparqlJsonError α) >>= f) = f a := rfl
  rw [tripleJson, jsonObject, jsonToGraphElement, jsonStrField_object hkeys rfl, hbind,
    if_neg (by simp), if_neg (by simp), if_neg (by simp), if_pos rfl]
  split
  · next hnone => cases hvalue.symm.trans hnone
  · next parts hsome =>
    cases hvalue.symm.trans hsome
    have hlookup (key : String) := lookup_jsonObject hparts key []
    rw [tripleComponent_eq (hlookup "subject"), tripleComponent_eq (hlookup "predicate"),
      tripleComponent_eq (hlookup "object")]
    rfl
  · next other hno hsome =>
    cases hvalue.symm.trans hsome
    exact absurd rfl (hno _)

/-- Reading the encoding of a term back: its blank nodes are replaced by new ones, its literals by
what the decoder makes of them. -/
theorem jsonToGraphElement_termToJson {t : RdfTerm N}
    (ht : ∀ l ∈ t.literals, l.isNative = false) {seen : List Nat} {st : DecodeState N}
    (h : Numbered m seen st) :
    PanicsUnless (∀ l ∈ t.literals, parsers.Returns l)
      (jsonToGraphElement (literalFromLexical parsers) (termToJson t) st) fun read =>
      Numbered m (t.blanks.foldl addSeen seen) read.2 ∧
      st.store.resources.Extends read.2.store.resources ∧
      read.2.store.resources.Resolves read.1
        (t.map (newNumber m (t.blanks.foldl addSeen seen)) parsers.reread) := by
  induction t generalizing seen st with
  | iri i =>
    have hkeys : ([("type", Json.string "uri"), ("value", Json.string i)].map
      Prod.fst).Nodup := by simp
    rw [termToJson, jsonObject, jsonToGraphElement, jsonStrField_object hkeys rfl,
      jsonStrField_object hkeys rfl]
    exact (PanicsUnless.pure ⟨h, .refl _, .iri i⟩).congr (by simp [RdfTerm.literals])
  | blank n =>
    have hkeys : ([("type", Json.string "bnode"), ("value", Json.string (blankLabel n))].map
      Prod.fst).Nodup := by simp
    obtain ⟨helem, hnum, hext⟩ := h.bnodeOf n
    rw [termToJson, jsonObject, jsonToGraphElement, jsonStrField_object hkeys rfl,
      jsonStrField_object hkeys rfl]
    refine (PanicsUnless.pure ⟨hnum, hext, ?_⟩).congr (by simp [RdfTerm.literals])
    rw [helem]
    exact .blank _
  | literal l =>
    have hl := ht l List.mem_cons_self
    refine ((jsonToGraphElement_literal parsers hl st).imp fun read hread => ?_).congr
      List.forall_mem_singleton.symm
    rw [hread]
    exact ⟨h, .refl _, .literal _⟩
  | triple s p o ihs ihp iho =>
    simp only [RdfTerm.literals, List.mem_append, or_imp, forall_and] at ht
    have hfold : (s.triple p o).blanks.foldl addSeen seen =
        o.blanks.foldl addSeen (p.blanks.foldl addSeen (s.blanks.foldl addSeen seen)) := by
      rw [RdfTerm.blanks, List.foldl_append, List.foldl_append]
    have hlate {t : RdfTerm N} {seen' seen'' : List Nat} (hpre : seen' <+: seen'')
        (hmem : ∀ n ∈ t.blanks, n ∈ seen') : t.map (newNumber m seen') parsers.reread =
          t.map (newNumber m seen'') parsers.reread :=
      (RdfTerm.map_eq_map_iff t).mpr
        ⟨fun n hn => (newNumber_of_isPrefix m (hmem n hn) hpre).symm, fun _ _ => rfl⟩
    have hafter {seen : List Nat} (t : RdfTerm N) :
        ∀ n ∈ t.blanks, n ∈ t.blanks.foldl addSeen seen :=
      fun n hn => mem_foldl_addSeen.mpr (.inr hn)
    have hpo := isPrefix_foldl_addSeen o.blanks
      (p.blanks.foldl addSeen (s.blanks.foldl addSeen seen))
    have hsp := isPrefix_foldl_addSeen p.blanks (s.blanks.foldl addSeen seen)
    rw [termToJson, jsonToGraphElement_triple]
    refine PanicsUnless.congr (.bind (ihs ht.1.1 h) fun _ hs => .bind (ihp ht.1.2 hs.1) fun _ hp =>
      .bind (iho ht.2 hp.1) fun _ ho => .pure ?_) ?_
    · obtain ⟨-, hext₁, hrs⟩ := hs
      obtain ⟨-, hext₂, hrp⟩ := hp
      obtain ⟨hn₃, hext₃, hro⟩ := ho
      rw [hlate (hsp.trans hpo) (hafter s)] at hrs
      rw [hlate hpo (hafter p)] at hrp
      obtain ⟨hn, hext, hr⟩ := hn₃.internTripleTerm (hrs.extends (hext₂.trans hext₃))
        (hrp.extends hext₃) hro
      rw [hfold]
      exact ⟨hn, ((hext₁.trans hext₂).trans hext₃).trans hext, hr⟩
    · simp only [RdfTerm.literals, List.mem_append, or_imp, forall_and, and_true, and_assoc]

end Decoding

end RdfDatalog.Endpoint
