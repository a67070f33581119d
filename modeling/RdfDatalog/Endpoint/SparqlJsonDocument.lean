import RdfDatalog.Endpoint.SparqlJsonRows

namespace RdfDatalog.Endpoint

variable {N : NativeTypes}

open GraphElementManager LabelNumbering

section Document

variable {m : GraphElementManager N} {vars : List String}

theorem exists_bindingFields {row : SolutionRow N} {terms : TermRow N}
    (hrow : RowResolves m row terms) (vars : List String) :
    ∃ n, ∀ fuel ≥ n, ∀ fields, (bindingFields m fuel row vars fields).isSome := by
  induction vars with
  | nil => exact ⟨0, fun _ _ _ => rfl⟩
  | cons v vars ih =>
    obtain ⟨n, ih⟩ := ih
    have hv := hrow v
    cases hrowv : row v with
    | none =>
      refine ⟨n, fun fuel hfuel fields => ?_⟩
      rw [bindingFields, hrowv]
      exact ih fuel hfuel fields
    | some e =>
      rw [hrowv] at hv
      generalize terms v = term at hv
      cases hv with
      | some hres =>
        obtain ⟨k, hk⟩ := exists_graphElementToJson hres
        refine ⟨n + k, fun fuel hfuel fields => ?_⟩
        rw [bindingFields, hrowv]
        dsimp only
        rw [hk fuel (by omega)]
        exact ih fuel (by omega) _

variable {result : SelectResult N} {rows : List (TermRow N)} {bindings : List Json}

theorem exists_toSparqlJson {store : Datastore N}
    (hrows : List.Forall₂ (RowResolves store.resources) result.rows rows) :
    ∃ n, ∀ fuel ≥ n, (toSparqlJson result store fuel).isSome := by
  have hall : ∃ n, ∀ fuel ≥ n, (result.rows.mapM fun row =>
      (bindingFields store.resources fuel row result.vars []).map Json.object).isSome := by
    generalize result.rows = solutions at hrows
    induction hrows with
    | nil => exact ⟨0, fun _ _ => rfl⟩
    | @cons row terms solutions rows hrow _ ih =>
      obtain ⟨n, ih⟩ := ih
      obtain ⟨k, hk⟩ := exists_bindingFields hrow result.vars
      refine ⟨n + k, fun fuel hfuel => ?_⟩
      obtain ⟨fields, hfields⟩ := Option.isSome_iff_exists.mp (hk fuel (by omega) [])
      obtain ⟨bindings, hbindings⟩ := Option.isSome_iff_exists.mp (ih fuel (by omega))
      rw [List.mapM_cons, hfields, hbindings]
      rfl
  obtain ⟨n, hn⟩ := hall
  refine ⟨n, fun fuel hfuel => ?_⟩
  obtain ⟨bindings, hbindings⟩ := Option.isSome_iff_exists.mp (hn fuel hfuel)
  rw [toSparqlJson, hbindings]
  rfl

theorem encodes_of_mapM {fuel : Nat} {solutions : List (SolutionRow N)}
    (hrows : List.Forall₂ (RowResolves m) solutions rows) (h : (solutions.mapM fun row =>
      (bindingFields m fuel row vars []).map Json.object) = some bindings) :
    List.Forall₂ (Encodes vars) bindings rows := by
  induction hrows generalizing bindings with
  | nil =>
    cases h
    exact .nil
  | @cons row terms solutions rows hrow _ ih =>
    rw [List.mapM_cons] at h
    obtain ⟨binding, hbinding, h⟩ := Option.bind_eq_some_iff.mp h
    obtain ⟨rest, hrest, h⟩ := Option.bind_eq_some_iff.mp h
    cases h
    obtain ⟨fields, hfields, rfl⟩ := Option.map_eq_some_iff.mp hbinding
    refine .cons ⟨fields, rfl, fun v hv => ?_⟩ (ih hrest)
    rw [bindingFields_lookup hrow hfields, if_pos hv]
    cases terms v <;> rfl

def selectDocument (vars : List String) (bindings : List Json) : Json :=
  jsonObject [("head", jsonObject [("vars", .array (vars.map Json.string))]),
    ("results", jsonObject [("bindings", .array bindings)])]

theorem toSparqlJson_eq {store : Datastore N}
    (hrows : List.Forall₂ (RowResolves store.resources) result.rows rows) {fuel : Nat} {doc : Json}
    (h : toSparqlJson result store fuel = some doc) :
    ∃ bindings, doc = selectDocument result.vars bindings ∧
      List.Forall₂ (Encodes result.vars) bindings rows := by
  obtain ⟨bindings, hbindings, h⟩ := Option.bind_eq_some_iff.mp h
  exact ⟨bindings, (Option.some.inj h).symm, encodes_of_mapM hrows hbindings⟩

theorem mapM_readVar (vars : List String) :
    (vars.map Json.string).mapM readVar = .ok vars := by
  induction vars with
  | nil => rfl
  | cons v vars ih =>
    rw [List.map_cons, List.mapM_cons, ih]
    rfl

theorem readDocument_selectDocument (parsers : LexicalParsers N) {codec : JsonText}
    {text : String} (h : codec.parse text = .ok (selectDocument vars bindings))
    (store : Datastore N) :
    readDocument (literalFromLexical parsers) codec text store =
      readRows (literalFromLexical parsers) vars bindings ⟨store, []⟩ >>=
        fun read => pure (⟨vars, read.1⟩, read.2.store) := by
  have hkeys : ([("head", jsonObject [("vars", .array (vars.map Json.string))]),
      ("results", jsonObject [("bindings", .array bindings)])].map Prod.fst).Nodup := by simp
  have hlookup (key : String) := lookup_jsonObject hkeys key []
  unfold readDocument
  rw [h, selectDocument, jsonObject]
  dsimp only
  rw [hlookup "boolean", arrayField, arrayField, hlookup "head", hlookup "results"]
  change (liftM ((vars.map Json.string).mapM readVar) >>= fun vars =>
    readRows (literalFromLexical parsers) vars bindings ⟨store, []⟩ >>= _) = _
  rw [mapM_readVar]
  rfl

end Document

section RoundTrip

variable {m m' : GraphElementManager N} {vars : List String} {rows : List (TermRow N)}

def Occurs (rows : List (TermRow N)) (n : Nat) : Prop :=
  ∃ terms ∈ rows, ∃ v t, terms v = some t ∧ n ∈ t.blanks

def renameRow (ρ : Nat → Nat) (terms : TermRow N) : TermRow N :=
  fun v => (terms v).map (RdfTerm.rename ρ)

/-- The result read back over the store `m` is that of the rows up to the renaming `ρ`. -/
structure RoundTrips (m : GraphElementManager N) (vars : List String) (rows : List (TermRow N))
    (result : SelectResult N) (m' : GraphElementManager N) (ρ : Nat → Nat) : Prop where
  vars_eq : result.vars = vars
  renames : List.Forall₂ (RowResolves m') result.rows (rows.map (renameRow ρ))
  injective : ∀ n k, Occurs rows n → Occurs rows k → ρ n = ρ k → n = k
  fresh : ∀ n, Occurs rows n → ¬ m.HasBlank (ρ n)
  /-- A value read back is an element of the store iff the terms are equal; a blank node read back
  is none of the store's. -/
  joins : List.Forall₂ (fun terms row => ∀ v t e, terms v = some t → row v = some e →
    ∀ e₀ t₀, m.Resolves e₀ t₀ → (∀ n ∈ t₀.blanks, m.HasBlank n) →
      (e = e₀ ↔ t.blanks = [] ∧ t = t₀)) rows result.rows

/-- What the rows must satisfy to be read back as they are. -/
structure ReadsBack (parsers : LexicalParsers N) (m : GraphElementManager N) (vars : List String)
    (rows : List (TermRow N)) : Prop where
  listed : ∀ terms ∈ rows, ∀ v t, terms v = some t → v ∈ vars
  keeps : ∀ terms ∈ rows, ∀ v t, terms v = some t → ∀ datatype lexical,
    .typedLiteral datatype lexical ∈ t.literals → parsers.Keeps datatype lexical
  unused : ∀ j < (rows.flatMap (TermRow.blanks vars)).dedup.length,
    ¬ m.HasBlank (m.anonResourceCount + 1 + j)

theorem RowResolves.unique {row : SolutionRow N} {terms terms' : TermRow N}
    (h : RowResolves m row terms) (h' : RowResolves m row terms') : terms = terms' := by
  funext v
  have hv := h v
  have hv' := h' v
  generalize row v = element at hv hv'
  generalize terms v = term at hv ⊢
  generalize terms' v = term' at hv' ⊢
  cases hv with
  | none =>
    cases hv'
    rfl
  | some hres =>
    cases hv' with
    | some hres' => rw [hres.unique hres']

variable {ρ : Nat → Nat}

theorem joins_of_renames {solutions : List (SolutionRow N)} (hext : m.Extends m')
    (h : List.Forall₂ (RowResolves m') solutions (rows.map (renameRow ρ)))
    (hfresh : ∀ n, Occurs rows n → ¬ m.HasBlank (ρ n)) :
    List.Forall₂ (fun terms row => ∀ v t e, terms v = some t → row v = some e →
      ∀ e₀ t₀, m.Resolves e₀ t₀ → (∀ n ∈ t₀.blanks, m.HasBlank n) →
        (e = e₀ ↔ t.blanks = [] ∧ t = t₀)) rows solutions := by
  have hall := List.forall₂_map_right_iff.mp h
  have hmem : List.Forall₂ (fun terms row => terms ∈ rows ∧ RowResolves m' row (renameRow ρ terms))
      rows solutions := by
    rw [List.forall₂_and_left]
    exact ⟨fun terms ht => ht, List.Forall₂.flip hall⟩
  refine hmem.imp fun terms row hterms v t e ht he e₀ t₀ hres₀ hblanks => ?_
  obtain ⟨hrow, hresolves⟩ := hterms
  have hv := hresolves v
  rw [he, renameRow, ht, Option.map_some, Option.rel_some_some] at hv
  have hlater := hres₀.extends hext
  constructor
  · intro heq
    subst heq
    have hrename := hv.unique hlater
    have hground : t.blanks = [] := by
      rw [List.eq_nil_iff_forall_not_mem]
      intro n hn
      refine hfresh n ⟨terms, hrow, v, t, ht, hn⟩ (hblanks _ ?_)
      rw [← hrename, RdfTerm.blanks_rename]
      exact List.mem_map_of_mem hn
    rw [RdfTerm.rename_of_ground hground] at hrename
    exact ⟨hground, hrename⟩
  · intro ⟨hground, heq⟩
    rw [RdfTerm.rename_of_ground hground, heq] at hv
    exact hv.inj hlater

variable {parsers : LexicalParsers N} {st : DecodeState N} {solutions : List (SolutionRow N)}

theorem mem_foldl_blanks {n : Nat} :
    n ∈ (rows.flatMap (TermRow.blanks vars)).foldl addSeen [] ↔
      ∃ terms ∈ rows, ∃ v ∈ vars, ∃ t, terms v = some t ∧ n ∈ t.blanks := by
  simp only [mem_foldl_addSeen, List.not_mem_nil, false_or, List.mem_flatMap,
    TermRow.mem_blanks]

theorem rereadRow_eq_renameRow_iff {seen : List Nat} {terms : TermRow N} :
    rereadRow m parsers seen vars terms = renameRow ρ terms ↔
      ∀ v t, terms v = some t → v ∈ vars ∧ (∀ n ∈ t.blanks, newNumber m seen n = ρ n) ∧
        ∀ l ∈ t.literals, parsers.reread l = l := by
  rw [funext_iff]
  apply forall_congr'
  intro v
  rw [rereadRow, renameRow]
  cases ht : terms v with
  | none => simp
  | some t =>
    by_cases hv : v ∈ vars <;> simp [hv, RdfTerm.rename, RdfTerm.map_eq_map_iff]

theorem reread_eq_self_iff {l : RdfLiteral N} (hl : parsers.Returns l) : parsers.reread l = l ↔
    ∀ datatype lexical, l = .typedLiteral datatype lexical → parsers.Keeps datatype lexical := by
  cases l with
  | typedLiteral datatype lexical =>
    obtain ⟨lit, hlit⟩ := Option.isSome_iff_exists.mp (hl datatype lexical rfl)
    have hkeeps := literalFromLexical_eq_iff parsers datatype lexical
    rw [hlit, Option.some.injEq] at hkeeps
    rw [LexicalParsers.reread, hlit, Option.getD_some, hkeeps]
    exact ⟨fun h _ _ heq => by cases heq; exact h, fun h => h _ _ rfl⟩
  | _ => exact iff_of_true rfl (fun _ _ heq => by cases heq)

theorem returns_of_keeps {l : RdfLiteral N} (h : ∀ datatype lexical,
    l = .typedLiteral datatype lexical → parsers.Keeps datatype lexical) : parsers.Returns l := by
  intro datatype lexical heq
  rw [(literalFromLexical_eq_iff parsers datatype lexical).mpr (h datatype lexical heq)]
  rfl

theorem forall₂_rereadRow {seen : List Nat}
    (hall : List.Forall₂ (RowResolves m') solutions (rows.map (rereadRow m parsers seen vars))) :
    List.Forall₂ (RowResolves m') solutions (rows.map (renameRow ρ)) ↔
      ∀ terms ∈ rows, rereadRow m parsers seen vars terms = renameRow ρ terms := by
  rw [← List.map_inj_left]
  constructor
  · intro h
    exact List.right_unique_forall₂' (fun _ _ _ h h' => h.unique h') hall h
  · intro h
    rw [← h]
    exact hall

theorem Numbered.length_dedup {blanks : List Nat} (h : Numbered m (blanks.foldl addSeen []) st) :
    (blanks.foldl addSeen []).length = blanks.dedup.length := by
  have hperm : (blanks.foldl addSeen []).Perm blanks.dedup := by
    rw [List.perm_ext_iff_of_nodup h.nodup (List.nodup_dedup blanks)]
    intro n
    rw [mem_foldl_addSeen, List.mem_dedup]
    simp
  exact hperm.length_eq

theorem ReadsBack.keeps_of_mem (h : ReadsBack parsers m vars rows) {terms : TermRow N}
    (hterms : terms ∈ rows) {v : String} {t : RdfTerm N} (ht : terms v = some t) :
    ∀ l ∈ t.literals, ∀ datatype lexical, l = .typedLiteral datatype lexical →
      parsers.Keeps datatype lexical := by
  intro l hl datatype lexical heq
  subst heq
  exact h.keeps terms hterms v t ht datatype lexical hl

theorem ReadsBack.returns (h : ReadsBack parsers m vars rows) :
    ∀ terms ∈ rows, terms.Returns parsers vars :=
  fun _ hterms _ _ _ ht l hl => returns_of_keeps (h.keeps_of_mem hterms ht l hl)

variable (hnum : Numbered m ((rows.flatMap (TermRow.blanks vars)).foldl addSeen []) st)

include hnum

theorem RoundTrips.readsBack {result : SelectResult N}
    (hreturns : ∀ terms ∈ rows, terms.Returns parsers vars)
    (hall : List.Forall₂ (RowResolves st.store.resources) result.rows (rows.map (rereadRow m parsers
      ((rows.flatMap (TermRow.blanks vars)).foldl addSeen []) vars)))
    (h : RoundTrips m vars rows result st.store.resources ρ) : ReadsBack parsers m vars rows := by
  have heq := (forall₂_rereadRow hall).mp h.renames
  have hcell (terms) (hterms : terms ∈ rows) := rereadRow_eq_renameRow_iff.mp (heq terms hterms)
  refine ⟨fun terms hterms v t ht => (hcell terms hterms v t ht).1, ?_, ?_⟩
  · intro terms hterms v t ht datatype lexical hmem
    obtain ⟨hlisted, -, hreread⟩ := hcell terms hterms v t ht
    have hl := hreturns terms hterms v hlisted t ht _ hmem
    exact (reread_eq_self_iff hl).mp (hreread _ hmem) _ _ rfl
  · intro j hj
    rw [← hnum.length_dedup] at hj
    obtain ⟨terms, hterms, v, _, t, ht, hn⟩ := mem_foldl_blanks.mp (List.getElem_mem hj)
    have hnew := (hcell terms hterms v t ht).2.1 _ hn
    rw [newNumber, number, hnum.nodup.idxOf_getElem] at hnew
    rw [hnew]
    exact h.fresh _ ⟨terms, hterms, v, t, ht, hn⟩

theorem ReadsBack.roundTrips
    (hall : List.Forall₂ (RowResolves st.store.resources) solutions (rows.map (rereadRow m parsers
      ((rows.flatMap (TermRow.blanks vars)).foldl addSeen []) vars)))
    (h : ReadsBack parsers m vars rows) :
    RoundTrips m vars rows ⟨vars, solutions⟩ st.store.resources
      (newNumber m ((rows.flatMap (TermRow.blanks vars)).foldl addSeen [])) := by
  have hseen : ∀ n, Occurs rows n → n ∈ (rows.flatMap (TermRow.blanks vars)).foldl addSeen [] := by
    intro n ⟨terms, hterms, v, t, ht, hn⟩
    exact mem_foldl_blanks.mpr ⟨terms, hterms, v, h.listed terms hterms v t ht, t, ht, hn⟩
  have hrenames : List.Forall₂ (RowResolves st.store.resources) solutions
      (rows.map (renameRow (newNumber m
        ((rows.flatMap (TermRow.blanks vars)).foldl addSeen [])))) := by
    rw [forall₂_rereadRow hall]
    intro terms hterms
    rw [rereadRow_eq_renameRow_iff]
    intro v t ht
    have hkeeps := h.keeps_of_mem hterms ht
    refine ⟨h.listed terms hterms v t ht, fun _ _ => rfl, fun l hl => ?_⟩
    exact (reread_eq_self_iff (returns_of_keeps (hkeeps l hl))).mpr (hkeeps l hl)
  have hfresh : ∀ n, Occurs rows n → ¬ m.HasBlank (newNumber m
      ((rows.flatMap (TermRow.blanks vars)).foldl addSeen []) n) := by
    intro n hn
    apply h.unused
    rw [← hnum.length_dedup]
    exact List.idxOf_lt_length_of_mem (hseen n hn)
  refine ⟨rfl, hrenames, ?_, hfresh, joins_of_renames hnum.grows hrenames hfresh⟩
  intro n k hn hk heq
  exact number_inj (hseen n hn) heq

omit hnum

theorem numbered_nil (store : Datastore N) : Numbered store.resources [] ⟨store, []⟩ :=
  ⟨List.nodup_nil, .refl _, rfl, fun _ => rfl⟩

theorem readDocument_of_encodes (parsers : LexicalParsers N) (store : Datastore N)
    {codec : JsonText} {text : String} {bindings : List Json}
    (hparsed : ∀ terms ∈ rows, terms.Parsed)
    (hbindings : List.Forall₂ (Encodes vars) bindings rows)
    (htext : codec.parse text = .ok (selectDocument vars bindings)) :
    PanicsUnless (∀ terms ∈ rows, terms.Returns parsers vars)
      (readDocument (literalFromLexical parsers) codec text store) fun read => read.1.vars = vars ∧
      ∃ st, read.2 = st.store ∧
        Numbered store.resources ((rows.flatMap (TermRow.blanks vars)).foldl addSeen []) st ∧
        List.Forall₂ (RowResolves st.store.resources) read.1.rows
          (rows.map (rereadRow store.resources parsers
            ((rows.flatMap (TermRow.blanks vars)).foldl addSeen []) vars)) := by
  rw [readDocument_selectDocument parsers htext]
  refine PanicsUnless.congr (.bind (readRows_resolves hparsed hbindings (numbered_nil store))
    fun ⟨solutions, st⟩ ⟨hnum, hall, _⟩ => .pure ⟨rfl, st, rfl, hnum, hall⟩) ?_
  rw [and_true]

/-- The result comes back up to blank nodes iff the JSON library reads its own text back, only the
listed variables are bound, the decoder neither panics on a typed literal nor has a variant of its
own for it, and the numbers that it gives to blank nodes are not taken. -/
theorem fromSparqlJson_toSparqlJson_iff (parsers : LexicalParsers N) (codec : JsonText)
    (result : SelectResult N) (store : Datastore N) (rows : List (TermRow N))
    (hrows : List.Forall₂ (RowResolves store.resources) result.rows rows)
    (hparsed : ∀ terms ∈ rows, terms.Parsed) :
    (∃ n, ∀ fuel ≥ n, (toSparqlJson result store fuel).isSome) ∧
    ∀ fuel doc, toSparqlJson result store fuel = some doc →
      (∀ doc', codec.parse (codec.print doc) = .ok doc' → doc' = doc) →
      ((∃ result' store' ρ,
          fromSparqlJson parsers codec (codec.print doc) store = some (.ok (result', store')) ∧
          RoundTrips store.resources result.vars rows result' store'.resources ρ) ↔
        codec.parse (codec.print doc) = .ok doc ∧
          ReadsBack parsers store.resources result.vars rows) := by
  refine ⟨exists_toSparqlJson hrows, fun fuel doc hdoc hcodec => ?_⟩
  obtain ⟨bindings, rfl, hbindings⟩ := toSparqlJson_eq hrows hdoc
  constructor
  · intro ⟨result', store', ρ, hread, htrip⟩
    have hparse : codec.parse (codec.print (selectDocument result.vars bindings)) =
        .ok (selectDocument result.vars bindings) := by
      cases hparse : codec.parse (codec.print (selectDocument result.vars bindings)) with
      | ok doc' => rw [hcodec doc' hparse]
      | error e =>
        rw [fromSparqlJson, readDocument, hparse] at hread
        cases hread
    have hspec := readDocument_of_encodes parsers store hparsed hbindings hparse
    by_cases hreturns : ∀ terms ∈ rows, terms.Returns parsers result.vars
    · obtain ⟨read, hback, -, st, hst, hnum, hall⟩ := hspec.returns hreturns
      rw [fromSparqlJson, hback] at hread
      cases hread
      dsimp only at hst
      subst hst
      exact ⟨hparse, htrip.readsBack hnum hreturns hall⟩
    · rw [fromSparqlJson, hspec.panics hreturns] at hread
      cases hread
  · intro ⟨hparse, hback⟩
    obtain ⟨⟨⟨vars, solutions⟩, store'⟩, hread, hvars, st, hst, hnum, hall⟩ :=
      (readDocument_of_encodes parsers store hparsed hbindings hparse).returns hback.returns
    dsimp only at hvars hst
    subst hvars hst
    refine ⟨_, _, _, ?_, hback.roundTrips hnum hall⟩
    rw [fromSparqlJson, hread]
    rfl

end RoundTrip

section Samples

def sampleCodec (text : String) (doc : Json) : JsonText where
  print _ := text
  parse read := if read = text then .ok doc else .error "expected value at line 1 column 1"

theorem sampleCodec_parse (text : String) (doc doc' : Json) :
    (sampleCodec text doc).parse ((sampleCodec text doc).print doc') = .ok doc := by
  simp [sampleCodec]

/-- Whole numbers without a sign are read, and no other native value. -/
def digitParsers : LexicalParsers NativeTypes.text where
  integer lexical :=
    if lexical.toList.all Char.isDigit then
      some (lexical.toList.foldl (fun n c => 10 * n + (c.toNat - '0'.toNat : Nat)) 0)
    else none
  decimal _ := none
  float _ := none
  dateTime _ := none
  date _ := none
  time _ := none
  duration := toString

/-- A blank node and a triple term about it. -/
def claimedStore : Datastore NativeTypes.text :=
  let (resources, node) := GraphElementManager.new.createUnnamedAnonResource
  let (resources, knows) := resources.addResource (.iri "http://example.org/knows")
  ⟨QuadStore.new, (resources.addResource (.tripleTerm ⟨node, knows, node⟩)).1⟩

def claimedTerms : TermRow NativeTypes.text := fun v =>
  if v = "who" then some (.blank 1)
  else if v = "claim" then
    some (.triple (.blank 1) (.iri "http://example.org/knows") (.blank 1))
  else none

def claimedResult : SelectResult NativeTypes.text where
  vars := ["who", "claim"]
  rows := [fun v =>
    if v = "who" then some (.nodeOrEdge (.anonymousBlankNode 1))
    else if v = "claim" then some (.tripleTerm ⟨1, 2, 1⟩) else none]

def claimedText : String :=
    "\x7b\"head\":\x7b\"vars\":[\"who\",\"claim\"]\x7d," ++
    "\"results\":\x7b\"bindings\":[\x7b\"claim\":\x7b\"type\":\"triple\"," ++
    "\"value\":\x7b\"object\":\x7b\"type\":\"bnode\",\"value\":\"b1\"\x7d," ++
    "\"predicate\":\x7b\"type\":\"uri\",\"value\":\"http://example.org/knows\"\x7d," ++
    "\"subject\":\x7b\"type\":\"bnode\",\"value\":\"b1\"\x7d\x7d\x7d," ++
    "\"who\":\x7b\"type\":\"bnode\",\"value\":\"b1\"\x7d\x7d]\x7d\x7d"

theorem claimedResult_resolves :
    List.Forall₂ (RowResolves claimedStore.resources) claimedResult.rows [claimedTerms] := by
  refine .cons (fun v => ?_) .nil
  rw [claimedTerms]
  split_ifs
  · exact .some (.blank 1)
  · exact .some (.tripleTerm rfl rfl rfl (.blank 1) (.iri _) (.blank 1))
  · exact .none

theorem claimedTerms_parsed : claimedTerms.Parsed := by
  intro v t ht l hl
  rw [claimedTerms] at ht
  split_ifs at ht
  · cases ht
    cases hl
  · cases ht
    cases hl

/-- The row of a typed literal whose lexical form is not canonical. -/
def ageResult : SelectResult NativeTypes.text :=
  ⟨["age"], [fun v => if v = "age" then some (.graphLiteral (.typedLiteral xsdInteger "05"))
    else none]⟩

def ageTerms : TermRow NativeTypes.text := fun v =>
  if v = "age" then some (.literal (.typedLiteral xsdInteger "05")) else none

def ageText : String :=
    "\x7b\"head\":\x7b\"vars\":[\"age\"]\x7d," ++
    "\"results\":\x7b\"bindings\":[\x7b\"age\":\x7b\"datatype\":" ++
    "\"http://www.w3.org/2001/XMLSchema#integer\"," ++
    "\"type\":\"literal\",\"value\":\"05\"\x7d\x7d]\x7d\x7d"

theorem ageResult_resolves (m : GraphElementManager NativeTypes.text) :
    List.Forall₂ (RowResolves m) ageResult.rows [ageTerms] := by
  refine .cons (fun v => ?_) .nil
  rw [ageTerms]
  split_ifs
  · exact .some (.literal _)
  · exact .none

theorem ageTerms_parsed : ageTerms.Parsed := by
  intro v t ht l hl
  rw [ageTerms] at ht
  split_ifs at ht
  cases ht
  rw [RdfTerm.literals, List.mem_singleton] at hl
  rw [hl]
  rfl

theorem fromSparqlJson_toSparqlJson_claimed : ∃ doc,
    toSparqlJson claimedResult claimedStore 1 = some doc ∧
    ∃ result' store' ρ, fromSparqlJson digitParsers (sampleCodec claimedText doc) claimedText
        claimedStore = some (.ok (result', store')) ∧
      RoundTrips claimedStore.resources ["who", "claim"] [claimedTerms] result'
        store'.resources ρ := by
  cases hdoc : toSparqlJson claimedResult claimedStore 1 with
  | none => cases hdoc
  | some doc =>
    refine ⟨doc, rfl, ?_⟩
    have hcodec : ∀ doc', (sampleCodec claimedText doc).parse claimedText = .ok doc' →
        doc' = doc := by
      intro doc' hread
      exact (Except.ok.inj ((sampleCodec_parse claimedText doc doc).symm.trans hread)).symm
    refine ((fromSparqlJson_toSparqlJson_iff digitParsers (sampleCodec claimedText doc)
      claimedResult claimedStore [claimedTerms] claimedResult_resolves
      (by simpa using claimedTerms_parsed)).2 1 doc hdoc hcodec).mpr
      ⟨sampleCodec_parse _ doc doc, ?_, ?_, ?_⟩
    · intro terms hterms v t ht
      cases List.mem_singleton.mp hterms
      rw [claimedTerms] at ht
      split_ifs at ht <;> simp [claimedResult, *]
    · intro terms hterms v t ht datatype lexical hmem
      cases List.mem_singleton.mp hterms
      rw [claimedTerms] at ht
      split_ifs at ht <;> cases ht <;> cases hmem
    · unfold HasBlank
      decide

/-- The number is read as a native integer, which is printed without the zero. -/
theorem fromSparqlJson_retypes_integer : ∃ doc,
    toSparqlJson ageResult Datastore.new 0 = some doc ∧
    (sampleCodec ageText doc).parse ageText = .ok doc ∧
    ¬ ∃ result' store' ρ, fromSparqlJson digitParsers (sampleCodec ageText doc) ageText
        Datastore.new = some (.ok (result', store')) ∧
      RoundTrips Datastore.new.resources ["age"] [ageTerms] result' store'.resources ρ := by
  cases hdoc : toSparqlJson ageResult Datastore.new 0 with
  | none => cases hdoc
  | some doc =>
    have hparse := sampleCodec_parse ageText doc doc
    refine ⟨doc, rfl, hparse, ?_⟩
    intro ⟨result', store', ρ, hread, htrip⟩
    obtain ⟨bindings, rfl, hbindings⟩ := toSparqlJson_eq (ageResult_resolves _) hdoc
    have hparsed : ∀ terms ∈ [ageTerms], terms.Parsed := by simpa using ageTerms_parsed
    have hreturns : ∀ terms ∈ [ageTerms], terms.Returns digitParsers ageResult.vars := by
      intro terms hterms v _ t ht l hl datatype lexical heq
      rw [List.mem_singleton.mp hterms, ageTerms] at ht
      split_ifs at ht
      cases ht
      rw [RdfTerm.literals, List.mem_singleton, heq] at hl
      cases hl
      rfl
    obtain ⟨read, hback, -, st, hst, hnum, hall⟩ := (readDocument_of_encodes
      digitParsers Datastore.new hparsed hbindings hparse).returns hreturns
    cases hread.symm.trans (congrArg ExceptT.run hback)
    dsimp only at hst
    subst hst
    have hkeeps := (htrip.readsBack hnum hreturns hall).keeps ageTerms List.mem_cons_self "age" _
      rfl xsdInteger "05" List.mem_cons_self
    have hnone := hkeeps.2.2.1 rfl
    cases hnone

end Samples

end RdfDatalog.Endpoint
