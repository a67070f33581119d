import RdfDatalog.JsonLd.Contents
import RdfDatalog.JsonLd.Serialize

namespace RdfDatalog.JsonLd

open Endpoint GraphElementManager

variable {N : NativeTypes}

section Words

/-- The text starts with a scheme, as every IRI does. -/
def HasScheme (iri : String) : Prop :=
  ∃ c cs rest, iri.toList = c :: (cs ++ ':' :: rest) ∧ c.isAlpha = true ∧
    ∀ x ∈ cs, (x.isAlphanum || x = '+' || x = '-' || x = '.') = true

variable {iri : String}

theorem HasScheme.not_keyword (h : HasScheme iri) : isKeyword iri = false := by
  obtain ⟨c, cs, rest, hiri, hc, -⟩ := h
  rw [isKeyword, hiri, List.head?_cons, decide_eq_false_iff_not, Option.some.injEq]
  intro heq
  subst heq
  exact absurd hc (by decide)

theorem HasScheme.not_blank (h : HasScheme iri) : isBlankNodeId iri = false := by
  obtain ⟨c, cs, rest, hiri, hc, -⟩ := h
  rw [isBlankNodeId, hiri]
  have hne : ('_' == c) = false := by
    rw [beq_eq_false_iff_ne]
    intro heq
    subst heq
    exact absurd hc (by decide)
  change (('_' == c) && _) = false
  rw [hne, Bool.false_and]

theorem HasScheme.isAbsoluteIri (env : ParserEnv) (h : HasScheme iri) :
    isAbsoluteIri env iri = true := by
  have hkeyword := h.not_keyword
  obtain ⟨c, cs, rest, hiri, hc, hcs⟩ := h
  have hcolon : (':'.isAlphanum || ':' = '+' || ':' = '-' || ':' = '.') = false := by decide
  have hscheme : iri.toList.takeWhile (fun c => decide (c ≠ ':')) = c :: cs := by
    have hall : ∀ x ∈ c :: cs, decide (x ≠ ':') = true := by
      intro x hx
      rw [decide_eq_true_iff]
      intro heq
      subst heq
      rcases List.mem_cons.mp hx with heq | hx
      · rw [← heq] at hc
        exact absurd hc (by decide)
      · exact absurd (hcs _ hx) (by decide)
    rw [hiri, ← List.cons_append, List.takeWhile_append_of_pos hall]
    simp
  have hchars : (c :: cs).all (fun x => env.alphanumeric x || x = '+' || x = '-' || x = '.') =
      true := by
    rw [List.all_eq_true]
    intro x hx
    rcases List.mem_cons.mp hx with rfl | hx
    · have halnum : x.isAlphanum = true := by
        rw [Char.isAlphanum, hc, Bool.true_or]
      rw [env.ascii x halnum, Bool.true_or, Bool.true_or, Bool.true_or]
    · have hx := hcs x hx
      cases hal : x.isAlphanum with
      | true => rw [env.ascii x hal, Bool.true_or, Bool.true_or, Bool.true_or]
      | false =>
        rw [hal, Bool.false_or] at hx
        rw [Bool.or_assoc, Bool.or_assoc, ← Bool.or_assoc (decide (x = '+')), hx, Bool.or_true]
  have hcontains : iri.toList.contains ':' = true := by
    rw [hiri]
    simp
  rw [JsonLd.isAbsoluteIri, hkeyword, hcontains, hscheme]
  dsimp only
  rw [hchars]
  rfl

end Words

section Context

variable (env : ParserEnv) (network : NetworkPolicy)

theorem expandPrefix_empty (term : String) : (Context.empty network).expandPrefix term = none := by
  rw [Context.expandPrefix]
  cases splitColon term with
  | none => rfl
  | some parts =>
    dsimp only
    split_ifs
    · rfl
    · rfl

theorem lookup_empty (term : String) : (Context.empty network).terms.lookup term = none :=
  AList.lookup_empty term

theorem expandTerm_empty (term : String) :
    ((Context.empty network).expandTerm env term).getD term = term := by
  have hcompact := expandPrefix_empty network term
  rw [Context.expandTerm]
  by_cases hkeyword : isKeyword term = true
  · rw [if_pos hkeyword]
    rfl
  · rw [if_neg hkeyword, lookup_empty]
    dsimp only
    rw [hcompact]
    dsimp only
    split_ifs
    · rfl
    · rfl

theorem expandTerm_absolute {iri : String} (h : HasScheme iri) :
    (Context.empty network).expandTerm env iri = some iri := by
  have hcompact := expandPrefix_empty network iri
  rw [Context.expandTerm, if_neg (by rw [h.not_keyword]; exact Bool.false_ne_true)]
  rw [lookup_empty]
  dsimp only
  rw [hcompact]
  exact if_pos (h.isAbsoluteIri env)

theorem keywordAlias_empty (keyword : String) :
    keywordAlias env (Context.empty network) keyword = none := by
  have hperm := env.iterate_perm ∅
  have hnil : env.iterate ∅ = [] := List.perm_nil.mp hperm
  rw [keywordAlias, Context.empty, hnil]
  rfl

end Context

section Values

variable (env : ParserEnv) (printed : PrintedValues N)

def readBack : RdfLiteral N → RdfLiteral N
  | .literalString s => .literalString s
  | .langLiteral lang literal => .langLiteral lang literal
  | .typedLiteral typeIri literal =>
    if typeIri = rdfJson ∨ typeIri = "@json" then
      .typedLiteral rdfJson (env.print (.string literal))
    else .typedLiteral typeIri literal
  | .booleanLiteral b => .typedLiteral xsdBoolean (toString b)
  | .integerLiteral n => .typedLiteral xsdInteger (toString n)
  | .decimalLiteral d => .typedLiteral xsdDecimal (printed.decimal d)
  | .floatLiteral f | .doubleLiteral f => .typedLiteral xsdDouble (printed.float f)
  | .dateTimeLiteral dt => .typedLiteral xsdDateTime (printed.dateTime dt)
  | .dateLiteral d => .typedLiteral xsdDate (printed.date d)
  | .timeLiteral t => .typedLiteral xsdTime (printed.time t)
  | .durationLiteral d => .literalString (printed.duration d)

def labelTerm : GraphElement N → LabelTerm N
  | .nodeOrEdge (.iri i) => .iri i
  | .nodeOrEdge (.anonymousBlankNode n) => .blank ("b" ++ toString n)
  | .graphLiteral l => .literal (readBack env printed l)
  | .tripleTerm _ => .literal (.literalString "")

def Plain (e : GraphElement N) : Prop :=
  (∀ k, e ≠ .tripleTerm k) ∧ ∀ i, e = .iri i → HasScheme i

variable {env printed} {network : NetworkPolicy} {ds : Datastore N} {e : GraphElement N}
  {text : String}

theorem blankText (n : Nat) : "_:b" ++ toString n = "_:" ++ ("b" ++ toString n) := by
  rw [← String.append_assoc]
  rfl

theorem blankText_isBlank (n : Nat) : isBlankNodeId ("_:b" ++ toString n) = true := by
  rw [blankText, isBlankNodeId, String.toList_append, List.isPrefixOf_iff_prefix]
  exact List.prefix_append _ _

theorem internRef_interning (h : ds.resources.Labelled) (he : Plain e) (ht : idText e = some text) :
    Interning ds (internRef env ds (Context.empty network) text) (labelTerm env printed e) := by
  cases e with
  | nodeOrEdge r =>
    cases r with
    | iri i =>
      cases ht
      have hi := he.2 text rfl
      rw [internRef, if_neg (by rw [hi.not_blank]; exact Bool.false_ne_true),
        expandTerm_absolute env network hi]
      exact internIri_interning h text
    | anonymousBlankNode n =>
      cases ht
      rw [internRef, if_pos (blankText_isBlank n), blankText]
      exact internBlankNode_interning h _
  | graphLiteral l => cases ht
  | tripleTerm k => cases ht

theorem nodeSubject_interning (h : ds.resources.Labelled) (he : Plain e)
    (ht : idText e = some text) :
    Interning ds (nodeSubject env ds (Context.empty network) (some text))
      (labelTerm env printed e) := by
  cases e with
  | nodeOrEdge r =>
    cases r with
    | iri i =>
      cases ht
      have hi := he.2 text rfl
      rw [nodeSubject, if_neg (by rw [hi.not_blank]; exact Bool.false_ne_true),
        expandTerm_absolute env network hi, Option.filter_some, if_pos (hi.isAbsoluteIri env)]
      exact internIri_interning h text
    | anonymousBlankNode n =>
      cases ht
      rw [nodeSubject, if_pos (blankText_isBlank n), blankText]
      exact internBlankNode_interning h _
  | graphLiteral l => cases ht
  | tripleTerm k => cases ht

theorem valueObject_language (text tag : String) : valueObject text "@language" tag =
    .object [("@language", .string tag), ("@value", .string text)] := by
  have hlt : "@language" < "@value" := by decide
  simp only [valueObject, SortedFields.ofEntries, List.foldl_cons, List.foldl_nil,
    SortedFields.insert, if_pos hlt]

theorem valueObject_type (text tag : String) : valueObject text "@type" tag =
    .object [("@type", .string tag), ("@value", .string text)] := by
  have hlt : "@type" < "@value" := by decide
  simp only [valueObject, SortedFields.ofEntries, List.foldl_cons, List.foldl_nil,
    SortedFields.insert, if_pos hlt]

variable {nested : Handlers N} {graph : Option GraphElementId} {s p : GraphElementId}

/-- What a value object adds. -/
def addedLiteral (ds : Datastore N) (graph : Option GraphElementId) (s p : GraphElementId)
    (l : RdfLiteral N) : Datastore N :=
  addToGraph (addLiteral ds l).1 graph s p (addLiteral ds l).2

theorem addObject_value {map : List (String × Value)} (hlist : map.lookup "@list" = none)
    (hid : map.lookup "@id" = none) {inner : Value} (hvalue : map.lookup "@value" = some inner) :
    addObject env nested (Context.empty network) graph s p ds map =
      .ok (addedLiteral ds graph s p (valueLiteral env (Context.empty network) inner
        (map.lookup "@language") (map.lookup "@type"))) := by
  unfold addObject
  rw [hlist]
  dsimp only
  rw [keywordAlias_empty, keywordAlias_empty, keywordAlias_empty, hid]
  dsimp only [Option.getD_none, Option.bind_none]
  rw [hvalue, Option.or_self, Option.or_self]
  rfl

theorem addObject_literal (l : RdfLiteral N) : ∃ map, literalToValue printed l = .object map ∧
    addObject env nested (Context.empty network) graph s p ds map =
      .ok (addedLiteral ds graph s p (readBack env printed l)) := by
  have hplain (text : String) : addObject env nested (Context.empty network) graph s p ds
      [("@value", .string text)] = .ok (addedLiteral ds graph s p (.literalString text)) := by
    have hliteral : valueLiteral env (Context.empty network) (.string text) none none =
        (.literalString text : RdfLiteral N) := rfl
    rw [← hliteral]
    exact addObject_value rfl rfl rfl
  have htyped (text tag : String) : addObject env nested (Context.empty network) graph s p ds
      [("@type", .string tag), ("@value", .string text)] =
        .ok (addedLiteral ds graph s p (readBack env printed (.typedLiteral tag text))) := by
    have hliteral : valueLiteral env (Context.empty network) (.string text) none
        (some (.string tag)) = readBack env printed (.typedLiteral tag text) := by
      unfold valueLiteral
      dsimp only
      rw [expandTerm_empty, readBack]
      rfl
    rw [← hliteral]
    exact addObject_value rfl rfl rfl
  cases l with
  | literalString text => exact ⟨_, rfl, hplain text⟩
  | durationLiteral d => exact ⟨_, rfl, hplain _⟩
  | langLiteral lang text =>
    have hliteral : valueLiteral env (Context.empty network) (.string text)
        (some (.string lang)) none = readBack env printed (.langLiteral lang text) := rfl
    refine ⟨_, valueObject_language text lang, ?_⟩
    rw [← hliteral]
    exact addObject_value rfl rfl rfl
  | typedLiteral tag text => exact ⟨_, valueObject_type text tag, htyped text tag⟩
  | booleanLiteral | integerLiteral | decimalLiteral | floatLiteral | doubleLiteral
  | dateTimeLiteral | dateLiteral | timeLiteral => exact ⟨_, valueObject_type _ _, htyped _ _⟩

theorem addValueToGraph_element {S : Set (LabelQuad N)} {l : LabelQuad N} (h : Represents ds S)
    (hg : GraphAt ds.resources graph l.graph) (hs : At ds.resources s l.subject)
    (hp : At ds.resources p l.predicate) (he : Plain e) (ho : l.obj = labelTerm env printed e)
    {value : Value} (hvalue : elementToValue printed e = some value) :
    ∃ ds', addValueToGraph env nested (Context.empty network) graph s p .none ds value = .ok ds' ∧
      Adds ds ds' S {l} := by
  have hadds {result : Datastore N × GraphElementId} (hi : Interning ds result l.obj) :
      Adds ds (addToGraph result.1 graph s p result.2) S {l} :=
    Adds.after hi ((h.interned hi).addToGraph (hg.mono hi.labels) (hs.mono hi.labels)
      (hp.mono hi.labels) hi.term)
  cases e with
  | graphLiteral lit =>
    obtain ⟨map, hmap, hadd⟩ := @addObject_literal N env printed network ds nested graph s p lit
    cases hvalue
    have hi : Interning ds (addLiteral ds (readBack env printed lit)) l.obj := by
      rw [ho]
      exact addLiteral_interning h.labelled _
    refine ⟨_, ?_, hadds hi⟩
    rw [hmap]
    exact hadd
  | tripleTerm k => exact absurd rfl (he.1 k)
  | nodeOrEdge r =>
    obtain ⟨text, htext, rfl⟩ := Option.map_eq_some_iff.mp hvalue
    have hi : Interning ds (internRef env ds (Context.empty network) text) l.obj := by
      rw [ho]
      exact internRef_interning h.labelled he htext
    exact ⟨_, rfl, hadds hi⟩

end Values

end RdfDatalog.JsonLd
