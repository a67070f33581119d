import RdfDatalog.JsonLd.ReadBack
import Mathlib.Data.Set.Card

namespace RdfDatalog.JsonLd

open Endpoint GraphElementManager TermQuad

variable {N : NativeTypes}

section Isomorphism

variable (values : LexicalParsers N)

/-- What a literal may become: a native one a typed one of the same datatype and value, any other
stays. -/
def SameLiteral (l l' : RdfLiteral N) : Prop :=
  if l.isNative then ∃ datatype text, l' = .typedLiteral datatype text ∧
    literalFromLexical values datatype text = some l
  else l' = l

def SameTerm (ρ : Nat → Nat) : RdfTerm N → RdfTerm N → Prop
  | .iri i, t' => t' = .iri i
  | .blank n, t' => t' = .blank (ρ n)
  | .literal l, t' => ∃ l', t' = .literal l' ∧ SameLiteral values l l'
  | .triple _ _ _, _ => False

structure SameQuad (ρ : Nat → Nat) (t t' : TermQuad N) : Prop where
  graph : SameTerm values ρ t.graph t'.graph
  subject : SameTerm values ρ t.subject t'.subject
  predicate : SameTerm values ρ t.predicate t'.predicate
  obj : SameTerm values ρ t.obj t'.obj

/-- Datasets that differ in their blank nodes only, quad by quad. -/
def Isomorphic (quads quads' : Set (TermQuad N)) : Prop :=
  ∃ (ρ : Nat → Nat) (φ : TermQuad N → TermQuad N), Set.InjOn ρ (blanksOf quads) ∧
    Set.BijOn φ quads quads' ∧ ∀ t ∈ quads, SameQuad values ρ t (φ t)

end Isomorphism

section Literals

variable (printed : PrintedValues N) (values : LexicalParsers N)

/-- The datatype and the text that a native literal is printed with; none for a duration. -/
def printedType : RdfLiteral N → Option (String × String)
  | .booleanLiteral b => some (xsdBoolean, toString b)
  | .integerLiteral n => some (xsdInteger, toString n)
  | .decimalLiteral d => some (xsdDecimal, printed.decimal d)
  | .floatLiteral f | .doubleLiteral f => some (xsdDouble, printed.float f)
  | .dateTimeLiteral dt => some (xsdDateTime, printed.dateTime dt)
  | .dateLiteral d => some (xsdDate, printed.date d)
  | .timeLiteral t => some (xsdTime, printed.time t)
  | _ => none

/-- A literal that is written as what it is: no `xsd:float` and no duration, no JSON literal, and of
the other natives those whose printed text is one of their datatype. -/
def Kept : RdfLiteral N → Prop
  | .literalString _ | .langLiteral _ _ | .booleanLiteral _ | .integerLiteral _ => True
  | .typedLiteral datatype _ => datatype ≠ rdfJson ∧ datatype ≠ "@json"
  | .floatLiteral _ | .durationLiteral _ => False
  | .decimalLiteral d => (values.decimal (printed.decimal d)).isSome = true
  | .doubleLiteral f => (values.float (printed.float f)).isSome = true
  | .dateTimeLiteral dt => (values.dateTime (printed.dateTime dt)).isSome = true
  | .dateLiteral d => (values.date (printed.date d)).isSome = true
  | .timeLiteral t => (values.time (printed.time t)).isSome = true

/-- The text of a value is that of no other value. -/
structure PrintedValues.Faithful : Prop where
  integer : ∀ n, values.integer (toString n) = some n
  decimal : ∀ d d', values.decimal (printed.decimal d) = some d' → d' = d
  float : ∀ f f', values.float (printed.float f) = some f' → f' = f
  dateTime : ∀ dt dt', values.dateTime (printed.dateTime dt) = some dt' → dt' = dt
  date : ∀ d d', values.date (printed.date d) = some d' → d' = d
  time : ∀ t t', values.time (printed.time t) = some t' → t' = t

def Valued (l : RdfLiteral N) : Prop :=
  ∃ datatype text, l = .typedLiteral datatype text ∧
    ∃ l', literalFromLexical values datatype text = some l' ∧ l'.isNative = true

variable {env : ParserEnv} {printed values} {l l' : RdfLiteral N}

variable {datatype : String}

theorem printedType_spec {text : String} (h : printedType printed l = some (datatype, text)) :
    l.isNative = true ∧
      readBack env printed l = .typedLiteral datatype text ∧
        datatype ≠ rdfJson ∧ datatype ≠ "@json" ∧ datatype ≠ xsdFloat := by
  cases l with
  | literalString s => cases h
  | langLiteral lang s => cases h
  | typedLiteral tag s => cases h
  | durationLiteral d => cases h
  | booleanLiteral | integerLiteral | decimalLiteral | floatLiteral | doubleLiteral
  | dateTimeLiteral | dateLiteral | timeLiteral =>
    cases h
    exact ⟨rfl, rfl, by decide, by decide, by decide⟩

theorem readBack_typed (text : String) (h : datatype ≠ rdfJson) (h' : datatype ≠ "@json") :
    readBack (N := N) env printed (.typedLiteral datatype text) = .typedLiteral datatype text :=
  if_neg (not_or.mpr ⟨h, h'⟩)

theorem eq_some_of_isSome {α : Type} {x : Option α} {a : α} (h : x.isSome = true)
    (hx : ∀ a', x = some a' → a' = a) : x = some a := by
  obtain ⟨a', ha⟩ := Option.isSome_iff_exists.mp h
  rw [ha, hx a' ha]

theorem getD_map_of_parsed {α : Type} {x : Option α} {a : α} {f : α → RdfLiteral N}
    {fallback : RdfLiteral N} (h : x = some a) : some ((x.map f).getD fallback) = some (f a) := by
  rw [h]
  rfl

theorem literalFromLexical_printed (hfaithful : printed.Faithful values) (h : Kept printed values l)
    (hnative : l.isNative = true) : ∃ datatype text, printedType printed l = some (datatype, text) ∧
      literalFromLexical values datatype text = some l := by
  cases l with
  | literalString | langLiteral | typedLiteral => cases hnative
  | durationLiteral | floatLiteral => exact h.elim
  | booleanLiteral b =>
    refine ⟨_, _, rfl, ?_⟩
    cases b with
    | true => rfl
    | false => rfl
  | integerLiteral n => exact ⟨_, _, rfl, getD_map_of_parsed (hfaithful.integer n)⟩
  | decimalLiteral d =>
    exact ⟨_, _, rfl, getD_map_of_parsed (eq_some_of_isSome h (hfaithful.decimal d))⟩
  | doubleLiteral f =>
    exact ⟨_, _, rfl, getD_map_of_parsed (eq_some_of_isSome h (hfaithful.float f))⟩
  | dateTimeLiteral dt =>
    exact ⟨_, _, rfl, getD_map_of_parsed (eq_some_of_isSome h (hfaithful.dateTime dt))⟩
  | dateLiteral d => exact ⟨_, _, rfl, getD_map_of_parsed (eq_some_of_isSome h (hfaithful.date d))⟩
  | timeLiteral t => exact ⟨_, _, rfl, getD_map_of_parsed (eq_some_of_isSome h (hfaithful.time t))⟩

theorem readBack_of_not_native (h : Kept printed values l) (hnative : l.isNative = false) :
    readBack env printed l = l := by
  cases l with
  | literalString s => rfl
  | langLiteral lang s => rfl
  | typedLiteral tag s => exact readBack_typed s h.1 h.2
  | _ => cases hnative

theorem Kept.same (hfaithful : printed.Faithful values) (h : Kept printed values l) :
    SameLiteral values l (readBack env printed l) := by
  unfold SameLiteral
  cases hnative : l.isNative with
  | false =>
    rw [if_neg Bool.false_ne_true]
    exact readBack_of_not_native h hnative
  | true =>
    rw [if_pos rfl]
    obtain ⟨datatype, text, hprinted, hvalue⟩ := literalFromLexical_printed hfaithful h hnative
    exact ⟨datatype, text, (printedType_spec hprinted).2.1, hvalue⟩

/-- Literals that are read alike are the same, unless one of them is native and the other one what
it is printed as. -/
theorem Kept.eq_or (hfaithful : printed.Faithful values) (h : Kept printed values l)
    (h' : Kept printed values l') (heq : readBack env printed l = readBack env printed l') :
    l = l' ∨ (∃ d, printedType printed l = some d ∧ l' = .typedLiteral d.1 d.2) ∨
      ∃ d, printedType printed l' = some d ∧ l = .typedLiteral d.1 d.2 := by
  cases hnative : l.isNative with
  | false =>
    rw [readBack_of_not_native h hnative] at heq
    cases hnative' : l'.isNative with
    | false =>
      rw [readBack_of_not_native h' hnative'] at heq
      exact .inl heq
    | true =>
      obtain ⟨datatype, text, hprinted, -⟩ := literalFromLexical_printed hfaithful h' hnative'
      rw [(printedType_spec hprinted).2.1] at heq
      exact .inr (.inr ⟨_, hprinted, heq⟩)
  | true =>
    obtain ⟨datatype, text, hprinted, hvalue⟩ := literalFromLexical_printed hfaithful h hnative
    rw [(printedType_spec hprinted).2.1] at heq
    cases hnative' : l'.isNative with
    | false =>
      rw [readBack_of_not_native h' hnative'] at heq
      exact .inr (.inl ⟨_, hprinted, heq.symm⟩)
    | true =>
      obtain ⟨datatype', text', hprinted', hvalue'⟩ :=
        literalFromLexical_printed hfaithful h' hnative'
      rw [(printedType_spec hprinted').2.1] at heq
      cases heq
      exact .inl (Option.some.inj (hvalue.symm.trans hvalue'))

end Literals

section Counting

theorem eq_of_injOn_image {α : Type} {A B : Set α} {φ g : α → α} (hfin : A.Finite) (hsub : B ⊆ A)
    (hinj : Set.InjOn φ A) (hmaps : Set.MapsTo φ A (g '' B)) : B = A := by
  have hB : B.Finite := hfin.subset hsub
  refine Set.eq_of_subset_of_ncard_le hsub ?_ hfin
  calc A.ncard = (φ '' A).ncard := hinj.ncard_image.symm
    _ ≤ (g '' B).ncard := Set.ncard_le_ncard hmaps.image_subset (hB.image g)
    _ ≤ B.ncard := Set.ncard_image_le hB

variable {env : ParserEnv} {printed : PrintedValues N} {values : LexicalParsers N}
  {quads : Set (TermQuad N)} {flatten : Bool} {ρ ρ' : Nat → Nat} {φ : TermQuad N → TermQuad N}

theorem readTerm_eq_literal {t : RdfTerm N} {l : RdfLiteral N} :
    readTerm env printed ρ t = .literal l ↔ ∃ l', t = .literal l' ∧
      readBack env printed l' = l := by
  cases t with
  | literal l' =>
    constructor
    · intro h
      cases h
      exact ⟨l', rfl, rfl⟩
    · rintro ⟨l', heq, rfl⟩
      cases heq
      rfl
  | iri | blank | triple => exact iff_of_false nofun nofun

/-- A class of literals that each become one of another class, and that everything read as one of
the other class comes from: what is in it is read as one of the other class. -/
theorem readBack_of_class (hfin : quads.Finite) (hinj : Set.InjOn φ quads)
    (hmaps : Set.MapsTo φ quads (readQuad env printed flatten ρ '' quads))
    (hsame : ∀ t ∈ quads, SameQuad values ρ' t (φ t)) {A K : RdfLiteral N → Prop}
    (hbecome : ∀ l l', A l → SameLiteral values l l' → K l')
    (hfrom : ∀ l, K (readBack env printed l) → A l) {t : TermQuad N} (ht : t ∈ quads)
    {l : RdfLiteral N} (hl : t.obj = .literal l) (hA : A l) : K (readBack env printed l) := by
  let whole : Set (TermQuad N) := {t ∈ quads | ∃ l, t.obj = .literal l ∧ A l}
  let part : Set (TermQuad N) := {t ∈ quads | ∃ l, t.obj = .literal l ∧ K (readBack env printed l)}
  have hsub : part ⊆ whole := by
    rintro t ⟨ht, l, hl, hK⟩
    exact ⟨ht, l, hl, hfrom l hK⟩
  have hmap : Set.MapsTo φ whole (readQuad env printed flatten ρ '' part) := by
    rintro t ⟨ht, l, hl, hA⟩
    obtain ⟨t', ht', heq⟩ := hmaps ht
    have hobj := (hsame t ht).obj
    rw [hl] at hobj
    obtain ⟨l', hl', hsameLiteral⟩ := hobj
    rw [← heq] at hl'
    obtain ⟨l'', hl'', hread⟩ := readTerm_eq_literal.mp hl'
    refine ⟨t', ⟨ht', l'', hl'', ?_⟩, heq⟩
    rw [hread]
    exact hbecome l l' hA hsameLiteral
  have hall : part = whole :=
    eq_of_injOn_image (hfin.subset fun _ h => h.1) hsub (hinj.mono fun _ h => h.1) hmap
  have hmem : t ∈ part := by
    rw [hall]
    exact ⟨ht, l, hl, hA⟩
  obtain ⟨-, l', hl', hK⟩ := hmem
  cases hl.symm.trans hl'
  exact hK

end Counting

section Exactness

variable {env : ParserEnv} {printed : PrintedValues N} {values : LexicalParsers N}
  {quads : Set (TermQuad N)} {flatten : Bool} {ρ ρ' : Nat → Nat} {φ : TermQuad N → TermQuad N}

variable {l : RdfLiteral N} {datatype : String} {t : TermQuad N}

theorem readBack_eq_typed {text : String} (h : readBack env printed l = .typedLiteral datatype text)
    :
    (∃ text', printedType printed l = some (datatype, text')) ∨ l = .typedLiteral datatype text ∨
      ∃ tag literal, l = .typedLiteral tag literal ∧ (tag = rdfJson ∨ tag = "@json") ∧
        datatype = rdfJson ∧ text = env.print (.string literal) := by
  cases l with
  | literalString s => cases h
  | langLiteral lang s => cases h
  | durationLiteral d => cases h
  | typedLiteral tag literal =>
    by_cases hjson : tag = rdfJson ∨ tag = "@json"
    · rw [readBack, if_pos hjson] at h
      cases h
      exact .inr (.inr ⟨tag, literal, rfl, hjson, rfl, rfl⟩)
    · rw [readBack, if_neg hjson] at h
      exact .inr (.inl h)
  | booleanLiteral | integerLiteral | decimalLiteral | floatLiteral | doubleLiteral
  | dateTimeLiteral | dateLiteral | timeLiteral => cases h; exact .inl ⟨_, rfl⟩

theorem sameLiteral_typed {text : String} (h : SameLiteral values (.typedLiteral datatype text) l) :
    l = .typedLiteral datatype text := by
  have hnative : ¬ (RdfLiteral.typedLiteral (N := N) datatype text).isNative = true :=
    Bool.false_ne_true
  rw [SameLiteral, if_neg hnative] at h
  exact h

theorem sameLiteral_native {l' : RdfLiteral N} (hnative : l.isNative = true)
    (h : SameLiteral values l l') : ∃ datatype text, l' = .typedLiteral datatype text ∧
      literalFromLexical values datatype text = some l := by
  rw [SameLiteral, if_pos hnative] at h
  exact h

theorem datatype_of_float {text : String} {f : N.Float}
    (h : literalFromLexical values datatype text = some (.floatLiteral f)) :
    datatype = xsdFloat := by
  unfold literalFromLexical at h
  dsimp only at h
  have hparsed {α : Type} {x : Option α} {g : α → RdfLiteral N}
      (hg : ∀ a, g a ≠ .floatLiteral f) :
      some ((x.map g).getD (.typedLiteral datatype text)) ≠ some (.floatLiteral f) := by
    cases x with
    | none => exact nofun
    | some a => exact fun heq => hg a (Option.some.inj heq)
  have hduration {x : Option (Option ℤ)} : (x.bind fun nanos => some ((nanos.map fun n =>
      RdfLiteral.durationLiteral (values.duration n)).getD (.typedLiteral datatype text))) ≠
        some (.floatLiteral f) := by
    cases x with
    | none => exact nofun
    | some nanos => exact hparsed nofun
  split_ifs at h
  all_goals first
    | assumption
    | cases h
    | exact absurd h (hparsed nofun)
    | exact absurd h hduration

theorem literalFromLexical_json (text : String) :
    literalFromLexical values rdfJson text = some (.typedLiteral rdfJson text) := rfl

variable (hfin : quads.Finite) (hinj : Set.InjOn φ quads)
  (hmaps : Set.MapsTo φ quads (readQuad env printed flatten ρ '' quads))
  (hsame : ∀ t ∈ quads, SameQuad values ρ' t (φ t))

include hfin hinj hmaps hsame

theorem valued_readBack (ht : t ∈ quads) (hl : t.obj = .literal l) (hnative : l.isNative = true) :
    Valued values (readBack env printed l) := by
  refine readBack_of_class (A := fun l => l.isNative = true ∨ Valued values l) hfin hinj hmaps hsame
    ?_ ?_ ht hl (.inl hnative)
  · intro l l' hA hl'
    rcases hA with hnative | ⟨datatype, text, rfl, hvalue⟩
    · obtain ⟨datatype, text, rfl, hvalue⟩ := sameLiteral_native hnative hl'
      exact ⟨datatype, text, rfl, l, hvalue, hnative⟩
    · rw [sameLiteral_typed hl']
      exact ⟨datatype, text, rfl, hvalue⟩
  · intro l ⟨datatype, text, hread, hvalue⟩
    rcases readBack_eq_typed hread with ⟨text', hprinted⟩ | rfl | ⟨tag, literal, -, -, rfl, -⟩
    · exact .inl (@printedType_spec N printed env l _ _ hprinted).1
    · exact .inr ⟨datatype, text, rfl, hvalue⟩
    · obtain ⟨l', hl', hnative'⟩ := hvalue
      rw [literalFromLexical_json] at hl'
      cases hl'
      cases hnative'

theorem not_float (ht : t ∈ quads) (f : N.Float) :
    t.obj ≠ .literal (.floatLiteral f) := by
  intro hl
  have hread := readBack_of_class
    (A := fun l => (∃ f, l = .floatLiteral f) ∨ ∃ text, l = .typedLiteral xsdFloat text)
    (K := fun l => ∃ text, l = .typedLiteral xsdFloat text) hfin hinj hmaps hsame ?_ ?_ ht hl
    (.inl ⟨f, rfl⟩)
  · obtain ⟨text, htext⟩ := hread
    have hne : xsdDouble ≠ xsdFloat := by decide
    exact hne (RdfLiteral.typedLiteral.inj htext).1
  · rintro l l' (⟨f, rfl⟩ | ⟨text, rfl⟩) hl'
    · obtain ⟨datatype, text, rfl, hvalue⟩ := sameLiteral_native rfl hl'
      rw [datatype_of_float hvalue]
      exact ⟨text, rfl⟩
    · exact ⟨text, sameLiteral_typed hl'⟩
  · intro l ⟨text, hread⟩
    rcases readBack_eq_typed hread with ⟨text', hprinted⟩ | rfl | ⟨tag, literal, -, -, hjson, -⟩
    · exact absurd rfl (@printedType_spec N printed env l _ _ hprinted).2.2.2.2
    · exact .inr ⟨text, rfl⟩
    · exact absurd hjson (by decide)

theorem not_json (hquote : ∀ s, s.length < (env.print (.string s)).length) (ht : t ∈ quads)
    (text : String) (hjson : datatype = rdfJson ∨ datatype = "@json") :
    t.obj ≠ .literal (.typedLiteral datatype text) := by
  intro hl
  let Short : RdfLiteral N → Prop := fun l => ∃ tag literal, l = .typedLiteral tag literal ∧
    (tag = rdfJson ∨ tag = "@json") ∧ literal.length ≤ text.length
  have hread : Short (readBack env printed (.typedLiteral datatype text)) := by
    refine readBack_of_class (A := Short) (K := Short) hfin hinj hmaps hsame ?_ ?_ ht hl
      ⟨datatype, text, rfl, hjson, le_rfl⟩
    · rintro l l' ⟨tag, literal, rfl, htag, hshort⟩ hl'
      exact ⟨tag, literal, sameLiteral_typed hl', htag, hshort⟩
    · rintro l ⟨tag, literal, hread, htag, hshort⟩
      rcases readBack_eq_typed hread with ⟨text', hprinted⟩ | rfl |
        ⟨tag', literal', rfl, htag', -, rfl⟩
      · obtain ⟨-, -, hne, hne', -⟩ := @printedType_spec N printed env l _ _ hprinted
        exact absurd htag (not_or.mpr ⟨hne, hne'⟩)
      · exact ⟨tag, literal, rfl, htag, hshort⟩
      · exact ⟨tag', literal', rfl, htag', ((hquote literal').trans_le hshort).le⟩
  obtain ⟨tag, literal, heq, -, hshort⟩ := hread
  rw [readBack, if_pos hjson] at heq
  cases heq
  exact absurd (hquote text) (not_lt.mpr hshort)

theorem kept_of_same (hquote : ∀ s, s.length < (env.print (.string s)).length) (ht : t ∈ quads)
    (hl : t.obj = .literal l) : Kept printed values l := by
  have hvalued (hnative : l.isNative = true) := valued_readBack hfin hinj hmaps hsame ht hl hnative
  have hparsed {α : Type} {x : Option α} {g : α → RdfLiteral N} {datatype text : String}
      (h : ∃ l', some ((x.map g).getD (.typedLiteral datatype text)) = some l' ∧
        l'.isNative = true) : x.isSome = true := by
    cases x with
    | none =>
      obtain ⟨l', hl', hnative⟩ := h
      cases hl'
      cases hnative
    | some a => rfl
  cases l with
  | literalString | langLiteral | booleanLiteral | integerLiteral => trivial
  | floatLiteral f => exact not_float hfin hinj hmaps hsame ht f hl
  | typedLiteral datatype text =>
    refine not_or.mp fun hjson => ?_
    exact not_json hfin hinj hmaps hsame hquote ht text hjson hl
  | durationLiteral d =>
    obtain ⟨datatype, text, heq, -⟩ := hvalued rfl
    cases heq
  | decimalLiteral | doubleLiteral | dateTimeLiteral | dateLiteral | timeLiteral =>
    obtain ⟨datatype, text, heq, hvalue⟩ := hvalued rfl
    cases heq
    exact hparsed hvalue

end Exactness

section Datasets

variable {env : ParserEnv} {printed : PrintedValues N} {values : LexicalParsers N}
  {quads : Set (TermQuad N)} {flatten : Bool} {ρ : Nat → Nat}

/-- What a document can express: every quad has its place in it, every literal is kept, and no quad
has the printed form of another one. -/
structure Expressible (printed : PrintedValues N) (values : LexicalParsers N) (flatten : Bool)
    (quads : Set (TermQuad N)) : Prop where
  graphs : ∀ t ∈ quads, if flatten then t.graph = .iri defaultGraphIri else ∃ iri,
    t.graph = .iri iri
  types : ∀ t ∈ quads, t.predicate = .iri rdfType → ∃ iri, t.obj = .iri iri
  literals : ∀ t ∈ quads, ∀ l, t.obj = .literal l → Kept printed values l
  apart : ∀ t ∈ quads, ∀ t' ∈ quads, t.graph = t'.graph → t.subject = t'.subject →
    t.predicate = t'.predicate → ∀ l d, t.obj = .literal l → printedType printed l = some d →
      t'.obj ≠ .literal (.typedLiteral d.1 d.2)

theorem Expressible.all_printed (h : Expressible printed values flatten quads) {t : TermQuad N}
    (ht : t ∈ quads) : Printed flatten t := by
  refine ⟨?_, h.types t ht⟩
  have hgraph := h.graphs t ht
  cases flatten with
  | true => exact .inl rfl
  | false => exact .inr hgraph

theorem Expressible.graph (h : Expressible printed values flatten quads) {t : TermQuad N}
    (ht : t ∈ quads) : ∃ iri, t.graph = .iri iri ∧
      (readQuad env printed flatten ρ t).graph = .iri iri := by
  have hgraph := h.graphs t ht
  rw [readQuad]
  cases flatten with
  | true => exact ⟨_, hgraph, rfl⟩
  | false =>
    obtain ⟨iri, hiri⟩ := hgraph
    refine ⟨iri, hiri, ?_⟩
    rw [if_neg Bool.false_ne_true, hiri]
    rfl

theorem readTerm_node {t t' : RdfTerm N} (ht : NodeTerm t) (ht' : NodeTerm t')
    (hinj : ∀ n ∈ t.blanks, ∀ n' ∈ t'.blanks, ρ n = ρ n' → n = n')
    (heq : readTerm env printed ρ t = readTerm env printed ρ t') : t = t' := by
  cases t with
  | literal | triple => exact ht.elim
  | iri i =>
    cases t' with
    | iri i' => cases heq; rfl
    | blank | literal | triple => cases heq
  | blank n =>
    cases t' with
    | iri | literal | triple => cases heq
    | blank n' =>
      have hn := hinj n (.head _) n' (.head _) (RdfTerm.blank.inj heq)
      rw [hn]

theorem nodeTerm_of_plain {t : RdfTerm N} (ht : PlainTerm t) (hl : ∀ l, t ≠ .literal l) :
    NodeTerm t := by
  cases t with
  | iri i => exact ht
  | blank n => trivial
  | literal l => exact absurd rfl (hl l)
  | triple s p o => exact ht.elim

theorem sameTerm_node {t : RdfTerm N} (ht : NodeTerm t) :
    SameTerm values ρ t (readTerm env printed ρ t) := by
  cases t with
  | iri i => rfl
  | blank n => rfl
  | literal | triple => exact ht.elim

theorem Expressible.injOn (hplain : ∀ t ∈ quads, PlainTerms t)
    (hfaithful : printed.Faithful values) (h : Expressible printed values flatten quads)
    (hρ : Set.InjOn ρ {n | ∃ t ∈ quads, Printed flatten t ∧ n ∈ nodeBlanks t}) :
    Set.InjOn (readQuad env printed flatten ρ) quads := by
  have hblank {t t' : TermQuad N} (ht : t ∈ quads) (ht' : t' ∈ quads) {n n' : Nat}
      (hn : n ∈ nodeBlanks t) (hn' : n' ∈ nodeBlanks t') (heq : ρ n = ρ n') : n = n' :=
    hρ ⟨t, ht, h.all_printed ht, hn⟩ ⟨t', ht', h.all_printed ht', hn'⟩ heq
  intro t ht t' ht' heq
  have hgraph : t.graph = t'.graph := by
    obtain ⟨iri, hiri, hread⟩ := @Expressible.graph N env printed values quads flatten ρ h t ht
    obtain ⟨iri', hiri', hread'⟩ := @Expressible.graph N env printed values quads flatten ρ h t' ht'
    rw [← heq, hread] at hread'
    cases hread'
    rw [hiri, hiri']
  have hsubject : t.subject = t'.subject := by
    refine readTerm_node (hplain t ht).subject (hplain t' ht').subject (fun n hn n' hn' => ?_)
      (congrArg TermQuad.subject heq)
    exact hblank ht ht' (List.mem_append_left _ hn) (List.mem_append_left _ hn')
  have hpredicate : t.predicate = t'.predicate := by
    obtain ⟨iri, hiri⟩ := (hplain t ht).predicate
    obtain ⟨iri', hiri'⟩ := (hplain t' ht').predicate
    have hread := congrArg TermQuad.predicate heq
    rw [readQuad, readQuad, hiri, hiri'] at hread
    cases hread
    rw [hiri, hiri']
  have hobj : t.obj = t'.obj := by
    have hread : readTerm env printed ρ t.obj = readTerm env printed ρ t'.obj :=
      congrArg TermQuad.obj heq
    have hterm := (hplain t ht).obj
    have hterm' := (hplain t' ht').obj
    have hnode (hl : ∀ l, t.obj ≠ .literal l) (hl' : ∀ l, t'.obj ≠ .literal l) : t.obj =
        t'.obj := by
      refine readTerm_node (nodeTerm_of_plain hterm hl) (nodeTerm_of_plain hterm' hl')
        (fun n hn n' hn' => ?_) hread
      exact hblank ht ht' (List.mem_append_right _ hn) (List.mem_append_right _ hn')
    by_cases hl : ∃ l, t.obj = .literal l
    · obtain ⟨l, hl⟩ := hl
      have hreadl : readTerm env printed ρ t'.obj = .literal (readBack env printed l) := by
        rw [← hread, hl]
        rfl
      obtain ⟨l', hl', hback⟩ := readTerm_eq_literal.mp hreadl
      rcases (h.literals t ht l hl).eq_or hfaithful (h.literals t' ht' l' hl') hback.symm with
        rfl | ⟨d, hd, rfl⟩ | ⟨d, hd, rfl⟩
      · rw [hl, hl']
      · exact absurd hl' (h.apart t ht t' ht' hgraph hsubject hpredicate l d hl hd)
      · exact absurd hl (h.apart t' ht' t ht hgraph.symm hsubject.symm hpredicate.symm l' d hl' hd)
    · have hnot : ∀ l, t.obj ≠ .literal l := fun l hl' => hl ⟨l, hl'⟩
      refine hnode hnot fun l' hl' => ?_
      rw [hl'] at hread
      obtain ⟨l, hl'', -⟩ := readTerm_eq_literal.mp hread
      exact hnot l hl''
  cases t
  cases t'
  dsimp only at hgraph hsubject hpredicate hobj
  rw [hgraph, hsubject, hpredicate, hobj]

theorem isomorphic_iff (hfin : quads.Finite) (hplain : ∀ t ∈ quads, PlainTerms t)
    (hfaithful : printed.Faithful values)
    (hquote : ∀ s, s.length < (env.print (.string s)).length)
    (hρ : Set.InjOn ρ {n | ∃ t ∈ quads, Printed flatten t ∧ n ∈ nodeBlanks t}) :
    Isomorphic values quads (readQuad env printed flatten ρ '' {t ∈ quads | Printed flatten t}) ↔
      Expressible printed values flatten quads := by
  constructor
  · intro ⟨ρ', φ, _, hbij, hsame⟩
    have hall : {t ∈ quads | Printed flatten t} = quads :=
      eq_of_injOn_image hfin (fun _ h => h.1) hbij.injOn hbij.mapsTo
    rw [hall] at hbij
    have hprinted {t : TermQuad N} (ht : t ∈ quads) : Printed flatten t := by
      rw [← hall] at ht
      exact ht.2
    have hinj : Set.InjOn (readQuad env printed flatten ρ) quads := by
      refine Set.injOn_of_ncard_image_eq ?_ hfin
      rw [← hbij.image_eq, hbij.injOn.ncard_image]
    refine ⟨fun t ht => ?_, fun t ht => (hprinted ht).type, fun t ht l hl => ?_, ?_⟩
    · cases flatten with
      | false => exact (hprinted ht).graph.resolve_left Bool.false_ne_true
      | true =>
        obtain ⟨t', -, heq⟩ := hbij.mapsTo ht
        have hgraph := (hsame t ht).graph
        have hnode := (hplain t ht).graph
        have hread : (φ t).graph = .iri defaultGraphIri := by
          rw [← heq]
          rfl
        rw [hread] at hgraph
        change t.graph = .iri defaultGraphIri
        cases hterm : t.graph with
        | iri i =>
          rw [hterm] at hgraph
          cases hgraph
          rfl
        | blank n =>
          rw [hterm] at hgraph
          cases hgraph
        | literal | triple =>
          rw [hterm] at hnode
          exact hnode.elim
    · exact kept_of_same hfin hbij.injOn hbij.mapsTo hsame hquote ht hl
    · intro t ht t' ht' hgraph hsubject hpredicate l d hl hd hl'
      obtain ⟨hnative, hback, hne, hne', -⟩ := @printedType_spec N printed env l _ _ hd
      have hobj : readTerm env printed ρ t.obj = readTerm env printed ρ t'.obj := by
        rw [hl, hl']
        exact congrArg RdfTerm.literal (hback.trans (readBack_typed d.2 hne hne').symm)
      have heq : t = t' := by
        refine hinj ht ht' ?_
        rw [readQuad, readQuad, hgraph, hsubject, hpredicate, hobj]
      rw [heq, hl'] at hl
      cases hl
      cases hnative
  · intro h
    have hall : {t ∈ quads | Printed flatten t} = quads :=
      Set.Subset.antisymm (fun _ h => h.1) fun t ht => ⟨ht, h.all_printed ht⟩
    rw [hall]
    refine ⟨ρ, readQuad env printed flatten ρ, ?_, ?_, ?_⟩
    · have hnode {n : Nat} (hn : n ∈ blanksOf quads) :
          ∃ t ∈ quads, Printed flatten t ∧ n ∈ nodeBlanks t := by
        obtain ⟨t, ht, hmem⟩ := hn
        obtain ⟨iri, hgraph, -⟩ := @Expressible.graph N env printed values quads flatten ρ h t ht
        obtain ⟨iri', hpredicate⟩ := (hplain t ht).predicate
        refine ⟨t, ht, h.all_printed ht, ?_⟩
        rw [TermQuad.blanks, hgraph, hpredicate] at hmem
        simpa [RdfTerm.blanks, nodeBlanks] using hmem
      intro n hn n' hn' heq
      exact hρ (hnode hn) (hnode hn') heq
    · exact ⟨fun t ht => ⟨t, ht, rfl⟩, h.injOn hplain hfaithful hρ, Set.Subset.rfl⟩
    · intro t ht
      refine ⟨?_, sameTerm_node (hplain t ht).subject, ?_, ?_⟩
      · obtain ⟨iri, hgraph, hread⟩ :=
          @Expressible.graph N env printed values quads flatten ρ h t ht
        rw [hgraph, hread]
        rfl
      · obtain ⟨iri, hpredicate⟩ := (hplain t ht).predicate
        rw [readQuad, hpredicate]
        rfl
      · have hterm := (hplain t ht).obj
        by_cases hl : ∃ l, t.obj = .literal l
        · obtain ⟨l, hl⟩ := hl
          rw [readQuad, hl]
          exact ⟨_, rfl, (h.literals t ht l hl).same hfaithful⟩
        · exact sameTerm_node (nodeTerm_of_plain hterm fun l hl' => hl ⟨l, hl'⟩)

end Datasets

section Claim

variable {env : ParserEnv} {printed : PrintedValues N} {values : LexicalParsers N}
  {network : NetworkPolicy} {order : GroupOrder} {source : Datastore N} {form : Form}

theorem finite_terms (source : Datastore N) : source.terms.Finite := by
  classical
  have hterms : source.terms ⊆ ⋃ r ∈ source.resolved, {t | source.resources.ResolvesQuad r t} := by
    intro t ⟨r, hr, ht⟩
    exact Set.mem_biUnion (show r ∈ (source.resolved : Set (QuadResource N)) from hr) ht
  refine (Set.Finite.biUnion source.resolved.finite_toSet fun r _ => ?_).subset hterms
  exact Set.Subsingleton.finite fun t ht t' ht' => ht.unique ht'

theorem isomorphic_parsed_iff (hplain : ∀ q ∈ source.namedGraphs, DatasetQuad source q)
    (hfaithful : printed.Faithful values)
    (hquote : ∀ s, s.length < (env.print (.string s)).length)
    (hparse : env.parse (env.print (document printed order source form)) =
      .ok (document printed order source form)) {ds : Datastore N}
    (hds : parseJsonld env network .new (serialize printed order source env form) = .ok ds) :
    Isomorphic values source.terms ds.terms ↔
      Expressible printed values form.flattens source.terms := by
  obtain ⟨ds', hds', hrep⟩ := @parse_serialize N env printed network order source form hplain hparse
  cases hds.symm.trans hds'
  obtain ⟨ρ, hρ, hterms⟩ := terms_eq_image hplain hrep
  rw [hterms]
  exact isomorphic_iff (finite_terms source) (fun t ht => plainTerms_of_mem hplain ht) hfaithful
    hquote hρ

/-- A dataset comes back from each form of a document iff the document can express it. -/
theorem serialize_lossless_iff (hplain : ∀ q ∈ source.namedGraphs, DatasetQuad source q)
    (hfaithful : printed.Faithful values)
    (hquote : ∀ s, s.length < (env.print (.string s)).length)
    (hparse : env.parse (env.print (document printed order source form)) =
      .ok (document printed order source form)) :
    (∃ ds, parseJsonld env network .new (serialize printed order source env form) = .ok ds ∧
        Isomorphic values source.terms ds.terms) ↔
      Expressible printed values form.flattens source.terms := by
  obtain ⟨ds, hds, -⟩ := @parse_serialize N env printed network order source form hplain hparse
  constructor
  · intro ⟨ds', hds', hiso⟩
    exact (isomorphic_parsed_iff hplain hfaithful hquote hparse hds').mp hiso
  · intro hexpressible
    exact ⟨ds, hds, (isomorphic_parsed_iff hplain hfaithful hquote hparse hds).mpr hexpressible⟩

end Claim

section Sample

/-- One document and its text. -/
def sampleJson (text : String) (doc : Value) : ParserEnv where
  print
    | .string s => "\"" ++ s ++ "\""
    | _ => text
  parse read := if read = text then .ok doc else .error "expected value at line 1 column 1"
  alphanumeric := Char.isAlphanum
  ascii _ h := h
  iterate terms := terms.entries.map fun e => (e.1, e.2)
  iterate_perm _ := .refl _

def wholeNumber (text : String) : Option Int :=
  match text.toList with
  | '-' :: digits =>
    if digits.all Char.isDigit then some (-(Nat.ofDigitChars 10 digits 0 : Nat)) else none
  | digits => if digits.all Char.isDigit then some (Nat.ofDigitChars 10 digits 0 : Nat) else none

theorem wholeNumber_toString (n : Int) : wholeNumber (toString n) = some n := by
  have hdigits (m : Nat) : (Nat.toDigits 10 m).all Char.isDigit = true := by
    rw [List.all_eq_true]
    intro c hc
    exact Nat.isDigit_of_mem_toDigits (by decide) (by decide) hc
  cases n with
  | ofNat m =>
    have htext : (toString (Int.ofNat m)).toList = Nat.toDigits 10 m := Nat.toList_repr
    have hvalue := Nat.ofDigitChars_ten_toDigits (n := m)
    have hall := hdigits m
    rw [wholeNumber, htext]
    generalize Nat.toDigits 10 m = digits at *
    split
    · cases hall
    · rw [if_pos hall, hvalue]
      rfl
  | negSucc m =>
    have htext : (toString (Int.negSucc m)).toList = '-' :: Nat.toDigits 10 (m + 1) := by
      change ("-" ++ Nat.repr (m + 1)).toList = _
      rw [String.toList_append, Nat.toList_repr]
      rfl
    rw [wholeNumber, htext]
    change (if (Nat.toDigits 10 (m + 1)).all Char.isDigit = true then
      some (-(Nat.ofDigitChars 10 (Nat.toDigits 10 (m + 1)) 0 : Int)) else none) = _
    rw [if_pos (hdigits (m + 1)), Nat.ofDigitChars_ten_toDigits]
    rfl

def textValues : LexicalParsers NativeTypes.text where
  integer := wholeNumber
  decimal := some
  float := some
  dateTime := some
  date := some
  time := some
  duration := toString

def printedTexts : PrintedValues NativeTypes.text := ⟨id, id, id, id, id, id⟩

def sameOrder : GroupOrder :=
  ⟨id, fun _ => id, fun _ _ => id, fun _ => .refl _, fun _ _ => .refl _, fun _ _ _ => .refl _⟩

theorem printedTexts_faithful : printedTexts.Faithful textValues where
  integer n := wholeNumber_toString n
  decimal _ _ h := (Option.some.inj h).symm
  float _ _ h := (Option.some.inj h).symm
  dateTime _ _ h := (Option.some.inj h).symm
  date _ _ h := (Option.some.inj h).symm
  time _ _ h := (Option.some.inj h).symm

theorem length_sampleJson (text : String) (doc : Value) (s : String) :
    s.length < ((sampleJson text doc).print (.string s)).length := by
  change s.length < ("\"" ++ s ++ "\"").length
  rw [String.length_append, String.length_append]
  have hone : "\"".length = 1 := rfl
  omega

def blankTypeStore : Datastore NativeTypes.text :=
  let (ds, s) := internIri .new "http://example.org/s"
  let (ds, type) := internIri ds rdfType
  let (ds, node) := newAnonymousBlankNode ds
  addToGraph ds none s type node

/-- The type is missing. -/
def blankTypeText : String :=
  "\x7b\"@context\":\x7b\x7d,\"@graph\":[\x7b\"@id\":\"http://example.org/s\"\x7d]\x7d"

def blankTypeJson : ParserEnv :=
  sampleJson blankTypeText (document printedTexts sameOrder blankTypeStore .compacted)

theorem sampleJson_parse (text : String) (doc : Value) (h : doc.asStr = none) :
    (sampleJson text doc).parse ((sampleJson text doc).print doc) = .ok doc := by
  have hprint : (sampleJson text doc).print doc = text := by
    cases doc with
    | string s => cases h
    | _ => rfl
  rw [hprint]
  exact if_pos rfl

theorem blankTypeJson_parse : blankTypeJson.parse (blankTypeJson.print
    (document printedTexts sameOrder blankTypeStore .compacted)) =
      .ok (document printedTexts sameOrder blankTypeStore .compacted) :=
  sampleJson_parse _ _ rfl

theorem blankTypeStore_plain :
    ∀ q ∈ blankTypeStore.namedGraphs, DatasetQuad blankTypeStore q := by
  intro q hq
  rcases (QuadStore.mem_addQuad ..).mp hq with hq | rfl
  · exact absurd hq (QuadStore.not_mem_new q)
  · have hscheme : HasScheme "http://example.org/s" :=
      ⟨'h', "ttp".toList, "//example.org/s".toList, rfl, rfl, by simp⟩
    have htype : HasScheme rdfType :=
      ⟨'h', "ttp".toList, "//www.w3.org/1999/02/22-rdf-syntax-ns#type".toList, rfl, rfl,
        by simp⟩
    have hdefault : HasScheme defaultGraphIri :=
      ⟨'u', "rn".toList, "x-arq:DefaultGraph".toList, rfl, rfl, by simp⟩
    have hiri {i : String} (h : HasScheme i) : Plain (N := .text) (.iri i) := by
      refine ⟨nofun, fun j heq => ?_⟩
      cases heq
      exact h
    exact ⟨⟨⟨_, _, rfl, hiri hscheme, rfl⟩, ⟨_, rfl, htype⟩, ⟨_, rfl, nofun, nofun⟩⟩,
      ⟨_, _, rfl, hiri hdefault, rfl⟩⟩

theorem serialize_lossless_iff_blankType :
    (∃ ds, parseJsonld blankTypeJson .deny .new
        (serialize printedTexts sameOrder blankTypeStore blankTypeJson .compacted) = .ok ds ∧
        Isomorphic textValues blankTypeStore.terms ds.terms) ↔
      Expressible printedTexts textValues false blankTypeStore.terms :=
  serialize_lossless_iff blankTypeStore_plain printedTexts_faithful (length_sampleJson _ _)
    blankTypeJson_parse

/-- A type that is a blank node is not written. -/
theorem serialize_drops_blankType :
    ¬ ∃ ds, parseJsonld blankTypeJson .deny .new
        (serialize printedTexts sameOrder blankTypeStore blankTypeJson .compacted) = .ok ds ∧
        Isomorphic textValues blankTypeStore.terms ds.terms := by
  intro ⟨ds, hds, hiso⟩
  have hexpressible := (isomorphic_parsed_iff blankTypeStore_plain printedTexts_faithful
    (length_sampleJson _ _) blankTypeJson_parse hds).mp hiso
  have hmem : (⟨.iri defaultGraphIri, .iri "http://example.org/s", .iri rdfType, .blank 1⟩ :
      TermQuad NativeTypes.text) ∈ blankTypeStore.terms := by
    refine mem_terms.mpr ⟨⟨defaultGraphElementId, 1, 2, 3⟩, ?_, ?_⟩
    · exact (QuadStore.mem_addQuad ..).mpr (.inr rfl)
    · exact ⟨⟨.iri defaultGraphIri, .iri "http://example.org/s", .iri rdfType,
        .nodeOrEdge (.anonymousBlankNode 1)⟩, rfl, .iri _, .iri _, .iri _, .blank _⟩
  obtain ⟨iri, hiri⟩ := hexpressible.types _ hmem rfl
  cases hiri

end Sample

end RdfDatalog.JsonLd
