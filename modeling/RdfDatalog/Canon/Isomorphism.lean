import Mathlib.Order.CompletePartialOrder
import RdfDatalog.Canon.CanonicalForm

namespace RdfDatalog.Canon

open LabelledSets

variable {N : NativeTypes} {env : OxrdfEnv N}

theorem blankLabel_injective : Function.Injective blankLabel := by
  intro i j h
  exact toString_injective (String.append_right_inj _ |>.mp h)

theorem graphBlankLabel_injective : Function.Injective graphBlankLabel := by
  intro i j h
  exact toString_injective (String.append_right_inj _ |>.mp h)

theorem blankLabel_ne_graphBlankLabel (i j : Nat) : blankLabel i ≠ graphBlankLabel j := by
  intro h
  have hchars : Nat.toDigits 10 i = 'g' :: Nat.toDigits 10 j := by
    have hlist := congrArg String.toList h
    simp only [blankLabel, graphBlankLabel, String.toList_append] at hlist
    rw [← Nat.toList_repr, ← Nat.toList_repr]
    exact List.cons.inj hlist |>.2
  have hg : 'g' ∈ Nat.toDigits 10 i := by
    rw [hchars]
    exact List.mem_cons_self
  have hdigit : 'g'.isDigit = true := Nat.isDigit_of_mem_toDigits (by decide) (by decide) hg
  exact absurd hdigit (by decide)

/-- The labels of nodes and of graph names. -/
def label : Nat ⊕ Nat → String := Sum.elim blankLabel graphBlankLabel

theorem label_injective : Function.Injective label :=
  blankLabel_injective.sumElim graphBlankLabel_injective blankLabel_ne_graphBlankLabel

/-- A dataset with its graph names taken apart from its nodes. -/
def split (D : Set (Statement Nat)) : Set (Statement (Nat ⊕ Nat)) :=
  Statement.mapPositions Sum.inl Sum.inr '' D

theorem image_label_split (D : Set (Statement Nat)) :
    Labelled.map label '' split D = Statement.mapPositions blankLabel graphBlankLabel '' D := by
  rw [split, Set.image_image]
  exact Set.image_congr fun q _ => Statement.mapPositions_mapPositions _ _ _ _ q

/-- The datasets of the library, up to its own blank nodes. -/
def oxStatements (D : Finset OxQuad) : Set (Statement String) := OxQuad.toStatement '' D

/-- A correct canonicalisation: equal results are those of isomorphic datasets. -/
structure Canonicalizes (canonicalize : Finset OxQuad → Except String String) : Prop where
  eq_iff : ∀ D D' s s', canonicalize D = .ok s → canonicalize D' = .ok s' →
    (s = s' ↔ Isomorphic (oxStatements D) (oxStatements D'))

section Canonical

variable {canonicalize : Finset OxQuad → Except String String} {A B : Datastore N}
  {s s' : String}

theorem canonicalizeDataset_eq_ok (h : canonicalizeDataset env canonicalize A = some (.ok s)) :
    ∃ D, canonicalize D = .ok s ∧
      oxStatements D = Labelled.map label '' split (rdf11 (literalToOxrdf env) A) := by
  rw [canonicalizeDataset] at h
  obtain ⟨D, hD, hok⟩ := Option.map_eq_some_iff.mp h
  refine ⟨D, hok, ?_⟩
  rw [oxStatements, datastoreToOxrdfDataset_spec hD, image_label_split]

/-- Canonical forms tell apart what is kept of the datasets, with graph names and nodes as
different blank nodes. -/
theorem canonicalizeDataset_eq_iff_split (hcanon : Canonicalizes canonicalize)
    (hA : canonicalizeDataset env canonicalize A = some (.ok s))
    (hB : canonicalizeDataset env canonicalize B = some (.ok s')) :
    s = s' ↔ Isomorphic (split (rdf11 (literalToOxrdf env) A))
      (split (rdf11 (literalToOxrdf env) B)) := by
  obtain ⟨D, hD, hDA⟩ := canonicalizeDataset_eq_ok hA
  obtain ⟨D', hD', hDB⟩ := canonicalizeDataset_eq_ok hB
  rw [hcanon.eq_iff D D' s s' hD hD', hDA, hDB,
    isomorphic_image_iff label_injective label_injective]

end Canonical

section Apart

variable {D : Set (Statement Nat)}

/-- No blank node is both a graph name and a node. -/
def LabelsApart (D : Set (Statement Nat)) : Prop :=
  ∀ q ∈ D, ∀ q' ∈ D, Disjoint q.graphLabels q'.nodeLabels

theorem isomorphic_split (h : LabelsApart D) : Isomorphic D (split D) := by
  classical
  let side (n : Nat) : Nat ⊕ Nat := if ∃ q ∈ D, n ∈ q.graphLabels then .inr n else .inl n
  refine ⟨side, ?_, ?_⟩
  · refine Function.Injective.injOn fun i j hij => ?_
    simp only [side] at hij
    split at hij <;> split at hij <;> cases hij <;> rfl
  · refine Set.image_congr fun q hq => ?_
    rw [Statement.map_eq]
    apply Statement.mapPositions_congr
    · intro n hn
      refine if_neg fun ⟨q', hq', hn'⟩ => ?_
      exact Set.disjoint_left.mp (h q' hq' q hq) hn' hn
    · intro n hn
      exact if_pos ⟨q, hq, hn⟩

end Apart

section Literals

variable (env)

def languageOf : RdfLiteral N → Option String
  | .langLiteral lang _ => env.parseLanguageTag lang
  | _ => none

/-- A tag that is not well formed leaves a simple literal. -/
def datatypeOf : RdfLiteral N → IriReference
  | .literalString _ => xsdString
  | .langLiteral lang _ => if (env.parseLanguageTag lang).isSome then rdfLangString else xsdString
  | .typedLiteral typeIri _ => typeIri
  | .booleanLiteral _ => xsdBoolean
  | .integerLiteral _ => xsdInteger
  | .decimalLiteral _ => xsdDecimal
  | .floatLiteral _ => xsdFloat
  | .doubleLiteral _ => xsdDouble
  | .dateTimeLiteral _ => xsdDateTime
  | .dateLiteral _ => xsdDate
  | .timeLiteral _ => xsdTime
  | .durationLiteral _ => xsdDuration

/-- The lexical form, that of a duration with its fraction of a second. -/
def lexicalForm : RdfLiteral N → String
  | .literalString s | .langLiteral _ s | .typedLiteral _ s => s
  | .booleanLiteral b => toString b
  | .integerLiteral i => toString i
  | .decimalLiteral d => N.decimalText d
  | .floatLiteral f | .doubleLiteral f => N.floatText f
  | .dateTimeLiteral dt => dateTimeFormat (env.civil dt)
  | .dateLiteral d => N.dateText d
  | .timeLiteral t => N.timeText t
  | .durationLiteral dur =>
    durationText (env.numSeconds dur < 0 || env.subsecNanos dur < 0) (env.numSeconds dur).natAbs
      (String.ofList (fractionDigits (env.subsecNanos dur).natAbs))

/-- The literal of RDF that a stored one stands for. -/
def denotes (l : RdfLiteral N) : OxLiteral :=
  ⟨lexicalForm env l, languageOf env l, datatypeOf env l⟩

def WholeSeconds (store : Datastore N) : Prop :=
  ∀ t ∈ store.terms, ∀ dur, t.obj = .literal (.durationLiteral dur) → env.subsecNanos dur = 0

variable {env}

theorem literalToOxrdf_eq_denotes {l : RdfLiteral N}
    (h : ∀ dur, l = .durationLiteral dur → env.subsecNanos dur = 0) :
    literalToOxrdf env l = denotes env l := by
  cases l with
  | langLiteral lang literal =>
    simp only [literalToOxrdf, newLanguageTaggedLiteral, denotes, lexicalForm, languageOf,
      datatypeOf]
    cases env.parseLanguageTag lang <;> rfl
  | booleanLiteral b => cases b <;> rfl
  | durationLiteral dur =>
    have hzero : env.subsecNanos dur = 0 := h dur rfl
    simp [literalToOxrdf, denotes, lexicalForm, languageOf, datatypeOf, newTypedLiteral, hzero,
      fractionDigits]
  | _ => rfl

end Literals

section TellingApart

open Numerals

theorem splitSign_padded (w n : Nat) (r : List Char) :
    splitSign (padded w n ++ r) = (false, padded w n ++ r) := by
  have hne : padded w n ≠ [] := List.append_ne_nil_of_right_ne_nil _ Nat.toDigits_ne_nil
  obtain ⟨d, ds, hd⟩ := List.exists_cons_of_ne_nil hne
  have hdigit : d.isDigit := isDigit_padded d (by rw [hd]; exact List.mem_cons_self)
  rw [hd, List.cons_append]
  unfold splitSign
  split
  · next heq => rw [(List.cons.inj heq).1] at hdigit; exact absurd hdigit (by decide)
  · next heq => rw [(List.cons.inj heq).1] at hdigit; exact absurd hdigit (by decide)
  · rfl

theorem splitSign_yearDigits (y : Int) (r : List Char) :
    splitSign (yearDigits y ++ r) = (decide (y < 0), padded 4 y.natAbs ++ r) := by
  rw [yearDigits]
  by_cases hplain : 0 ≤ y ∧ y ≤ 9999
  · rw [if_pos hplain, splitSign_padded, decide_eq_false (by omega)]
  · rw [if_neg hplain, List.cons_append]
    by_cases hneg : y < 0
    · rw [if_pos hneg, splitSign, decide_eq_true hneg]
    · rw [if_neg hneg, splitSign, decide_eq_false hneg]

theorem padded_append_inj {w n n' : Nat} {c c' : Char} {r r' : List Char} (hc : ¬ c.isDigit)
    (hc' : ¬ c'.isDigit) (h : padded w n ++ c :: r = padded w n' ++ c' :: r') :
    n = n' ∧ c = c' ∧ r = r' := by
  obtain ⟨hn, hrest⟩ := digits_append_inj isDigit_padded isDigit_padded hc hc' h
  exact ⟨padded_inj hn, hrest⟩

theorem yearDigits_append_inj {y y' : Int} {r r' : List Char}
    (h : yearDigits y ++ '-' :: r = yearDigits y' ++ '-' :: r') : y = y' ∧ r = r' := by
  have hsplit := congrArg splitSign h
  rw [splitSign_yearDigits, splitSign_yearDigits, Prod.mk.injEq, decide_eq_decide] at hsplit
  obtain ⟨hsign, hrest⟩ := hsplit
  obtain ⟨habs, -, hr⟩ := padded_append_inj (by decide) (by decide) hrest
  exact ⟨by omega, hr⟩

/-- A fraction of a second, by its number of digits. -/
theorem fractionDigits_cases {n : Nat} (h : n < 1000000000) :
    (n = 0 ∧ fractionDigits n = []) ∨
      ∃ w scale m, n = m * 10 ^ scale ∧ w + scale = 9 ∧ (padded w m).length = w ∧
        fractionDigits n = '.' :: padded w m := by
  unfold fractionDigits
  split
  · next hzero => exact .inl ⟨hzero, rfl⟩
  · right
    split
    · exact ⟨3, 6, n / 1000000, by omega, rfl, length_padded (by omega) (by omega), rfl⟩
    · split
      · exact ⟨6, 3, n / 1000, by omega, rfl, length_padded (by omega) (by omega), rfl⟩
      · exact ⟨9, 0, n, by omega, rfl, length_padded (by omega) (by omega), rfl⟩

theorem fractionDigits_append_eq_cons (n : Nat) (r : List Char) :
    ∃ c t, ¬ c.isDigit ∧ fractionDigits n ++ 'Z' :: r = c :: t := by
  unfold fractionDigits
  split_ifs
  · exact ⟨'Z', r, by decide, rfl⟩
  all_goals exact ⟨'.', _, by decide, rfl⟩

theorem fractionDigits_append_inj {n n' : Nat} {r r' : List Char} (hn : n < 1000000000)
    (hn' : n' < 1000000000) (h : fractionDigits n ++ 'Z' :: r = fractionDigits n' ++ 'Z' :: r') :
    n = n' := by
  rcases fractionDigits_cases hn with ⟨hzero, ht⟩ | ⟨w, scale, m, hm, hw, hlen, ht⟩ <;>
    rcases fractionDigits_cases hn' with ⟨hzero', ht'⟩ | ⟨w', scale', m', hm', hw', hlen', ht'⟩ <;>
    rw [ht, ht'] at h
  · rw [hzero, hzero']
  · cases h
  · cases h
  · obtain ⟨hdigits, -, -⟩ := digits_append_inj isDigit_padded isDigit_padded (by decide)
      (by decide) (List.cons.inj h).2
    have hscale : scale = scale' := by
      have hwidth : w = w' := by rw [← hlen, hdigits, hlen']
      omega
    rw [hm, hm', padded_inj hdigits, hscale]

theorem dateTimeFormat_injective : Function.Injective dateTimeFormat := by
  intro dt dt' h
  have hlist := congrArg String.toList h
  simp only [dateTimeFormat, String.toList_ofList] at hlist
  obtain ⟨hyear, h⟩ := yearDigits_append_inj hlist
  obtain ⟨hmonth, -, h⟩ := padded_append_inj (by decide) (by decide) h
  obtain ⟨hday, -, h⟩ := padded_append_inj (by decide) (by decide) h
  obtain ⟨hhour, -, h⟩ := padded_append_inj (by decide) (by decide) h
  obtain ⟨hminute, -, h⟩ := padded_append_inj (by decide) (by decide) h
  obtain ⟨c, t, hc, ht⟩ := fractionDigits_append_eq_cons dt.nano []
  obtain ⟨c', t', hc', ht'⟩ := fractionDigits_append_eq_cons dt'.nano []
  rw [ht, ht'] at h
  obtain ⟨hsecond, hhead, htail⟩ := padded_append_inj hc hc' h
  have hfraction : fractionDigits dt.nano ++ ['Z'] = fractionDigits dt'.nano ++ ['Z'] := by
    rw [ht, ht', hhead, htail]
  have hnano : dt.nano.val = dt'.nano.val :=
    fractionDigits_append_inj dt.nano.isLt dt'.nano.isLt hfraction
  cases dt
  cases dt'
  rw [CivilTime.mk.injEq]
  exact ⟨hyear, hmonth, hday, hhour, hminute, hsecond, Fin.ext hnano⟩

theorem toList_durationText (negative : Bool) (n : Nat) :
    (durationText negative n "").toList = (if negative then ['-'] else []) ++ 'P' ::
      (Nat.toDigits 10 (n / 86400) ++ 'D' :: 'T' :: (Nat.toDigits 10 (n % 86400 / 3600) ++ 'H' ::
        (Nat.toDigits 10 (n % 3600 / 60) ++ 'M' :: (Nat.toDigits 10 (n % 60) ++ ['S'])))) := by
  have htext (k : Nat) : (toString k).toList = Nat.toDigits 10 k := Nat.toList_repr
  cases negative <;>
    simp only [durationText, String.toList_append, htext, List.append_assoc] <;> rfl

theorem toDigits_append_inj {n n' : Nat} {c : Char} {r r' : List Char} (hc : ¬ c.isDigit)
    (h : Nat.toDigits 10 n ++ c :: r = Nat.toDigits 10 n' ++ c :: r') : n = n' ∧ r = r' := by
  obtain ⟨hn, -, hr⟩ := digits_append_inj (isDigit_toDigits n) (isDigit_toDigits n') hc hc h
  exact ⟨by rw [← digitsValue_toDigits n, hn, digitsValue_toDigits], hr⟩

theorem durationText_inj {negative negative' : Bool} {n n' : Nat}
    (h : durationText negative n "" = durationText negative' n' "") :
    negative = negative' ∧ n = n' := by
  have hlist := congrArg String.toList h
  rw [toList_durationText, toList_durationText] at hlist
  have hsign : negative = negative' := by
    cases negative <;> cases negative' <;> first | rfl | cases hlist
  subst hsign
  have hunsigned := (List.cons.inj (List.append_cancel_left hlist)).2
  obtain ⟨hdays, h⟩ := toDigits_append_inj (by decide) hunsigned
  obtain ⟨hhours, h⟩ := toDigits_append_inj (by decide) (List.cons.inj h).2
  obtain ⟨hminutes, h⟩ := toDigits_append_inj (by decide) h
  obtain ⟨hsecs, -⟩ := toDigits_append_inj (by decide) h
  exact ⟨rfl, by omega⟩

/-- What two literals have in common that denote the same. -/
structure Alike (env : OxrdfEnv N) (l l' : RdfLiteral N) : Prop where
  language : languageOf env l = languageOf env l'
  datatype : datatypeOf env l = datatypeOf env l'
  dateTime : ∀ dt dt', l = .dateTimeLiteral dt → l' = .dateTimeLiteral dt' →
    env.civil dt = env.civil dt'
  time : ∀ t t', l = .timeLiteral t → l' = .timeLiteral t' → t = t'
  duration : ∀ dur dur', l = .durationLiteral dur → l' = .durationLiteral dur' →
    env.subsecNanos dur = 0 → env.subsecNanos dur' = 0 → env.numSeconds dur = env.numSeconds dur'

theorem alike_of_denotes (htime : Function.Injective N.timeText) {l l' : RdfLiteral N}
    (h : denotes env l = denotes env l') : Alike env l l' := by
  rw [denotes, denotes, OxLiteral.mk.injEq] at h
  obtain ⟨hform, hlanguage, hdatatype⟩ := h
  refine ⟨hlanguage, hdatatype, ?_, ?_, ?_⟩
  · rintro dt dt' rfl rfl
    exact dateTimeFormat_injective hform
  · rintro t t' rfl rfl
    exact htime hform
  · rintro dur dur' rfl rfl hdur hdur'
    rw [lexicalForm, lexicalForm, hdur, hdur'] at hform
    obtain ⟨hsign, habs⟩ := durationText_inj hform
    have hneg : env.numSeconds dur < 0 ↔ env.numSeconds dur' < 0 := by simpa using hsign
    omega

end TellingApart

section Meaning

variable {f g : RdfLiteral N → OxLiteral}

theorem meaning_of_isResource {t : RdfTerm N} (h : (meaning f t).isResource = true) :
    meaning g t = meaning f t := by
  cases t with
  | iri i => rfl
  | blank n => rfl
  | literal l => cases h
  | triple s p o => cases h

theorem meaning_of_isIri {t : RdfTerm N} (h : (meaning f t).isIri = true) :
    meaning g t = meaning f t := by
  cases t with
  | iri i => rfl
  | blank | literal | triple => cases h

theorem statement_congr {t : TermQuad N} (h : (statement f t).IsRdf11)
    (hobj : ∀ l, t.obj = .literal l → g l = f l) : statement g t = statement f t := by
  have hgraph : (statement g t).graph = (statement f t).graph := by
    have hshape := h.graph
    simp only [statement] at hshape ⊢
    split
    · rfl
    · next hne =>
      rw [if_neg hne] at hshape
      exact congrArg some (meaning_of_isResource (hshape _ rfl))
  have hmeaning : meaning g t.obj = meaning f t.obj := by
    have hshape : (meaning f t.obj).isTriple = false := h.obj
    cases ht : t.obj with
    | iri i => rfl
    | blank n => rfl
    | literal l => exact congrArg Node.literal (hobj l ht)
    | triple s p o =>
      rw [ht] at hshape
      cases hshape
  rw [Statement.mk.injEq]
  exact ⟨hgraph, meaning_of_isResource h.subject, meaning_of_isIri h.predicate, hmeaning⟩

theorem rdf11_subset {store : Datastore N}
    (h : ∀ t ∈ store.terms, ∀ l, t.obj = .literal l → g l = f l) :
    rdf11 f store ⊆ rdf11 g store := by
  intro q ⟨⟨t, ht, hq⟩, hshape⟩
  subst hq
  have heq : statement g t = statement f t := statement_congr hshape (h t ht)
  exact ⟨⟨t, ht, heq⟩, hshape⟩

theorem rdf11_eq_of_wholeSeconds {store : Datastore N} (h : WholeSeconds env store) :
    rdf11 (literalToOxrdf env) store = rdf11 (denotes env) store := by
  have hobj : ∀ t ∈ store.terms, ∀ l, t.obj = .literal l →
      literalToOxrdf env l = denotes env l := by
    intro t ht l hl
    refine literalToOxrdf_eq_denotes fun dur hdur => h t ht dur ?_
    rw [hl, hdur]
  exact Set.Subset.antisymm (rdf11_subset fun t ht l hl => (hobj t ht l hl).symm)
    (rdf11_subset hobj)

end Meaning

/-- Where no blank node is both a graph name and a node and no duration has a fraction of a second,
canonical forms tell apart the RDF 1.1 parts of datasets, exactly; literals of another language,
datatype or point in time are other literals. -/
theorem canonicalizeDataset_eq_iff (htime : Function.Injective N.timeText)
    {canonicalize : Finset OxQuad → Except String String}
    {A B : Datastore N} {s s' : String} (hcanon : Canonicalizes canonicalize)
    (hA : canonicalizeDataset env canonicalize A = some (.ok s))
    (hB : canonicalizeDataset env canonicalize B = some (.ok s'))
    (hapartA : LabelsApart (rdf11 (denotes env) A)) (hapartB : LabelsApart (rdf11 (denotes env) B))
    (hwholeA : WholeSeconds env A) (hwholeB : WholeSeconds env B) :
    (s = s' ↔ Isomorphic (rdf11 (denotes env) A) (rdf11 (denotes env) B)) ∧
      ∀ l l' : RdfLiteral N, denotes env l = denotes env l' → Alike env l l' := by
  refine ⟨?_, fun l l' => alike_of_denotes htime⟩
  rw [canonicalizeDataset_eq_iff_split hcanon hA hB, rdf11_eq_of_wholeSeconds hwholeA,
    rdf11_eq_of_wholeSeconds hwholeB]
  have hsplitA := isomorphic_split hapartA
  have hsplitB := isomorphic_split hapartB
  constructor
  · exact fun h => (hsplitA.trans h).trans hsplitB.symm
  · exact fun h => (hsplitA.symm.trans h).trans hsplitB

section Samples

def halfSecond : OxLiteral := ⟨"1970-01-01T00:00:00.500Z", none, xsdDateTime⟩

/-- A quad with a blank node as its subject and nothing else that varies. -/
def OxQuad.isSample (q : OxQuad) : Bool :=
  match q.subject with
  | .blankNode _ => q.predicate = "p" && q.obj = .literal halfSecond && q.graphName = .defaultGraph
  | .namedNode _ => false

/-- A library that gives up on all but the smallest datasets. -/
def canonicalizeSmall (D : Finset OxQuad) : Except String String :=
  if D = ∅ then .ok ""
  else if D.card = 1 ∧ ∀ q ∈ D, q.isSample = true then
    .ok "_:c14n0 <p> \"1970-01-01T00:00:00.500Z\" .\n"
  else .error "unsupported"

theorem canonicalizeSmall_eq_ok {D : Finset OxQuad} {s : String}
    (h : canonicalizeSmall D = .ok s) :
    (oxStatements D = ∅ ∧ s = "") ∨
      (s = "_:c14n0 <p> \"1970-01-01T00:00:00.500Z\" .\n" ∧
        ∃ b, oxStatements D = {⟨none, .blank b, .iri "p", .literal halfSecond⟩}) := by
  unfold canonicalizeSmall at h
  split at h
  · next hD =>
    cases h
    subst hD
    left
    simp [oxStatements]
  · split at h
    · next hD =>
      cases h
      right
      refine ⟨rfl, ?_⟩
      obtain ⟨q, hq⟩ := Finset.card_eq_one.mp hD.1
      have hsample : q.isSample = true := hD.2 q (by rw [hq]; exact Finset.mem_singleton_self q)
      obtain ⟨subject, predicate, obj, graphName⟩ := q
      cases subject with
      | namedNode i => cases hsample
      | blankNode b =>
        simp only [OxQuad.isSample, Bool.and_eq_true, decide_eq_true_eq] at hsample
        obtain ⟨⟨rfl, rfl⟩, rfl⟩ := hsample
        refine ⟨b, ?_⟩
        rw [oxStatements, hq, Finset.coe_singleton, Set.image_singleton]
        rfl
    · cases h

theorem canonicalizeSmall_canonicalizes : Canonicalizes canonicalizeSmall := by
  constructor
  intro D D' s s' h h'
  rcases canonicalizeSmall_eq_ok h with ⟨hD, hs⟩ | ⟨hs, b, hD⟩ <;>
    rcases canonicalizeSmall_eq_ok h' with ⟨hD', hs'⟩ | ⟨hs', b', hD'⟩ <;> rw [hs, hs', hD, hD']
  · exact iff_of_true rfl (Isomorphic.refl _)
  · refine iff_of_false (by decide) fun hiso => ?_
    exact Set.not_nonempty_empty (hiso.nonempty_iff.mp (Set.singleton_nonempty _))
  · refine iff_of_false (by decide) fun hiso => ?_
    exact Set.not_nonempty_empty (hiso.nonempty_iff.mpr (Set.singleton_nonempty _))
  · refine iff_of_true rfl ⟨fun _ => b', ?_, ?_⟩
    · have hlabels : labelsOf
          ({⟨none, .blank b, .iri "p", .literal halfSecond⟩} : Set (Statement String)) ⊆ {b} := by
        intro x ⟨q, hq, hx⟩
        rw [Set.mem_singleton_iff.mp hq, Statement.labels_eq] at hx
        simpa [Statement.graphLabels, Statement.nodeLabels, Node.labels] using hx
      exact (Set.injOn_singleton _ b).mono hlabels
    · rw [Set.image_singleton]
      rfl

def storeWith (r : QuadResource NativeTypes.text) : Datastore NativeTypes.text :=
  let (store, graph) := Datastore.new.addResource r.graph
  let (store, subject) := store.addResource r.subject
  let (store, predicate) := store.addResource r.predicate
  let (store, obj) := store.addResource r.obj
  store.addQuad ⟨graph, subject, predicate, obj⟩

/-- One point in time, durations without a value, and any tag is well formed. -/
def OxrdfEnv.plain : OxrdfEnv NativeTypes.text where
  civil _ := ⟨1970, 1, 1, 0, 0, 0, 500000000⟩
  numSeconds _ := 0
  subsecNanos _ := 0
  parseLanguageTag := some

def blankSubject (n : Nat) : QuadResource NativeTypes.text :=
  ⟨.iri defaultGraphIri, .nodeOrEdge (.anonymousBlankNode n), .iri "p",
    .graphLiteral (.dateTimeLiteral "now")⟩

/-- A quad about a statement: its object is a triple term. -/
def tripleTermObject : QuadResource NativeTypes.text :=
  ⟨.iri defaultGraphIri, .iri "s", .iri "p", .tripleTerm ⟨1, 2, 1⟩⟩

theorem terms_of_resolved {store : Datastore N} {r : QuadResource N} {t : TermQuad N}
    (hr : store.resolved = {r}) (ht : store.resources.ResolvesQuad r t) : store.terms = {t} := by
  ext t'
  constructor
  · intro ⟨r', hr', ht'⟩
    rw [hr, Finset.mem_singleton] at hr'
    subst hr'
    exact ht'.unique ht
  · intro h
    rw [Set.mem_singleton_iff.mp h]
    exact ⟨r, by rw [hr]; exact Finset.mem_singleton_self r, ht⟩

theorem terms_blankSubject {n : Nat}
    (h : (storeWith (blankSubject n)).resolved = {blankSubject n}) :
    (storeWith (blankSubject n)).terms =
      {⟨.iri defaultGraphIri, .blank n, .iri "p", .literal (.dateTimeLiteral "now")⟩} :=
  terms_of_resolved h ⟨.iri _, .blank n, .iri _, .literal _⟩

theorem labelsApart_blankSubject {n : Nat}
    (h : (storeWith (blankSubject n)).resolved = {blankSubject n}) :
    LabelsApart (rdf11 (denotes OxrdfEnv.plain) (storeWith (blankSubject n))) := by
  intro q ⟨⟨t, ht, hq⟩, _⟩ q' _
  rw [terms_blankSubject h, Set.mem_singleton_iff] at ht
  subst hq ht
  exact Set.empty_disjoint _

theorem wholeSeconds_blankSubject (n : Nat) :
    WholeSeconds OxrdfEnv.plain (storeWith (blankSubject n)) := fun _ _ _ _ => rfl

theorem canonicalizeDataset_eq_iff_blankSubjects :
    Isomorphic (rdf11 (denotes OxrdfEnv.plain) (storeWith (blankSubject 1)))
      (rdf11 (denotes OxrdfEnv.plain) (storeWith (blankSubject 2))) ∧
    denotes OxrdfEnv.plain (.langLiteral "en" "chat") ≠
      denotes OxrdfEnv.plain (.langLiteral "fr" "chat") := by
  have hone : (storeWith (blankSubject 1)).resolved = {blankSubject 1} := by decide
  have htwo : (storeWith (blankSubject 2)).resolved = {blankSubject 2} := by decide
  have hA : canonicalizeDataset OxrdfEnv.plain canonicalizeSmall (storeWith (blankSubject 1)) =
      some (.ok "_:c14n0 <p> \"1970-01-01T00:00:00.500Z\" .\n") := rfl
  have hB : canonicalizeDataset OxrdfEnv.plain canonicalizeSmall (storeWith (blankSubject 2)) =
      some (.ok "_:c14n0 <p> \"1970-01-01T00:00:00.500Z\" .\n") := rfl
  obtain ⟨hiff, halike⟩ := canonicalizeDataset_eq_iff Function.injective_id
    canonicalizeSmall_canonicalizes hA hB
    (labelsApart_blankSubject hone) (labelsApart_blankSubject htwo)
    (wholeSeconds_blankSubject 1) (wholeSeconds_blankSubject 2)
  refine ⟨hiff.mp rfl, fun heq => ?_⟩
  exact absurd (halike _ _ heq).language (by decide)

/-- A quad with a triple term is not in the canonical form. -/
theorem canonicalizeDataset_skips_tripleTerm :
    Canonicalizes canonicalizeSmall ∧
    canonicalizeDataset OxrdfEnv.plain canonicalizeSmall (storeWith tripleTermObject) =
      some (.ok "") ∧
    canonicalizeDataset OxrdfEnv.plain canonicalizeSmall Datastore.new = some (.ok "") ∧
    ¬ Isomorphic (statements (denotes OxrdfEnv.plain) (storeWith tripleTermObject))
      (statements (denotes OxrdfEnv.plain) Datastore.new) := by
  refine ⟨canonicalizeSmall_canonicalizes, rfl, rfl, fun h => ?_⟩
  have hresolved : (storeWith tripleTermObject).resolved = {tripleTermObject} := by decide
  have hterms : (storeWith tripleTermObject).terms =
      {⟨.iri defaultGraphIri, .iri "s", .iri "p", .triple (.iri "s") (.iri "p") (.iri "s")⟩} :=
    terms_of_resolved hresolved ⟨.iri _, .iri _, .iri _,
      .tripleTerm rfl rfl rfl (.iri "s") (.iri "p") (.iri "s")⟩
  have hnonempty : (statements (denotes OxrdfEnv.plain) (storeWith tripleTermObject)).Nonempty := by
    rw [statements, hterms]
    exact (Set.singleton_nonempty _).image _
  obtain ⟨_, t, ⟨r, hr, _⟩, _⟩ := h.nonempty_iff.mpr hnonempty
  have hnew : (Datastore.new : Datastore NativeTypes.text).resolved = ∅ := rfl
  rw [hnew] at hr
  cases hr

end Samples

end RdfDatalog.Canon
