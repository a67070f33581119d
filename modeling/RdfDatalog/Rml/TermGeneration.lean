import RdfDatalog.Rml.Engine
import Mathlib.Data.List.TakeWhile

namespace RdfDatalog.Rml

variable {N : NativeTypes}

section Encoding

theorem utf8EncodeChar_ascii {c : Char} (h : c.toNat < 128) :
    String.utf8EncodeChar c = [UInt8.ofNat c.toNat] :=
  if_pos (show c.val.toNat ≤ 0x7f from Nat.le_of_lt_succ h)

theorem le_toNat_of_mem_utf8EncodeChar {c : Char} (h : 128 ≤ c.toNat) {b : UInt8}
    (hb : b ∈ String.utf8EncodeChar c) : 128 ≤ b.toNat := by
  have hc : ¬ c.val.toNat ≤ 0x7f := Nat.not_le.mpr h
  unfold String.utf8EncodeChar at hb
  simp only [hc, if_false] at hb
  split_ifs at hb <;> simp only [List.mem_cons, List.not_mem_nil, or_false] at hb
  all_goals
    rcases hb with rfl | rfl | rfl | rfl <;> simp only [UInt8.toNat_ofNat'] <;> omega

theorem isAlphanum_lt {c : Char} (h : c.isAlphanum = true) : c.toNat < 128 := by
  have hval : c.val.toNat = c.toNat := rfl
  change (decide (c.val ≥ 'A'.val ∧ c.val ≤ 'Z'.val) || decide (c.val ≥ 'a'.val) &&
    decide (c.val ≤ 'z'.val) || decide (c.val ≥ '0'.val) && decide (c.val ≤ '9'.val)) = true at h
  simp only [Bool.or_eq_true, Bool.and_eq_true, decide_eq_true_eq, UInt32.le_iff_toNat_le] at h
  change (_ ∧ c.val.toNat ≤ 90 ∨ _ ∧ c.val.toNat ≤ 122) ∨ _ ∧ c.val.toNat ≤ 57 at h
  omega

/-- The characters that percent-encoding keeps. -/
def IsUnreserved (c : Char) : Prop :=
  c.isAlphanum = true ∨ c = '-' ∨ c = '.' ∨ c = '_' ∨ c = '~'

instance : DecidablePred IsUnreserved := fun c => by unfold IsUnreserved; infer_instance

theorem IsUnreserved.lt {c : Char} (h : IsUnreserved c) : c.toNat < 128 := by
  rcases h with h | rfl | rfl | rfl | rfl
  · exact isAlphanum_lt h
  all_goals decide

theorem isIunreserved_iff (c : Char) : IsIunreserved c ↔ IsUnreserved c ∨ IsUcschar c := by
  unfold IsIunreserved IsUnreserved
  tauto

def percentTriplet (byte : UInt8) : List Char :=
  ['%', hexDigit (byte.toNat / 16), hexDigit (byte.toNat % 16)]

theorem percentEncodeByte_of_le {byte : UInt8} (h : 128 ≤ byte.toNat) :
    percentEncodeByte byte = percentTriplet byte :=
  if_neg fun hlt => absurd hlt.1 (Nat.not_lt.mpr h)

theorem percentEncodeByte_ascii {c : Char} (h : c.toNat < 128) :
    percentEncodeByte (UInt8.ofNat c.toNat) =
      if IsUnreserved c then [c] else percentTriplet (UInt8.ofNat c.toNat) := by
  have hbyte : (UInt8.ofNat c.toNat).toNat = c.toNat := by
    rw [UInt8.toNat_ofNat']
    omega
  unfold percentEncodeByte percentTriplet IsUnreserved hexDigit
  simp only [hbyte, Char.ofNat_toNat, h, true_and]

theorem percentEncode_eq_iriSafe {value : String} (h : ∀ c ∈ value.toList, ¬ IsUcschar c) :
    percentEncode value = iriSafe value := by
  unfold percentEncode iriSafe
  rw [List.flatMap_assoc]
  refine congrArg String.ofList (List.flatMap_congr fun c hc => ?_)
  have hiff : IsIunreserved c ↔ IsUnreserved c := by
    rw [isIunreserved_iff, or_iff_left (h c hc)]
  by_cases hascii : c.toNat < 128
  · rw [utf8EncodeChar_ascii hascii]
    simp only [List.flatMap_cons, List.flatMap_nil, List.append_nil, hiff]
    exact percentEncodeByte_ascii hascii
  · have hwide : ¬ IsUnreserved c := fun hc => hascii hc.lt
    rw [if_neg (hiff.not.mpr hwide)]
    refine List.flatMap_congr fun byte hbyte => ?_
    exact percentEncodeByte_of_le (le_toNat_of_mem_utf8EncodeChar (Nat.not_lt.mp hascii) hbyte)

theorem hexDigit_ne_colon {n : Nat} (h : n < 16) : hexDigit n ≠ ':' := by
  have hall : ∀ k < 16, hexDigit k ≠ ':' := by decide
  exact hall n h

theorem colon_notMem_percentEncode (value : String) : ':' ∉ (percentEncode value).toList := by
  unfold percentEncode
  rw [String.toList_ofList]
  intro hmem
  obtain ⟨byte, -, hbyte⟩ := List.mem_flatMap.mp hmem
  have hlt := byte.toNat_lt
  unfold percentEncodeByte at hbyte
  dsimp only at hbyte
  split_ifs at hbyte with hkept
  · rw [List.mem_singleton] at hbyte
    rw [← hbyte] at hkept
    exact absurd hkept.2 (by decide)
  · simp only [List.mem_cons, List.not_mem_nil, or_false] at hbyte
    rcases hbyte with hbyte | hbyte | hbyte
    · exact absurd hbyte (by decide)
    · exact hexDigit_ne_colon (n := byte.toNat / 16) (by omega) hbyte.symm
    · exact hexDigit_ne_colon (n := byte.toNat % 16) (by omega) hbyte.symm

end Encoding

section Schemes

theorem isSchemeChar_iff (c : Char) :
    isSchemeChar c = true ↔ c.isAlphanum = true ∨ c = '+' ∨ c = '-' ∨ c = '.' := by
  simp [isSchemeChar, or_assoc]

theorem hasSchemeTail_iff (cs : List Char) :
    hasSchemeTail cs = true ↔
      ∃ scheme d rest, cs = scheme ++ ':' :: d :: rest ∧ ∀ c ∈ scheme, isSchemeChar c = true := by
  induction cs with
  | nil => simp [hasSchemeTail]
  | cons c cs ih =>
    rw [hasSchemeTail]
    by_cases hc : c = ':'
    · subst hc
      rw [if_pos rfl]
      constructor
      · intro h
        cases cs with
        | nil => cases h
        | cons d rest => exact ⟨[], d, rest, rfl, nofun⟩
      · intro ⟨scheme, d, rest, heq, hscheme⟩
        cases scheme with
        | nil => cases heq; rfl
        | cons c' scheme =>
          cases heq
          exact absurd (hscheme ':' (.head _)) (by decide)
    · rw [if_neg hc, Bool.and_eq_true, ih]
      constructor
      · intro ⟨hfirst, scheme, d, rest, heq, hscheme⟩
        refine ⟨c :: scheme, d, rest, by rw [heq]; rfl, ?_⟩
        exact List.forall_mem_cons.mpr ⟨hfirst, hscheme⟩
      · intro ⟨scheme, d, rest, heq, hscheme⟩
        cases scheme with
        | nil =>
          cases heq
          exact absurd rfl hc
        | cons c' scheme =>
          cases heq
          obtain ⟨hfirst, hrest⟩ := List.forall_mem_cons.mp hscheme
          exact ⟨hfirst, scheme, d, rest, rfl, hrest⟩

theorem isValidIriScheme_iff (s : String) : isValidIriScheme s = true ↔ IsAbsoluteIri s := by
  unfold isValidIriScheme IsAbsoluteIri
  cases s.toList with
  | nil => simp
  | cons c cs =>
    simp only [Bool.and_eq_true, hasSchemeTail_iff, isSchemeChar_iff]
    constructor
    · intro ⟨hc, scheme, d, rest, heq, hscheme⟩
      exact ⟨c, scheme, d, rest, by rw [heq]; rfl, hc, hscheme⟩
    · intro ⟨c', scheme, d, rest, heq, hc, hscheme⟩
      cases heq
      exact ⟨hc, scheme, d, rest, rfl, hscheme⟩

theorem isValidIriScheme_percentEncode (value : String) :
    isValidIriScheme (percentEncode value) = false := by
  rw [Bool.eq_false_iff, Ne, isValidIriScheme_iff]
  intro ⟨c, cs, d, rest, heq, _⟩
  refine colon_notMem_percentEncode value ?_
  rw [heq]
  simp

end Schemes

section Templates

variable {cs acc pre : List Char} {parts : List TemplatePart} {c : Char}

theorem readsText_cons (hslash : '\\' ≠ c) (hbrace : '\x7b' ≠ c) :
    ReadsText (c :: cs) acc parts ↔ ReadsText cs (acc ++ [c]) parts := by
  constructor
  · intro h
    cases h with
    | escape h => exact absurd rfl hslash
    | openBrace h => exact absurd rfl hbrace
    | char _ _ h => exact h
  · exact .char hslash.symm hbrace.symm

theorem readsReference_cons (hslash : '\\' ≠ c) (hbrace : '\x7d' ≠ c) :
    ReadsReference (c :: cs) acc parts ↔ ReadsReference cs (acc ++ [c]) parts := by
  constructor
  · intro h
    cases h with
    | escape h => exact absurd rfl hslash
    | closeBrace h => exact absurd rfl hbrace
    | char _ _ h => exact h
  · exact .char hslash.symm hbrace.symm

theorem readsText_of_plain (hbrace : '\x7b' ∉ cs) (hslash : '\\' ∉ cs) :
    ReadsText cs acc parts ↔ parts = [.text (acc ++ cs)] := by
  induction cs generalizing acc with
  | nil =>
    rw [List.append_nil]
    constructor
    · intro h
      cases h
      rfl
    · intro h
      rw [h]
      exact .done acc
  | cons c cs ih =>
    simp only [List.mem_cons, not_or] at hbrace hslash
    have hrest := @ih (acc ++ [c]) hbrace.2 hslash.2
    rw [List.append_assoc, List.singleton_append] at hrest
    rw [readsText_cons hslash.1 hbrace.1, hrest]

theorem readsText_append (hbrace : '\x7b' ∉ pre) (hslash : '\\' ∉ pre) :
    ReadsText (pre ++ '\x7b' :: cs) acc parts ↔
      ∃ tail, parts = .text (acc ++ pre) :: tail ∧ ReadsReference cs [] tail := by
  induction pre generalizing acc with
  | nil =>
    rw [List.append_nil, List.nil_append]
    constructor
    · intro h
      cases h with
      | openBrace h => exact ⟨_, rfl, h⟩
      | char _ hne => exact absurd rfl hne
    · intro ⟨tail, hparts, h⟩
      rw [hparts]
      exact .openBrace h
  | cons c pre ih =>
    simp only [List.mem_cons, not_or] at hbrace hslash
    have hrest := @ih (acc ++ [c]) hbrace.2 hslash.2
    rw [List.append_assoc, List.singleton_append] at hrest
    rw [List.cons_append, readsText_cons hslash.1 hbrace.1, hrest]

theorem not_readsReference (hbrace : '\x7d' ∉ cs) (hslash : '\\' ∉ cs) :
    ¬ ReadsReference cs acc parts := by
  induction cs generalizing acc with
  | nil =>
    intro h
    cases h
  | cons c cs ih =>
    simp only [List.mem_cons, not_or] at hbrace hslash
    rw [readsReference_cons hslash.1 hbrace.1]
    exact ih hbrace.2 hslash.2

theorem readsReference_append (hbrace : '\x7d' ∉ pre) (hslash : '\\' ∉ pre) :
    ReadsReference (pre ++ '\x7d' :: cs) acc parts ↔
      ∃ tail, parts = .reference (acc ++ pre) :: tail ∧ ReadsText cs [] tail := by
  induction pre generalizing acc with
  | nil =>
    rw [List.append_nil, List.nil_append]
    constructor
    · intro h
      cases h with
      | closeBrace h => exact ⟨_, rfl, h⟩
      | char _ hne => exact absurd rfl hne
    · intro ⟨tail, hparts, h⟩
      rw [hparts]
      exact .closeBrace h
  | cons c pre ih =>
    simp only [List.mem_cons, not_or] at hbrace hslash
    have hrest := @ih (acc ++ [c]) hbrace.2 hslash.2
    rw [List.append_assoc, List.singleton_append] at hrest
    rw [List.cons_append, readsReference_cons hslash.1 hbrace.1, hrest]

theorem takeWhile_append_of_dropWhile {d c : Char} {l tail : List Char}
    (h : l.dropWhile (· ≠ d) = c :: tail) :
    l = l.takeWhile (· ≠ d) ++ d :: tail ∧ d ∉ l.takeWhile (· ≠ d) := by
  have hsplit := List.takeWhile_append_dropWhile (p := (· ≠ d)) (l := l)
  have hstop : c = d := by
    have hhead := List.head?_dropWhile_not (· ≠ d) l
    rw [h] at hhead
    simpa using hhead
  rw [h, hstop] at hsplit
  refine ⟨hsplit.symm, fun hmem => ?_⟩
  simpa using List.mem_takeWhile_imp hmem

theorem notMem_of_dropWhile {d : Char} {l : List Char} (h : l.dropWhile (· ≠ d) = []) :
    d ∉ l := by
  intro hmem
  simpa using List.dropWhile_eq_nil_iff.mp h d hmem

theorem expandTemplate_plain {template : List Char} (row : SourceRow) (encode : Bool)
    (hopen : template.dropWhile (· ≠ '\x7b') = []) :
    expandTemplate template row encode = some (String.ofList template) := by
  rw [expandTemplate]
  split
  · rfl
  · rename_i heq
    cases hopen.symm.trans heq

theorem expandTemplate_unclosed {template afterOpen : List Char} {c : Char} (row : SourceRow)
    (encode : Bool) (hopen : template.dropWhile (· ≠ '\x7b') = c :: afterOpen)
    (hclose : afterOpen.dropWhile (· ≠ '\x7d') = []) :
      expandTemplate template row encode = none := by
  rw [expandTemplate]
  split
  · rename_i heq
    cases hopen.symm.trans heq
  · rename_i heq
    cases hopen.symm.trans heq
    split
    · rfl
    · rename_i heq
      cases hclose.symm.trans heq

theorem expandTemplate_step {template afterOpen rest : List Char} {c d : Char} {row : SourceRow}
    {encode : Bool} {value : String} (hopen : template.dropWhile (· ≠ '\x7b') = c :: afterOpen)
    (hclose : afterOpen.dropWhile (· ≠ '\x7d') = d :: rest) :
    expandTemplate template row encode = some value ↔
      ∃ v, row (String.ofList (afterOpen.takeWhile (· ≠ '\x7d'))) = some v ∧
        ∃ tail, expandTemplate rest row encode = some tail ∧
          value = String.ofList (template.takeWhile (· ≠ '\x7b')) ++
            (if encode then percentEncode v else v) ++ tail := by
  rw [expandTemplate]
  split
  · rename_i heq
    cases hopen.symm.trans heq
  · rename_i heq
    cases hopen.symm.trans heq
    split
    · rename_i heq
      cases hclose.symm.trans heq
    · rename_i heq
      cases hclose.symm.trans heq
      simp only [Option.bind_eq_bind, Option.bind_eq_some_iff, Option.pure_def, Option.some.injEq]
      refine exists_congr fun v => and_congr_right fun _ => exists_congr fun tail => ?_
      exact and_congr_right fun _ => eq_comm

theorem expandTemplate_iff {template : List Char} {row : SourceRow} {termType : TermType}
    {encode : Bool} {value : String} (hencode : encode = decide (termType = .iri))
    (hslash : '\\' ∉ template)
    (hsafe : encode = true → ∀ parts values, ReadsText template [] parts →
      List.Forall₂ (PartValue termType row) parts values → ∀ name, .reference name ∈ parts →
        ∀ v, row (String.ofList name) = some v → ∀ c ∈ v.toList, ¬ IsUcschar c) :
    expandTemplate template row encode = some value ↔
      ∃ parts values, ReadsText template [] parts ∧
        List.Forall₂ (PartValue termType row) parts values ∧ value = String.join values := by
  induction template using expandTemplate.induct generalizing value with
  | case1 template hopen =>
    have hparts (parts : List TemplatePart) :
        ReadsText template [] parts ↔ parts = [.text template] :=
      readsText_of_plain (notMem_of_dropWhile hopen) hslash
    rw [expandTemplate_plain row encode hopen, Option.some.injEq]
    constructor
    · intro h
      refine ⟨[.text template], [String.ofList template], (hparts _).mpr rfl, ?_, ?_⟩
      · exact .cons rfl .nil
      · rw [← h]
        simp [String.join]
    · rintro ⟨parts, values, hreads, hvalues, hvalue⟩
      rw [(hparts parts).mp hreads] at hvalues
      obtain ⟨v, _, hv, hnil, rfl⟩ := List.forall₂_cons_left_iff.mp hvalues
      cases hnil
      rw [hvalue, hv]
      simp [String.join]
  | case2 template c afterOpen hopen hclose =>
    obtain ⟨hsplit, hprefix⟩ := takeWhile_append_of_dropWhile hopen
    have hslash' : '\\' ∉ template.takeWhile (· ≠ '\x7b') ++ '\x7b' :: afterOpen := hsplit ▸ hslash
    simp only [List.mem_append, List.mem_cons, not_or] at hslash'
    rw [expandTemplate_unclosed row encode hopen hclose]
    simp only [reduceCtorEq, false_iff]
    rintro ⟨parts, values, hreads, _⟩
    rw [hsplit, readsText_append hprefix hslash'.1] at hreads
    obtain ⟨tail, -, htail⟩ := hreads
    exact not_readsReference (notMem_of_dropWhile hclose) hslash'.2.2 htail
  | case3 template c afterOpen hopen d rest hclose ih =>
    obtain ⟨hsplit, hprefix⟩ := takeWhile_append_of_dropWhile hopen
    obtain ⟨hsplit', hname⟩ := takeWhile_append_of_dropWhile hclose
    have hslash' : '\\' ∉ template.takeWhile (· ≠ '\x7b') ++ '\x7b' :: afterOpen := hsplit ▸ hslash
    simp only [List.mem_append, List.mem_cons, not_or] at hslash'
    have hslash'' : '\\' ∉ afterOpen.takeWhile (· ≠ '\x7d') ++ '\x7d' :: rest :=
      hsplit' ▸ hslash'.2.2
    simp only [List.mem_append, List.mem_cons, not_or] at hslash''
    have hreference (parts : List TemplatePart) : ReadsReference afterOpen [] parts ↔ ∃ tail,
        parts = .reference (afterOpen.takeWhile (· ≠ '\x7d')) :: tail ∧
          ReadsText rest [] tail := by
      have h := @readsReference_append rest [] _ parts hname hslash''.1
      rwa [← hsplit', List.nil_append] at h
    have hreads (parts : List TemplatePart) : ReadsText template [] parts ↔ ∃ tail,
        parts = .text (template.takeWhile (· ≠ '\x7b')) ::
          .reference (afterOpen.takeWhile (· ≠ '\x7d')) :: tail ∧ ReadsText rest [] tail := by
      have htext := @readsText_append afterOpen [] _ parts hprefix hslash'.1
      rw [← hsplit, List.nil_append] at htext
      rw [htext]
      constructor
      · rintro ⟨tail, hparts, htail⟩
        rw [hreference] at htail
        obtain ⟨tail', rfl, htail'⟩ := htail
        exact ⟨tail', hparts, htail'⟩
      · rintro ⟨tail, hparts, htail⟩
        exact ⟨_, hparts, (hreference _).mpr ⟨tail, rfl, htail⟩⟩
    let name := afterOpen.takeWhile (· ≠ '\x7d')
    have hvalue {v : String} (hv : row (String.ofList name) = some v) {parts : List TemplatePart}
        {values : List String} (hvalues : List.Forall₂ (PartValue termType row) parts values) :
        List.Forall₂ (PartValue termType row)
          (.text (template.takeWhile (· ≠ '\x7b')) :: .reference name :: parts)
          (String.ofList (template.takeWhile (· ≠ '\x7b')) ::
            (if termType = .iri then iriSafe v else v) :: values) :=
      .cons rfl (.cons ⟨v, hv, rfl⟩ hvalues)
    have hrest {v : String} (hv : row (String.ofList name) = some v) (value : String) :=
      @ih value hslash''.2.2 fun he parts values hparts hvalues n hmem =>
        hsafe he _ _ ((hreads _).mpr ⟨parts, rfl, hparts⟩) (hvalue hv hvalues) n
          (.tail _ (.tail _ hmem))
    rw [expandTemplate_step hopen hclose]
    have hencoded {v : String} (hv : row (String.ofList name) = some v)
        {parts : List TemplatePart} (hparts : ReadsText rest [] parts) {values : List String}
        (hvalues : List.Forall₂ (PartValue termType row) parts values) :
        (if encode then percentEncode v else v) = if termType = .iri then iriSafe v else v := by
      by_cases htype : termType = .iri
      · have he : encode = true := by rw [hencode, decide_eq_true htype]
        rw [if_pos he, if_pos htype]
        exact percentEncode_eq_iriSafe (hsafe he _ _ ((hreads _).mpr ⟨parts, rfl, hparts⟩)
          (hvalue hv hvalues) _ (.tail _ (.head _)) v hv)
      · have he : ¬ encode = true := by rw [hencode, decide_eq_true_eq]; exact htype
        rw [if_neg he, if_neg htype]
    constructor
    · rintro ⟨v, hv, tail, htail, heq⟩
      obtain ⟨parts, values, hparts, hvalues, hjoin⟩ := (hrest hv tail).mp htail
      refine ⟨_, _, (hreads _).mpr ⟨parts, rfl, hparts⟩, hvalue hv hvalues, ?_⟩
      rw [heq, hencoded hv hparts hvalues, hjoin, String.join_cons, String.join_cons,
        String.append_assoc]
    · rintro ⟨parts, values, hparts, hvalues, heq⟩
      obtain ⟨tail, rfl, htail⟩ := (hreads parts).mp hparts
      obtain ⟨text, values, htext, hvalues', rfl⟩ := List.forall₂_cons_left_iff.mp hvalues
      obtain ⟨_, values, ⟨v, hv, rfl⟩, hvalues'', rfl⟩ := List.forall₂_cons_left_iff.mp hvalues'
      refine ⟨v, hv, String.join values, (hrest hv _).mpr ⟨tail, values, htail, hvalues'', rfl⟩, ?_⟩
      rw [heq, hencoded hv htail hvalues'', htext, String.join_cons, String.join_cons,
        String.append_assoc]

end Templates

section Terms

def termOfLexical (termType : TermType) (language : Option String)
    (datatype : Option IriReference) (lexical : String) : Option (RmlTerm N) :=
  match termType with
  | .iri => if isValidIriScheme lexical then some (.iri lexical) else none
  | .blankNode => some (.blank lexical)
  | .literal => some (.literal (
      match language, datatype with
      | some lang, _ => .langLiteral lang lexical
      | none, some dt => .typedLiteral dt lexical
      | none, none => .literalString lexical))

/-- The term that the engine interns for a row. -/
def GenerationLogic.term? (logic : GenerationLogic N) (row : SourceRow) : Option (RmlTerm N) :=
  match logic with
  | .constant (.nodeOrEdge (.iri i)) => some (.iri i)
  | .constant (.graphLiteral l) => some (.literal l)
  | .dynamic ff => (ff.lexical row).bind (termOfLexical ff.termType ff.language ff.datatype)
  | _ => none

theorem termOfLexical_iff {termType : TermType} {language : Option String}
    {datatype : Option IriReference} {lexical : String} {t : RmlTerm N} :
    termOfLexical termType language datatype lexical = some t ↔
      HasLexical language datatype lexical termType t := by
  constructor
  · intro h
    cases termType with
    | iri =>
      rw [termOfLexical] at h
      split_ifs at h with hscheme
      cases h
      exact .iri ((isValidIriScheme_iff lexical).mp hscheme)
    | blankNode =>
      cases h
      exact .blankNode
    | literal =>
      cases language with
      | some lang =>
        cases h
        exact .langLiteral lang rfl
      | none =>
        cases datatype with
        | some dt =>
          cases h
          exact .typedLiteral dt rfl rfl
        | none =>
          cases h
          exact .plainLiteral rfl rfl
  · intro h
    cases h with
    | iri h => exact if_pos ((isValidIriScheme_iff lexical).mpr h)
    | blankNode => rfl
    | langLiteral lang h =>
      subst h
      rfl
    | typedLiteral dt h h' | plainLiteral h h' =>
      subst h h'
      rfl

end Terms

section TermMaps

def TermMap.Valid : TermMap N → Prop
  | .constant (.nodeOrEdge (.iri _)) => True
  | .constant (.graphLiteral _) => True
  | .constant _ => False
  | .template _ => True
  | .reference _ => True
  | .functionCall _ _ => False

/-- The engine generates from this row what RML prescribes: a template has no escapes, as an IRI it
is absolute when it has no references, and when the row has all of its values they have nothing
beyond ASCII that an IRI may hold; a reference that has to be an IRI has no absolute one as its
value. -/
def TermMap.SupportedAt (termType : TermType) (row : SourceRow) : TermMap N → Prop
  | .template t => '\\' ∉ t.toList ∧ (termType = .iri →
      ('\x7b' ∉ t.toList → IsAbsoluteIri t) ∧
      ∀ parts values, Reads t parts → List.Forall₂ (PartValue termType row) parts values →
        ∀ name, .reference name ∈ parts →
          ∀ v, row (String.ofList name) = some v → ∀ c ∈ v.toList, ¬ IsUcschar c)
  | .reference name => termType = .iri → ∀ v, row name = some v → ¬ IsAbsoluteIri v
  | .constant _ | .functionCall _ _ => True

def TermMap.logic (termType : TermType) (language : Option String)
    (datatype : Option IriReference) : TermMap N → GenerationLogic N
  | .constant elem => .constant elem
  | .template t => .dynamic ⟨.template t, termType, language, datatype⟩
  | .reference r => .dynamic ⟨.reference r, termType, language, datatype⟩
  | .functionCall _ _ => .dynamic ⟨.reference "", termType, language, datatype⟩

theorem termMapToLogic_eq {termMap : TermMap N} (h : termMap.Valid) (termType : TermType)
    (om : Option (ObjectMap N)) :
    termMapToLogic termMap termType om =
      .ok (termMap.logic termType (om.bind (·.language)) (om.bind (·.datatype))) := by
  cases termMap with
  | functionCall _ _ => cases h
  | _ => rfl

variable {termType : TermType} {language : Option String} {datatype : Option IriReference}
  {row : SourceRow} {t : RmlTerm N}

theorem lexical_template_iff {template value : String} (hslash : '\\' ∉ template.toList)
    (hsafe : termType = .iri → ∀ parts values, Reads template parts →
      List.Forall₂ (PartValue termType row) parts values → ∀ name, .reference name ∈ parts →
        ∀ v, row (String.ofList name) = some v → ∀ c ∈ v.toList, ¬ IsUcschar c) :
    (FormatFunction.mk (.template template) termType language datatype).lexical row = some value ↔
      Expands template termType row value :=
  expandTemplate_iff rfl hslash fun h => hsafe (of_decide_eq_true h)

theorem expands_of_plain {template value : String} (hslash : '\\' ∉ template.toList)
    (hbrace : '\x7b' ∉ template.toList) :
    Expands template termType row value ↔ value = template := by
  constructor
  · intro ⟨parts, values, hreads, hvalues, hvalue⟩
    rw [(readsText_of_plain hbrace hslash).mp hreads] at hvalues
    obtain ⟨v, _, hv, hnil, rfl⟩ := List.forall₂_cons_left_iff.mp hvalues
    cases hnil
    rw [hvalue, hv]
    simp [String.join]
  · intro h
    refine ⟨_, [template], (readsText_of_plain hbrace hslash).mpr rfl, .cons ?_ .nil, ?_⟩
    · simp [PartValue]
    · rw [h]
      simp [String.join]

theorem term?_foldLogic_iff {termMap : TermMap N} (hvalid : termMap.Valid)
    (h : termMap.SupportedAt termType row) :
    (foldLogic (termMap.logic termType language datatype)).term? row = some t ↔
      termMap.Generates termType language datatype row t := by
  cases termMap with
  | constant elem =>
    change (GenerationLogic.constant elem).term? row = some t ↔ _
    match elem, hvalid with
    | .nodeOrEdge (.iri i), _ =>
      constructor
      · intro ht
        cases ht
        exact .constantIri i
      · intro ht
        cases ht
        rfl
    | .graphLiteral l, _ =>
      constructor
      · intro ht
        cases ht
        exact .constantLiteral l
      · intro ht
        cases ht
        rfl
  | template template =>
    obtain ⟨hslash, hiri⟩ := h
    have hgenerates : (TermMap.template template : TermMap N).Generates termType language datatype
        row t ↔ ∃ value, Expands template termType row value ∧
          HasLexical language datatype value termType t := by
      constructor
      · intro hgen
        cases hgen with
        | template hexpands hlexical => exact ⟨_, hexpands, hlexical⟩
      · intro ⟨value, hexpands, hlexical⟩
        exact .template hexpands hlexical
    rw [hgenerates]
    by_cases hfold : '\x7b' ∉ template.toList ∧ termType = .iri
    · obtain ⟨hbrace, rfl⟩ := hfold
      have hlogic : foldLogic ((TermMap.template template : TermMap N).logic .iri language
          datatype) = .constant (.iri template) := by
        simp [TermMap.logic, foldLogic, hbrace]
      rw [hlogic]
      simp only [expands_of_plain hslash hbrace, exists_eq_left]
      constructor
      · intro ht
        cases ht
        exact .iri ((hiri rfl).1 hbrace)
      · intro ht
        cases ht
        rfl
    · have hlogic : foldLogic ((TermMap.template template : TermMap N).logic termType language
          datatype) = .dynamic ⟨.template template, termType, language, datatype⟩ := by
        simp only [TermMap.logic, foldLogic]
        split_ifs with hbrace htype
        · rfl
        · exact absurd ⟨hbrace, htype⟩ hfold
        · rfl
      rw [hlogic, GenerationLogic.term?, Option.bind_eq_some_iff]
      simp only [lexical_template_iff hslash fun ht => (hiri ht).2, termOfLexical_iff]
  | reference name =>
    have hgenerates : (TermMap.reference name : TermMap N).Generates termType language datatype
        row t ↔ ∃ value, row name = some value ∧
          HasLexical language datatype value termType t := by
      constructor
      · intro hgen
        cases hgen with
        | reference hvalue hlexical => exact ⟨_, hvalue, hlexical⟩
      · intro ⟨value, hvalue, hlexical⟩
        exact .reference hvalue hlexical
    rw [hgenerates, TermMap.logic, foldLogic, GenerationLogic.term?, Option.bind_eq_some_iff]
    simp only [FormatFunction.lexical, Option.map_eq_some_iff, termOfLexical_iff]
    by_cases htype : termType = .iri
    · subst htype
      -- a value that is encoded is no IRI, and neither is the value itself
      constructor
      · intro ⟨value, ⟨v, _, hvalue⟩, hlexical⟩
        cases hlexical with
        | iri habsolute =>
          rw [← hvalue, if_pos rfl, ← isValidIriScheme_iff,
            isValidIriScheme_percentEncode] at habsolute
          cases habsolute
      · intro ⟨value, hvalue, hlexical⟩
        cases hlexical with
        | iri habsolute => exact absurd habsolute (h rfl value hvalue)
    · simp only [htype, if_false, exists_eq_right]
  | functionCall _ _ => cases hvalid

end TermMaps

end RdfDatalog.Rml
