import RdfDatalog.Rml.TermGeneration

namespace RdfDatalog.Rml

section Decoding

def hexValue (c : Char) : Nat := if c.isDigit then c.toNat - 48 else c.toNat - 55

/-- The bytes of a percent-encoded text. -/
def percentDecode : List Char → List UInt8
  | '%' :: hi :: lo :: rest => UInt8.ofNat (hexValue hi * 16 + hexValue lo) :: percentDecode rest
  | c :: rest => UInt8.ofNat c.toNat :: percentDecode rest
  | [] => []

theorem hexValue_hexDigit {n : Nat} (h : n < 16) : hexValue (hexDigit n) = n := by
  have hall : ∀ k < 16, hexValue (hexDigit k) = k := by decide
  exact hall n h

theorem percentDecode_append (byte : UInt8) (rest : List Char) :
    percentDecode (percentEncodeByte byte ++ rest) = byte :: percentDecode rest := by
  have hbyte := byte.toNat_lt
  unfold percentEncodeByte
  dsimp only
  split_ifs with hkept
  · have hne : Char.ofNat byte.toNat ≠ '%' := by
      intro h
      rw [h] at hkept
      exact absurd hkept.2 (by decide)
    have hascii : ∀ n < 128, (Char.ofNat n).toNat = n := by decide
    rw [List.singleton_append, percentDecode, hascii _ hkept.1, UInt8.ofNat_toNat]
    intro _ _ _ h
    exact absurd h hne
  · have hhi : hexValue _ = byte.toNat / 16 := hexValue_hexDigit (by omega)
    have hlo : hexValue _ = byte.toNat % 16 := hexValue_hexDigit (by omega)
    have hnat : byte.toNat / 16 * 16 + byte.toNat % 16 = byte.toNat := by omega
    change UInt8.ofNat (hexValue (hexDigit _) * 16 + hexValue (hexDigit _)) :: _ = _
    rw [hhi, hlo, hnat, UInt8.ofNat_toNat]
    rfl

/-- Decoding gives back the bytes of the value. -/
theorem percentDecode_percentEncode (value : String) :
    String.fromUTF8? (percentDecode (percentEncode value).toList).toByteArray = some value := by
  have hbytes (bytes : List UInt8) : percentDecode (bytes.flatMap percentEncodeByte) = bytes := by
    induction bytes with
    | nil => rfl
    | cons byte bytes ih => rw [List.flatMap_cons, percentDecode_append, ih]
  rw [percentEncode, String.toList_ofList, hbytes]
  have hutf8 : (value.toList.flatMap String.utf8EncodeChar).toByteArray = value.toByteArray :=
    String.utf8Encode_toList
  rw [hutf8]
  exact dif_pos value.isValidUTF8

theorem percentEncode_injective : Function.Injective percentEncode := by
  intro v w h
  have hv := percentDecode_percentEncode v
  rw [h, percentDecode_percentEncode w] at hv
  exact (Option.some.inj hv).symm

def isEncoded (c : Char) : Bool := IsUnreserved c ∨ c = '%'

theorem isEncoded_percentEncode (value : String) : ∀ c ∈ (percentEncode value).toList,
    isEncoded c := by
  unfold percentEncode
  rw [String.toList_ofList]
  intro c hmem
  obtain ⟨byte, -, hbyte⟩ := List.mem_flatMap.mp hmem
  have hlt := byte.toNat_lt
  have hdigit : ∀ k < 16, isEncoded (hexDigit k) := by decide
  unfold percentEncodeByte at hbyte
  dsimp only at hbyte
  split_ifs at hbyte with hkept
  · rw [List.mem_singleton.mp hbyte]
    exact decide_eq_true (Or.inl hkept.2)
  · simp only [List.mem_cons, List.not_mem_nil, or_false] at hbyte
    rcases hbyte with rfl | rfl | rfl
    · decide
    · exact hdigit (byte.toNat / 16) (by omega)
    · exact hdigit (byte.toNat % 16) (by omega)

end Decoding

section Rows

/-- The placeholders of a template: the literal text before each one, and its key. -/
def placeholders (template : List Char) : List (List Char × String) :=
  match _hopen : template.dropWhile (· ≠ '\x7b') with
  | [] => []
  | _ :: afterOpen =>
    match _hclose : afterOpen.dropWhile (· ≠ '\x7d') with
    | [] => []
    | _ :: rest => (template.takeWhile (· ≠ '\x7b'),
        String.ofList (afterOpen.takeWhile (· ≠ '\x7d'))) :: placeholders rest
termination_by template.length
decreasing_by exact length_tail_dropWhile_lt _hopen _hclose

theorem placeholders_plain {template : List Char} (hopen : template.dropWhile (· ≠ '\x7b') = []) :
    placeholders template = [] := by
  rw [placeholders]
  split
  · rfl
  · rename_i heq
    cases hopen.symm.trans heq

theorem placeholders_step {template afterOpen rest : List Char} {c d : Char}
    (hopen : template.dropWhile (· ≠ '\x7b') = c :: afterOpen)
    (hclose : afterOpen.dropWhile (· ≠ '\x7d') = d :: rest) :
    placeholders template = (template.takeWhile (· ≠ '\x7b'),
      String.ofList (afterOpen.takeWhile (· ≠ '\x7d'))) :: placeholders rest := by
  rw [placeholders]
  split
  · rename_i heq
    cases hopen.symm.trans heq
  · rename_i heq
    cases hopen.symm.trans heq
    split
    · rename_i heq
      cases hclose.symm.trans heq
    · rename_i heq
      cases hclose.symm.trans heq
      rfl

/-- Between two placeholders stands a character that no encoded value contains. -/
def Separated (template : List Char) : Prop :=
  ∀ p ∈ (placeholders template).tail, ∃ c ∈ p.1, isEncoded c = false

/-- Encoded texts before the same separator are the same. -/
theorem eq_of_separated {a a' l m m' : List Char} (ha : ∀ c ∈ a, isEncoded c)
    (ha' : ∀ c ∈ a', isEncoded c) (hl : ∃ c ∈ l, isEncoded c = false)
    (h : a ++ (l ++ m) = a' ++ (l ++ m')) : a = a' := by
  obtain ⟨c, hc, hbad⟩ := hl
  have hprefix (m : List Char) : (l ++ m).takeWhile isEncoded = l.takeWhile isEncoded := by
    refine List.takeWhile_append.trans (if_neg fun hlen => ?_)
    have hall := List.takeWhile_eq_self_iff.mp ((List.takeWhile_prefix _).eq_of_length hlen)
    exact absurd (hall c hc) (by simp [hbad])
  have htake := congrArg (List.takeWhile isEncoded) h
  rw [List.takeWhile_append_of_pos ha, List.takeWhile_append_of_pos ha', hprefix, hprefix] at htake
  exact List.append_cancel_right htake

/-- What follows a placeholder starts with the literal text of the template. -/
theorem expandTemplate_literal {template : List Char} {row : SourceRow} {encode : Bool}
    {value : String} (h : expandTemplate template row encode = some value) :
    (placeholders template = [] ∧ value = String.ofList template) ∨
      ∃ p ps more, placeholders template = p :: ps ∧ value.toList = p.1 ++ more := by
  cases hopen : template.dropWhile (· ≠ '\x7b') with
  | nil =>
    rw [expandTemplate_plain row encode hopen] at h
    cases h
    exact .inl ⟨placeholders_plain hopen, rfl⟩
  | cons c afterOpen =>
    cases hclose : afterOpen.dropWhile (· ≠ '\x7d') with
    | nil =>
      rw [expandTemplate_unclosed row encode hopen hclose] at h
      cases h
    | cons d rest =>
      obtain ⟨v, -, tail, -, rfl⟩ := (expandTemplate_step hopen hclose).mp h
      refine .inr ⟨_, _, ((if encode then percentEncode v else v) ++ tail).toList,
        placeholders_step hopen hclose, ?_⟩
      rw [String.append_assoc, String.toList_append, String.toList_ofList]

variable {row row' : SourceRow} {value : String}

theorem expandTemplate_columns {template : List Char} (hsep : Separated template)
    (h : expandTemplate template row true = some value)
    (h' : expandTemplate template row' true = some value) :
    ∀ p ∈ placeholders template, row p.2 = row' p.2 := by
  induction template using expandTemplate.induct generalizing value with
  | case1 template hopen =>
    intro p hp
    rw [placeholders_plain hopen] at hp
    cases hp
  | case2 template c afterOpen hopen hclose =>
    rw [expandTemplate_unclosed row true hopen hclose] at h
    cases h
  | case3 template c afterOpen hopen d rest hclose ih =>
    obtain ⟨v, hv, tail, htail, hvalue⟩ := (expandTemplate_step hopen hclose).mp h
    obtain ⟨v', hv', tail', htail', hvalue'⟩ := (expandTemplate_step hopen hclose).mp h'
    have hstep := placeholders_step hopen hclose
    have hlists := congrArg String.toList (hvalue.symm.trans hvalue')
    simp only [if_true, String.toList_append, List.append_assoc] at hlists
    have hrest := List.append_cancel_left hlists
    have hsep' : ∀ p ∈ placeholders rest, ∃ c ∈ p.1, isEncoded c = false := by
      rw [Separated, hstep] at hsep
      exact hsep
    -- the encoded values end where the next literal text, or the template, does
    have hencoded : (percentEncode v).toList = (percentEncode v').toList := by
      rcases expandTemplate_literal htail with ⟨hnone, htext⟩ | ⟨q, qs, more, hsome, htext⟩
      · rcases expandTemplate_literal htail' with ⟨-, htext'⟩ | ⟨_, _, _, hsome, -⟩
        · rw [htext, htext'] at hrest
          exact List.append_cancel_right hrest
        · rw [hnone] at hsome
          cases hsome
      · rcases expandTemplate_literal htail' with ⟨hnone, -⟩ | ⟨_, _, _, hsome', htext'⟩
        · rw [hnone] at hsome
          cases hsome
        · cases hsome.symm.trans hsome'
          rw [htext, htext'] at hrest
          exact eq_of_separated (isEncoded_percentEncode v) (isEncoded_percentEncode v')
            (hsep' q (by rw [hsome]; exact .head _)) hrest
    have hsame : v = v' := percentEncode_injective (String.toList_injective hencoded)
    rw [hencoded] at hrest
    have htails : tail = tail' := String.toList_injective (List.append_cancel_left hrest)
    intro p hp
    rw [hstep] at hp
    rcases List.mem_cons.mp hp with rfl | hp
    · rw [hv, hv', hsame]
    · exact ih (fun q hq => hsep' q (List.mem_of_mem_tail hq)) htail (htails ▸ htail') p hp

/-- Rows that a template with separated placeholders maps to one text agree in its columns, and
each value can be read back from its encoding. -/
theorem expandTemplate_identifies :
    (∀ (template : List Char) (row row' : SourceRow) (value : String), Separated template →
      expandTemplate template row true = some value →
      expandTemplate template row' true = some value →
      ∀ p ∈ placeholders template, row p.2 = row' p.2) ∧
    ∀ value : String, String.fromUTF8?
      (percentDecode (percentEncode value).toList).toByteArray = some value :=
  ⟨fun _ _ _ _ => expandTemplate_columns, percentDecode_percentEncode⟩

def pairTemplate : List Char := ['x', ':', '\x7b', 'a', '\x7d', '/', '\x7b', 'b', '\x7d']

theorem expandTemplate_identifies_pair : ∀ p ∈ placeholders pairTemplate,
    (fun _ => some "1" : SourceRow) p.2 =
      (fun key => if key = "c" then none else some "1" : SourceRow) p.2 := by
  have hexpand (row : SourceRow) (ha : row (String.ofList ['a']) = some "1")
      (hb : row (String.ofList ['b']) = some "1") :
      expandTemplate pairTemplate row true = some "x:1/1" := by
    have hnil : expandTemplate [] row true = some "" := expandTemplate_plain row true rfl
    have hlast : expandTemplate ['/', '\x7b', 'b', '\x7d'] row true = some "/1" := by
      apply (expandTemplate_step rfl rfl).mpr
      exact ⟨"1", hb, "", hnil, rfl⟩
    apply (expandTemplate_step rfl rfl).mpr
    exact ⟨"1", ha, "/1", hlast, rfl⟩
  refine expandTemplate_identifies.1 _ (fun _ => some "1")
    (fun key => if key = "c" then none else some "1") "x:1/1" ?_ (hexpand _ ?_ ?_) (hexpand _ ?_ ?_)
  · have hfirst : placeholders pairTemplate = _ := placeholders_step rfl rfl
    have hlast : placeholders ['/', '\x7b', 'b', '\x7d'] = _ := placeholders_step rfl rfl
    have hnil : placeholders [] = [] := placeholders_plain rfl
    rw [Separated, hfirst, hlast, hnil]
    simp [isEncoded, IsUnreserved]
  all_goals rfl

end Rows

end RdfDatalog.Rml
