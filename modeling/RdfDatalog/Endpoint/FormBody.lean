import RdfDatalog.Endpoint.Auth

namespace RdfDatalog.Endpoint

section Source

def hexDigit? (c : Char) : Option Nat :=
  if '0' ≤ c ∧ c ≤ '9' then some (c.toNat - 48)
  else if 'a' ≤ c ∧ c ≤ 'f' then some (c.toNat - 87)
  else if 'A' ≤ c ∧ c ≤ 'F' then some (c.toNat - 55)
  else none

/-- `u8::from_str_radix` on two characters. The first one may be a sign. -/
def hexByte? (h1 h2 : Char) : Option Nat :=
  if h1 = '+' then hexDigit? h2
  else do
    let hi ← hexDigit? h1
    let lo ← hexDigit? h2
    return hi * 16 + lo

/-- An escape that is no number is left out. -/
def pushByte (h1 h2 : Char) (out : List Char) : List Char :=
  match hexByte? h1 h2 with
  | some byte => Char.ofNat byte :: out
  | none => out

def urlencodingDecode : List Char → List Char
  | [] => []
  | c :: rest =>
    if c = '%' then
      match rest with
      | [] => pushByte '0' '0' []
      | [h1] => pushByte h1 '0' []
      | h1 :: h2 :: rest => pushByte h1 h2 (urlencodingDecode rest)
    else c :: urlencodingDecode rest

theorem urlencodingDecode_cons {c : Char} (h : c ≠ '%') (rest : List Char) :
    urlencodingDecode (c :: rest) = c :: urlencodingDecode rest := by
  rw [urlencodingDecode.eq_def]
  simp only [if_neg h]

def plusToSpace (text : List Char) : List Char := text.map fun c => if c = '+' then ' ' else c

def formField (key : String) (body : List Char) : Option (List Char) :=
  (body.splitOn '&').findSome? fun part =>
    (HttpRequest.splitOnce part).bind fun field =>
      if field.1 = key.toList then some (plusToSpace field.2) else none

/-- What a request to the query endpoint hands on for parsing. -/
inductive PostedText where
  | query (text : List Char)
  | update (text : List Char)
  deriving DecidableEq

def sparqlPostForm (body : List Char) : Except String PostedText :=
  match formField "update" body with
  | some value => .ok (.update (urlencodingDecode value))
  | none =>
    match formField "query" body with
    | some value => .ok (.query (urlencodingDecode value))
    | none => .error "Missing 'query' in form body"

/-- The text of a request to the query endpoint, or the message it is refused with. -/
def sparqlPostText (req : HttpRequest) : Except String PostedText :=
  if req.contentTypeContains "application/sparql-update" then
    match String.fromUTF8? req.body with
    | some s => .ok (.update s.toList)
    | none => .error "Invalid UTF-8 in update body"
  else if req.contentTypeContains "application/sparql-query" then
    match String.fromUTF8? req.body with
    | some s => .ok (.query s.toList)
    | none => .error "Invalid UTF-8 in query body"
  else if req.contentTypeContains "application/x-www-form-urlencoded" then
    match String.fromUTF8? req.body with
    | some s => sparqlPostForm s.toList
    | none => .error "Invalid UTF-8 in body"
  else .error "Unsupported Content-Type"

end Source

section Encoding

/-- The two digits stand for the byte. -/
def IsEscape (b : UInt8) (h1 h2 : Char) : Prop :=
  ∃ hi lo, hexDigit? h1 = some hi ∧ hexDigit? h2 = some lo ∧ b.toNat = hi * 16 + lo

inductive EscapedBytes : List UInt8 → List Char → Prop
  | nil : EscapedBytes [] []
  | cons {b : UInt8} {bs : List UInt8} {h1 h2 : Char} {escapes : List Char}
    (h : IsEscape b h1 h2) (rest : EscapedBytes bs escapes) :
    EscapedBytes (b :: bs) ('%' :: h1 :: h2 :: escapes)

/-- A form encoding of a text. Which of the other ASCII characters are escaped is left open, and
so is the case of the digits. -/
inductive FormEncoded : List Char → List Char → Prop
  | nil : FormEncoded [] []
  | plain {c : Char} {q e : List Char} (hascii : c.toNat < 128) (hc : c ∉ ['%', '&', '+', ' '])
    (rest : FormEncoded q e) : FormEncoded (c :: q) (c :: e)
  | space {q e : List Char} (rest : FormEncoded q e) : FormEncoded (' ' :: q) ('+' :: e)
  | escaped {c : Char} {q e escapes : List Char}
    (h : EscapedBytes (String.utf8EncodeChar c) escapes) (rest : FormEncoded q e) :
    FormEncoded (c :: q) (escapes ++ e)

theorem ne_of_hexDigit {c : Char} {n : Nat} (h : hexDigit? c = some n) : c ≠ '+' ∧ c ≠ '&' := by
  constructor
  · rintro rfl
    cases h
  · rintro rfl
    cases h

theorem hexByte_of_isEscape {b : UInt8} {h1 h2 : Char} (h : IsEscape b h1 h2) :
    hexByte? h1 h2 = some b.toNat := by
  obtain ⟨hi, lo, hhi, hlo, hb⟩ := h
  rw [hexByte?, if_neg (ne_of_hexDigit hhi).1, hhi, hlo, hb]
  rfl

def byteChar (b : UInt8) : Char := Char.ofNat b.toNat

theorem urlencodingDecode_escaped {bs : List UInt8} {escapes : List Char}
    (h : EscapedBytes bs escapes) (rest : List Char) :
    urlencodingDecode (plusToSpace escapes ++ rest) =
      bs.map byteChar ++ urlencodingDecode rest := by
  induction h with
  | nil => rfl
  | @cons b bs h1 h2 escapes h _ ih =>
    have hbyte := hexByte_of_isEscape h
    obtain ⟨hi, lo, hhi, hlo, -⟩ := h
    have hdecode : urlencodingDecode (plusToSpace ('%' :: h1 :: h2 :: escapes) ++ rest) =
        pushByte h1 h2 (urlencodingDecode (plusToSpace escapes ++ rest)) := by
      simp [plusToSpace, urlencodingDecode, ne_of_hexDigit hhi, ne_of_hexDigit hlo]
    rw [hdecode, pushByte, hbyte, ih]
    rfl

theorem utf8EncodeChar_of_lt {c : Char} (h : c.toNat < 128) :
    (String.utf8EncodeChar c).map byteChar = [c] := by
  have hencode : String.utf8EncodeChar c = [UInt8.ofNat c.toNat] :=
    if_pos (show c.val.toNat ≤ 0x7f from Nat.le_of_lt_succ h)
  have hbyte : (UInt8.ofNat c.toNat).toNat = c.toNat := by
    rw [UInt8.toNat_ofNat']
    omega
  rw [hencode, List.map_cons, List.map_nil, byteChar, hbyte, Char.ofNat_toNat]

/-- The text of the bytes of another one, each byte taken for a character. -/
def bytewise (q : List Char) : List Char :=
  q.flatMap fun c => (String.utf8EncodeChar c).map byteChar

theorem urlencodingDecode_formEncoded {q e : List Char} (h : FormEncoded q e) :
    urlencodingDecode (plusToSpace e) = bytewise q := by
  induction h with
  | nil => rfl
  | @plain c q e hascii hc _ ih =>
    simp only [List.mem_cons, not_or] at hc
    have hkept : plusToSpace (c :: e) = c :: plusToSpace e := by
      simp [plusToSpace, hc]
    rw [hkept, urlencodingDecode_cons hc.1, ih, bytewise, bytewise, List.flatMap_cons,
      utf8EncodeChar_of_lt hascii, List.singleton_append]
  | @space q e _ ih =>
    have hspace : plusToSpace ('+' :: e) = ' ' :: plusToSpace e := rfl
    rw [hspace, urlencodingDecode_cons (by decide), ih, bytewise, bytewise, List.flatMap_cons,
      utf8EncodeChar_of_lt (by decide), List.singleton_append]
  | @escaped c q e escapes hbytes _ ih =>
    have happend : plusToSpace (escapes ++ e) = plusToSpace escapes ++ plusToSpace e :=
      List.map_append
    rw [happend, urlencodingDecode_escaped hbytes, ih, bytewise, bytewise, List.flatMap_cons]

/-- A text is the same byte by byte iff it is ASCII: any other character has several bytes. -/
theorem bytewise_eq_iff (q : List Char) : bytewise q = q ↔ ∀ c ∈ q, c.toNat < 128 := by
  have hlength (q : List Char) : q.length ≤ (bytewise q).length := by
    induction q with
    | nil => exact Nat.le_refl 0
    | cons c q ih =>
      have hpos := c.utf8Size_pos
      rw [bytewise, List.flatMap_cons, List.length_append, List.length_map,
        String.length_utf8EncodeChar, List.length_cons]
      rw [bytewise] at ih
      omega
  constructor
  · intro h
    induction q with
    | nil => simp
    | cons c q ih =>
      have hsize : c.utf8Size = 1 := by
        have heq := congrArg List.length h
        have hrest := hlength q
        have hpos := c.utf8Size_pos
        rw [bytewise, List.flatMap_cons, List.length_append, List.length_map,
          String.length_utf8EncodeChar, List.length_cons] at heq
        rw [bytewise] at hrest
        omega
      have hascii : c.toNat < 128 := by
        have hval := Char.utf8Size_eq_one_iff.mp hsize
        have hle : c.val.toNat ≤ 127 := hval
        exact Nat.lt_succ_of_le hle
      rw [bytewise, List.flatMap_cons, utf8EncodeChar_of_lt hascii, List.singleton_append] at h
      rw [List.forall_mem_cons]
      exact ⟨hascii, ih (List.cons.inj h).2⟩
  · intro h
    induction q with
    | nil => rfl
    | cons c q ih =>
      rw [List.forall_mem_cons] at h
      rw [bytewise, List.flatMap_cons, utf8EncodeChar_of_lt h.1, List.singleton_append]
      exact congrArg (c :: ·) (ih h.2)

theorem ampersand_not_mem_escaped {bs : List UInt8} {escapes : List Char}
    (h : EscapedBytes bs escapes) : '&' ∉ escapes := by
  induction h with
  | nil => exact List.not_mem_nil
  | cons h _ ih =>
    obtain ⟨hi, lo, hhi, hlo, -⟩ := h
    have h1 := (ne_of_hexDigit hhi).2
    have h2 := (ne_of_hexDigit hlo).2
    simp [ih, h1.symm, h2.symm]

theorem ampersand_not_mem {q e : List Char} (h : FormEncoded q e) : '&' ∉ e := by
  induction h with
  | nil => exact List.not_mem_nil
  | plain _ hc _ ih =>
    simp only [List.mem_cons, not_or] at hc ⊢
    exact ⟨Ne.symm hc.2.1, ih⟩
  | space _ ih => simp [ih]
  | escaped hbytes _ ih =>
    rw [List.mem_append, not_or]
    exact ⟨ampersand_not_mem_escaped hbytes, ih⟩

end Encoding

section Bodies

/-- The two parameters that hold a text to parse. -/
inductive FormKey where
  | query | update
  deriving DecidableEq

def FormKey.name : FormKey → String
  | .query => "query"
  | .update => "update"

def FormKey.posted (key : FormKey) (text : List Char) : PostedText :=
  match key with
  | .query => .query text
  | .update => .update text

/-- A parameter under neither of the two keys. -/
def OtherField (part : List Char) : Prop :=
  '&' ∉ part ∧ ∀ key : FormKey, ∀ field, HttpRequest.splitOnce part = some field →
    field.1 ≠ key.name.toList

/-- The request is a form that holds the text under the key, among other parameters. -/
structure PostsForm (req : HttpRequest) (key : FormKey) (q : List Char) : Prop where
  form : req.contentTypeContains "application/x-www-form-urlencoded" = true
  noUpdate : req.contentTypeContains "application/sparql-update" = false
  noQuery : req.contentTypeContains "application/sparql-query" = false
  body : ∃ before after e, FormEncoded q e ∧ (∀ part ∈ before ++ after, OtherField part) ∧
    req.body = (String.ofList (['&'].intercalate
      (before ++ (key.name.toList ++ '=' :: e) :: after))).toUTF8

theorem splitOnce_field {name : List Char} (h : '=' ∉ name) (value : List Char) :
    HttpRequest.splitOnce (name ++ '=' :: value) = some (name, value) := by
  have hname : ∀ c ∈ name, decide (c ≠ '=') = true := fun c hc =>
    decide_eq_true fun heq => h (heq ▸ hc)
  rw [HttpRequest.splitOnce, if_pos (by simp), List.takeWhile_append_of_pos hname,
    List.dropWhile_append_of_pos hname]
  simp

theorem findSome_other (key : FormKey) {parts : List (List Char)}
    (h : ∀ part ∈ parts, OtherField part) :
    (parts.findSome? fun part => (HttpRequest.splitOnce part).bind fun field =>
      if field.1 = key.name.toList then some (plusToSpace field.2) else none) = none := by
  rw [List.findSome?_eq_none_iff]
  intro part hpart
  cases hfield : HttpRequest.splitOnce part with
  | none => rfl
  | some field =>
    have hne := (h part hpart).2 key field hfield
    rw [Option.bind_some, if_neg hne]

theorem formField_intercalate (key : FormKey) {before after : List (List Char)} {e : List Char}
    (he : '&' ∉ e) (h : ∀ part ∈ before ++ after, OtherField part) (key' : FormKey) :
    formField key'.name (['&'].intercalate (before ++ (key.name.toList ++ '=' :: e) :: after)) =
      if key' = key then some (plusToSpace e) else none := by
  have hsplit : (['&'].intercalate (before ++ (key.name.toList ++ '=' :: e) :: after)).splitOn '&' =
      before ++ (key.name.toList ++ '=' :: e) :: after := by
    apply List.splitOn_intercalate
    · intro part hpart
      rcases List.mem_append.mp hpart with hpart | hpart
      · exact (h part (List.mem_append_left _ hpart)).1
      · rcases List.mem_cons.mp hpart with rfl | hpart
        · cases key <;> simp [FormKey.name, he]
        · exact (h part (List.mem_append_right _ hpart)).1
    · simp
  have hname : '=' ∉ key.name.toList := by cases key <;> decide
  have hbefore := findSome_other key' fun part hpart =>
    h part (List.mem_append_left _ hpart)
  have hafter := findSome_other key' fun part hpart =>
    h part (List.mem_append_right _ hpart)
  rw [formField, hsplit, List.findSome?_append, hbefore, Option.none_or, List.findSome?_cons,
    splitOnce_field hname, hafter, Option.bind_some]
  cases key <;> cases key' <;> rfl

theorem fromUTF8_toUTF8 (s : String) : String.fromUTF8? s.toUTF8 = some s :=
  dif_pos s.isValidUTF8

/-- The query endpoint hands on what the form holds, byte by byte. -/
theorem sparqlPostText_form {req : HttpRequest} {key : FormKey} {q : List Char}
    (h : PostsForm req key q) : sparqlPostText req = .ok (key.posted (bytewise q)) := by
  obtain ⟨before, after, e, hencoded, hothers, hbody⟩ := h.body
  have hfield := formField_intercalate key (ampersand_not_mem hencoded) hothers
  have hupdate : formField "update" _ = _ := hfield .update
  have hquery : formField "query" _ = _ := hfield .query
  rw [sparqlPostText, h.noUpdate, h.noQuery, h.form, hbody, fromUTF8_toUTF8]
  simp only [Bool.false_eq_true, if_false, if_true, String.toList_ofList]
  rw [sparqlPostForm, hupdate, hquery]
  cases key with
  | query =>
    rw [if_neg (by decide), if_pos rfl, FormKey.posted, ← urlencodingDecode_formEncoded hencoded]
  | update => rw [if_pos rfl, FormKey.posted, ← urlencodingDecode_formEncoded hencoded]

/-- The text of a form is handed on as it was encoded iff it is ASCII. -/
theorem sparqlPostText_form_iff {req : HttpRequest} {key : FormKey} {q : List Char}
    (h : PostsForm req key q) :
    sparqlPostText req = .ok (key.posted q) ↔ ∀ c ∈ q, c.toNat < 128 := by
  rw [sparqlPostText_form h, ← bytewise_eq_iff]
  constructor
  · intro heq
    cases key with
    | query => exact PostedText.query.inj (Except.ok.inj heq)
    | update => exact PostedText.update.inj (Except.ok.inj heq)
  · intro heq
    rw [heq]

def formType : HeaderText := ⟨"application/x-www-form-urlencoded".toList, by simp⟩

/-- `POST` of the form body `a=b&query=…`. -/
def formRequest (e : List Char) : HttpRequest where
  method := .post
  path := [⟨"sparql".toList, by decide⟩]
  authorization := none
  contentType := some formType
  body := (String.ofList (['&'].intercalate
    (["a=b".toList] ++ (FormKey.query.name.toList ++ '=' :: e) :: []))).toUTF8

theorem postsForm_formRequest {q e : List Char} (h : FormEncoded q e) :
    PostsForm (formRequest e) .query q where
  form := by
    show decide ("application/x-www-form-urlencoded".toList <:+: formType.text) = true
    decide
  noUpdate := by
    show decide ("application/sparql-update".toList <:+: formType.text) = false
    decide
  noQuery := by
    show decide ("application/sparql-query".toList <:+: formType.text) = false
    decide
  body := by
    refine ⟨["a=b".toList], [], e, h, fun part hpart => ?_, rfl⟩
    obtain rfl := List.mem_singleton.mp hpart
    refine ⟨by decide, fun key field hfield => ?_⟩
    cases hfield
    cases key <;> decide

/-- The text `? %`, sent as `?+%25`. -/
theorem sparqlPostText_form_iff_ascii :
    sparqlPostText (formRequest ['?', '+', '%', '2', '5']) = .ok (.query ['?', ' ', '%']) := by
  have hescape : EscapedBytes (String.utf8EncodeChar '%') ['%', '2', '5'] :=
    .cons ⟨2, 5, rfl, rfl, rfl⟩ .nil
  have hencoded : FormEncoded ['?', ' ', '%'] ['?', '+', '%', '2', '5'] :=
    .plain (by decide) (by simp) (.space (.escaped hescape .nil))
  exact (sparqlPostText_form_iff (postsForm_formRequest hencoded)).mpr (by simp)

/-- The two bytes of `é` become two characters. -/
theorem not_sparqlPostText_form :
    ¬ ∀ (req : HttpRequest) (key : FormKey) (q : List Char), PostsForm req key q →
      sparqlPostText req = .ok (key.posted q) := by
  intro h
  have hescape : EscapedBytes (String.utf8EncodeChar 'é') "%C3%A9".toList :=
    .cons ⟨12, 3, rfl, rfl, rfl⟩ (.cons ⟨10, 9, rfl, rfl, rfl⟩ .nil)
  have hposts : PostsForm (formRequest "%C3%A9".toList) .query ['é'] :=
    postsForm_formRequest (.escaped hescape .nil)
  have heq := (sparqlPostText_form hposts).symm.trans (h _ _ _ hposts)
  have hwide := (bytewise_eq_iff ['é']).mp (PostedText.query.inj (Except.ok.inj heq))
  exact absurd (hwide 'é' List.mem_cons_self) (by decide)

end Bodies

end RdfDatalog.Endpoint
