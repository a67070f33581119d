import RdfDatalog.Endpoint.SparqlJson

namespace RdfDatalog.Endpoint

open BinaryFloat Sparql

variable {N : NativeTypes}

section Panics

variable (parsers : LexicalParsers N)

/-- Records a duration, whose value is left out where it does not fit. -/
def recordedLiteral (datatype : IriReference) (lexical : String) :
    StateM (List String) (RdfLiteral N) := do
  if datatype = xsdDuration then modify (· ++ [lexical])
  return (literalFromLexical parsers datatype lexical).getD (.typedLiteral datatype lexical)

/-- The duration literals of the document that are read, those before its first error. -/
def durationsRead (codec : JsonText) (text : String) (store : Datastore N) : List String :=
  ((readDocument (recordedLiteral parsers) codec text store).run.run []).2

/-- `x` does what `y` does, and panics iff a duration that `y` records does not fit. -/
def Follows {α : Type} (x : Decoded Option α) (y : Decoded (StateM (List String)) α) : Prop :=
  ∀ log, ∃ new, (y.run.run log).2 = log ++ new ∧
    ((∀ s ∈ new, DurationFits s) → x.run = some (y.run.run log).1) ∧
    ((¬ ∀ s ∈ new, DurationFits s) → x.run = none)

namespace Follows

variable {α β : Type}

theorem result (e : Except SparqlJsonError α) :
    Follows (ExceptT.mk (some e)) (ExceptT.mk (pure e)) :=
  fun _ => ⟨[], (List.append_nil _).symm, fun _ => rfl, fun h => absurd (by simp) h⟩

theorem bind {x : Decoded Option α} {y : Decoded (StateM (List String)) α}
    {f : α → Decoded Option β} {g : α → Decoded (StateM (List String)) β} (h : Follows x y)
    (hfg : ∀ a, Follows (f a) (g a)) : Follows (x >>= f) (y >>= g) := by
  intro log
  obtain ⟨new, hlog, hfits, hpanics⟩ := h log
  obtain ⟨r, log', hy⟩ : ∃ r log', y.run.run log = (r, log') := ⟨_, _, rfl⟩
  rw [hy] at hlog hfits
  dsimp only at hlog hfits
  cases r with
  | error e =>
    have hyg : (y >>= g).run.run log = (.error e, log') := by
      rw [ExceptT.run_bind, StateT.run_bind, hy]
      rfl
    refine ⟨new, by rw [hyg, hlog], fun hnew => ?_, fun hnew => ?_⟩
    · rw [ExceptT.run_bind, hfits hnew, hyg]
      rfl
    · rw [ExceptT.run_bind, hpanics hnew]
      rfl
  | ok a =>
    have hyg : (y >>= g).run.run log = (g a).run.run log' := by
      rw [ExceptT.run_bind, StateT.run_bind, hy]
      rfl
    obtain ⟨new', hlog', hfits', hpanics'⟩ := hfg a log'
    refine ⟨new ++ new', ?_, fun hnew => ?_, fun hnew => ?_⟩
    · rw [hyg, hlog', hlog, List.append_assoc]
    · rw [List.forall_mem_append] at hnew
      rw [ExceptT.run_bind, hfits hnew.1, hyg]
      exact hfits' hnew.2
    · rw [List.forall_mem_append, not_and] at hnew
      rw [ExceptT.run_bind]
      by_cases hfirst : ∀ s ∈ new, DurationFits s
      · rw [hfits hfirst]
        exact hpanics' (hnew hfirst)
      · rw [hpanics hfirst]
        rfl

theorem literal (datatype : IriReference) (lexical : String) :
    Follows (ExceptT.lift (literalFromLexical parsers datatype lexical))
      (ExceptT.lift (recordedLiteral parsers datatype lexical)) := by
  intro log
  by_cases hduration : datatype = xsdDuration
  · subst hduration
    rw [recordedLiteral, if_pos rfl, literalFromLexical_duration]
    refine ⟨[lexical], rfl, fun h => ?_, fun h => ?_⟩
    · have hfits := (parseXsdDuration_isSome_iff lexical).mpr (List.forall_mem_singleton.mp h)
      obtain ⟨nanos, hnanos⟩ := Option.isSome_iff_exists.mp hfits
      rw [hnanos]
      rfl
    · have hpanics : parseXsdDuration lexical = none := by
        rw [← Option.not_isSome_iff_eq_none, parseXsdDuration_isSome_iff]
        exact fun hfits => h (List.forall_mem_singleton.mpr hfits)
      rw [hpanics]
      rfl
  · obtain ⟨l, hl⟩ := Option.isSome_iff_exists.mp
      (literalFromLexical_isSome parsers hduration lexical)
    rw [recordedLiteral, if_neg hduration, hl]
    exact ⟨[], (List.append_nil _).symm, fun _ => rfl, fun h => absurd (by simp) h⟩

end Follows

theorem jsonToGraphElement_follows (term : Json) (st : DecodeState N) :
    Follows (jsonToGraphElement (literalFromLexical parsers) term st)
      (jsonToGraphElement (recordedLiteral parsers) term st) := by
  cases term with
  | object obj =>
    rw [jsonToGraphElement, jsonToGraphElement]
    refine .bind (.result _) fun ty => ?_
    split_ifs
    · exact .bind (.result _) fun _ => .result (.ok _)
    · exact .bind (.result _) fun _ => .result (.ok _)
    · refine .bind (.result _) fun value => ?_
      split
      · exact .result (.ok _)
      · split
        · exact .bind (.literal parsers _ _) fun _ => .result (.ok _)
        · exact .result (.ok _)
    · split
      · exact .result (.error _)
      · rename_i parts hv
        have hlt := sizeOf_of_lookup hv
        refine .bind (.result _) fun s => .bind (.result _) fun p => .bind (.result _) fun o => ?_
        obtain ⟨subject, _⟩ := s
        obtain ⟨predicate, _⟩ := p
        obtain ⟨object, _⟩ := o
        exact .bind (jsonToGraphElement_follows subject st) fun _ =>
          .bind (jsonToGraphElement_follows predicate _) fun _ =>
            .bind (jsonToGraphElement_follows object _) fun _ => .result (.ok _)
      · exact .result (.error _)
    · exact .result (.error _)
  | _ =>
    rw [jsonToGraphElement, jsonToGraphElement]
    · exact .result (.error _)
    all_goals simp
termination_by term
decreasing_by
  all_goals
    simp only [Json.object.sizeOf_spec] at hlt ⊢
    omega

theorem readRow_follows (binding : List (String × Json)) (vars : List String)
    (row : SolutionRow N) (st : DecodeState N) :
    Follows (readRow (literalFromLexical parsers) binding vars row st)
      (readRow (recordedLiteral parsers) binding vars row st) := by
  induction vars generalizing row st with
  | nil => exact .result (.ok _)
  | cons v vars ih =>
    rw [readRow, readRow]
    split
    · exact ih row st
    · exact .bind (jsonToGraphElement_follows parsers _ st) fun _ => ih _ _

theorem readRows_follows (vars : List String) (bindings : List Json) (st : DecodeState N) :
    Follows (readRows (literalFromLexical parsers) vars bindings st)
      (readRows (recordedLiteral parsers) vars bindings st) := by
  induction bindings generalizing st with
  | nil => exact .result (.ok _)
  | cons binding bindings ih =>
    cases binding with
    | object fields =>
      exact .bind (readRow_follows parsers _ vars _ st) fun _ =>
        .bind (ih _) fun _ => .result (.ok _)
    | _ => exact .result (.error _)

theorem readDocument_follows (codec : JsonText) (text : String) (store : Datastore N) :
    Follows (readDocument (literalFromLexical parsers) codec text store)
      (readDocument (recordedLiteral parsers) codec text store) := by
  unfold readDocument
  split
  · exact .result (.error _)
  · split_ifs
    · exact .result (.error _)
    · exact .bind (.result _) fun vars => .bind (.result _) fun bindings =>
        .bind (readRows_follows parsers vars bindings _) fun _ => .result (.ok _)
  · exact .result (.error _)

/-- The decoder returns iff the components of every duration that it reads add up to at most
`i64::MAX` milliseconds. -/
theorem fromSparqlJson_returns_iff (codec : JsonText) (text : String) (store : Datastore N) :
    (fromSparqlJson parsers codec text store).isSome ↔
      ∀ s ∈ durationsRead parsers codec text store, DurationFits s := by
  obtain ⟨new, hnew, hfits, hpanics⟩ := readDocument_follows parsers codec text store []
  rw [List.nil_append] at hnew
  rw [durationsRead, hnew]
  constructor
  · intro hsome
    by_contra hnot
    rw [fromSparqlJson, hpanics hnot] at hsome
    cases hsome
  · intro hall
    rw [fromSparqlJson, hfits hall]
    rfl

/-- One second more than `i64::MAX` milliseconds hold. -/
def longDuration : String := "PT9223372036854776S"

theorem durationComponents_digits {digits : List Char} (h : ∀ c ∈ digits, c.isDigit)
    (s num : List Char) (inTime : Bool) : durationComponents (digits ++ s) inTime num =
      durationComponents s inTime (num ++ digits) := by
  induction digits generalizing num with
  | nil => rw [List.nil_append, List.append_nil]
  | cons c digits ih =>
    obtain ⟨hc, hdigits⟩ := List.forall_mem_cons.mp h
    have hT : c ≠ 'T' := fun heq => by simp [heq] at hc
    rw [List.cons_append, durationComponents, if_neg hT, if_pos (.inl hc), ih hdigits,
      List.append_assoc]
    rfl

theorem not_durationFits : ¬ DurationFits longDuration := by
  have hvalue : parseF64 "9223372036854776" = some (.number (some (some 9223372036854776))) := by
    have hscientific : Numerals.scientificValue "9223372036854776".toList =
        some 9223372036854776 := by decide
    have hnearest : binary64.nearest 9223372036854776 = 9223372036854776 :=
      binary64.nearest_of_bits (n := 4611686018427388) (e := 1) (by norm_num) (by decide)
        (by norm_num [binary64])
    have hbound : |(9223372036854776 : ℚ)| < 2 ^ binary64.maxExponent :=
      lt_of_lt_of_le (b := 2 ^ (60 : ℤ)) (by norm_num)
        (zpow_le_zpow_right₀ (by norm_num) (by decide))
    rw [parseF64, hscientific]
    dsimp only
    rw [Format.rounded, hnearest, binary64.clamp_of_abs_lt hbound]
    rfl
  have hsign : (durationSign longDuration).2 = 'P' :: 'T' :: ("9223372036854776".toList ++ ['S']) :=
    by decide
  obtain ⟨nanos, hcomponent⟩ : ∃ nanos,
      component (.number (some (some 9223372036854776))) 'S' true =
        some (9223372036854776, nanos) := by
    refine ⟨_, congrArg (fun seconds => some (seconds, _)) ?_⟩
    show max (-2 ^ 63) (min (2 ^ 63 - 1) (truncate ((9223372036854776 : ℤ) : ℚ))) = _
    rw [truncate_intCast]
    decide
  have hpositive : NotNegative (.number (some (some 9223372036854776))) :=
    WithBot.coe_le_coe.mpr (WithTop.coe_le_coe.mpr (by norm_num))
  have hnanos := (component_nonneg hpositive hcomponent).2
  have hdigits : "9223372036854776".toList.all Char.isDigit = true := by decide
  rw [DurationFits, hsign]
  show ¬ (durationComponents _ _ _).sum ≤ maxDuration
  rw [durationComponents, if_pos rfl,
    durationComponents_digits (List.all_eq_true.mp hdigits), durationComponents,
    if_neg (by decide), if_neg (by decide), List.nil_append, String.ofList_toList, hvalue,
    Option.bind_some, hcomponent]
  simp only [durationComponents, List.sum_cons, List.sum_nil, maxDuration]
  omega

/-- `{"head": {"vars": ["d"]}, "results": {"bindings": [{"d": ...}]}}` -/
def longDurationDocument : Json :=
  .object [("head", .object [("vars", .array [.string "d"])]),
    ("results", .object [("bindings", .array [.object [("d", .object
      [("datatype", .string xsdDuration), ("type", .string "literal"),
        ("value", .string longDuration)])]])])]

theorem not_fromSparqlJson_returns : ¬ ∀ (parsers : LexicalParsers .text)
    (codec : JsonText) (text : String) (store : Datastore .text),
    (fromSparqlJson parsers codec text store).isSome := by
  intro h
  have hpanics : parseXsdDuration longDuration = none := by
    rw [← Option.not_isSome_iff_eq_none, parseXsdDuration_isSome_iff]
    exact not_durationFits
  let parsers : LexicalParsers .text := ⟨String.toInt?, some, some, some, some, some, toString⟩
  have hliteral : literalFromLexical parsers xsdDuration longDuration = none := by
    rw [literalFromLexical_duration, hpanics]
    rfl
  have hterm (st : DecodeState .text) : (jsonToGraphElement (literalFromLexical parsers) (.object
      [("datatype", .string xsdDuration), ("type", .string "literal"),
        ("value", .string longDuration)]) st).run = none := by
    rw [jsonToGraphElement]
    show (Option.map Except.ok (literalFromLexical parsers xsdDuration longDuration)).bind _ =
      none
    rw [hliteral]
    rfl
  have hnone := h parsers ⟨fun _ => "", fun _ => .ok longDurationDocument⟩ "" .new
  have hrun : fromSparqlJson parsers ⟨fun _ => "", fun _ => .ok longDurationDocument⟩ ""
      .new = none := by
    show Option.bind (Option.bind (Option.bind
      (jsonToGraphElement (literalFromLexical parsers) _ _).run _) _) _ = none
    rw [hterm]
    rfl
  rw [hrun] at hnone
  cases hnone

end Panics

end RdfDatalog.Endpoint
