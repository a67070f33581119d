import RdfDatalog.Sparql.ServiceAnswers
import RdfDatalog.Store.FreshNodes
import Mathlib.Data.Nat.ModEq

namespace RdfDatalog.Sparql

variable {N : NativeTypes}

section Wrapping

variable {n M d : ℕ}

theorem wrapped_injective_iff (c : ℕ) (hM : 0 < M) :
    (∀ i < n, ∀ j < n, (c + i) % M = (c + j) % M → i = j) ↔ n ≤ M := by
  constructor
  · intro h
    by_contra hn
    have hlast : (c + 0) % M = (c + M) % M := by rw [Nat.add_zero, Nat.add_mod_right]
    have hzero := h 0 (by omega) M (by omega) hlast
    omega
  · intro hn i hi j hj h
    have hmod : Nat.ModEq M i j := Nat.ModEq.add_left_cancel' c h
    exact Nat.ModEq.eq_of_lt_of_lt hmod (by omega) (by omega)

theorem row_injective {i j a b : ℕ} (ha : a < d) (hb : b < d) (h : i * d + a = j * d + b) :
    i = j ∧ a = b := by
  have hd : 0 < d := by omega
  have hrow : i = j := by
    have hleft :
        (a + i * d) / d = i := by rw [Nat.add_mul_div_right a i hd, Nat.div_eq_of_lt ha, zero_add]
    have hright :
        (b + j * d) / d = j := by rw [Nat.add_mul_div_right b j hd, Nat.div_eq_of_lt hb, zero_add]
    rw [← hleft, ← hright, Nat.add_comm a, Nat.add_comm b, h]
  exact ⟨hrow, by subst hrow; omega⟩

theorem row_lt {i a m : ℕ} (hi : i < m) (ha : a < d) : i * d + a < m * d := by
  have hrow : (i + 1) * d ≤ m * d := Nat.mul_le_mul_right d hi
  rw [Nat.succ_mul] at hrow
  omega

end Wrapping

section Template

/-- The number that the parser makes of a label: a hash with the top bit set. -/
def labelId (label : String) : ℕ :=
  ((label.toList.flatMap String.utf8EncodeChar).foldl
    (fun acc byte => (acc * 31 + byte.toNat) % 2 ^ 32) 0) ||| 2 ^ 31

def termLabel : Term N → Option ℕ
  | .constant (.nodeOrEdge (.anonymousBlankNode label)) => some label
  | _ => none

/-- Number a label, unless the solution has numbered it before. -/
def TemplateState.see (st : TemplateState) (label : ℕ) : TemplateState :=
  match st.bnodeMap.lookup label with
  | some _ => st
  | none => ⟨st.bnodeMap.insert label st.bnodeCounter, (st.bnodeCounter + 1) % 2 ^ 32⟩

def tripleLabels (tp : TriplePattern N) : List ℕ :=
  (termLabel tp.subject).toList ++ (termLabel tp.predicate).toList ++ (termLabel tp.object).toList

def templateLabels (template : List (TriplePattern N)) : Finset ℕ :=
  (template.flatMap tripleLabels).toFinset

def renameTerm (ds : Datastore N) (sub : PartialSub N) (nodes : ℕ → Option ℕ) :
    Term N → Option (GraphElement N)
  | .var v => (sub.lookup v).bind (·.resolve ds)
  | .constant (.nodeOrEdge (.anonymousBlankNode label)) =>
    (nodes label).map fun n => .nodeOrEdge (.anonymousBlankNode n)
  | .constant gel => some gel
  | .tripleTerm _ _ _ => none

/-- A triple of the template, if it is bound and legal, with the blank nodes renamed. -/
def renameTriple (ds : Datastore N) (sub : PartialSub N) (nodes : ℕ → Option ℕ)
    (tp : TriplePattern N) : Option (ResolvedTriple N) :=
  match renameTerm ds sub nodes tp.subject, renameTerm ds sub nodes tp.predicate,
    renameTerm ds sub nodes tp.object with
  | some s, some p, some o =>
    if !isLiteralElement s && isIriElement p then some ⟨s, p, o⟩ else none
  | _, _, _ => none

def templateInstance (ds : Datastore N) (template : List (TriplePattern N)) (sub : PartialSub N)
    (nodes : ℕ → Option ℕ) : Finset (ResolvedTriple N) :=
  (template.filterMap (renameTriple ds sub nodes)).toFinset

variable {ds : Datastore N} {sub : PartialSub N} {st st' : TemplateState} {label : ℕ}

/-- The state has numbered the labels in their order, from the counter it began with. -/
structure TemplateState.Numbers (c : ℕ) (labels : List ℕ) (st : TemplateState) : Prop where
  nodup : labels.Nodup
  lookup : ∀ l, st.bnodeMap.lookup l =
    if l ∈ labels then some ((c + labels.idxOf l) % 2 ^ 32) else none
  counter : st.bnodeCounter = (c + labels.length) % 2 ^ 32

/-- The labels in the order in which they are first seen. -/
def seen (labels : List ℕ) (label : ℕ) : List ℕ :=
  if label ∈ labels then labels else labels ++ [label]

theorem TemplateState.Numbers.see {c : ℕ} {labels : List ℕ} (h : st.Numbers c labels) (label : ℕ) :
    (st.see label).Numbers c (seen labels label) := by
  unfold TemplateState.see seen
  by_cases hmem : label ∈ labels
  · rw [if_pos hmem, h.lookup, if_pos hmem]
    exact h
  · rw [if_neg hmem, h.lookup, if_neg hmem]
    refine ⟨?_, fun l => ?_, ?_⟩
    · rw [List.nodup_append]
      refine ⟨h.nodup, List.nodup_singleton label, ?_⟩
      rintro a ha b hb rfl
      exact hmem (List.mem_singleton.mp hb ▸ ha)
    · by_cases hl : l = label
      · subst hl
        rw [AList.lookup_insert, if_pos (List.mem_append_right _ (List.mem_singleton_self l)),
          List.idxOf_append_of_notMem hmem, h.counter]
        simp
      · rw [AList.lookup_insert_ne hl, h.lookup]
        by_cases hl' : l ∈ labels
        · rw [if_pos hl', if_pos (List.mem_append_left _ hl'), List.idxOf_append_of_mem hl']
        · rw [if_neg hl', if_neg]
          simp [hl', hl]
    · rw [h.counter, List.length_append, List.length_singleton, Nat.mod_add_mod, Nat.add_assoc]

def TemplateState.seeAll (st : TemplateState) (labels : List ℕ) : TemplateState :=
  labels.foldl TemplateState.see st

theorem TemplateState.Numbers.seeAll {c : ℕ} {labels : List ℕ} (h : st.Numbers c labels)
    (more : List ℕ) : (st.seeAll more).Numbers c (more.foldl seen labels) := by
  induction more generalizing st labels with
  | nil => exact h
  | cons label more ih => exact ih (h.see label)

theorem mem_foldl_seen {l : ℕ} (more : List ℕ) (labels : List ℕ) :
    l ∈ more.foldl seen labels ↔ l ∈ labels ∨ l ∈ more := by
  induction more generalizing labels with
  | nil => simp
  | cons label more ih =>
    have hseen : l ∈ seen labels label ↔ l ∈ labels ∨ l = label := by
      unfold seen
      split_ifs with hmem
      · exact ⟨.inl, fun h => h.elim id fun hl => hl ▸ hmem⟩
      · simp
    rw [List.foldl_cons, ih, hseen, List.mem_cons, or_assoc]

/-- The names are those of the state, and maybe more. -/
def Names (nodes : ℕ → Option ℕ) (st : TemplateState) : Prop :=
  ∀ l n, st.bnodeMap.lookup l = some n → nodes l = some n

variable {nodes : ℕ → Option ℕ}

theorem Names.of_see (h : Names nodes (st.see label)) : Names nodes st := by
  intro l n hl
  refine h l n ?_
  unfold TemplateState.see
  cases hlabel : st.bnodeMap.lookup label with
  | some _ => exact hl
  | none =>
    have hne : l ≠ label := by
      rintro rfl
      rw [hl] at hlabel
      cases hlabel
    exact (AList.lookup_insert_ne hne).trans hl

theorem Names.of_seeAll {more : List ℕ} (h : Names nodes (st.seeAll more)) : Names nodes st := by
  induction more generalizing st with
  | nil => exact h
  | cons label more ih => exact (ih h).of_see

theorem seeAll_append (st : TemplateState) (ls ms : List ℕ) :
    st.seeAll (ls ++ ms) = (st.seeAll ls).seeAll ms := List.foldl_append

theorem bindTemplateTerm_eq {term : Term N} (h : Names nodes (st.seeAll (termLabel term).toList)) :
    bindTemplateTerm ds sub term st =
      (renameTerm ds sub nodes term, st.seeAll (termLabel term).toList) := by
  unfold bindTemplateTerm
  split
  · rfl
  · next label =>
    have hnamed : Names nodes (st.see label) := h
    change _ = (_, st.see label)
    rw [renameTerm]
    cases hlabel : st.bnodeMap.lookup label with
    | some n =>
      have hn : nodes label = some n := hnamed.of_see label n hlabel
      rw [hn, TemplateState.see, hlabel]
      rfl
    | none =>
      have hnew : (st.see label).bnodeMap.lookup label = some st.bnodeCounter := by
        rw [TemplateState.see, hlabel, AList.lookup_insert]
      rw [hnamed label _ hnew, TemplateState.see, hlabel]
      rfl
  · next gel hgel =>
    have hlabel : termLabel (.constant gel : Term N) = none := by
      unfold termLabel
      split
      · next label heq =>
        cases heq
        exact absurd rfl (hgel label)
      · rfl
    rw [hlabel, renameTerm]
    · rfl
    · exact hgel
  · rfl

theorem instantiateTriple_eq {tp : TriplePattern N}
    (h : Names nodes (st.seeAll (tripleLabels tp))) :
    instantiateTriple ds sub tp st =
      (renameTriple ds sub nodes tp, st.seeAll (tripleLabels tp)) := by
  rw [tripleLabels, seeAll_append, seeAll_append] at h ⊢
  unfold instantiateTriple renameTriple
  rw [bindTemplateTerm_eq h.of_seeAll.of_seeAll]
  dsimp only
  rw [bindTemplateTerm_eq h.of_seeAll]
  dsimp only
  rw [bindTemplateTerm_eq h]
  cases renameTerm ds sub nodes tp.subject with
  | none => rfl
  | some s =>
    cases renameTerm ds sub nodes tp.predicate with
    | none => rfl
    | some p => cases renameTerm ds sub nodes tp.object <;> rfl

def templateState (ds : Datastore N) (template : List (TriplePattern N)) (sub : PartialSub N)
    (st : TemplateState) : TemplateState :=
  template.foldl (fun st tp => (instantiateTriple ds sub tp st).2) st

theorem templateState_eq (template : List (TriplePattern N)) (sub : PartialSub N)
    (st : TemplateState) :
    templateState ds template sub st = st.seeAll (template.flatMap tripleLabels) := by
  induction template generalizing st with
  | nil => rfl
  | cons tp template ih =>
    have hstep : (instantiateTriple ds sub tp st).2 = st.seeAll (tripleLabels tp) :=
      congrArg Prod.snd (instantiateTriple_eq (fun l n h => h))
    rw [List.flatMap_cons, seeAll_append, ← hstep]
    exact ih _

/-- The output and the state after the template of a solution. -/
def instantiateTemplate (ds : Datastore N) (template : List (TriplePattern N)) (sub : PartialSub N)
    (output : Finset (ResolvedTriple N)) (st : TemplateState) :
    Finset (ResolvedTriple N) × TemplateState :=
  template.foldl (fun (output, st) tp =>
    let (triple, st) := instantiateTriple ds sub tp st
    (insertTriple output triple, st)) (output, st)

variable {output : Finset (ResolvedTriple N)} {t : ResolvedTriple N}
  {template : List (TriplePattern N)}

theorem mem_insertTriple {triple : Option (ResolvedTriple N)} :
    t ∈ insertTriple output triple ↔ triple = some t ∨ t ∈ output := by
  cases triple with
  | none => simp [insertTriple]
  | some t' => simp [insertTriple, eq_comm]

theorem instantiateTemplate_snd (template : List (TriplePattern N))
    (output : Finset (ResolvedTriple N)) :
    (instantiateTemplate ds template sub output st).2 = templateState ds template sub st := by
  induction template generalizing output st with
  | nil => rfl
  | cons tp template ih => exact ih _

theorem mem_instantiateTemplate (h : Names nodes (templateState ds template sub st)) :
    t ∈ (instantiateTemplate ds template sub output st).1 ↔
      t ∈ templateInstance ds template sub nodes ∨ t ∈ output := by
  induction template generalizing output st with
  | nil => simp [instantiateTemplate, templateInstance]
  | cons tp template ih =>
    have hstep : (instantiateTriple ds sub tp st).2 = st.seeAll (tripleLabels tp) :=
      congrArg Prod.snd (instantiateTriple_eq (fun l n h => h))
    have hrest : Names nodes (templateState ds template sub (instantiateTriple ds sub tp st).2) := h
    have hnames : Names nodes (st.seeAll (tripleLabels tp)) := by
      rw [templateState_eq, hstep] at hrest
      exact hrest.of_seeAll
    have htriple : (instantiateTriple ds sub tp st).1 = renameTriple ds sub nodes tp :=
      congrArg Prod.fst (instantiateTriple_eq hnames)
    change t ∈ (instantiateTemplate ds template sub
      (insertTriple output (instantiateTriple ds sub tp st).1)
      (instantiateTriple ds sub tp st).2).1 ↔ _
    rw [ih hrest, mem_insertTriple, htriple]
    simp only [templateInstance, List.mem_toFinset, List.mem_filterMap, List.mem_cons,
      exists_eq_or_imp]
    rw [or_left_comm, or_assoc]

/-- The numbers that each solution gives to the blank nodes of the template. -/
def solutionNodes (ds : Datastore N) (template : List (TriplePattern N)) (counter : ℕ) :
    List (PartialSub N) → List (ℕ → Option ℕ)
  | [] => []
  | sub :: subs =>
    let st := templateState ds template sub ⟨∅, counter⟩
    (fun label => st.bnodeMap.lookup label) ::
      solutionNodes ds template st.bnodeCounter subs

theorem mem_constructTriples {subs : List (PartialSub N)} : t ∈ constructTriples ds template subs ↔
      ∃ x ∈ subs.zip (solutionNodes ds template 0 subs),
        t ∈ templateInstance ds template x.1 x.2 := by
  have hrun (counter : ℕ) (output : Finset (ResolvedTriple N)) :
      t ∈ (subs.foldl (fun state sub =>
        let next := instantiateTemplate ds template sub state.1 ⟨∅, state.2⟩
        (next.1, next.2.bnodeCounter)) (output, counter)).1 ↔
        t ∈ output ∨ ∃ x ∈ subs.zip (solutionNodes ds template counter subs),
          t ∈ templateInstance ds template x.1 x.2 := by
    induction subs generalizing counter output with
    | nil => simp
    | cons sub subs ih =>
      have hfirst : t ∈ (instantiateTemplate ds template sub output ⟨∅, counter⟩).1 ↔
          t ∈ templateInstance ds template sub
            (fun label => (templateState ds template sub ⟨∅, counter⟩).bnodeMap.lookup label) ∨
          t ∈ output := mem_instantiateTemplate fun l n h => h
      have hrest := ih (instantiateTemplate ds template sub output ⟨∅, counter⟩).2.bnodeCounter
        (instantiateTemplate ds template sub output ⟨∅, counter⟩).1
      rw [List.foldl_cons]
      refine hrest.trans ?_
      rw [hfirst, instantiateTemplate_snd]
      simp only [solutionNodes, List.zip_cons_cons, List.mem_cons, exists_eq_or_imp]
      tauto
  refine (hrun 0 ∅).trans ?_
  simp

def labelOrder (template : List (TriplePattern N)) : List ℕ :=
  (template.flatMap tripleLabels).foldl seen []

theorem mem_labelOrder {l : ℕ} :
    l ∈ labelOrder template ↔ l ∈ templateLabels template := by
  rw [labelOrder, mem_foldl_seen, templateLabels, List.mem_toFinset]
  simp

theorem templateState_numbers (template : List (TriplePattern N)) (sub : PartialSub N) (c : ℕ) :
    (templateState ds template sub ⟨∅, c % 2 ^ 32⟩).Numbers c (labelOrder template) := by
  have hstart : (⟨∅, c % 2 ^ 32⟩ : TemplateState).Numbers c [] :=
    ⟨List.nodup_nil, fun l => by simp, rfl⟩
  rw [templateState_eq]
  exact hstart.seeAll _

theorem labelOrder_nodup (template : List (TriplePattern N)) : (labelOrder template).Nodup := by
  have hnumbers : (templateState (Datastore.new : Datastore N) template ∅ ⟨∅, 0 % 2 ^ 32⟩).Numbers 0
      (labelOrder template) := templateState_numbers template ∅ 0
  exact hnumbers.nodup

theorem length_labelOrder (template : List (TriplePattern N)) :
    (labelOrder template).length = (templateLabels template).card := by
  have hset : (labelOrder template).toFinset = templateLabels template := by
    ext l
    rw [List.mem_toFinset, mem_labelOrder]
  rw [← hset, List.toFinset_card_of_nodup (labelOrder_nodup template)]

theorem idxOf_lt_card {l : ℕ} (h : l ∈ labelOrder template) :
    (labelOrder template).idxOf l < (templateLabels template).card := by
  rw [← length_labelOrder]
  exact List.idxOf_lt_length_of_mem h

theorem solutionNodes_getElem? (template : List (TriplePattern N)) (c : ℕ)
    (subs : List (PartialSub N)) (i : ℕ) :
    (solutionNodes ds template (c % 2 ^ 32) subs)[i]? =
      if i < subs.length then some fun l =>
        if l ∈ labelOrder template then
          some ((c + (i * (templateLabels template).card + (labelOrder template).idxOf l)) % 2 ^ 32)
        else none
      else none := by
  induction subs generalizing c i with
  | nil => rfl
  | cons sub subs ih =>
    have hstate : (templateState ds template sub ⟨∅, c % 2 ^ 32⟩).Numbers c (labelOrder template) :=
      templateState_numbers template sub c
    cases i with
    | zero =>
      rw [solutionNodes, List.getElem?_cons_zero, if_pos (by simp)]
      refine congrArg some (funext fun l => ?_)
      rw [hstate.lookup, Nat.zero_mul, Nat.zero_add]
    | succ i =>
      rw [solutionNodes, List.getElem?_cons_succ, hstate.counter, ih, length_labelOrder]
      simp only [List.length_cons, Nat.add_lt_add_iff_right, Nat.succ_mul]
      split_ifs <;> simp only [Nat.add_assoc, Nat.add_left_comm]

end Template

section Calls

/-- The calls of `BNODE` keep the nodes of a solution by their argument; each thread has its own
solution, and the solutions that it has suspended. -/
structure BnodeMemo (N : NativeTypes) where
  current : AList fun _ : String => GraphElement N
  suspended : List (AList fun _ : String => GraphElement N)

/-- The counter of the process and the memos of its threads. -/
structure BnodeState (N : NativeTypes) where
  counter : UInt32
  memos : ℕ → BnodeMemo N

/-- The key of a call: of a call with no argument there is none, and an argument that has no value
or is not a simple literal is an error. -/
def argKey : Option (Option (GraphElement N)) → Option (Option String)
  | none => some none
  | some (some (.graphLiteral (.literalString s))) => some (some s)
  | some _ => none

variable (N) in
/-- What a query does to the counter and the memos. -/
inductive BnodeEvent where
  | install (thread : ℕ)
  | drop (thread : ℕ)
  | call (thread : ℕ) (arg : Option (Option (GraphElement N)))

def blank (n : ℕ) : GraphElement N := .nodeOrEdge (.anonymousBlankNode n)

/-- A call: its value, the number it generates if it does, and the memo it leaves. -/
def evalFnBnode (counter : UInt32) (memo : BnodeMemo N) (arg : Option (Option (GraphElement N))) :
    Option (GraphElement N) × Option ℕ × BnodeMemo N :=
  match argKey arg with
  | none => (none, none, memo)
  | some none => (some (blank counter.toNat), some counter.toNat, memo)
  | some (some key) =>
    match memo.current.lookup key with
    | some existing => (some existing, none, memo)
    | none => (some (blank counter.toNat), some counter.toNat,
        { memo with current := memo.current.insert key (blank counter.toNat) })

def BnodeState.setMemo (st : BnodeState N) (thread : ℕ) (memo : BnodeMemo N) : BnodeState N :=
  { st with memos := Function.update st.memos thread memo }

/-- One event: the number that is generated, if one is, and the state it leaves. -/
def BnodeState.step (st : BnodeState N) : BnodeEvent N → Option ℕ × BnodeState N
  | .install thread =>
    let memo := st.memos thread
    (none, st.setMemo thread ⟨∅, memo.current :: memo.suspended⟩)
  | .drop thread =>
    match (st.memos thread).suspended with
    | [] => (none, st)
    | previous :: suspended => (none, st.setMemo thread ⟨previous, suspended⟩)
  | .call thread arg =>
    let (_, number, memo) := evalFnBnode st.counter (st.memos thread) arg
    (number, { st.setMemo thread memo with
      counter := if number.isSome then st.counter + 1 else st.counter })

/-- The numbers that a run generates. -/
def BnodeState.generated (st : BnodeState N) : List (BnodeEvent N) → List ℕ
  | [] => []
  | event :: events => (st.step event).1.toList ++ (st.step event).2.generated events

variable {st : BnodeState N} {event : BnodeEvent N} {n : ℕ}

theorem evalFnBnode_number (counter : UInt32) (memo : BnodeMemo N)
    (arg : Option (Option (GraphElement N))) :
    (evalFnBnode counter memo arg).2.1 = none ∨
      (evalFnBnode counter memo arg).2.1 = some counter.toNat := by
  unfold evalFnBnode
  cases argKey arg with
  | none => exact .inl rfl
  | some key? =>
    cases key? with
    | none => exact .inr rfl
    | some key =>
      cases hkey : memo.current.lookup key with
      | some existing => exact .inl (by simp only [hkey])
      | none => exact .inr (by simp only [hkey])

theorem step_cases (st : BnodeState N) (event : BnodeEvent N) :
    ((st.step event).1 = none ∧ (st.step event).2.counter = st.counter) ∨
      ((st.step event).1 = some st.counter.toNat ∧ (st.step event).2.counter = st.counter + 1) := by
  cases event with
  | install thread => exact .inl ⟨rfl, rfl⟩
  | drop thread =>
    unfold BnodeState.step
    dsimp only
    cases (st.memos thread).suspended with
    | nil | cons => exact .inl ⟨rfl, rfl⟩
  | call thread arg =>
    have hcounter : (st.step (.call thread arg)).2.counter =
        if (evalFnBnode st.counter (st.memos thread) arg).2.1.isSome then st.counter + 1
        else st.counter := rfl
    rcases evalFnBnode_number st.counter (st.memos thread) arg with hnone | hsome
    · exact .inl ⟨hnone, by rw [hcounter, hnone, Option.isSome_none, if_neg Bool.false_ne_true]⟩
    · exact .inr ⟨hsome, by rw [hcounter, hsome, Option.isSome_some, if_pos rfl]⟩

theorem generated_eq (st : BnodeState N) (events : List (BnodeEvent N)) :
    st.generated events = (List.range (st.generated events).length).map fun i =>
      (st.counter.toNat + i) % 2 ^ 32 := by
  induction events generalizing st with
  | nil => rfl
  | cons event events ih =>
    rw [BnodeState.generated]
    rcases step_cases st event with ⟨hnone, hcounter⟩ | ⟨hsome, hcounter⟩
    · rw [hnone, Option.toList_none, List.nil_append, ← hcounter]
      exact ih _
    · rw [hsome, Option.toList_some, List.singleton_append, List.length_cons,
        List.range_succ_eq_map,
        List.map_cons, List.map_map, ih]
      rw [hcounter, List.length_map, List.length_range]
      congr 1
      · rw [Nat.add_zero, Nat.mod_eq_of_lt st.counter.toNat_lt]
      · refine List.map_congr_left fun i _ => ?_
        rw [UInt32.toNat_add, Function.comp_apply, Nat.mod_add_mod, UInt32.toNat_one, Nat.add_assoc,
          Nat.add_comm 1 i]

theorem mem_generated {events : List (BnodeEvent N)} : n ∈ st.generated events ↔
    ∃ i < (st.generated events).length, (st.counter.toNat + i) % 2 ^ 32 = n := by
  have heq := generated_eq st events
  constructor
  · intro hn
    rw [heq, List.mem_map] at hn
    obtain ⟨i, hi, hn⟩ := hn
    exact ⟨i, List.mem_range.mp hi, hn⟩
  · rintro ⟨i, hi, hn⟩
    rw [heq, List.mem_map]
    exact ⟨i, List.mem_range.mpr hi, hn⟩

theorem generated_nodup_iff {events : List (BnodeEvent N)} :
    (st.generated events).Nodup ↔ (st.generated events).length ≤ 2 ^ 32 := by
  have hnodup : (st.generated events).Nodup ↔
      ((List.range (st.generated events).length).map fun i =>
        (st.counter.toNat + i) % 2 ^ 32).Nodup := by rw [← generated_eq]
  rw [hnodup, List.nodup_map_iff_inj_on List.nodup_range,
    ← wrapped_injective_iff st.counter.toNat (Nat.two_pow_pos 32)]
  simp only [List.mem_range]

end Calls

section Freshness

def constructSolutions (ctx : Context N) (dataset : List (DatasetClause N))
    (whereClause : List (QueryComponent N)) : List (PartialSub N) :=
  evalComponents ctx.store.toDatastore (planComponents ctx whereClause) [∅]
    (datasetActiveGraph ctx.store.toDatastore dataset)

def effectiveTemplate (template : List (TriplePattern N)) (whereClause : List (QueryComponent N)) :
    List (TriplePattern N) :=
  if template.isEmpty then collectBgpsFromComponents whereClause else template

/-- The instance of a solution has the number for the label. -/
def Generates (ds : Datastore N) (template : List (TriplePattern N)) (subs : List (PartialSub N))
    (i label n : ℕ) : Prop :=
  ∃ nodes, (solutionNodes ds template 0 subs)[i]? = some nodes ∧ nodes label = some n

/-- A variable of a solution is bound to the blank node. -/
def Binds (ds : Datastore N) (subs : List (PartialSub N)) (n : ℕ) : Prop :=
  ∃ sub ∈ subs, ∃ v, (sub.lookup v).bind (·.resolve ds) = some (blank n)

/-- What the generated blank nodes of a CONSTRUCT query and of the calls of `BNODE` have to be: the
result is the union of the instances of the template, which are renamed apart from each other, from
the store and from what the variables are bound to, the labels that the query writes are kept apart,
and the calls generate new nodes. -/
structure GeneratesFresh (ctx : Context N) (labels : Finset String)
    (template : List (TriplePattern N)) (dataset : List (DatasetClause N))
    (whereClause : List (QueryComponent N)) (st : BnodeState N) (events : List (BnodeEvent N)) :
    Prop where
  union :
    ∃ triples, evaluateQuery ctx (.construct template dataset whereClause) = .construct triples ∧
    ∀ t, t ∈ triples ↔
      let subs := constructSolutions ctx dataset whereClause
      let template := effectiveTemplate template whereClause
      ∃ x ∈ subs.zip (solutionNodes ctx.store.toDatastore template 0 subs),
        t ∈ templateInstance ctx.store.toDatastore template x.1 x.2
  named : ∀ i < (constructSolutions ctx dataset whereClause).length,
    ∀ label ∈ templateLabels (effectiveTemplate template whereClause), ∃ n,
      Generates ctx.store.toDatastore (effectiveTemplate template whereClause)
        (constructSolutions ctx dataset whereClause) i label n
  apart : ∀ i j label label' n,
    Generates ctx.store.toDatastore (effectiveTemplate template whereClause)
      (constructSolutions ctx dataset whereClause) i label n →
    Generates ctx.store.toDatastore (effectiveTemplate template whereClause)
      (constructSolutions ctx dataset whereClause) j label' n → i = j ∧ label = label'
  fresh : ∀ i label n,
    Generates ctx.store.toDatastore (effectiveTemplate template whereClause)
      (constructSolutions ctx dataset whereClause) i label n →
    ¬ ctx.store.resources.HasBlank n ∧
      ¬ Binds ctx.store.toDatastore (constructSolutions ctx dataset whereClause) n ∧
      n ∉ st.generated events
  labelled : ∀ label ∈ labels, ∀ label' ∈ labels, ∀ i n,
    Generates ctx.store.toDatastore (effectiveTemplate template whereClause)
      (constructSolutions ctx dataset whereClause) i (labelId label) n →
    Generates ctx.store.toDatastore (effectiveTemplate template whereClause)
      (constructSolutions ctx dataset whereClause) i (labelId label') n → label = label'
  callsApart : (st.generated events).Nodup
  callsFresh : ∀ n ∈ st.generated events, ¬ ctx.store.resources.HasBlank n

/-- The numbers that the counters will give are free, and no two labels of the template have the
same hash. -/
structure LeavesRoom (ctx : Context N) (labels : Finset String) (template : List (TriplePattern N))
    (dataset : List (DatasetClause N)) (whereClause : List (QueryComponent N)) (st : BnodeState N)
    (events : List (BnodeEvent N)) : Prop where
  nodes : (constructSolutions ctx dataset whereClause).length *
    (templateLabels (effectiveTemplate template whereClause)).card ≤ 2 ^ 32
  free : ∀ n < (constructSolutions ctx dataset whereClause).length *
      (templateLabels (effectiveTemplate template whereClause)).card,
    ¬ ctx.store.resources.HasBlank n ∧
      ¬ Binds ctx.store.toDatastore (constructSolutions ctx dataset whereClause) n ∧
      ∀ i < (st.generated events).length, (st.counter.toNat + i) % 2 ^ 32 ≠ n
  hashes : constructSolutions ctx dataset whereClause ≠ [] → ∀ label ∈ labels, ∀ label' ∈ labels,
    labelId label ∈ templateLabels (effectiveTemplate template whereClause) →
    labelId label = labelId label' → label = label'
  calls : (st.generated events).length ≤ 2 ^ 32
  callsFree : ∀ i < (st.generated events).length,
    ¬ ctx.store.resources.HasBlank ((st.counter.toNat + i) % 2 ^ 32)

variable {ds : Datastore N} {template : List (TriplePattern N)} {subs : List (PartialSub N)}

theorem generates_iff {i label n : ℕ} : Generates ds template subs i label n ↔
    i < subs.length ∧ label ∈ labelOrder template ∧
      (i * (templateLabels template).card + (labelOrder template).idxOf label) % 2 ^ 32 = n := by
  have hget : (solutionNodes ds template 0 subs)[i]? = _ := solutionNodes_getElem? template 0 subs i
  unfold Generates
  rw [hget]
  split_ifs with hi
  · simp only [Option.some.injEq, exists_eq_left', hi, true_and, Nat.zero_add]
    split_ifs with hlabel <;> simp [hlabel]
  · simp [hi]

theorem exists_generates {p : ℕ} (hp : p < subs.length * (templateLabels template).card) :
    ∃ label, Generates ds template subs (p / (templateLabels template).card) label (p % 2 ^ 32) ∧
      (labelOrder template).idxOf label = p % (templateLabels template).card := by
  have hpos : 0 < (templateLabels template).card := by
    by_contra h
    rw [Nat.eq_zero_of_not_pos h] at hp
    omega
  have hmod : p % (templateLabels template).card < (labelOrder template).length := by
    rw [length_labelOrder]
    exact Nat.mod_lt p hpos
  have hnodup : (labelOrder template).Nodup := labelOrder_nodup template
  have hidx :
      (labelOrder template).idxOf (labelOrder template)[p % (templateLabels template).card] =
      p % (templateLabels template).card := List.Nodup.idxOf_getElem hnodup _ hmod
  refine ⟨(labelOrder template)[p % (templateLabels template).card], ?_, hidx⟩
  refine generates_iff.mpr ⟨?_, List.getElem_mem hmod, ?_⟩
  · rwa [Nat.div_lt_iff_lt_mul hpos]
  · rw [hidx, Nat.div_add_mod']

theorem generates_injective_iff :
    (∀ i j label label' n, Generates ds template subs i label n →
      Generates ds template subs j label' n → i = j ∧ label = label') ↔
      subs.length * (templateLabels template).card ≤ 2 ^ 32 := by
  constructor
  · intro h
    refine (wrapped_injective_iff 0 (Nat.two_pow_pos 32)).mp fun p hp q hq hpq => ?_
    rw [Nat.zero_add, Nat.zero_add] at hpq
    obtain ⟨label, hlabel, hidx⟩ := exists_generates hp
    obtain ⟨label', hlabel', hidx'⟩ := exists_generates hq
    rw [← hpq] at hlabel'
    obtain ⟨hrow, rfl⟩ := h _ _ _ _ _ hlabel hlabel'
    rw [← Nat.div_add_mod p (templateLabels template).card, hrow, ← hidx, hidx', Nat.div_add_mod]
  · intro hle i j label label' n hi hj
    rw [generates_iff] at hi hj
    obtain ⟨hi, hlabel, hn⟩ := hi
    obtain ⟨hj, hlabel', hn'⟩ := hj
    have hidx := idxOf_lt_card hlabel
    have hidx' := idxOf_lt_card hlabel'
    have hsame := (wrapped_injective_iff 0 (Nat.two_pow_pos 32)).mpr hle _ (row_lt hi hidx) _
      (row_lt hj hidx') (by rw [Nat.zero_add, Nat.zero_add, hn, hn'])
    obtain ⟨hrow, hcol⟩ := row_injective hidx hidx' hsame
    exact ⟨hrow, (List.idxOf_inj hlabel).mp hcol⟩

/-- Everything that is generated is fresh exactly if the numbers that the counters give are free. -/
theorem generatesFresh_iff (ctx : Context N) (labels : Finset String)
    (template : List (TriplePattern N)) (dataset : List (DatasetClause N))
    (whereClause : List (QueryComponent N)) (st : BnodeState N) (events : List (BnodeEvent N)) :
    GeneratesFresh ctx labels template dataset whereClause st events ↔
      LeavesRoom ctx labels template dataset whereClause st events := by
  constructor
  · intro h
    have hnodes := generates_injective_iff.mp h.apart
    refine ⟨hnodes, fun n hn => ?_, fun hsubs label hlabel label' hlabel' hmem heq => ?_,
      generated_nodup_iff.mp h.callsApart,
      fun i hi => h.callsFresh _ (mem_generated.mpr ⟨i, hi, rfl⟩)⟩
    · obtain ⟨label, hlabel, -⟩ := exists_generates hn
      rw [Nat.mod_eq_of_lt (by omega)] at hlabel
      obtain ⟨hstore, hbound, hcalls⟩ := h.fresh _ _ _ hlabel
      exact ⟨hstore, hbound, fun i hi hi' => hcalls (mem_generated.mpr ⟨i, hi, hi'⟩)⟩
    · obtain ⟨n, hn⟩ := h.named 0 (List.length_pos_iff.mpr hsubs) _ hmem
      exact h.labelled label hlabel label' hlabel' 0 n hn (heq ▸ hn)
  · intro h
    refine ⟨⟨_, rfl, fun t => mem_constructTriples⟩, fun i hi label hlabel => ?_,
      generates_injective_iff.mpr h.nodes, fun i label n hn => ?_,
      fun label hlabel label' hlabel' i n hn hn' => ?_, generated_nodup_iff.mpr h.calls,
      fun n hn => ?_⟩
    · exact ⟨_, generates_iff.mpr ⟨hi, mem_labelOrder.mpr hlabel, rfl⟩⟩
    · obtain ⟨hi, hlabel, rfl⟩ := generates_iff.mp hn
      have hidx := idxOf_lt_card hlabel
      obtain ⟨hstore, hbound, hcalls⟩ := h.free _ ((Nat.mod_le _ _).trans_lt (row_lt hi hidx))
      refine ⟨hstore, hbound, fun hmem => ?_⟩
      obtain ⟨k, hk, heq⟩ := mem_generated.mp hmem
      exact hcalls k hk heq
    · have hsubs : constructSolutions ctx dataset whereClause ≠ [] :=
        List.length_pos_iff.mp (Nat.zero_lt_of_lt (generates_iff.mp hn).1)
      have hmem := mem_labelOrder.mp (generates_iff.mp hn).2.1
      have hsame := (generates_injective_iff.mpr h.nodes i i _ _ n hn hn').2
      exact h.hashes hsubs label hlabel label' hlabel' hmem hsame
    · obtain ⟨i, hi, rfl⟩ := mem_generated.mp hn
      exact h.callsFree i hi

/-- A store that has loaded a blank node. -/
def Context.oneBlank : Context NativeTypes.text :=
  { Context.plain with
    store := ⟨⟨QuadStore.new, GraphElementManager.new.createUnnamedAnonResource.1⟩, QuadStore.new⟩ }

/-- `_:a <http://example.org/p> _:b` -/
def blankPair : TriplePattern NativeTypes.text :=
  ⟨.constant (blank (labelId "a")), .constant (.iri "http://example.org/p"),
    .constant (blank (labelId "b"))⟩

/-- `CONSTRUCT` of two blank nodes reuses the blank node of the store. -/
theorem not_generatesFresh_pair :
    ¬ GeneratesFresh Context.oneBlank {"a", "b"} [blankPair] [] [] ⟨0, fun _ => ⟨∅, []⟩⟩ [] := by
  intro h
  have hsubs : constructSolutions Context.oneBlank [] [] = [∅] := rfl
  have horder : labelOrder [blankPair] = [2147483745, 2147483746] := by decide
  have hgenerates :
      Generates Context.oneBlank.store.toDatastore [blankPair] [∅] 0 2147483746 1 := by
    rw [generates_iff, horder]
    decide
  have hfresh := (h.fresh 0 2147483746 1 hgenerates).1
  exact hfresh ((GraphElementManager.createUnnamedAnonResource_hasBlank _ 1).mpr (.inr rfl))

end Freshness

end RdfDatalog.Sparql
