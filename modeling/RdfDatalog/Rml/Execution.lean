import RdfDatalog.Math.FallibleFold
import RdfDatalog.Rml.TermGeneration

namespace RdfDatalog.Rml

open GraphElementManager Datastore

variable {N : NativeTypes}

section Effects

/-- What a run can start from: labels stand for blank nodes, quads for quads of terms. -/
structure Ready (ds : Datastore N) : Prop where
  labelled : ds.resources.Labelled
  resolvable : ds.Resolvable

/-- The run adds these quads and nothing else, and gives every label in them a blank node. -/
structure Emits (ds ds' : Datastore N) (quads : Set (RmlQuad N)) : Prop where
  ready : Ready ds'
  labels : ds.resources.Labels ds'.resources
  named : ∀ q ∈ quads, ∀ l ∈ q.labels, ∃ n, ds'.resources.Names l n
  terms : ∀ ρ : String → Nat, (∀ l n, ds'.resources.Names l n → ρ l = n) →
    ds'.terms = ds.terms ∪ RmlQuad.toQuad ρ '' quads

variable {ds : Datastore N}

theorem Emits.refl (h : Ready ds) : Emits ds ds ∅ :=
  ⟨h, .refl _, (fun _ hq => by cases hq), fun ρ _ => by rw [Set.image_empty, Set.union_empty]⟩

variable {quads quads' : Set (RmlQuad N)}

theorem Emits.trans {ds' ds'' : Datastore N} (h : Emits ds ds' quads) (h' : Emits ds' ds'' quads') :
    Emits ds ds'' (quads ∪ quads') := by
  refine ⟨h'.ready, h.labels.trans h'.labels, ?_, ?_⟩
  · intro q hq l hl
    rcases hq with hq | hq
    · obtain ⟨n, hn⟩ := h.named q hq l hl
      exact ⟨n, h'.labels.names l n hn⟩
    · exact h'.named q hq l hl
  · intro ρ hρ
    have hmid := h.terms ρ fun l n hn => hρ l n (h'.labels.names l n hn)
    rw [h'.terms ρ hρ, hmid, Set.union_assoc, Set.image_union]

theorem Emits.congr {ds' : Datastore N} (h : Emits ds ds' quads) (heq : ∀ q, q ∈ quads' ↔ q ∈ quads)
    : Emits ds ds' quads' := by
  have hset : quads' = quads := Set.ext heq
  rwa [hset]

theorem emits_foldl {α : Type} {f : Datastore N → α → Datastore N} {quads : α → Set (RmlQuad N)}
    {l : List α} (hds : Ready ds) (hf : ∀ ds, Ready ds → ∀ a ∈ l, Emits ds (f ds a) (quads a)) :
    Emits ds (l.foldl f ds) {q | ∃ a ∈ l, q ∈ quads a} := by
  induction l generalizing ds with
  | nil => exact (Emits.refl hds).congr fun q => by simp
  | cons a l ih =>
    have hhead := hf ds hds a (.head l)
    have htail := ih hhead.ready fun ds hds b hb => hf ds hds b (.tail a hb)
    refine (hhead.trans htail).congr fun q => ?_
    simp

end Effects

section Interning

def Denotes (m : GraphElementManager N) : RmlTerm N → GraphElement N → Prop
  | .iri i, e => e = .iri i
  | .literal l, e => e = .graphLiteral l
  | .blank label, e => ∃ n, m.Names label n ∧ e = .nodeOrEdge (.anonymousBlankNode n)

variable {m : GraphElementManager N} {t : RmlTerm N} {e : GraphElement N}
  {r : Datastore N × Option GraphElementId}

variable {m' : GraphElementManager N}

theorem Denotes.mono (h : m.Labels m') (he : Denotes m t e) :
    Denotes m' t e := by
  cases t with
  | blank label =>
    obtain ⟨n, hn, heq⟩ := he
    exact ⟨n, h.names label n hn, heq⟩
  | _ => exact he

theorem Denotes.resolves {ρ : String → Nat} (hρ : ∀ l n, m.Names l n → ρ l = n) (h : Denotes m t e)
    : m.Resolves e (t.toTerm ρ) := by
  cases t with
  | iri i =>
    rw [show e = .iri i from h]
    exact .iri i
  | literal l =>
    rw [show e = .graphLiteral l from h]
    exact .literal l
  | blank label =>
    obtain ⟨n, hn, rfl⟩ := h
    rw [RmlTerm.toTerm, hρ label n hn]
    exact .blank n

theorem Denotes.named (h : Denotes m t e) {l : String} (hl : l ∈ t.labels) : ∃ n, m.Names l n := by
  cases t with
  | blank label =>
    rw [RmlTerm.labels, List.mem_singleton] at hl
    obtain ⟨n, hn, -⟩ := h
    exact ⟨n, hl ▸ hn⟩
  | _ => cases hl

def Stands (m : GraphElementManager N) (id : GraphElementId) (t : RmlTerm N) : Prop :=
  ∃ e, m.getGraphElement id = some e ∧ Denotes m t e

theorem Stands.mono (h : m.Labels m') {id : GraphElementId} (ht : Stands m id t) :
    Stands m' id t := by
  obtain ⟨e, he, hd⟩ := ht
  exact ⟨e, h.extended.getGraphElement he, hd.mono h⟩

/-- An evaluation leaves the quads alone and gives an id that stands for the term, if any. -/
structure Evaluates (ds : Datastore N) (r : Datastore N × Option GraphElementId)
    (t : Option (RmlTerm N)) : Prop where
  graphs : r.1.namedGraphs = ds.namedGraphs
  labelled : r.1.resources.Labelled
  labels : ds.resources.Labels r.1.resources
  value : Option.Rel (Stands r.1.resources) r.2 t

variable {ds : Datastore N}

theorem Evaluates.ready {t : Option (RmlTerm N)} (h : Evaluates ds r t) (hds : Ready ds) :
    Ready r.1 :=
  ⟨h.labelled, hds.resolvable.extends h.graphs h.labels.extended⟩

theorem Evaluates.emits {t : Option (RmlTerm N)} (h : Evaluates ds r t) (hds : Ready ds) :
    Emits ds r.1 ∅ := by
  refine ⟨h.ready hds, h.labels, (fun _ hq => by cases hq), fun ρ _ => ?_⟩
  rw [Set.image_empty, Set.union_empty]
  exact terms_extends hds.resolvable h.graphs h.labels.extended

theorem evaluates_none (hds : Ready ds) : Evaluates ds (ds, none) none :=
  ⟨rfl, hds.labelled, .refl _, .none⟩

theorem evaluates_addResource (hds : Ready ds)
    (hblank : ∀ n, e ≠ .nodeOrEdge (.anonymousBlankNode n))
    (he : ∀ m : GraphElementManager N, Denotes m t e) :
    Evaluates ds ((ds.addResource e).1, some (ds.addResource e).2) (some t) :=
  ⟨rfl, hds.labelled.addResource hblank, labels_addResource hds.labelled.named e,
    .some ⟨e, addResource_get ds.resources e, he _⟩⟩

theorem evaluates_internTerm (hds : Ready ds) (termType : TermType) (language : Option String)
    (datatype : Option IriReference) (lexical : String) :
    Evaluates ds (internTerm ds termType language datatype lexical)
      (termOfLexical termType language datatype lexical) := by
  cases termType with
  | iri =>
    unfold internTerm termOfLexical
    dsimp only
    split_ifs with hscheme
    · exact evaluates_addResource hds (fun n h => by cases h) fun _ => rfl
    · exact evaluates_none hds
  | blankNode =>
    obtain ⟨hlabelled, hlabels, n, hn, hget⟩ := getOrCreateNamed_labels hds.labelled lexical
    exact ⟨rfl, hlabelled, hlabels, .some ⟨_, hget, n, hn, rfl⟩⟩
  | literal => exact evaluates_addResource hds (fun n h => by cases h) fun _ => rfl

end Interning

section Rows

variable (functions : StringFunctions)

def GenerationLogic.Valid : GenerationLogic N → Prop
  | .constant (.nodeOrEdge (.iri _)) => True
  | .constant (.graphLiteral _) => True
  | .constant _ => False
  | .dynamic _ => True
  | .function _ => False

variable {ds : Datastore N}

theorem evaluates_evalLogic (hds : Ready ds) {logic : GenerationLogic N} (hvalid : logic.Valid)
    (row : SourceRow) :
    Evaluates ds (evalLogic functions logic row ds) (logic.term? row) := by
  match logic, hvalid with
  | .constant (.nodeOrEdge (.iri i)), _ =>
    exact evaluates_addResource hds (fun n h => by cases h) fun _ => rfl
  | .constant (.graphLiteral l), _ =>
    exact evaluates_addResource hds (fun n h => by cases h) fun _ => rfl
  | .dynamic ff, _ =>
    rw [evalLogic, evalFormatFunction, GenerationLogic.term?]
    cases ff.lexical row with
    | none => exact evaluates_none hds
    | some lexical => exact evaluates_internTerm hds ff.termType ff.language ff.datatype lexical

def attrTerm (attrs : Attrs N) (target : OutputAttr) (row : SourceRow) : Option (RmlTerm N) :=
  (attrs.find? (·.1 = target)).bind fun a => a.2.term? row

variable {attrs : Attrs N}

theorem evaluates_evalAttr (hds : Ready ds) (hvalid : ∀ a ∈ attrs, a.2.Valid) (target : OutputAttr)
    (row : SourceRow) :
    Evaluates ds (evalAttr functions attrs target row ds) (attrTerm attrs target row) := by
  rw [evalAttr, attrTerm]
  cases hfind : attrs.find? (·.1 = target) with
  | none => exact evaluates_none hds
  | some a =>
    exact evaluates_evalLogic functions hds (hvalid a (List.mem_of_find?_eq_some hfind)) row

def emitted (attrs : Attrs N) (childRow parentRow : SourceRow) : Option (RmlQuad N) := do
  let s ← attrTerm attrs .subject childRow
  let p ← attrTerm attrs .predicate childRow
  let o ← attrTerm attrs .object parentRow
  return ⟨(attrTerm attrs .graph childRow).getD defaultGraphTerm, s, p, o⟩

theorem emitted_iff {childRow parentRow : SourceRow} {q : RmlQuad N} :
    emitted attrs childRow parentRow = some q ↔
      attrTerm attrs .subject childRow = some q.subject ∧
      attrTerm attrs .predicate childRow = some q.predicate ∧
      attrTerm attrs .object parentRow = some q.obj ∧
      q.graph = (attrTerm attrs .graph childRow).getD defaultGraphTerm := by
  cases q with
  | mk g s p o =>
    simp only [emitted, Option.bind_eq_bind, Option.bind_eq_some_iff, Option.pure_def,
      Option.some.injEq, RmlQuad.mk.injEq]
    constructor
    · intro ⟨s', hs, p', hp, o', ho, hg, hs', hp', ho'⟩
      subst hs' hp' ho'
      exact ⟨hs, hp, ho, hg.symm⟩
    · intro ⟨hs, hp, ho, hg⟩
      exact ⟨s, hs, p, hp, o, ho, hg.symm, rfl, rfl, rfl⟩

theorem emits_addQuad (hds : Ready ds) {g s p o : GraphElementId} {q : RmlQuad N}
    (hg : Stands ds.resources g q.graph) (hs : Stands ds.resources s q.subject)
    (hp : Stands ds.resources p q.predicate) (ho : Stands ds.resources o q.obj) :
    Emits ds (ds.addQuad ⟨g, s, p, o⟩) {q} := by
  obtain ⟨ge, hg, hgd⟩ := hg
  obtain ⟨se, hs, hsd⟩ := hs
  obtain ⟨pe, hp, hpd⟩ := hp
  obtain ⟨oe, ho, hod⟩ := ho
  have hquad : ds.resources.getResourceQuad ⟨g, s, p, o⟩ = some ⟨ge, se, pe, oe⟩ :=
    getResourceQuad_eq_some.mpr ⟨hg, hs, hp, ho⟩
  have hresolves (ρ : String → Nat) (hρ : ∀ l n, ds.resources.Names l n → ρ l = n) :
      ds.resources.ResolvesQuad ⟨ge, se, pe, oe⟩ (q.toQuad ρ) :=
    ⟨hgd.resolves hρ, hsd.resolves hρ, hpd.resolves hρ, hod.resolves hρ⟩
  classical
  let ρ₀ (l : String) : Nat := if h : ∃ n, ds.resources.Names l n then h.choose else 0
  have hρ₀ : ∀ l n, ds.resources.Names l n → ρ₀ l = n := by
    intro l n hn
    have hex : ∃ n, ds.resources.Names l n := ⟨n, hn⟩
    have hval : ρ₀ l = hex.choose := dif_pos hex
    rw [hval]
    exact hex.choose_spec.unique hn
  refine ⟨⟨hds.labelled, hds.resolvable.addQuad hquad (hresolves ρ₀ hρ₀)⟩, .refl _, ?_, ?_⟩
  · intro q' hq' l hl
    rw [Set.mem_singleton_iff] at hq'
    subst hq'
    simp only [RmlQuad.labels, List.mem_append] at hl
    rcases hl with ((hl | hl) | hl) | hl
    · exact hgd.named hl
    · exact hsd.named hl
    · exact hpd.named hl
    · exact hod.named hl
  · intro ρ hρ
    rw [terms_addQuad hquad (hresolves ρ hρ), Set.image_singleton]

theorem emits_executeJoinRow (hds : Ready ds) (hvalid : ∀ a ∈ attrs, a.2.Valid)
    (childRow parentRow : SourceRow) :
    Emits ds (executeJoinRow functions attrs childRow parentRow ds)
      {q | emitted attrs childRow parentRow = some q} := by
  have hs := evaluates_evalAttr functions hds hvalid .subject childRow
  have hp := evaluates_evalAttr functions (hs.ready hds) hvalid .predicate childRow
  have hready := hp.ready (hs.ready hds)
  have ho := evaluates_evalAttr functions hready hvalid .object parentRow
  have hready' := ho.ready hready
  have hg := evaluates_evalAttr functions hready' hvalid .graph childRow
  have hnothing := ((hs.emits hds).trans (hp.emits (hs.ready hds))).trans (ho.emits hready)
  rw [executeJoinRow]
  dsimp only
  generalize evalAttr functions attrs .graph childRow _ = rg at hg
  generalize evalAttr functions attrs .object parentRow _ = ro at ho hready' hnothing hg
  generalize evalAttr functions attrs .predicate childRow _ = rp at hp hready hnothing ho
  generalize evalAttr functions attrs .subject childRow ds = rs at hs hnothing hp
  obtain ⟨dss, s⟩ := rs
  obtain ⟨dsp, p⟩ := rp
  obtain ⟨dso, o⟩ := ro
  obtain ⟨dsg, g⟩ := rg
  dsimp only at hs hp ho hg hready hready' hnothing ⊢
  have hempty : Emits ds dso ∅ := hnothing.congr fun q => by simp
  have hmissing (h : ∀ q, emitted attrs childRow parentRow ≠ some q) :
      Emits ds dso {q | emitted attrs childRow parentRow = some q} :=
    hempty.congr fun q => ⟨fun hq => absurd hq (h q), fun hq => by cases hq⟩
  have hsv := hs.value
  have hpv := hp.value
  have hov := ho.value
  have hgv := hg.value
  generalize hts : attrTerm attrs .subject childRow = ts at hsv
  generalize htp : attrTerm attrs .predicate childRow = tp at hpv
  generalize hto : attrTerm attrs .object parentRow = tobj at hov
  generalize htg : attrTerm attrs .graph childRow = tg at hgv
  cases hsv with
  | none =>
    refine hmissing fun q hq => ?_
    have hsubject := (emitted_iff.mp hq).1
    rw [hts] at hsubject
    cases hsubject
  | @some s ts hs' =>
    cases hpv with
    | none =>
      refine hmissing fun q hq => ?_
      have hpredicate := (emitted_iff.mp hq).2.1
      rw [htp] at hpredicate
      cases hpredicate
    | @some p tp hp' =>
      cases hov with
      | none =>
        refine hmissing fun q hq => ?_
        have hobject := (emitted_iff.mp hq).2.2.1
        rw [hto] at hobject
        cases hobject
      | @some o tobj ho' =>
        have hquad (q : RmlQuad N) : emitted attrs childRow parentRow = some q ↔
            q = ⟨tg.getD defaultGraphTerm, ts, tp, tobj⟩ := by
          cases q
          simp only [emitted_iff, hts, htp, hto, htg, Option.some.injEq, RmlQuad.mk.injEq]
          constructor
          · intro ⟨hs, hp, ho, hg⟩
            exact ⟨hg, hs.symm, hp.symm, ho.symm⟩
          · intro ⟨hg, hs, hp, ho⟩
            exact ⟨hs.symm, hp.symm, ho.symm, hg⟩
        have hlabels := ho.labels.trans hg.labels
        have hsubject := hs'.mono (hp.labels.trans hlabels)
        have hpredicate := hp'.mono hlabels
        have hobject := ho'.mono hg.labels
        have hgraphs := hempty.trans (hg.emits hready')
        have hadd : Emits dsg (emitTriple s p o g dsg)
            {⟨tg.getD defaultGraphTerm, ts, tp, tobj⟩} := by
          cases hgv with
          | none =>
            have hdefault : Stands dsg.resources defaultGraphElementId defaultGraphTerm :=
              ⟨_, dsg.resources.defaultGraph, rfl⟩
            exact emits_addQuad (hg.ready hready') hdefault hsubject hpredicate hobject
          | some hgraph =>
            exact emits_addQuad (hg.ready hready') hgraph hsubject hpredicate hobject
        refine (hgraphs.trans hadd).congr fun q => ?_
        rw [Set.mem_ofPred_eq, hquad]
        simp

end Rows

section Joins

variable {conditions : List JoinCondition}

/-- The two rows have the same values in the columns of every condition. -/
def JoinsOn (conditions : List JoinCondition) (childRow parentRow : SourceRow) : Prop :=
  ∀ c ∈ conditions, ∃ v, childRow c.leftColumn = some v ∧ parentRow c.rightColumn = some v

theorem mapM_agree_iff {α β : Type} {f g : α → Option β} {l : List α} {ys : List β}
    (hf : l.mapM f = some ys) :
    l.mapM g = some ys ↔ ∀ a ∈ l, ∃ y, f a = some y ∧ g a = some y := by
  rw [FallibleFold.mapM_eq_some_iff] at hf ⊢
  induction hf with
  | nil => simp
  | @cons a y l ys ha _ ih =>
    rw [List.forall₂_cons, ih, List.forall_mem_cons]
    refine and_congr_left fun _ => ⟨fun hg => ⟨y, ha, hg⟩, fun h => ?_⟩
    obtain ⟨y', hy', hg⟩ := h
    cases ha.symm.trans hy'
    exact hg

variable {childRow : SourceRow}

variable {parentRow : SourceRow}

theorem joinKey_eq_iff {key : List String} (h : joinKey conditions childRow .child = some key) :
    joinKey conditions parentRow .parent = some key ↔ JoinsOn conditions childRow parentRow :=
  mapM_agree_iff h

theorem exists_joinKey (h : JoinsOn conditions childRow parentRow) :
    ∃ key, joinKey conditions childRow .child = some key := by
  induction conditions with
  | nil => exact ⟨[], rfl⟩
  | cons c conditions ih =>
    obtain ⟨hc, hrest⟩ := List.forall_mem_cons.mp h
    obtain ⟨v, hv, -⟩ := hc
    obtain ⟨key, hkey⟩ := ih hrest
    refine ⟨v :: key, ?_⟩
    rw [joinKey] at hkey ⊢
    simp only [List.mapM_cons, hv, hkey]
    rfl

theorem mem_bucket_indexRow (index : BucketIndex.Flat (List String) Nat)
    (entry : SourceRow × Nat) (key : List String) (idx : Nat) :
    idx ∈ (indexRow conditions index entry).bucket key ↔
      idx ∈ index.bucket key ∨ joinKey conditions entry.1 .parent = some key ∧ idx = entry.2 := by
  rw [indexRow]
  cases joinKey conditions entry.1 .parent with
  | none => simp
  | some key' =>
    dsimp only
    rw [BucketIndex.Flat.push, BucketIndex.Flat.bucket_insert]
    split_ifs with hkey
    · subst hkey
      simp
    · simp [Ne.symm hkey]

variable (parentRows : List SourceRow)

theorem mem_bucket_parentIndex (key : List String) (idx : Nat) :
    idx ∈ (parentIndex conditions parentRows).bucket key ↔
      ∃ row, parentRows[idx]? = some row ∧ joinKey conditions row .parent = some key := by
  have hfold (entries : List (SourceRow × Nat)) (index : BucketIndex.Flat (List String) Nat) :
      idx ∈ (entries.foldl (indexRow conditions) index).bucket key ↔
        idx ∈ index.bucket key ∨
          ∃ row, (row, idx) ∈ entries ∧ joinKey conditions row .parent = some key := by
    induction entries generalizing index with
    | nil => simp
    | cons entry entries ih =>
      rw [List.foldl_cons, ih, mem_bucket_indexRow, or_assoc]
      refine or_congr_right ⟨?_, ?_⟩
      · intro h
        rcases h with ⟨hkey, hidx⟩ | ⟨row, hrow, hkey⟩
        · exact ⟨entry.1, by rw [hidx]; exact List.mem_cons_self, hkey⟩
        · exact ⟨row, .tail _ hrow, hkey⟩
      · rintro ⟨row, hrow, hkey⟩
        rcases List.mem_cons.mp hrow with rfl | hrow
        · exact .inl ⟨hkey, rfl⟩
        · exact .inr ⟨row, hrow, hkey⟩
  rw [parentIndex, hfold]
  simp [BucketIndex.Flat.bucket, List.mem_zipIdx_iff_getElem?]

theorem probe_of_key {key : List String}
    (h : joinKey conditions childRow .child = some key) :
    probe conditions parentRows childRow =
      ((parentIndex conditions parentRows).bucket key).filterMap fun idx => parentRows[idx]? := by
  unfold probe
  rw [h]
  dsimp only
  rw [BucketIndex.Flat.bucket]
  cases (parentIndex conditions parentRows).lookup key <;> rfl

theorem mem_probe (childRow parentRow : SourceRow) :
    parentRow ∈ probe conditions parentRows childRow ↔
      parentRow ∈ parentRows ∧ JoinsOn conditions childRow parentRow := by
  cases hkey : joinKey conditions childRow .child with
  | none =>
    have hnil : probe conditions parentRows childRow = [] := by
      unfold probe
      rw [hkey]
    rw [hnil]
    simp only [List.not_mem_nil, false_iff, not_and]
    intro _ hjoins
    obtain ⟨key, h⟩ := exists_joinKey hjoins
    rw [hkey] at h
    cases h
  | some key =>
    rw [probe_of_key parentRows hkey]
    simp only [List.mem_filterMap, mem_bucket_parentIndex]
    constructor
    · intro ⟨idx, ⟨row, hrow, hrowKey⟩, hparent⟩
      cases hrow.symm.trans hparent
      exact ⟨List.mem_of_getElem? hrow, (joinKey_eq_iff hkey).mp hrowKey⟩
    · intro ⟨hmem, hjoins⟩
      obtain ⟨idx, hidx⟩ := List.getElem?_of_mem hmem
      exact ⟨idx, ⟨parentRow, hidx, (joinKey_eq_iff hkey).mpr hjoins⟩, hidx⟩

end Joins

section Plans

def scanOf (source : LogicalSource) : LogicalScan :=
  ⟨source.source, source.referenceFormulation, source.iterator⟩

/-- The sources hold the rows of these tables, and a database answers a query for a join on some
columns with the pairs of rows that agree on them. -/
structure Sources.Hold (sources : Sources) (tables : Tables) : Prop where
  rows : ∀ source, sources.scanRows (scanOf source) = .ok (tables source)
  pushdown :
    ∀ (child parent : LogicalSource) (c p : SqlSourceRef) (conditions : List JoinCondition),
    child.source = .sql c → parent.source = .sql p → conditions ≠ [] →
    ∃ pairs, sources.runPushdown c p conditions = .ok pairs ∧
      ∀ pair, pair ∈ pairs ↔ pair.1 ∈ tables child ∧ pair.2 ∈ tables parent ∧
        JoinsOn conditions pair.1 pair.2

variable {functions : StringFunctions} {sources : Sources} {tables : Tables} {ds : Datastore N}
  {attrs : Attrs N}

theorem emits_scanPlan (hsources : sources.Hold tables) (hds : Ready ds)
    (hvalid : ∀ a ∈ attrs, a.2.Valid) (source : LogicalSource) :
    ∃ ds', executePlan functions sources ds (.projection (.scan (scanOf source)) attrs) = .ok ds' ∧
      Emits ds ds' {q | ∃ row ∈ tables source, emitted attrs row row = some q} := by
  have hfold := emits_foldl (l := tables source) hds fun ds hds row _ =>
    emits_executeJoinRow functions hds hvalid row row
  refine ⟨_, ?_, hfold⟩
  rw [executePlan, hsources.rows]
  rfl

theorem sourceRef_of_pushdown {child parent : LogicalSourceRef}
    (h : chooseJoinAlgorithm child parent = .sqlPushdown) :
    ∃ c p, child = .sql c ∧ parent = .sql p := by
  cases child with
  | file _ => cases h
  | sql c =>
    cases parent with
    | file _ => cases h
    | sql p => exact ⟨c, p, rfl, rfl⟩

theorem emits_joinPlan (hsources : sources.Hold tables) (hds : Ready ds)
    (hvalid : ∀ a ∈ attrs, a.2.Valid) (child parent : LogicalSource)
    {conditions : List JoinCondition}
    (hconditions : conditions = [] → chooseJoinAlgorithm child.source parent.source = .hashJoin) :
    ∃ ds', executePlan functions sources ds (.projection (.join (.scan (scanOf child))
        (.scan (scanOf parent)) conditions (chooseJoinAlgorithm child.source parent.source))
        attrs) = .ok ds' ∧
      Emits ds ds' {q | ∃ childRow ∈ tables child, ∃ parentRow ∈ tables parent,
        JoinsOn conditions childRow parentRow ∧ emitted attrs childRow parentRow = some q} := by
  rw [executePlan, executeJoin]
  split_ifs with halgorithm
  · obtain ⟨c, p, hc, hp⟩ := sourceRef_of_pushdown halgorithm
    have hne : conditions ≠ [] := by
      intro hnil
      rw [hconditions hnil] at halgorithm
      cases halgorithm
    obtain ⟨pairs, hrun, hpairs⟩ := hsources.pushdown child parent c p conditions hc hp hne
    have hfold := emits_foldl (l := pairs) hds fun ds hds pair _ =>
      emits_executeJoinRow functions hds hvalid pair.1 pair.2
    refine ⟨_, ?_, hfold.congr fun q => ?_⟩
    · simp only [executeSqlPushdownJoin, sqlSourceRef, scanOf, hc, hp]
      change (sources.runPushdown c p conditions >>= _) = _
      rw [hrun]
      rfl
    · constructor
      · intro ⟨childRow, hchild, parentRow, hparent, hjoins, hq⟩
        exact ⟨(childRow, parentRow), (hpairs _).mpr ⟨hchild, hparent, hjoins⟩, hq⟩
      · intro ⟨pair, hpair, hq⟩
        obtain ⟨hchild, hparent, hjoins⟩ := (hpairs pair).mp hpair
        exact ⟨pair.1, hchild, pair.2, hparent, hjoins, hq⟩
  · have hfold := emits_foldl (l := tables child) hds fun ds hds childRow _ =>
      emits_foldl (l := probe conditions (tables parent) childRow) hds fun ds hds parentRow _ =>
        emits_executeJoinRow functions hds hvalid childRow parentRow
    refine ⟨_, ?_, hfold.congr fun q => ?_⟩
    · rw [hsources.rows, hsources.rows]
      rfl
    · constructor
      · intro ⟨childRow, hchild, parentRow, hparent, hjoins, hq⟩
        exact ⟨childRow, hchild, parentRow, (mem_probe _ _ _).mpr ⟨hparent, hjoins⟩, hq⟩
      · intro ⟨childRow, hchild, parentRow, hprobe, hq⟩
        obtain ⟨hparent, hjoins⟩ := (mem_probe _ _ _).mp hprobe
        exact ⟨childRow, hchild, parentRow, hparent, hjoins, hq⟩

/-- Started from anything it can start from, the plans succeed and add these quads. -/
def Runs (functions : StringFunctions) (sources : Sources) (plans : List (LogicalPlan N))
    (quads : Set (RmlQuad N)) : Prop :=
  ∀ ds, Ready ds → ∃ ds', execute functions sources plans ds = .ok ds' ∧ Emits ds ds' quads

variable {plans plans' : List (LogicalPlan N)} {quads quads' : Set (RmlQuad N)}

theorem Runs.nil : Runs functions sources ([] : List (LogicalPlan N)) ∅ :=
  fun ds hds => ⟨ds, rfl, .refl hds⟩

theorem Runs.congr (h : Runs functions sources plans quads) (heq : ∀ q, q ∈ quads' ↔ q ∈ quads) :
    Runs functions sources plans quads' := by
  intro ds hds
  obtain ⟨ds', hrun, hemits⟩ := h ds hds
  exact ⟨ds', hrun, hemits.congr heq⟩

theorem Runs.append (h : Runs functions sources plans quads)
    (h' : Runs functions sources plans' quads') :
    Runs functions sources (plans ++ plans') (quads ∪ quads') := by
  intro ds hds
  obtain ⟨ds', hrun, hemits⟩ := h ds hds
  obtain ⟨ds'', hrun', hemits'⟩ := h' ds' hemits.ready
  refine ⟨ds'', ?_, hemits.trans hemits'⟩
  rw [execute, List.foldlM_append]
  rw [execute] at hrun hrun'
  rw [hrun]
  exact hrun'

theorem Runs.of_plan {plan : LogicalPlan N} (h : ∀ ds, Ready ds → ∃ ds',
      executePlan functions sources ds plan = .ok ds' ∧ Emits ds ds' quads) :
    Runs functions sources [plan] quads := by
  intro ds hds
  obtain ⟨ds', hrun, hemits⟩ := h ds hds
  refine ⟨ds', ?_, hemits⟩
  rw [execute, List.foldlM_cons, hrun]
  rfl

theorem Runs.flatten_map {α : Type} {f : α → List (LogicalPlan N)} {quads : α → Set (RmlQuad N)}
    {l : List α} (h : ∀ a ∈ l, Runs functions sources (f a) (quads a)) :
    Runs functions sources (l.map f).flatten {q | ∃ a ∈ l, q ∈ quads a} := by
  induction l with
  | nil => exact Runs.nil.congr fun q => by simp
  | cons a l ih =>
    have hrest := ih fun b hb => h b (.tail a hb)
    exact ((h a (.head l)).append hrest).congr fun q => by simp

theorem Runs.map {α : Type} {f : α → LogicalPlan N} {quads : α → Set (RmlQuad N)} {l : List α}
    (h : ∀ a ∈ l, Runs functions sources [f a] (quads a)) :
    Runs functions sources (l.map f) {q | ∃ a ∈ l, q ∈ quads a} := by
  induction l with
  | nil => exact Runs.nil.congr fun q => by simp
  | cons a l ih =>
    have hrest := ih fun b hb => h b (.tail a hb)
    exact ((h a (.head l)).append hrest).congr fun q => by simp

end Plans

end RdfDatalog.Rml
