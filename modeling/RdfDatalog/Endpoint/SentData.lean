import RdfDatalog.Endpoint.NamesKept

namespace RdfDatalog

open GraphElement

namespace GraphElement

variable {N : NativeTypes}

def isTripleTerm : GraphElement N → Bool
  | .tripleTerm _ => true
  | _ => false

theorem exists_term {e : GraphElement N} (he : e.isTripleTerm = false) :
    ∃ t, ∀ m : GraphElementManager N, m.Resolves e t := by
  cases e with
  | nodeOrEdge r =>
    cases r with
    | iri i => exact ⟨_, fun m => .iri i⟩
    | anonymousBlankNode n => exact ⟨_, fun m => .blank n⟩
  | graphLiteral l => exact ⟨_, fun m => .literal l⟩
  | tripleTerm k => cases he

end GraphElement

namespace GraphElementManager

variable {N : NativeTypes} {m m' : GraphElementManager N}

/-- No interned element embeds a triple. -/
def NoTripleTerms (m : GraphElementManager N) : Prop :=
  ∀ id e, m.getGraphElement id = some e → e.isTripleTerm = false

theorem noTripleTerms_new : (Datastore.new : Datastore N).resources.NoTripleTerms := by
  intro id e he
  have hmem : e ∈ (Datastore.new : Datastore N).resources.resourceList :=
    List.mem_of_getElem? he
  have hlist : (Datastore.new : Datastore N).resources.resourceList = [.iri defaultGraphIri] := rfl
  rw [hlist, List.mem_singleton] at hmem
  rw [hmem]
  rfl

theorem NoTripleTerms.addResource (h : m.NoTripleTerms) {e : GraphElement N}
    (he : e.isTripleTerm = false) : (m.addResource e).1.NoTripleTerms := by
  intro id e' he'
  have hmem : e' ∈ (m.addResource e).1.resourceList := List.mem_of_getElem? he'
  rw [GraphElementManager.addResource] at hmem
  split at hmem
  · obtain ⟨i, hi⟩ := List.getElem?_of_mem hmem
    exact h i e' hi
  · rcases List.mem_append.mp hmem with hmem | hmem
    · obtain ⟨i, hi⟩ := List.getElem?_of_mem hmem
      exact h i e' hi
    · rw [List.mem_singleton.mp hmem]
      exact he

theorem NoTripleTerms.getOrCreateNamed (h : m.NoTripleTerms) (name : String) :
    (m.getOrCreateNamedAnonResource name).1.NoTripleTerms := by
  rw [getOrCreateNamedAnonResource]
  cases m.anonResourceMap.lookup name with
  | some id => exact h
  | none =>
    let m₁ : GraphElementManager N := { m with anonResourceCount := m.anonResourceCount + 1 }
    have hm₁ : m₁.NoTripleTerms := h
    exact NoTripleTerms.addResource hm₁ rfl

def StandsFor (m : GraphElementManager N) (q : Quad) (t : TermQuad N) : Prop :=
  ∃ r, m.getResourceQuad q = some r ∧ m.ResolvesQuad r t

variable {q : Quad} {t : TermQuad N}

variable (h : m.StandsFor q t)

include h

theorem StandsFor.extends (hext : m.Extends m') : m'.StandsFor q t := by
  obtain ⟨r, hr, ht⟩ := h
  exact ⟨r, hext.getResourceQuad hr, ht.extends hext⟩

theorem StandsFor.unique {t' : TermQuad N} (h' : m.StandsFor q t') :
    t = t' := by
  obtain ⟨r, hr, ht⟩ := h
  obtain ⟨r', hr', ht'⟩ := h'
  cases hr.symm.trans hr'
  exact ht.unique ht'

theorem StandsFor.inj {q' : Quad} (h' : m.StandsFor q' t) : q = q' := by
  obtain ⟨r, hr, ht⟩ := h
  obtain ⟨r', hr', ht'⟩ := h'
  cases ht.inj ht'
  exact getResourceQuad_inj hr hr'

theorem StandsFor.interned : m.Interned q := by
  obtain ⟨r, hr, -⟩ := h
  exact Interned.of_eq_some hr

omit h

theorem NoTripleTerms.exists_termQuad (h : m.NoTripleTerms) {r : QuadResource N}
    (hr : m.getResourceQuad q = some r) :
    ∃ t, ∀ m' : GraphElementManager N, m'.ResolvesQuad r t := by
  obtain ⟨hg, hs, hp, ho⟩ := getResourceQuad_eq_some.mp hr
  obtain ⟨tg, htg⟩ := exists_term (h _ _ hg)
  obtain ⟨ts, hts⟩ := exists_term (h _ _ hs)
  obtain ⟨tp, htp⟩ := exists_term (h _ _ hp)
  obtain ⟨tobj, hto⟩ := exists_term (h _ _ ho)
  exact ⟨⟨tg, ts, tp, tobj⟩, fun m' => ⟨htg m', hts m', htp m', hto m'⟩⟩

end GraphElementManager

namespace Endpoint

open GraphElementManager

variable {N : NativeTypes} {Expr : Type}

section Blocks

def OxTerm.isTriple : OxTerm → Bool
  | .triple _ _ _ => true
  | _ => false

variable {ds : Datastore N}

variable (h : ds.resources.NoTripleTerms)

include h

theorem noTripleTerms_internBlankNode (name : String) :
    (internBlankNode ds name).1.resources.NoTripleTerms :=
  h.getOrCreateNamed name

theorem noTripleTerms_internSubject (subject : NamedOrBlankNode) :
    (internSubject ds subject).1.resources.NoTripleTerms := by
  cases subject with
  | namedNode iri => exact NoTripleTerms.addResource h rfl
  | blankNode name => exact noTripleTerms_internBlankNode h name

theorem noTripleTerms_internTerm {object : OxTerm}
    (hobject : object.isTriple = false) :
    (internTerm ds object).1.resources.NoTripleTerms := by
  cases object with
  | namedNode | literal => exact NoTripleTerms.addResource h rfl
  | blankNode name => exact noTripleTerms_internBlankNode h name
  | triple s p o => cases hobject

theorem noTripleTerms_internGraphName (graphName : GraphName) :
    (internGraphName ds graphName).1.resources.NoTripleTerms := by
  cases graphName with
  | defaultGraph => exact h
  | namedNode iri => exact NoTripleTerms.addResource h rfl
  | blankNode name => exact noTripleTerms_internBlankNode h name

theorem noTripleTerms_addOxQuad {quad : OxQuad}
    (hquad : quad.object.isTriple = false) :
    (addOxQuad ds quad).resources.NoTripleTerms := by
  have hs := noTripleTerms_internSubject h quad.subject
  have hp : (internNamedNode (internSubject ds quad.subject).1
      quad.predicate).1.resources.NoTripleTerms := NoTripleTerms.addResource hs rfl
  have ho := noTripleTerms_internTerm hp hquad
  rw [addOxQuad]
  dsimp only
  cases hterm : internTerm (internNamedNode (internSubject ds quad.subject).1 quad.predicate).1
      quad.object with
  | mk ds' obj =>
    rw [hterm] at ho
    cases obj with
    | none => exact ho
    | some obj => exact noTripleTerms_internGraphName ho quad.graphName

omit h

theorem parseTurtleContent_noTripleTerms {trigParser : String → Except String (List OxQuad)}
    {content : String} {prefixes : Prefixes} {tmp : Datastore N}
    (hplain : ∀ quads, trigParser (dataBody content prefixes) = .ok quads →
      ∀ quad ∈ quads, quad.object.isTriple = false)
    (h : parseTurtleContent trigParser content prefixes = .ok tmp) :
    tmp.resources.NoTripleTerms := by
  have hfold (quads : List OxQuad) (hquads : ∀ quad ∈ quads, quad.object.isTriple = false)
      {ds : Datastore N} (hds : ds.resources.NoTripleTerms) :
      (quads.foldl addOxQuad ds).resources.NoTripleTerms := by
    induction quads generalizing ds with
    | nil => exact hds
    | cons quad quads ih =>
      have hstep := noTripleTerms_addOxQuad hds (hquads quad List.mem_cons_self)
      exact ih (fun q hq => hquads q (List.mem_cons_of_mem _ hq)) hstep
  unfold parseTurtleContent parseTrig at h
  cases hp : trigParser (dataBody content prefixes) with
  | error e => simp [hp, Except.map] at h
  | ok quads =>
    rw [hp] at h
    obtain rfl := Except.ok.inj h
    exact hfold quads (hplain quads hp) noTripleTerms_new

end Blocks

section Sent

/-- Whether a data block inserts or deletes. -/
inductive BlockKind where
  | insert
  | delete

/-- The data block of an operation: its kind, its text and its prefixes. -/
def UpdateOp.block? : UpdateOp → Option (BlockKind × String × Prefixes)
  | .insertData content prefixes => some (.insert, content, prefixes)
  | .deleteData content prefixes => some (.delete, content, prefixes)
  | _ => none

def HasBlock (env : ServerEnv N Expr) (updateStr : String) (kind : BlockKind) (content : String)
    (prefixes : Prefixes) : Prop :=
  ∃ ops, env.parseUpdate updateStr = .ok ops ∧
    ∃ op ∈ ops, op.block? = some (kind, content, prefixes)

/-- The quad stands in a data block of the update. -/
def Sends (env : ServerEnv N Expr) (updateStr : String) (kind : BlockKind) (t : TermQuad N) :
    Prop :=
  ∃ content prefixes tmp, HasBlock env updateStr kind content prefixes ∧
    parseTurtleContent env.trigParser content prefixes = .ok tmp ∧
    ∃ r ∈ tmp.resolved, tmp.resources.ResolvesQuad r t

def NoEmbeddedTriples (env : ServerEnv N Expr) (updateStr : String) : Prop :=
  ∀ kind content prefixes, HasBlock env updateStr kind content prefixes →
    ∀ quads, env.trigParser (dataBody content prefixes) = .ok quads →
      ∀ quad ∈ quads, quad.object.isTriple = false

/-- The parsed data block that a prepared operation carries. -/
def PreparedOp.block? : PreparedOp N → Option (BlockKind × Datastore N)
  | .insertData tmp => some (.insert, tmp)
  | .deleteData tmp => some (.delete, tmp)
  | _ => none

variable {dataset : String} {store tmp : Datastore N} {entries : List LogEntry} {kind : BlockKind}
  {prepared : List (PreparedOp N)} {m : GraphElementManager N} {quads : List Quad}

theorem prepareOp_block {trigParser : String → Except String (List OxQuad)} {op : UpdateOp}
    {prepared : PreparedOp N} (h : prepareOp trigParser dataset store op = .ok (prepared, entries))
    (hblock : prepared.block? = some (kind, tmp)) :
    ∃ content prefixes, op.block? = some (kind, content, prefixes) ∧
      parseTurtleContent trigParser content prefixes = .ok tmp := by
  cases op with
  | insertData content prefixes | deleteData content prefixes =>
    rw [prepareOp] at h
    cases hparse : parseTurtleContent (N := N) trigParser content prefixes with
    | error e =>
      rw [hparse] at h
      cases h
    | ok tmp' =>
      rw [hparse] at h
      cases h
      cases hblock
      exact ⟨content, prefixes, rfl, hparse⟩
  | _ =>
    cases h
    cases hblock

variable {env : ServerEnv N Expr} {m' : GraphElementManager N} {sent : TermQuad N → Prop}

theorem prepareUpdate_block {updateStr : String} {ops : List UpdateOp}
    (hops : env.parseUpdate updateStr = .ok ops)
    (h : prepareUpdate env.trigParser dataset store ops = .ok (prepared, entries))
    {op : PreparedOp N} (hop : op ∈ prepared) (hblock : op.block? = some (kind, tmp)) :
    ∃ content prefixes, HasBlock env updateStr kind content prefixes ∧
      parseTurtleContent env.trigParser content prefixes = .ok tmp := by
  have hprepared := prepareUpdate_forall₂ (N := N) (R := fun prepared _ =>
      ∀ kind tmp, prepared.block? = some (kind, tmp) →
      ∃ content prefixes, HasBlock env updateStr kind content prefixes ∧
        parseTurtleContent env.trigParser content prefixes = .ok tmp)
    (fun op hop prepared entries hp kind tmp hblock => by
      obtain ⟨content, prefixes, hop', hparse⟩ := prepareOp_block hp hblock
      exact ⟨content, prefixes, ⟨ops, hops, op, hop, hop'⟩, hparse⟩) h
  obtain ⟨logged, hall, -⟩ := hprepared
  obtain ⟨i, hi, rfl⟩ := List.mem_iff_getElem.mp hop
  have hlt : i < logged.length := hall.length_eq ▸ hi
  exact (List.forall₂_iff_get.mp hall).2 i hi hlt kind tmp hblock

/-- Each collected quad comes from a data block of its kind. -/
structure Collected (prepared : List (PreparedOp N)) (st : Pending N) : Prop where
  inserts : ∀ q ∈ st.inserts, ∃ op ∈ prepared, ∃ tmp, op.block? = some (.insert, tmp) ∧
    ∃ r ∈ tmp.resolved, st.store.resources.getResourceQuad q = some r
  deletes : ∀ q ∈ st.deletes, ∃ op ∈ prepared, ∃ tmp, op.block? = some (.delete, tmp) ∧
    ∃ r ∈ tmp.resolved, st.store.resources.getResourceQuad q = some r

theorem Translated.resolved_of_mem {result : Datastore N × List Quad}
    (h : Translated store result tmp.resolved) {q : Quad} (hq : q ∈ result.2) :
    ∃ r ∈ tmp.resolved, result.1.resources.getResourceQuad q = some r := by
  obtain ⟨r, hr⟩ := Option.isSome_iff_exists.mp (h.interned q hq)
  refine ⟨r, ?_, hr⟩
  rw [← h.resolved]
  exact mem_resolve.mpr ⟨q, hq, hr⟩

theorem collected_extends (hext : m.Extends m') (h : ∀ q ∈ quads, ∃ op ∈ prepared, ∃ tmp, op.block?
      = some (kind, tmp) ∧ ∃ r ∈ tmp.resolved, m.getResourceQuad q = some r) :
    ∀ q ∈ quads, ∃ op ∈ prepared, ∃ tmp, op.block? = some (kind, tmp) ∧
      ∃ r ∈ tmp.resolved, m'.getResourceQuad q = some r := by
  intro q hq
  obtain ⟨op, hop, tmp, hblock, r, hr, hres⟩ := h q hq
  exact ⟨op, hop, tmp, hblock, r, hr, hext.getResourceQuad hres⟩

theorem collectData_collected {all : List (PreparedOp N)} {st st' : Pending N}
    (hall : ∀ op ∈ prepared, op ∈ all)
    (hinterned : ∀ op ∈ prepared, ∀ kind tmp, op.block? = some (kind, tmp) → tmp.Interned)
    (hst : Collected all st) (h : collectData st prepared = .ok st') : Collected all st' := by
  induction prepared generalizing st with
  | nil =>
    cases h
    exact hst
  | cons op prepared ih =>
    have hrest := fun op' hm => hall op' (List.mem_cons_of_mem op hm)
    have hintern := fun op' hm => hinterned op' (List.mem_cons_of_mem op hm)
    have hop := hall op List.mem_cons_self
    cases op with
    | insertData tmp =>
      have ht := translateToMainIds_spec st.store (hinterned _ List.mem_cons_self _ tmp rfl)
      refine ih hrest hintern ⟨fun q hq => ?_, ?_⟩ h
      · rcases List.mem_append.mp hq with hq | hq
        · exact collected_extends ht.extended hst.inserts q hq
        · exact ⟨_, hop, tmp, rfl, ht.resolved_of_mem hq⟩
      · exact collected_extends ht.extended hst.deletes
    | deleteData tmp =>
      have ht := translateToMainIds_spec st.store (hinterned _ List.mem_cons_self _ tmp rfl)
      refine ih hrest hintern ⟨?_, fun q hq => ?_⟩ h
      · exact collected_extends ht.extended hst.inserts
      · rcases List.mem_append.mp hq with hq | hq
        · exact collected_extends ht.extended hst.deletes q hq
        · exact ⟨_, hop, tmp, rfl, ht.resolved_of_mem (List.mem_of_mem_filter hq)⟩
    | _ => cases h

/-- The quads of a list stand for data that `sent` holds. -/
def AllSent (m : GraphElementManager N) (sent : TermQuad N → Prop) (quads : List Quad) : Prop :=
  ∀ q ∈ quads, ∃ t, sent t ∧ m.StandsFor q t

theorem AllSent.mono {sent' : TermQuad N → Prop} {quads' : List Quad} (h : AllSent m sent quads)
    (hext : m.Extends m') (hsent : ∀ t, sent t → sent' t) (hquads : ∀ q ∈ quads', q ∈ quads) :
    AllSent m' sent' quads' := by
  intro q hq
  obtain ⟨t, ht, hq⟩ := h q (hquads q hq)
  exact ⟨t, hsent t ht, hq.extends hext⟩

theorem AllSent.append {quads' : List Quad} (h : AllSent m sent quads) (h' : AllSent m sent quads')
    :
    AllSent m sent (quads ++ quads') := by
  intro q hq
  rcases List.mem_append.mp hq with hq | hq
  · exact h q hq
  · exact h' q hq

theorem collectData_sent {updateStr : String} {ops : List UpdateOp}
    (hops : env.parseUpdate updateStr = .ok ops) (hplain : NoEmbeddedTriples env updateStr)
    (hprepare : prepareUpdate env.trigParser dataset store ops = .ok (prepared, entries))
    {st : Pending N} (h : collectData ⟨store, [], []⟩ prepared = .ok st) :
    AllSent st.store.resources (Sends env updateStr .insert) st.inserts ∧
      AllSent st.store.resources (Sends env updateStr .delete) st.deletes := by
  have hinterned : ∀ op ∈ prepared, ∀ kind tmp, op.block? = some (kind, tmp) → tmp.Interned := by
    intro op hop kind tmp hblock
    obtain ⟨content, prefixes, -, hparse⟩ := prepareUpdate_block hops hprepare hop hblock
    exact parseTurtleContent_interned hparse
  have hcollected : Collected prepared st := by
    refine collectData_collected (fun op hop => hop) hinterned ⟨?_, ?_⟩ h
    · simp
    · simp
  have hsent (kind : BlockKind) {quads : List Quad}
      (hquads : ∀ q ∈ quads, ∃ op ∈ prepared, ∃ tmp, op.block? = some (kind, tmp) ∧
        ∃ r ∈ tmp.resolved, st.store.resources.getResourceQuad q = some r) :
      AllSent st.store.resources (Sends env updateStr kind) quads := by
    intro q hq
    obtain ⟨op, hop, tmp, hblock, r, hr, hres⟩ := hquads q hq
    obtain ⟨content, prefixes, hhas, hparse⟩ := prepareUpdate_block hops hprepare hop hblock
    have hnone := parseTurtleContent_noTripleTerms (hplain kind content prefixes hhas) hparse
    obtain ⟨q', _, hq'⟩ := mem_resolve.mp hr
    obtain ⟨t, ht⟩ := hnone.exists_termQuad hq'
    exact ⟨t, ⟨content, prefixes, tmp, hhas, hparse, r, hr, ht _⟩, r, hres, ht _⟩
  exact ⟨hsent .insert hcollected.inserts, hsent .delete hcollected.deletes⟩

end Sent

end Endpoint

end RdfDatalog
