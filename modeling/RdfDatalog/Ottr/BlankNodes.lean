import RdfDatalog.Ottr.Expansion
import RdfDatalog.Math.Labels
import RdfDatalog.Store.FreshNodes

namespace RdfDatalog.Ottr

open GraphElementManager LabelNumbering

variable {N : NativeTypes} {B B' : Type}

section Terms

/-- The term that a node stands for, its blank nodes numbered by `ρ`. -/
def Node.toTerm (ρ : B → Nat) : Node N B → RdfTerm N
  | .iri i => .iri i
  | .literal l => .literal l
  | .blank b => .blank (ρ b)

def Node.blanks : Node N B → List B
  | .blank b => [b]
  | .iri _ | .literal _ => []

def Triple.toQuad (ρ : B → Nat) (t : Triple N B) : TermQuad N :=
  ⟨.iri defaultGraphIri, t.subject.toTerm ρ, t.predicate.toTerm ρ, t.obj.toTerm ρ⟩

def Triple.blanks (t : Triple N B) : List B :=
  t.subject.blanks ++ t.predicate.blanks ++ t.obj.blanks

theorem Node.toTerm_congr {ρ ρ' : B → Nat} {n : Node N B} (h : ∀ b ∈ n.blanks, ρ b = ρ' b) :
    n.toTerm ρ = n.toTerm ρ' := by
  cases n with
  | blank b => exact congrArg RdfTerm.blank (h b List.mem_cons_self)
  | _ => rfl

theorem Triple.toQuad_congr {ρ ρ' : B → Nat} {t : Triple N B} (h : ∀ b ∈ t.blanks, ρ b = ρ' b) :
    t.toQuad ρ = t.toQuad ρ' := by
  have hs : ∀ b ∈ t.subject.blanks, ρ b = ρ' b := fun b hb => h b (by simp [blanks, hb])
  have hp : ∀ b ∈ t.predicate.blanks, ρ b = ρ' b := fun b hb => h b (by simp [blanks, hb])
  have ho : ∀ b ∈ t.obj.blanks, ρ b = ρ' b := fun b hb => h b (by simp [blanks, hb])
  rw [toQuad, toQuad, Node.toTerm_congr hs, Node.toTerm_congr hp, Node.toTerm_congr ho]

theorem Node.toTerm_map (f : B → B') (ρ : B' → Nat) (n : Node N B) :
    (n.map f).toTerm ρ = n.toTerm (ρ ∘ f) := by
  cases n <;> rfl

theorem Triple.toQuad_map (f : B → B') (ρ : B' → Nat) (t : Triple N B) :
    (t.map f).toQuad ρ = t.toQuad (ρ ∘ f) := by
  rw [toQuad, toQuad, Triple.map, Node.toTerm_map, Node.toTerm_map, Node.toTerm_map]

theorem Node.blanks_map (f : B → B') (n : Node N B) : (n.map f).blanks = n.blanks.map f := by
  cases n <;> rfl

theorem Triple.blanks_map (f : B → B') (t : Triple N B) :
    (t.map f).blanks = t.blanks.map f := by
  rw [blanks, blanks, List.map_append, List.map_append, ← Node.blanks_map, ← Node.blanks_map,
    ← Node.blanks_map, Triple.map]

end Terms

section OneTriple

/-- The labels read so far have blank nodes of their own, numbered on from those of `store`. -/
structure Labelled (store : Datastore N) (seen : List String) (st : ResolveState N) : Prop where
  graphs : st.store.namedGraphs = store.namedGraphs
  grows : store.resources.Extends st.store.resources
  count : st.store.resources.anonResourceCount = store.resources.anonResourceCount + seen.length
  known : ∀ label ∈ seen, ∃ id, st.blankNodes.lookup label = some id ∧
    st.store.resources.getGraphElement id = some (.nodeOrEdge (.anonymousBlankNode
      (number store.resources.anonResourceCount seen label)))
  unknown : ∀ label ∉ seen, st.blankNodes.lookup label = none

variable {store : Datastore N} {seen : List String} {st : ResolveState N}

theorem Labelled.addResource (h : Labelled store seen st) (e : GraphElement N) :
    Labelled store seen (st.addResource e).2 := by
  have hext := addResource_extends st.store.resources e
  refine ⟨h.graphs, h.grows.trans hext, (addResource_anonResourceCount _ e).trans h.count,
    ?_, h.unknown⟩
  intro label hlabel
  obtain ⟨id, hid, hget⟩ := h.known label hlabel
  exact ⟨id, hid, hext.getGraphElement hget⟩

theorem Labelled.newBlank (h : Labelled store seen st) {label : String} (hnew : label ∉ seen) :
    Labelled store (addSeen seen label)
      ⟨{ st.store with resources := st.store.resources.createUnnamedAnonResource.1 },
        (label, st.store.resources.createUnnamedAnonResource.2) :: st.blankNodes⟩ := by
  obtain ⟨hext, hcount⟩ := createUnnamedAnonResource_spec st.store.resources
  refine ⟨h.graphs, h.grows.trans hext, ?_, ?_, ?_⟩
  · rw [hcount, h.count, addSeen_of_notMem hnew, List.length_append, List.length_singleton,
      Nat.add_assoc]
  · intro other hother
    by_cases heq : other = label
    · subst heq
      refine ⟨_, List.lookup_cons_self, ?_⟩
      rw [number_addSeen hnew, ← h.count]
      exact createUnnamedAnonResource_get _
    · have hold : other ∈ seen := (mem_addSeen.mp hother).resolve_right heq
      obtain ⟨id, hid, hget⟩ := h.known other hold
      refine ⟨id, ?_, ?_⟩
      · rw [List.lookup_cons, beq_eq_false_iff_ne.mpr heq]
        exact hid
      · rw [number_of_isPrefix _ hold (isPrefix_addSeen seen label)]
        exact hext.getGraphElement hget
  · intro other hother
    rw [mem_addSeen, not_or] at hother
    rw [List.lookup_cons, beq_eq_false_iff_ne.mpr hother.2]
    exact h.unknown other hother.1

theorem Labelled.resolveNode (h : Labelled store seen st) (n : Node N String) :
    Labelled store (n.blanks.foldl addSeen seen) (resolveNode n st).2 ∧
      st.store.resources.Extends (Ottr.resolveNode n st).2.store.resources ∧
      ∃ e, (Ottr.resolveNode n st).2.store.resources.getGraphElement (Ottr.resolveNode n st).1 =
          some e ∧
        (Ottr.resolveNode n st).2.store.resources.Resolves e (n.toTerm
          (number store.resources.anonResourceCount (n.blanks.foldl addSeen seen))) := by
  cases n with
  | iri i =>
    exact ⟨h.addResource _, addResource_extends _ _, _, addResource_get _ _, .iri i⟩
  | literal l =>
    exact ⟨h.addResource _, addResource_extends _ _, _, addResource_get _ _, .literal l⟩
  | blank label =>
    change Labelled store (addSeen seen label) _ ∧ _
    by_cases hlabel : label ∈ seen
    · obtain ⟨id, hid, hget⟩ := h.known label hlabel
      have hsame : Ottr.resolveNode (.blank label) st = (id, st) := by
        rw [Ottr.resolveNode, hid]
      rw [addSeen_of_mem hlabel, hsame]
      refine ⟨h, .refl _, _, hget, ?_⟩
      change Resolves _ _ (.blank (number _ (addSeen seen label) label))
      rw [addSeen_of_mem hlabel]
      exact .blank _
    · have hnew : Ottr.resolveNode (.blank label) st =
          (st.store.resources.createUnnamedAnonResource.2,
            ⟨{ st.store with resources := st.store.resources.createUnnamedAnonResource.1 },
              (label, st.store.resources.createUnnamedAnonResource.2) :: st.blankNodes⟩) := by
        rw [Ottr.resolveNode, h.unknown label hlabel]
      rw [hnew]
      refine ⟨h.newBlank hlabel, (createUnnamedAnonResource_spec _).1, _,
        createUnnamedAnonResource_get _, ?_⟩
      change Resolves _ _ (.blank (number _ (addSeen seen label) label))
      rw [number_addSeen hlabel, ← h.count]
      exact .blank _

theorem Labelled.start (store : Datastore N) : Labelled store [] ⟨store, []⟩ :=
  ⟨rfl, .refl _, rfl, nofun, fun _ _ => rfl⟩

/-- The store after triples are written, whose blank nodes `ρ` numbers. -/
structure Added (store store' : Datastore N) (triples : Set (Triple N B)) (ρ : B → Nat) :
    Prop where
  terms : store'.terms = store.terms ∪ Triple.toQuad ρ '' triples
  resolvable : store'.Resolvable
  count : store.resources.anonResourceCount ≤ store'.resources.anonResourceCount
  above : ∀ t ∈ triples, ∀ b ∈ t.blanks, store.resources.anonResourceCount < ρ b
  below : ∀ t ∈ triples, ∀ b ∈ t.blanks, ρ b ≤ store'.resources.anonResourceCount

theorem number_congr (base : Nat) {seen seen' : List String} (h : seen <+: seen')
    {n : Node N String} (hn : ∀ b ∈ n.blanks, b ∈ seen) :
    n.toTerm (number base seen) = n.toTerm (number base seen') :=
  Node.toTerm_congr fun b hb => (number_of_isPrefix base (hn b hb) h).symm

theorem insertTriple_added {store : Datastore N} (hstore : store.Resolvable)
    (t : Triple N String) :
    let ρ := number store.resources.anonResourceCount (t.blanks.foldl addSeen [])
    Added store (insertTriple store t) {t} ρ ∧ Set.InjOn ρ {b | b ∈ t.blanks} := by
  intro ρ
  obtain ⟨hs, _, es, hes, hts⟩ := (Labelled.start store).resolveNode t.subject
  obtain ⟨hp, hsp, ep, hep, htp⟩ := hs.resolveNode t.predicate
  obtain ⟨ho, hpo, eo, heo, hto⟩ := hp.resolveNode t.obj
  have hseen : t.obj.blanks.foldl addSeen (t.predicate.blanks.foldl addSeen
      (t.subject.blanks.foldl addSeen [])) = t.blanks.foldl addSeen [] := by
    rw [Triple.blanks, List.foldl_append, List.foldl_append]
  have hlast := isPrefix_foldl_addSeen t.obj.blanks
    (t.predicate.blanks.foldl addSeen (t.subject.blanks.foldl addSeen []))
  have hmiddle := (isPrefix_foldl_addSeen t.predicate.blanks
    (t.subject.blanks.foldl addSeen [])).trans hlast
  rw [number_congr _ hmiddle fun b hb => mem_foldl_addSeen.mpr (.inr hb), hseen] at hts
  rw [number_congr _ hlast fun b hb => mem_foldl_addSeen.mpr (.inr hb), hseen] at htp
  rw [hseen] at hto ho
  generalize hsts : resolveNode t.subject ⟨store, []⟩ = rs at *
  generalize hstp : resolveNode t.predicate rs.2 = rp at *
  generalize hsto : resolveNode t.obj rp.2 = ro at *
  have hresolves : ro.2.store.resources.ResolvesQuad ⟨.iri defaultGraphIri, es, ep, eo⟩
      (t.toQuad ρ) :=
    ⟨.iri _, hts.extends (hsp.trans hpo), htp.extends hpo, hto⟩
  have hquad : ro.2.store.resources.getResourceQuad ⟨defaultGraphElementId, rs.1, rp.1, ro.1⟩ =
      some ⟨.iri defaultGraphIri, es, ep, eo⟩ :=
    getResourceQuad_eq_some.mpr ⟨ro.2.store.resources.defaultGraph,
      (hsp.trans hpo).getGraphElement hes, hpo.getGraphElement hep, heo⟩
  have hinsert : insertTriple store t =
      ro.2.store.addQuad ⟨defaultGraphElementId, rs.1, rp.1, ro.1⟩ := by
    rw [← hsto, ← hstp, ← hsts]
    rfl
  have hold := hstore.extends ho.graphs ho.grows
  have hcount : (insertTriple store t).resources.anonResourceCount =
      store.resources.anonResourceCount + (t.blanks.foldl addSeen []).length := by
    rw [hinsert]
    exact ho.count
  have hmem (b : String) (hb : b ∈ t.blanks) : b ∈ t.blanks.foldl addSeen [] :=
    mem_foldl_addSeen.mpr (.inr hb)
  refine ⟨⟨?_, ?_, ?_, ?_, ?_⟩, ?_⟩
  · rw [hinsert, Datastore.terms_addQuad hquad hresolves,
      Datastore.terms_extends hstore ho.graphs ho.grows, Set.image_singleton]
  · rw [hinsert]
    exact hold.addQuad hquad hresolves
  · omega
  · intro t' _ b _
    exact lt_number _ _ b
  · intro t' ht' b hb
    cases ht'
    rw [hcount]
    exact number_le (hmem b hb)
  · intro b hb b' _ heq
    exact number_inj (hmem b hb) heq

end OneTriple

section Runs

variable {store store' store'' : Datastore N}

theorem Added.nil (h : store.Resolvable) (ρ : B → Nat) :
    Added store store (∅ : Set (Triple N B)) ρ :=
  ⟨by simp, h, Nat.le_refl _, fun _ ht => ht.elim, fun _ ht => ht.elim⟩

theorem Added.congr {triples : Set (Triple N B)} {ρ ρ' : B → Nat} (h : Added store store' triples ρ)
    (hρ : ∀ t ∈ triples, ∀ b ∈ t.blanks, ρ b = ρ' b) : Added store store' triples ρ' := by
  have himage : Triple.toQuad ρ' '' triples = Triple.toQuad ρ '' triples :=
    Set.image_congr fun t ht => (Triple.toQuad_congr (hρ t ht)).symm
  refine ⟨himage ▸ h.terms, h.resolvable, h.count, ?_, ?_⟩
  · intro t ht b hb
    rw [← hρ t ht b hb]
    exact h.above t ht b hb
  · intro t ht b hb
    rw [← hρ t ht b hb]
    exact h.below t ht b hb

theorem Added.trans {triples triples' : Set (Triple N B)} {ρ : B → Nat}
    (h : Added store store' triples ρ) (h' : Added store' store'' triples' ρ) :
    Added store store'' (triples ∪ triples') ρ := by
  refine ⟨?_, h'.resolvable, h.count.trans h'.count, ?_, ?_⟩
  · rw [h'.terms, h.terms, Set.image_union, Set.union_assoc]
  · intro t ht b hb
    rcases ht with ht | ht
    · exact h.above t ht b hb
    · exact h.count.trans_lt (h'.above t ht b hb)
  · intro t ht b hb
    rcases ht with ht | ht
    · exact (h.below t ht b hb).trans h'.count
    · exact h'.below t ht b hb

def blanksOf (L : List (Triple N B)) : Set B := {b | ∃ t ∈ L, b ∈ t.blanks}

/-- No blank node reaches two triples, and no triple gets two blank nodes that have their label in
common. -/
def Apart (L : List (Triple N ScopedLabel)) : Prop :=
  L.Pairwise (fun t t' => t.blanks.Disjoint t'.blanks) ∧
    ∀ t ∈ L, Set.InjOn Prod.snd {b | b ∈ t.blanks}

theorem addErased_added (h : store.Resolvable) {t : Triple N ScopedLabel}
    (ht : Set.InjOn Prod.snd {b | b ∈ t.blanks}) :
    ∃ ρ, Added store (addErased store t) {t} ρ ∧ Set.InjOn ρ {b | b ∈ t.blanks} := by
  obtain ⟨hadded, hinj⟩ := insertTriple_added h (t.map Prod.snd)
  generalize number store.resources.anonResourceCount
    ((t.map Prod.snd).blanks.foldl addSeen []) = ρ at hadded hinj
  have hlabel (b : ScopedLabel) (hb : b ∈ t.blanks) : b.2 ∈ (t.map Prod.snd).blanks := by
    rw [Triple.blanks_map]
    exact List.mem_map_of_mem hb
  refine ⟨ρ ∘ Prod.snd, ⟨?_, hadded.resolvable, hadded.count, ?_, ?_⟩, ?_⟩
  · rw [addErased, hadded.terms, Set.image_singleton, Set.image_singleton, Triple.toQuad_map]
  · intro t' ht' b hb
    cases ht'
    exact hadded.above _ rfl _ (hlabel b hb)
  · intro t' ht' b hb
    cases ht'
    exact hadded.below _ rfl _ (hlabel b hb)
  · intro b hb b' hb' heq
    exact ht hb hb' (hinj (hlabel b hb) (hlabel b' hb') heq)

theorem foldl_addErased_added {L : List (Triple N ScopedLabel)} (hapart : Apart L)
    (h : store.Resolvable) :
    ∃ ρ, Added store (L.foldl addErased store) {t | t ∈ L} ρ ∧ Set.InjOn ρ (blanksOf L) := by
  induction L generalizing store with
  | nil =>
    refine ⟨fun _ => 0, ?_, ?_⟩
    · have hempty : {t | t ∈ ([] : List (Triple N ScopedLabel))} = ∅ := by simp
      rw [hempty]
      exact Added.nil h _
    · intro b hb
      obtain ⟨_, ht, _⟩ := hb
      cases ht
  | cons t L ih =>
    obtain ⟨hpair, hlabels⟩ := hapart
    rw [List.pairwise_cons] at hpair
    rw [List.forall_mem_cons] at hlabels
    obtain ⟨ρ₀, hfirst, hinj₀⟩ := addErased_added h hlabels.1
    obtain ⟨ρ₁, hrest, hinj₁⟩ := ih ⟨hpair.2, hlabels.2⟩ hfirst.resolvable
    classical
    let ρ : ScopedLabel → Nat := fun b => if b ∈ t.blanks then ρ₀ b else ρ₁ b
    have hleft (b : ScopedLabel) (hb : b ∈ t.blanks) : ρ b = ρ₀ b := if_pos hb
    have hright (b : ScopedLabel) (hb : b ∈ blanksOf L) : ρ b = ρ₁ b := by
      obtain ⟨t', ht', hb⟩ := hb
      exact if_neg fun hmem => hpair.1 t' ht' hmem hb
    -- the numbers of the first triple are below those of the others
    have hlt (b b' : ScopedLabel) (hb : b ∈ t.blanks) (hb' : b' ∈ blanksOf L) : ρ b < ρ b' := by
      rw [hleft b hb, hright b' hb']
      obtain ⟨t', ht', hb'⟩ := hb'
      exact (hfirst.below t rfl b hb).trans_lt (hrest.above t' ht' b' hb')
    have hsides {b : ScopedLabel} (hb : b ∈ blanksOf (t :: L)) :
        b ∈ t.blanks ∨ b ∈ blanksOf L := by
      obtain ⟨t', ht', hb⟩ := hb
      rcases List.mem_cons.mp ht' with rfl | ht'
      · exact .inl hb
      · exact .inr ⟨t', ht', hb⟩
    refine ⟨ρ, ?_, ?_⟩
    · have hset : {t' | t' ∈ t :: L} = {t} ∪ {t' | t' ∈ L} := by
        ext t'
        simp
      rw [hset, List.foldl_cons]
      refine (hfirst.congr ?_).trans (hrest.congr ?_)
      · intro t' ht' b hb
        cases ht'
        exact (hleft b hb).symm
      · intro t' ht' b hb
        exact (hright b ⟨t', ht', hb⟩).symm
    · intro b hb b' hb' heq
      rcases hsides hb with hb | hb <;> rcases hsides hb' with hb' | hb'
      · rw [hleft b hb, hleft b' hb'] at heq
        exact hinj₀ hb hb' heq
      · exact absurd heq (hlt b b' hb hb').ne
      · exact absurd heq (hlt b' b hb' hb).ne'
      · rw [hright b hb, hright b' hb'] at heq
        exact hinj₁ hb hb' heq

end Runs

section Meaning

/-- The store holds the triples of `L`, their blank nodes numbered by an injective `ρ`. -/
structure Holds (store store' : Datastore N) (L : List (Triple N ScopedLabel))
    (ρ : ScopedLabel → Nat) : Prop where
  terms : store'.terms = store.terms ∪ Triple.toQuad ρ '' {t | t ∈ L}
  injective : Set.InjOn ρ (blanksOf L)
  above : ∀ b ∈ blanksOf L, store.resources.anonResourceCount < ρ b
  fresh : store.resources.FreshAbove → ∀ b ∈ blanksOf L, ¬ store.resources.HasBlank (ρ b)

/-- A run of the source ends, and where it succeeds it adds the triples of the expansion. -/
theorem expand_holds_expansion (templates : Templates N) (instances : List (Instance N))
    {store : Datastore N} (hstore : store.Resolvable) :
    (∀ fuel ≥ 2 * (callable templates []).card + 2,
      ¬ CutsOff (expand templates fuel instances store)) ∧
    ∀ fuel store', expand templates fuel instances store = .ok store' →
      ∃ L, (∀ depth ≥ fuel, expansion templates depth instances = some L) ∧
        (Apart L → ∃ ρ, Holds store store' L ρ) := by
  refine ⟨fun fuel hfuel => not_cutsOff_expand hfuel instances store, ?_⟩
  intro fuel store' hrun
  obtain ⟨L, hL, rfl⟩ := expand_ok hrun
  refine ⟨L, hL, fun hapart => ?_⟩
  obtain ⟨ρ, hadded, hinj⟩ := foldl_addErased_added hapart hstore
  have habove (b : ScopedLabel) (hb : b ∈ blanksOf L) :
      store.resources.anonResourceCount < ρ b := by
    obtain ⟨t, ht, hb⟩ := hb
    exact hadded.above t ht b hb
  refine ⟨ρ, hadded.terms, hinj, habove, fun hfresh b hb hblank => ?_⟩
  have hlt := habove b hb
  have hle := hfresh (ρ b) hblank
  omega

end Meaning

section Samples

def personParameter : Parameter NativeTypes.text := ⟨"name", false, none⟩

def personTemplate : TemplateDef NativeTypes.text where
  parameters := [personParameter]
  body := [
    ⟨ottrTriple, [.term (.blankNode "person"), .term (.iri "name"), .term (.var "name")], none⟩,
    ⟨ottrTriple, [.term (.iri "people"), .term (.iri "state"), .term (.iri "known")], none⟩]

def personTemplates : Templates NativeTypes.text := AList.singleton "Person" personTemplate

def personCall (name : Argument NativeTypes.text String) : Instance NativeTypes.text :=
  ⟨"Person", [name], none⟩

def knownQuad : QuadResource NativeTypes.text :=
  ⟨.iri defaultGraphIri, .iri "people", .iri "state", .iri "known"⟩

def runAdds (run : Expanded NativeTypes.text (Datastore NativeTypes.text))
    (r : QuadResource NativeTypes.text) : Bool :=
  match run with
  | .ok store => r ∈ store.resolved
  | .error _ => false

theorem new_resolvable : (Datastore.new : Datastore NativeTypes.text).Resolvable := by
  intro q hq
  cases QuadStore.not_mem_new q hq

theorem expand_holds_expansion_person : ∃ store' L ρ,
    expand personTemplates 4 [personCall (.term (.iri "Ann"))] .new = .ok store' ∧
      expansion personTemplates 4 [personCall (.term (.iri "Ann"))] = some L ∧
      Holds .new store' L ρ := by
  have hadds : runAdds (expand personTemplates 4 [personCall (.term (.iri "Ann"))] .new)
      knownQuad = true := by decide
  cases hrun : expand personTemplates 4 [personCall (.term (.iri "Ann"))] .new with
  | error fault =>
    rw [hrun] at hadds
    cases hadds
  | ok store' =>
    obtain ⟨L, hL, hholds⟩ := (expand_holds_expansion personTemplates
      [personCall (.term (.iri "Ann"))] new_resolvable).2 4 store' hrun
    have hexpansion := hL 4 (Nat.le_refl 4)
    have hlist : expansion personTemplates 4 [personCall (.term (.iri "Ann"))] =
        some [⟨.blank ([(0, 0)], "person"), .iri "name", .iri "Ann"⟩,
          ⟨.iri "people", .iri "state", .iri "known"⟩] := rfl
    cases hexpansion.symm.trans hlist
    have hapart : Apart [(⟨.blank ([(0, 0)], "person"), .iri "name", .iri "Ann"⟩ :
        Triple NativeTypes.text ScopedLabel), ⟨.iri "people", .iri "state", .iri "known"⟩] := by
      refine ⟨by simp [Triple.blanks, Node.blanks], ?_⟩
      simp [Triple.blanks, Node.blanks]
    obtain ⟨ρ, hρ⟩ := hholds hapart
    exact ⟨store', _, ρ, rfl, hlist, hρ⟩

/-- A mandatory parameter is `none`, and the instance does not vanish. -/
theorem expand_mandatory_none : personParameter ∈ personTemplate.parameters ∧
    personParameter.optional = false ∧ personParameter.default = none ∧
    ∃ store', expand personTemplates 4 [personCall .none] .new = .ok store' ∧
      store'.terms ≠ (Datastore.new : Datastore NativeTypes.text).terms := by
  refine ⟨List.mem_cons_self, rfl, rfl, ?_⟩
  have hadds : runAdds (expand personTemplates 4 [personCall .none] .new) knownQuad = true := by
    decide
  cases hrun : expand personTemplates 4 [personCall .none] .new with
  | error fault =>
    rw [hrun] at hadds
    cases hadds
  | ok store' =>
    rw [hrun] at hadds
    have hknown : knownQuad ∈ store'.resolved := of_decide_eq_true hadds
    refine ⟨store', rfl, fun heq => ?_⟩
    have hmem : ⟨.iri defaultGraphIri, .iri "people", .iri "state", .iri "known"⟩ ∈
        store'.terms := ⟨knownQuad, hknown, .iri _, .iri _, .iri _, .iri _⟩
    rw [heq] at hmem
    obtain ⟨r, hr, _⟩ := hmem
    obtain ⟨q, hq, _⟩ := mem_resolve.mp hr
    cases QuadStore.not_mem_new q ((QuadStore.mem_quadList _ q).mp hq)

end Samples

end RdfDatalog.Ottr
