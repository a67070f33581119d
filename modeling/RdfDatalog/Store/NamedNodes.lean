import RdfDatalog.Store.FreshNodes

namespace RdfDatalog

variable {N : NativeTypes}

namespace GraphElementManager

/-- Every label of a blank node stands for an interned blank node. -/
def NamesBlankNodes (m : GraphElementManager N) : Prop :=
  ∀ name id, m.anonResourceMap.lookup name = some id →
    ∃ n, m.getGraphElement id = some (.nodeOrEdge (.anonymousBlankNode n))

variable {m : GraphElementManager N} {e : GraphElement N}

theorem addResource_of_get {id : GraphElementId} (h : m.getGraphElement id = some e) :
    m.addResource e = (m, id) := by
  have hid := (m.exact e id).mpr h
  unfold addResource
  split
  · rename_i id' hid'
    rw [hid] at hid'
    cases hid'
    rfl
  · rename_i hnone
    rw [hid] at hnone
    cases hnone

variable (h : m.NamesBlankNodes)

include h

theorem NamesBlankNodes.addResource (e : GraphElement N) :
    (m.addResource e).1.NamesBlankNodes := by
  intro name id hid
  rw [addResource_anonResourceMap] at hid
  obtain ⟨n, hn⟩ := h name id hid
  exact ⟨n, (addResource_extends m e).getGraphElement hn⟩

theorem NamesBlankNodes.createUnnamed :
    m.createUnnamedAnonResource.1.NamesBlankNodes :=
  NamesBlankNodes.addResource (m := { m with anonResourceCount := m.anonResourceCount + 1 }) h _

theorem NamesBlankNodes.getOrCreateNamed (name : String) :
    (m.getOrCreateNamedAnonResource name).1.NamesBlankNodes := by
  unfold getOrCreateNamedAnonResource
  split
  · exact h
  · intro name' id hid
    by_cases hname : name' = name
    · subst hname
      rw [AList.lookup_insert] at hid
      cases hid
      exact ⟨_, createUnnamedAnonResource_get m⟩
    · rw [AList.lookup_insert_ne hname] at hid
      exact h.createUnnamed name' id hid

omit h

theorem mem_addResource {f : GraphElement N} (h : f ∈ (m.addResource e).1.resourceList) :
    f ∈ m.resourceList ∨ f = e := by
  unfold addResource at h
  split at h
  · exact .inl h
  · simpa using h

def Names (m : GraphElementManager N) (label : String) (n : Nat) : Prop :=
  ∃ id, m.anonResourceMap.lookup label = some id ∧
    m.getGraphElement id = some (.nodeOrEdge (.anonymousBlankNode n))

theorem Names.unique {label : String} {n n' : Nat} (h : m.Names label n) (h' : m.Names label n') :
    n = n' := by
  obtain ⟨id, hid, hn⟩ := h
  obtain ⟨id', hid', hn'⟩ := h'
  cases hid.symm.trans hid'
  cases hn.symm.trans hn'
  rfl

theorem Names.hasBlank {label : String} {n : Nat} (h : m.Names label n) : m.HasBlank n := by
  obtain ⟨id, -, hn⟩ := h
  exact List.mem_of_getElem? hn

/-- Labels stand for blank nodes, different labels for different ones, and the counter is above
them. -/
structure Labelled (m : GraphElementManager N) : Prop where
  fresh : m.FreshAbove
  named : m.NamesBlankNodes
  apart : ∀ l l' n, m.Names l n → m.Names l' n → l = l'

/-- Elements and labels stay, and a new label stands for a blank node that was not there. -/
structure Labels (m m' : GraphElementManager N) : Prop where
  extended : m.Extends m'
  names : ∀ l n, m.Names l n → m'.Names l n
  fresh : ∀ l n, m'.Names l n → m.Names l n ∨ ¬ m.HasBlank n

theorem Labels.refl (m : GraphElementManager N) : m.Labels m :=
  ⟨.refl m, fun _ _ h => h, fun _ _ h => .inl h⟩

theorem Labels.trans {m' m'' : GraphElementManager N} (h : m.Labels m') (h' : m'.Labels m'') :
    m.Labels m'' := by
  refine ⟨h.extended.trans h'.extended, fun l n hn => h'.names l n (h.names l n hn), ?_⟩
  intro l n hn
  rcases h'.fresh l n hn with hmid | hfresh
  · exact h.fresh l n hmid
  · exact .inr fun hold => hfresh (h.extended.subset hold)

include h

theorem names_addResource (e : GraphElement N) (l : String) (n : Nat) :
    (m.addResource e).1.Names l n ↔ m.Names l n := by
  have hmap := addResource_anonResourceMap m e
  constructor
  · intro ⟨id, hid, hn⟩
    rw [hmap] at hid
    obtain ⟨k, hk⟩ := h l id hid
    cases ((addResource_extends m e).getGraphElement hk).symm.trans hn
    exact ⟨id, hid, hk⟩
  · intro ⟨id, hid, hn⟩
    exact ⟨id, by rw [hmap]; exact hid, (addResource_extends m e).getGraphElement hn⟩

theorem labels_addResource (e : GraphElement N) :
    m.Labels (m.addResource e).1 :=
  ⟨addResource_extends m e, fun l n hn => (names_addResource h e l n).mpr hn,
    fun l n hn => .inl ((names_addResource h e l n).mp hn)⟩

omit h

theorem Labelled.addResource (h : m.Labelled) (he : ∀ n, e ≠ .nodeOrEdge (.anonymousBlankNode n)) :
    (m.addResource e).1.Labelled := by
  refine ⟨?_, h.named.addResource e, ?_⟩
  · intro n hn
    rw [addResource_anonResourceCount]
    rcases mem_addResource hn with hold | hnew
    · exact h.fresh n hold
    · exact absurd hnew.symm (he n)
  · intro l l' n hl hl'
    exact h.apart l l' n ((names_addResource h.named e l n).mp hl)
      ((names_addResource h.named e l' n).mp hl')

include h in
theorem names_insert (label l : String) (n : Nat) :
    ({ m.createUnnamedAnonResource.1 with
        anonResourceMap := m.createUnnamedAnonResource.1.anonResourceMap.insert label
          m.createUnnamedAnonResource.2 } : GraphElementManager N).Names l n ↔
      if l = label then n = m.anonResourceCount + 1 else m.Names l n := by
  have hget := createUnnamedAnonResource_get m
  have hold := names_addResource (m := { m with anonResourceCount := m.anonResourceCount + 1 }) h
    (.nodeOrEdge (.anonymousBlankNode (m.anonResourceCount + 1))) l n
  split_ifs with hl
  · subst hl
    constructor
    · rintro ⟨id, hid, hn⟩
      dsimp only at hid
      rw [AList.lookup_insert] at hid
      cases hid
      cases hget.symm.trans hn
      rfl
    · intro hn
      exact ⟨_, AList.lookup_insert _, hn ▸ hget⟩
  · refine Iff.trans ?_ hold
    constructor
    · rintro ⟨id, hid, hn⟩
      dsimp only at hid
      rw [AList.lookup_insert_ne hl] at hid
      exact ⟨id, hid, hn⟩
    · rintro ⟨id, hid, hn⟩
      exact ⟨id, (AList.lookup_insert_ne hl).trans hid, hn⟩

theorem getOrCreateNamed_labels (h : m.Labelled) (label : String) :
    (m.getOrCreateNamedAnonResource label).1.Labelled ∧
      m.Labels (m.getOrCreateNamedAnonResource label).1 ∧
      ∃ n, (m.getOrCreateNamedAnonResource label).1.Names label n ∧
        (m.getOrCreateNamedAnonResource label).1.getGraphElement
            (m.getOrCreateNamedAnonResource label).2 =
          some (.nodeOrEdge (.anonymousBlankNode n)) := by
  have hnamed := h.named.getOrCreateNamed label
  unfold getOrCreateNamedAnonResource at hnamed ⊢
  cases hlabel : m.anonResourceMap.lookup label with
  | some id =>
    obtain ⟨n, hn⟩ := h.named label id hlabel
    exact ⟨h, .refl m, n, ⟨id, hlabel, hn⟩, hn⟩
  | none =>
    rw [hlabel] at hnamed
    dsimp only at hnamed ⊢
    have hnames := names_insert h.named label
    have hcount := (createUnnamedAnonResource_spec m).2
    have hnew : ¬ m.HasBlank (m.anonResourceCount + 1) := by
      intro hblank
      have hle := h.fresh _ hblank
      omega
    have hfree (l : String) : ¬ m.Names l (m.anonResourceCount + 1) := fun hl => hnew hl.hasBlank
    refine ⟨⟨?_, hnamed, ?_⟩, ⟨(createUnnamedAnonResource_spec m).1, ?_, ?_⟩, _,
      (hnames label _).mpr (by rw [if_pos rfl]), createUnnamedAnonResource_get m⟩
    · intro n hn
      have hbound : n ≤ m.anonResourceCount ∨ n = m.anonResourceCount + 1 := by
        rcases mem_addResource (m := { m with anonResourceCount := m.anonResourceCount + 1 }) hn
          with hold | heq
        · exact .inl (h.fresh n hold)
        · cases heq
          exact .inr rfl
      dsimp only
      omega
    · intro l l' n hl hl'
      rw [hnames] at hl hl'
      split_ifs at hl hl' with hcase hcase' hcase'
      · exact hcase.trans hcase'.symm
      · exact absurd (hl ▸ hl') (hfree l')
      · exact absurd (hl' ▸ hl) (hfree l)
      · exact h.apart l l' n hl hl'
    · intro l n hn
      rw [hnames, if_neg]
      · exact hn
      · intro hl
        obtain ⟨id, hid, -⟩ := hn
        rw [hl, hlabel] at hid
        cases hid
    · intro l n hn
      rw [hnames] at hn
      split_ifs at hn
      · exact .inr (hn ▸ hnew)
      · exact .inl hn

end GraphElementManager

end RdfDatalog
