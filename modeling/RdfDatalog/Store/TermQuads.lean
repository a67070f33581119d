import RdfDatalog.Store.RdfTerm
import Mathlib.Data.Set.Finite.Lattice

namespace RdfDatalog

open GraphElementManager

variable {N : NativeTypes}

namespace Datastore

def asserted (ds : Datastore N) : Finset (QuadResource N) :=
  ds.resources.resolve (ds.namedGraphs.quadList.filter ds.namedGraphs.isExtensional)

variable {ds ds' : Datastore N} {r : QuadResource N}

theorem mem_asserted :
    r ∈ ds.asserted ↔
      ∃ q, ds.namedGraphs.Extensional q ∧ ds.resources.getResourceQuad q = some r := by
  rw [asserted, mem_resolve]
  refine exists_congr fun q => and_congr_left fun _ => ?_
  rw [List.mem_filter, QuadStore.mem_quadList, QuadStore.isExtensional_iff]
  exact and_iff_right_of_imp And.left

theorem mem_asserted_iff {q : Quad} (hr : ds.resources.getResourceQuad q = some r) :
    r ∈ ds.asserted ↔ ds.namedGraphs.Extensional q := by
  rw [mem_asserted]
  constructor
  · intro ⟨q', hq', hr'⟩
    rwa [getResourceQuad_inj hr hr']
  · exact fun hq => ⟨q, hq, hr⟩

theorem asserted_subset_resolved (ds : Datastore N) : ds.asserted ⊆ ds.resolved := by
  intro r hr
  obtain ⟨q, hq, hr⟩ := mem_asserted.mp hr
  exact mem_resolve.mpr ⟨q, hq.1, hr⟩

theorem resolved_addQuad (ds : Datastore N) {q : Quad}
    (hr : ds.resources.getResourceQuad q = some r) :
    (ds.addQuad q).resolved = ds.resolved ∪ {r} := by
  ext x
  change x ∈ ds.resources.resolve (ds.namedGraphs.addQuad q).quadList ↔ _
  rw [Finset.mem_union, Datastore.resolved, mem_resolve, mem_resolve, Finset.mem_singleton]
  simp only [QuadStore.mem_quadList, QuadStore.mem_addQuad, or_and_right, exists_or,
    exists_eq_left, hr, Option.some.injEq]
  exact or_congr_right eq_comm

theorem asserted_extends (h : ds.Interned) (hext : ds.resources.Extends ds'.resources)
    (hsame : ∀ q, ds'.namedGraphs.Extensional q ↔ ds.namedGraphs.Extensional q) :
    ds'.asserted = ds.asserted := by
  ext r
  rw [mem_asserted, mem_asserted]
  refine exists_congr fun q => ?_
  rw [hsame]
  refine and_congr_right fun hq => ?_
  obtain ⟨r', hr'⟩ := Option.isSome_iff_exists.mp (h q hq.1)
  rw [hr', hext.getResourceQuad hr']

theorem asserted_edit (hres : ds'.resources = ds.resources) {inserts deletes : List Quad}
    (hedit : ∀ q, ds'.namedGraphs.Extensional q ↔ (ds.namedGraphs.Extensional q ∨ q ∈ inserts) ∧ q ∉
      deletes) :
    ds'.asserted =
      (ds.asserted ∪ ds.resources.resolve inserts) \ ds.resources.resolve deletes := by
  ext r
  rw [mem_asserted, hres, Finset.mem_sdiff, Finset.mem_union]
  constructor
  · intro ⟨q, hq, hr⟩
    rw [mem_asserted_iff hr, mem_resolve_iff_mem hr, mem_resolve_iff_mem hr]
    exact (hedit q).mp hq
  · intro ⟨hin, hno⟩
    have hquad : ∃ q, ds.resources.getResourceQuad q = some r := by
      rcases hin with hin | hin
      · obtain ⟨q, -, hr⟩ := mem_asserted.mp hin
        exact ⟨q, hr⟩
      · obtain ⟨q, -, hr⟩ := mem_resolve.mp hin
        exact ⟨q, hr⟩
    obtain ⟨q, hr⟩ := hquad
    rw [mem_asserted_iff hr, mem_resolve_iff_mem hr] at hin
    rw [mem_resolve_iff_mem hr] at hno
    exact ⟨q, (hedit q).mpr ⟨hin, hno⟩, hr⟩

theorem asserted_filter (hres : ds'.resources = ds.resources) {p : QuadResource N → Bool}
    (hfilter : ∀ q r, ds.resources.getResourceQuad q = some r → (ds'.namedGraphs.Extensional q ↔
      ds.namedGraphs.Extensional q ∧ p r = true)) :
    ds'.asserted = ds.asserted.filter (fun r => p r = true) := by
  ext r
  rw [mem_asserted, hres, Finset.mem_filter]
  constructor
  · intro ⟨q, hq, hr⟩
    have hq' := (hfilter q r hr).mp hq
    exact ⟨mem_asserted.mpr ⟨q, hq'.1, hr⟩, hq'.2⟩
  · intro ⟨hin, hp⟩
    obtain ⟨q, hq, hr⟩ := mem_asserted.mp hin
    exact ⟨q, (hfilter q r hr).mpr ⟨hq, hp⟩, hr⟩

end Datastore

structure TermQuad (N : NativeTypes) where
  graph : RdfTerm N
  subject : RdfTerm N
  predicate : RdfTerm N
  obj : RdfTerm N

namespace TermQuad

def rename (ρ : Nat → Nat) (t : TermQuad N) : TermQuad N :=
  ⟨t.graph.rename ρ, t.subject.rename ρ, t.predicate.rename ρ, t.obj.rename ρ⟩

def blanks (t : TermQuad N) : List Nat :=
  t.graph.blanks ++ t.subject.blanks ++ t.predicate.blanks ++ t.obj.blanks

@[simp] theorem rename_id (t : TermQuad N) : t.rename id = t := by
  rw [rename, RdfTerm.rename_id, RdfTerm.rename_id, RdfTerm.rename_id, RdfTerm.rename_id]

theorem blanks_rename (ρ : Nat → Nat) (t : TermQuad N) :
    (t.rename ρ).blanks = t.blanks.map ρ := by
  simp only [rename, blanks, RdfTerm.blanks_rename, List.map_append]

def blanksOf (quads : Set (TermQuad N)) : Set Nat := {n | ∃ t ∈ quads, n ∈ t.blanks}

variable {ρ : Nat → Nat} {kept added : Set (TermQuad N)}

theorem rename_congr {ρ' : Nat → Nat} {t : TermQuad N} (h : ∀ n ∈ t.blanks, ρ n = ρ' n) :
    t.rename ρ = t.rename ρ' := by
  simp only [blanks, List.mem_append] at h
  rw [rename, rename, RdfTerm.rename_congr fun n hn => h n (.inl (.inl (.inl hn))),
    RdfTerm.rename_congr fun n hn => h n (.inl (.inl (.inr hn))),
    RdfTerm.rename_congr fun n hn => h n (.inl (.inr hn)),
    RdfTerm.rename_congr fun n hn => h n (.inr hn)]

theorem rename_rename (ρ σ : Nat → Nat) (t : TermQuad N) :
    (t.rename ρ).rename σ = t.rename (σ ∘ ρ) := by
  simp only [rename, RdfTerm.rename_rename]

theorem rename_of_ground {t : TermQuad N} (h : t.blanks = []) :
    t.rename ρ = t := by
  have hid : ∀ n ∈ t.blanks, ρ n = id n := by
    intro n hn
    rw [h] at hn
    cases hn
  rw [rename_congr hid, rename_id]

theorem rename_injOn {quads : Set (TermQuad N)} (h : Set.InjOn ρ (blanksOf quads)) :
    Set.InjOn (rename ρ) quads := by
  have hback {t : TermQuad N} (ht : t ∈ quads) :
      (t.rename ρ).rename (Function.invFunOn ρ (blanksOf quads)) = t := by
    have hid : ∀ n ∈ t.blanks, (Function.invFunOn ρ (blanksOf quads) ∘ ρ) n = id n :=
      fun n hn => h.leftInvOn_invFunOn ⟨t, ht, hn⟩
    rw [rename_rename, rename_congr hid, rename_id]
  intro t ht t' ht' heq
  rw [← hback ht, heq, hback ht']

/-- Quads that were added as they are, or some of them, make up a merge only if their blank nodes
are apart from those of the quads that were there, and none of them is missing. -/
theorem whole_of_merge {part : Set (TermQuad N)} {used : Nat → Prop} (hfin : added.Finite)
    (hkept : ∀ n ∈ blanksOf kept, used n) (hinj : Set.InjOn ρ (blanksOf added))
    (hfresh : ∀ n ∈ blanksOf added, ¬ used (ρ n)) (hpart : part ⊆ added)
    (hmerge : kept ∪ part = kept ∪ rename ρ '' added) :
    (∀ n ∈ blanksOf added, ¬ used n) ∧ added ⊆ kept ∪ part := by
  let labelled : Set (TermQuad N) := {t ∈ added | t.blanks ≠ []}
  have hpresent {t : TermQuad N} (ht : t ∈ labelled) : t.rename ρ ∈ part := by
    have hside : t.rename ρ ∈ kept ∪ part := by
      rw [hmerge]
      exact .inr ⟨t, ht.1, rfl⟩
    refine hside.resolve_left fun hold => ?_
    obtain ⟨n, hn⟩ := List.exists_mem_of_ne_nil _ ht.2
    refine hfresh n ⟨t, ht.1, hn⟩ (hkept _ ⟨_, hold, ?_⟩)
    rw [blanks_rename]
    exact List.mem_map_of_mem hn
  have hmaps : Set.MapsTo (rename ρ) labelled labelled := by
    intro t ht
    refine ⟨hpart (hpresent ht), ?_⟩
    rw [blanks_rename]
    exact mt List.map_eq_nil_iff.mp ht.2
  have hfinite : labelled.Finite := hfin.subset fun t ht => ht.1
  have hinjective : Set.InjOn (rename ρ) labelled :=
    (rename_injOn hinj).mono fun t ht => ht.1
  -- an injective map of a finite set to itself reaches every quad
  have hbij := (hfinite.injOn_iff_bijOn_of_mapsTo hmaps).mp hinjective
  constructor
  · intro n ⟨t, ht, hn⟩
    have hlabelled : t ∈ labelled := ⟨ht, List.ne_nil_of_mem hn⟩
    obtain ⟨t', ht', rfl⟩ := hbij.surjOn hlabelled
    rw [blanks_rename] at hn
    obtain ⟨k, hk, rfl⟩ := List.mem_map.mp hn
    exact hfresh k ⟨t', ht'.1, hk⟩
  · intro t ht
    by_cases hground : t.blanks = []
    · rw [hmerge]
      exact .inr ⟨t, ht, rename_of_ground hground⟩
    · obtain ⟨t', ht', rfl⟩ := hbij.surjOn ⟨ht, hground⟩
      exact .inr (hpresent ht')

/-- Quads that were added as they are make up a merge only if their blank nodes are apart from
those of the quads that were there. -/
theorem apart_of_merge {used : Nat → Prop} (hfin : added.Finite)
    (hkept : ∀ n ∈ blanksOf kept, used n) (hinj : Set.InjOn ρ (blanksOf added))
    (hfresh : ∀ n ∈ blanksOf added, ¬ used (ρ n)) (hmerge : kept ∪ added = kept ∪ rename ρ '' added)
    : ∀ n ∈ blanksOf added, ¬ used n :=
  (whole_of_merge hfin hkept hinj hfresh Set.Subset.rfl hmerge).1

end TermQuad

namespace GraphElementManager

structure ResolvesQuad (m : GraphElementManager N) (r : QuadResource N) (t : TermQuad N) :
    Prop where
  graph : m.Resolves r.graph t.graph
  subject : m.Resolves r.subject t.subject
  predicate : m.Resolves r.predicate t.predicate
  obj : m.Resolves r.obj t.obj

variable {m m' : GraphElementManager N} {r : QuadResource N} {t t' : TermQuad N}

theorem ResolvesQuad.unique (h : m.ResolvesQuad r t) (h' : m.ResolvesQuad r t') : t = t' := by
  cases t
  cases t'
  congr 1
  · exact h.graph.unique h'.graph
  · exact h.subject.unique h'.subject
  · exact h.predicate.unique h'.predicate
  · exact h.obj.unique h'.obj

theorem ResolvesQuad.inj {r' : QuadResource N} (h : m.ResolvesQuad r t)
    (h' : m.ResolvesQuad r' t) : r = r' := by
  cases r
  cases r'
  congr 1
  · exact h.graph.inj h'.graph
  · exact h.subject.inj h'.subject
  · exact h.predicate.inj h'.predicate
  · exact h.obj.inj h'.obj

theorem ResolvesQuad.extends (hext : m.Extends m') (h : m.ResolvesQuad r t) :
    m'.ResolvesQuad r t :=
  ⟨h.graph.extends hext, h.subject.extends hext, h.predicate.extends hext, h.obj.extends hext⟩

end GraphElementManager

namespace Datastore

open GraphElementManager

def assertedTerms (ds : Datastore N) : Set (TermQuad N) :=
  {t | ∃ r ∈ ds.asserted, ds.resources.ResolvesQuad r t}

/-- Every stored quad stands for one of terms. -/
def Resolvable (ds : Datastore N) : Prop :=
  ∀ q ∈ ds.namedGraphs, ∃ r t, ds.resources.getResourceQuad q = some r ∧
    ds.resources.ResolvesQuad r t

variable {ds : Datastore N}

theorem Resolvable.interned (h : ds.Resolvable) : ds.Interned := by
  intro q hq
  obtain ⟨r, _, hr, _⟩ := h q hq
  exact Option.isSome_iff_exists.mpr ⟨r, hr⟩

theorem Resolvable.exists_term (h : ds.Resolvable) {r : QuadResource N} (hr : r ∈ ds.resolved) :
    ∃ t, ds.resources.ResolvesQuad r t := by
  obtain ⟨q, hq, hqr⟩ := mem_resolve.mp hr
  obtain ⟨r', t, hr', ht⟩ := h q ((ds.namedGraphs.mem_quadList q).mp hq)
  cases hqr.symm.trans hr'
  exact ⟨t, ht⟩

def BlankOccurs (ds : Datastore N) (n : Nat) : Prop :=
  ∃ r ∈ ds.resolved, ∃ t, ds.resources.ResolvesQuad r t ∧ n ∈ t.blanks

theorem blankOccurs_of_assertedTerms {n : Nat} (h : n ∈ TermQuad.blanksOf ds.assertedTerms) :
    ds.BlankOccurs n := by
  obtain ⟨t, ⟨r, hr, ht⟩, hn⟩ := h
  exact ⟨r, ds.asserted_subset_resolved hr, t, ht, hn⟩

end Datastore

end RdfDatalog
