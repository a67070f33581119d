import RdfDatalog.Math.SolutionBag
import RdfDatalog.Sparql.Bgp

namespace RdfDatalog.Sparql

open Mapping PartialSubValue

variable {N : NativeTypes} {ds : Datastore N}

namespace PartialSubValue

theorem psvEq_iff {a b : PartialSubValue N} (ha : (a.resolve ds).isSome) :
    psvEq ds a b = true ↔ a.resolve ds = b.resolve ds := by
  cases a with
  | interned x =>
    cases b with
    | interned y =>
      obtain ⟨e, he⟩ := Option.isSome_iff_exists.mp ha
      rw [psvEq, decide_eq_true_iff]
      constructor
      · intro h
        rw [h]
      · intro h
        exact GraphElementManager.getGraphElement_inj he (h.symm.trans he)
    | computed y => simp [psvEq]
  | computed x =>
    cases b with
    | interned y => simp [psvEq]
    | computed y => simp [psvEq, resolve]

theorem toId_eq_some {a : PartialSubValue N} {id : GraphElementId} {e : GraphElement N}
    (hid : ds.resources.getGraphElement id = some e) (h : a.resolve ds = some e) :
    a.toId ds = some id := by
  cases a with
  | interned x => exact congrArg some (GraphElementManager.getGraphElement_inj h hid)
  | computed x =>
    obtain rfl : x = e := Option.some.inj h
    exact (ds.resources.exact x id).mpr hid

theorem resolve_of_toId {a : PartialSubValue N} {id : GraphElementId}
    (h : a.toId ds = some id) : a.resolve ds = ds.resources.getGraphElement id := by
  cases a with
  | interned x =>
    obtain rfl : x = id := Option.some.inj h
    rfl
  | computed x => exact ((ds.resources.exact x id).mp h).symm

end PartialSubValue

/-- The elements the variables of a solution stand for. -/
def meaning (ds : Datastore N) (sub : PartialSub N) : Mapping String (GraphElement N) :=
  fun v => (sub.lookup v).bind (·.resolve ds)

/-- Every binding of the solution stands for an element. -/
def Valid (ds : Datastore N) (sub : PartialSub N) : Prop :=
  ∀ v val, sub.lookup v = some val → (val.resolve ds).isSome

variable {sub : PartialSub N} {v : String} {val : PartialSubValue N} {t : GraphElement N}

theorem valid_empty (ds : Datastore N) : Valid ds ∅ := by
  intro v val h
  cases h

theorem meaning_empty (ds : Datastore N) : meaning ds ∅ = Mapping.empty := rfl

theorem Valid.meaning_eq_none (h : Valid ds sub) : meaning ds sub v = none ↔
    sub.lookup v = none := by
  rw [meaning]
  cases hv : sub.lookup v with
  | none => simp
  | some val =>
    obtain ⟨e, he⟩ := Option.isSome_iff_exists.mp (h v val hv)
    simp [he]

theorem Valid.insert (h : Valid ds sub) (hval : val.resolve ds = some t) :
    Valid ds (sub.insert v val) := by
  intro w val' hw
  by_cases hwv : w = v
  · subst hwv
    rw [Finmap.lookup_insert] at hw
    obtain rfl := Option.some.inj hw
    rw [hval]
    rfl
  · rw [Finmap.lookup_insert_of_ne _ hwv] at hw
    exact h w val' hw

theorem meaning_insert (hval : val.resolve ds = some t) :
    meaning ds (sub.insert v val) = (meaning ds sub).set v t := by
  funext w
  by_cases hwv : w = v
  · subst hwv
    rw [set_same, meaning, Finmap.lookup_insert]
    exact hval
  · rw [set_of_ne hwv, meaning, Finmap.lookup_insert_of_ne _ hwv]
    rfl

theorem Valid.erase (h : Valid ds sub) : Valid ds (sub.erase v) := by
  intro w val' hw
  by_cases hwv : w = v
  · subst hwv
    rw [Finmap.lookup_erase] at hw
    cases hw
  · rw [Finmap.lookup_erase_ne hwv] at hw
    exact h w val' hw

theorem meaning_erase : meaning ds (sub.erase v) = (meaning ds sub).unset v := by
  funext w
  by_cases hwv : w = v
  · subst hwv
    rw [meaning, Finmap.lookup_erase, Mapping.unset, Function.update_self]
    rfl
  · rw [meaning, Finmap.lookup_erase_ne hwv, Mapping.unset, Function.update_of_ne hwv]
    rfl

theorem partialSubsEqual_iff {a b : PartialSub N} (ha : Valid ds a) (hb : Valid ds b) :
    partialSubsEqual ds a b = true ↔ meaning ds a = meaning ds b := by
  rw [partialSubsEqual, decide_eq_true_iff]
  constructor
  · intro ⟨hcard, hagree⟩
    have hsub : a.keys ⊆ b.keys := by
      intro k hk
      have h := hagree k hk
      obtain ⟨va, hva⟩ := Finmap.mem_iff.mp (Finmap.mem_keys.mp hk)
      rw [hva] at h
      cases hvb : b.lookup k with
      | none => rw [hvb] at h; cases h
      | some vb => exact Finmap.mem_keys.mpr (Finmap.mem_iff.mpr ⟨vb, hvb⟩)
    have hkeys : a.keys = b.keys := Finset.eq_of_subset_of_card_le hsub hcard.ge
    funext k
    by_cases hk : k ∈ a.keys
    · have h := hagree k hk
      obtain ⟨va, hva⟩ := Finmap.mem_iff.mp (Finmap.mem_keys.mp hk)
      obtain ⟨vb, hvb⟩ := Finmap.mem_iff.mp (Finmap.mem_keys.mp (hsub hk))
      rw [hva, hvb] at h
      rw [meaning, meaning, hva, hvb]
      exact (psvEq_iff (ha k va hva)).mp h
    · have hka := Finmap.lookup_eq_none.mpr fun h => hk (Finmap.mem_keys.mpr h)
      have hkb := Finmap.lookup_eq_none.mpr fun h => hk (hkeys ▸ Finmap.mem_keys.mpr h)
      rw [meaning, meaning, hka, hkb]
  · intro h
    have hlookup (k : String) : a.lookup k = none ↔ b.lookup k = none := by
      rw [← ha.meaning_eq_none, ← hb.meaning_eq_none, h]
    have hkeys : a.keys = b.keys := by
      ext k
      have hk := hlookup k
      rw [Finmap.lookup_eq_none, Finmap.lookup_eq_none] at hk
      rw [Finmap.mem_keys, Finmap.mem_keys]
      exact not_iff_not.mp hk
    refine ⟨congrArg Finset.card hkeys, ?_⟩
    intro k hk
    obtain ⟨va, hva⟩ := Finmap.mem_iff.mp (Finmap.mem_keys.mp hk)
    obtain ⟨vb, hvb⟩ := Finmap.mem_iff.mp (Finmap.mem_keys.mp (hkeys ▸ hk))
    have hmeaning : meaning ds a k = meaning ds b k := congrFun h k
    rw [meaning, meaning, hva, hvb] at hmeaning
    rw [hva, hvb]
    exact (psvEq_iff (ha k va hva)).mpr hmeaning

theorem bindVariable_meaning (h : Valid ds sub) (hval : val.resolve ds = some t) :
    (bindVariable ds sub v val).map (meaning ds) = (meaning ds sub).bindVar v t ∧
      ∀ r ∈ bindVariable ds sub v val, Valid ds r := by
  rw [bindVariable]
  cases hv : sub.lookup v with
  | none =>
    have hnone : meaning ds sub v = none := h.meaning_eq_none.mpr hv
    rw [bindVar_of_none hnone]
    refine ⟨congrArg some (meaning_insert hval), fun r hr => ?_⟩
    obtain rfl := Option.some.inj hr
    exact h.insert hval
  | some existing =>
    obtain ⟨e, he⟩ := Option.isSome_iff_exists.mp (h v existing hv)
    have hsome : meaning ds sub v = some e := by rw [meaning, hv]; exact he
    have heq : psvEq ds existing val = true ↔ e = t := by
      rw [psvEq_iff (h v existing hv), he, hval, Option.some.injEq]
    rw [bindVar_of_some hsome]
    by_cases het : e = t
    · simp only [heq.mpr het, if_true, het]
      refine ⟨?_, fun r hr => ?_⟩
      · rw [Option.map_some, meaning_insert hval, ← het, set_eq_self hsome]
      · obtain rfl := Option.some.inj hr
        exact h.insert hval
    · have hfalse : psvEq ds existing val = false := by
        rw [Bool.eq_false_iff]
        exact fun hc => het (heq.mp hc)
      simp [hfalse, het]

/-- Let a position of a pattern take the value `t`. -/
def bindEnd (m : Mapping String (GraphElement N)) : Term N → GraphElement N →
    Option (Mapping String (GraphElement N))
  | .var v, t => m.bindVar v t
  | .constant gel, t => if gel = t then some m else none
  | .tripleTerm _ _ _, _ => none

def Term.isPlain : Term N → Bool
  | .tripleTerm _ _ _ => false
  | _ => true

def graphTriples (ds : Datastore N) (g : GraphElementId) (s p o : GraphElement N) : Prop :=
  ∃ q ∈ ds.namedGraphs, q.tripleId = g ∧ ds.resources.getGraphElement q.subject = some s ∧
    ds.resources.getGraphElement q.predicate = some p ∧
      ds.resources.getGraphElement q.obj = some o

section Position

variable {T : Term N} {id : GraphElementId}

theorem fits_of_bindEnd (h : Valid ds sub) (hid : ds.resources.getGraphElement id = some t)
    {m m' : Mapping String (GraphElement N)}
    (hm : ∀ v e, meaning ds sub v = some e → m v = some e) (hbind : bindEnd m T t = some m') :
    resolveMatchTerm ds sub T ≠ .never ∧
      ∀ x ∈ (resolveMatchTerm ds sub T).intoQueryArg, id = x := by
  cases T with
  | var v =>
    rw [resolveMatchTerm]
    cases hv : sub.lookup v with
    | none => simp [MatchTerm.intoQueryArg]
    | some val =>
      obtain ⟨e, he⟩ := Option.isSome_iff_exists.mp (h v val hv)
      have hme : m v = some e := hm v e (by rw [meaning, hv]; exact he)
      rw [bindEnd, bindVar_eq_some, hme] at hbind
      obtain rfl : e = t := Option.some.inj (hbind.1.resolve_left (by simp))
      simp [toId_eq_some hid he, MatchTerm.ofId, MatchTerm.intoQueryArg]
  | constant gel =>
    rw [bindEnd] at hbind
    split_ifs at hbind with hgel
    subst hgel
    have hlookup := (ds.resources.exact gel id).mpr hid
    simp [resolveMatchTerm, hlookup, MatchTerm.ofId, MatchTerm.intoQueryArg]
  | tripleTerm s p o => cases hbind

theorem bindTerm_meaning (h : Valid ds sub) (hid : ds.resources.getGraphElement id = some t)
    (hT : T.isPlain = true) {sub₀ : PartialSub N}
    (hfit : ∀ x ∈ (resolveMatchTerm ds sub₀ T).intoQueryArg, id = x)
    (hnever : resolveMatchTerm ds sub₀ T ≠ .never) :
    (bindTerm ds id sub T).map (meaning ds) = bindEnd (meaning ds sub) T t ∧
      ∀ r ∈ bindTerm ds id sub T, Valid ds r := by
  cases T with
  | var v => exact bindVariable_meaning h hid
  | constant gel =>
    have hgel : gel = t := by
      rw [resolveMatchTerm] at hfit hnever
      cases hlookup : ds.resources.resourceMap.lookup gel with
      | none => rw [hlookup] at hnever; exact absurd rfl hnever
      | some x =>
        rw [hlookup] at hfit
        have hx : id = x := hfit x rfl
        have hget := (ds.resources.exact gel x).mp hlookup
        rw [← hx] at hget
        exact Option.some.inj (hget.symm.trans hid)
    have hsame : bindTerm ds id sub (.constant gel) = some sub := rfl
    rw [hsame, bindEnd, if_pos hgel]
    refine ⟨rfl, fun r hr => ?_⟩
    obtain rfl := Option.some.inj hr
    exact h
  | tripleTerm s p o => cases hT

end Position

theorem bindEnd_extends {m m' : Mapping String (GraphElement N)} {T : Term N}
    (h : bindEnd m T t = some m') {w : String} {e : GraphElement N} (hw : m w = some e) :
    m' w = some e := by
  cases T with
  | var v =>
    obtain ⟨hv, rfl⟩ := bindVar_eq_some.mp h
    by_cases hwv : w = v
    · subst hwv
      rw [hw] at hv
      rw [set_same]
      exact (hv.resolve_left (by simp)).symm
    · rw [set_of_ne hwv]
      exact hw
  | constant gel =>
    rw [bindEnd] at h
    split_ifs at h
    obtain rfl := Option.some.inj h
    exact hw
  | tripleTerm s p o => cases h

end RdfDatalog.Sparql
