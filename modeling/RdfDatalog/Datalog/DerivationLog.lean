import RdfDatalog.Datalog.FailedRuleUpdates
import RdfDatalog.Datalog.ReverseIndex

namespace RdfDatalog.Datalog

open FallibleFold

variable {Expr : Type}

namespace DerivedFromIndex

variable {x y z : DerivedFromIndex} {log log' : List (Quad × Derivation)}

/-- `y` is `x` after new derivations were recorded, each of them in `log`. -/
structure Logged (x y : DerivedFromIndex) (log : List (Quad × Derivation)) : Prop where
  edited : x.Edited y
  appended : ∀ q, ∃ news, y.derivationsFor q = x.derivationsFor q ++ news ∧
    ∀ d ∈ news, (q, d) ∈ log
  fresh : ∀ e ∈ log, ¬ x.Recorded e.1 e.2

theorem Logged.refl (x : DerivedFromIndex) : x.Logged x [] :=
  ⟨.refl x, fun _ => ⟨[], (List.append_nil _).symm, nofun⟩, nofun⟩

theorem Logged.trans (h : x.Logged y log) (h' : y.Logged z log') : x.Logged z (log ++ log') := by
  refine ⟨h.edited.trans h'.edited, ?_, ?_⟩
  · intro q
    obtain ⟨news, hy, hnews⟩ := h.appended q
    obtain ⟨news', hz, hnews'⟩ := h'.appended q
    refine ⟨news ++ news', by rw [hz, hy, List.append_assoc], ?_⟩
    intro d hd
    rcases List.mem_append.mp hd with hd | hd
    · exact List.mem_append_left _ (hnews d hd)
    · exact List.mem_append_right _ (hnews' d hd)
  · intro e he hrec
    rcases List.mem_append.mp he with he | he
    · exact h.fresh e he hrec
    · obtain ⟨news, hy, -⟩ := h.appended e.1
      refine h'.fresh e he ?_
      rw [Recorded, hy]
      exact List.mem_append_left news hrec

theorem Logged.record (x : DerivedFromIndex) (q : Quad) (d : Derivation) :
    x.Logged (x.record q d).1 (if (x.record q d).2 then [(q, d)] else []) := by
  by_cases hold : x.Recorded q d
  · have hflag : (x.record q d).2 ≠ true := fun h => (x.record_isNew q d).mp h hold
    rw [if_neg hflag, record_of_recorded x q d hold]
    exact .refl x
  · rw [if_pos ((x.record_isNew q d).mpr hold)]
    refine ⟨.single (.record q d), ?_, ?_⟩
    · intro q'
      rw [derivationsFor_record x q q' d hold]
      split_ifs with hq
      · exact ⟨[d], rfl, fun d' hd' => by rw [List.mem_singleton.mp hd', hq]; exact .head []⟩
      · exact ⟨[], (List.append_nil _).symm, nofun⟩
    · intro e he
      rw [List.mem_singleton.mp he]
      exact hold

theorem derivationsFor_foldl_unrecord (log : List (Quad × Derivation)) (x : DerivedFromIndex)
    (q : Quad) : (log.foldl (fun x e => x.unrecord e.1 e.2) x).derivationsFor q =
      (x.derivationsFor q).filter fun d => (q, d) ∉ log := by
  induction log generalizing x with
  | nil => simp
  | cons e log ih =>
    rw [List.foldl_cons, ih, derivationsFor_unrecord]
    split_ifs with hq
    · rw [List.filter_filter]
      refine List.filter_congr fun d _ => ?_
      rw [Bool.eq_iff_iff]
      simp only [Bool.and_eq_true, decide_eq_true_eq, List.mem_cons, not_or, Prod.ext_iff, hq,
        true_and]
      exact and_comm
    · refine List.filter_congr fun d _ => ?_
      rw [Bool.eq_iff_iff]
      simp [Prod.ext_iff, hq]

theorem edited_foldl_unrecord (log : List (Quad × Derivation)) (x : DerivedFromIndex) :
    x.Edited (log.foldl (fun x e => x.unrecord e.1 e.2) x) := by
  induction log generalizing x with
  | nil => exact .refl x
  | cons e log ih => exact .trans (.single (.unrecord e.1 e.2)) (ih _)

theorem Logged.undo (h : x.Logged y log) (q : Quad) :
    (log.foldl (fun x e => x.unrecord e.1 e.2) y).derivationsFor q = x.derivationsFor q := by
  obtain ⟨news, hy, hnews⟩ := h.appended q
  have hkept : (x.derivationsFor q).filter (fun d => (q, d) ∉ log) = x.derivationsFor q := by
    rw [List.filter_eq_self]
    intro d hd
    exact decide_eq_true fun hlog => h.fresh (q, d) hlog hd
  have hdropped : news.filter (fun d => (q, d) ∉ log) = [] := by
    rw [List.filter_eq_nil_iff]
    intro d hd hno
    exact of_decide_eq_true hno (hnews d hd)
  rw [derivationsFor_foldl_unrecord, hy, List.filter_append, hkept, hdropped, List.append_nil]

end DerivedFromIndex

open DerivedFromIndex

namespace Materialisation

theorem deriveAll_logged (m : Materialisation) (entries : List (Quad × Derivation)) :
    ∃ log, (m.deriveAll entries).track = m.track ++ log ∧
      m.derivedFrom.Logged (m.deriveAll entries).derivedFrom log := by
  induction entries generalizing m with
  | nil => exact ⟨[], (List.append_nil _).symm, .refl _⟩
  | cons e entries ih =>
    obtain ⟨log, htrack, hlogged⟩ := ih (m.derive e.1 e.2)
    have hfirst := Logged.record m.derivedFrom e.1 e.2
    refine ⟨_ ++ log, ?_, hfirst.trans hlogged⟩
    rw [deriveAll, List.foldl_cons, ← deriveAll, htrack, Materialisation.derive]
    dsimp only
    split_ifs
    · exact List.append_assoc _ _ _
    · rfl

end Materialisation

open Materialisation

theorem RunFrom.logged {base : QuadStore} {x : DerivedFromIndex} {m : Materialisation}
    (h : RunFrom base x m) : x.Logged m.derivedFrom m.track := by
  obtain ⟨added, entries, rfl⟩ := h
  obtain ⟨log, htrack, hlogged⟩ := deriveAll_logged ⟨added.foldl QuadStore.addQuad base, x, []⟩
    entries
  rw [htrack]
  exact hlogged

/-- Every program of `ps` stands at its place in `ps'`, with new derivations recorded that the log
for the place holds. -/
def LoggedAt (ps ps' : List (DatalogProgram Expr)) (log : Nat → List (Quad × Derivation)) : Prop :=
  ∀ (i : Nat) (p : DatalogProgram Expr), ps[i]? = some p →
    ∃ p', ps'[i]? = some p' ∧ p.derivedFrom.Logged p'.derivedFrom (log i)

/-- The log a pass keeps for the program at place `i`. -/
def Sweep.logAt (s : Sweep Expr) (i : Nat) : List (Quad × Derivation) := (s.tracked[i]?).getD []

theorem LoggedAt.refl (ps : List (DatalogProgram Expr)) : LoggedAt ps ps fun _ => [] :=
  fun _ p hp => ⟨p, hp, .refl p.derivedFrom⟩

theorem LoggedAt.cons {p : DatalogProgram Expr} {m : Materialisation}
    {ps : List (DatalogProgram Expr)} {s : Sweep Expr}
    (hfirst : p.derivedFrom.Logged m.derivedFrom m.track) (h : LoggedAt ps s.programs s.logAt) :
    LoggedAt (p :: ps) (s.cons p m).programs (s.cons p m).logAt := by
  intro i p' hp'
  cases i with
  | zero =>
    cases hp'
    exact ⟨p.withDerivedFrom m.derivedFrom, rfl, hfirst⟩
  | succ i => exact h i p' hp'

theorem RunsOn.loggedAt {ps : List (DatalogProgram Expr)} {base : QuadStore} {s : Sweep Expr}
    (h : RunsOn ps base s) : LoggedAt ps s.programs s.logAt := by
  induction h with
  | start ps base => exact LoggedAt.refl ps
  | cons hran _ ih => exact LoggedAt.cons (RunFrom.logged hran) ih

namespace IncrementalReasoner

theorem getElem?_undoTracked (ps : List (DatalogProgram Expr))
    (tracked : List (List (Quad × Derivation))) (i : Nat) :
    (undoTracked ps tracked)[i]? = ps[i]?.map fun p => p.withDerivedFrom
      (((tracked[i]?).getD []).foldl (fun x e => x.unrecord e.1 e.2) p.derivedFrom) := by
  induction ps generalizing tracked i with
  | nil => cases tracked <;> rfl
  | cons p ps ih =>
    cases tracked with
    | nil =>
      rw [undoTracked]
      · cases (p :: ps)[i]? <;> rfl
      · intro _ _ _ _ _ h
        cases h
    | cons buf tracked =>
      cases i with
      | zero => rfl
      | succ i => exact ih tracked i

/-- The log kept for the program at place `i` while rules are inserted. -/
def logOf (tracked : List (Nat × List (Quad × Derivation))) (i : Nat) : List (Quad × Derivation) :=
  (tracked.filter fun e => e.1 = i).flatMap Prod.snd

theorem logOf_append (l l' : List (Nat × List (Quad × Derivation))) (i : Nat) :
    logOf (l ++ l') i = logOf l i ++ logOf l' i := by
  rw [logOf, List.filter_append, List.flatMap_append, logOf, logOf]

theorem logOf_zipIdx (l : List (List (Quad × Derivation))) (start i : Nat) :
    logOf ((l.zipIdx start).map Prod.swap) i =
      if start ≤ i then (l[i - start]?).getD [] else [] := by
  induction l generalizing start with
  | nil => split_ifs <;> rfl
  | cons buf l ih =>
    rw [List.zipIdx_cons, List.map_cons, logOf, List.filter_cons]
    have hrest := ih (start + 1)
    rw [logOf] at hrest
    by_cases hi : start = i
    · subst hi
      have hnone : ¬ start + 1 ≤ start := by omega
      rw [if_neg hnone] at hrest
      simp [hrest]
    · rw [if_neg (by simpa using hi), hrest]
      by_cases hle : start ≤ i
      · have hle' : start + 1 ≤ i := by omega
        have hsub : i - start = (i - (start + 1)) + 1 := by omega
        rw [if_pos hle, if_pos hle', hsub, List.getElem?_cons_succ]
      · have hle' : ¬ start + 1 ≤ i := by omega
        rw [if_neg hle, if_neg hle']

variable {orig : List (DatalogProgram Expr)} {st : RuleInsertion Expr}

theorem loggedAt_congr {ps ps' ps'' : List (DatalogProgram Expr)}
    {log : Nat → List (Quad × Derivation)} (h : LoggedAt ps ps' log)
    (hsame : ps''.map DatalogProgram.derivedFrom = ps'.map DatalogProgram.derivedFrom) :
    LoggedAt ps ps'' log := by
  intro i p hp
  obtain ⟨p', hp', hlogged⟩ := h i p hp
  have hi := congrArg (fun l => l[i]?) hsame
  rw [List.getElem?_map, List.getElem?_map, hp', Option.map_some, Option.map_eq_some_iff] at hi
  obtain ⟨p'', hp'', hx⟩ := hi
  exact ⟨p'', hp'', hx ▸ hlogged⟩

theorem derivedFrom_modify_enableRule (programs : List (DatalogProgram Expr)) (t : Nat × Nat) :
    (programs.modify t.1 fun p => p.enableRule t.2).map DatalogProgram.derivedFrom =
      programs.map DatalogProgram.derivedFrom := by
  apply List.ext_getElem?
  intro i
  rw [List.getElem?_map, List.getElem?_map, List.getElem?_modify]
  cases programs[i]? with
  | none => rfl
  | some p =>
    dsimp only [Option.map_some, Option.map_eq_map]
    split_ifs <;> rfl

theorem loggedAt_resume (h : LoggedAt orig st.programs (logOf st.tracked)) {start : Nat}
    {s : Sweep Expr} (hs : LoggedAt (st.programs.drop start) s.programs s.logAt) :
    LoggedAt orig (st.resume start s).programs (logOf (st.resume start s).tracked) := by
  intro i p hp
  obtain ⟨p', hp', hlogged⟩ := h i p hp
  have hi : i < st.programs.length := (List.getElem?_eq_some_iff.mp hp').1
  dsimp only [RuleInsertion.resume]
  rw [logOf_append, logOf_zipIdx]
  by_cases hstart : start ≤ i
  · have hlength : (st.programs.take start).length = start := by
      rw [List.length_take]
      omega
    have hdrop : (st.programs.drop start)[i - start]? = some p' := by
      rw [List.getElem?_drop, Nat.add_sub_cancel' hstart, hp']
    obtain ⟨p'', hp'', hpass⟩ := hs (i - start) p' hdrop
    refine ⟨p'', ?_, ?_⟩
    · rw [List.getElem?_append_right (hlength.le.trans hstart), hlength, hp'']
    · rw [if_pos hstart]
      exact hlogged.trans hpass
  · refine ⟨p', ?_, ?_⟩
    · have hlt : i < (st.programs.take start).length := by
        rw [List.length_take]
        omega
      rw [List.getElem?_append_left hlt, List.getElem?_take, if_pos (by omega), hp']
    · rw [if_neg hstart, List.append_nil]
      exact hlogged

/-- The insertion of rules logs what it records in the programs that were there, also when it
fails. -/
theorem insertRules_loggedAt (env : ReasonerEnv Expr) (programs : List (DatalogProgram Expr))
    (base : QuadStore) (targets : List (Nat × Nat)) (fresh : List (DatalogProgram Expr)) :
    LoggedAt programs (reached (insertRules env ⟨programs, base, [], []⟩ targets fresh)).programs
      (logOf (reached (insertRules env ⟨programs, base, [], []⟩ targets fresh)).tracked) := by
  have hstart : LoggedAt programs (RuleInsertion.programs ⟨programs, base, [], []⟩) (logOf []) :=
    LoggedAt.refl programs
  have hinsert := insertRules_runsOn env
    (I := fun st : RuleInsertion Expr => LoggedAt programs st.programs (logOf st.tracked))
    (fun st t (_ : t ∈ targets) s h hs => @loggedAt_resume _ programs (st.enabled t)
      (loggedAt_congr h (derivedFrom_modify_enableRule st.programs t)) t.1 s hs.loggedAt)
    hstart fresh
  rcases hinsert with h | ⟨st, s, h, -, heq⟩
  · exact h
  · rw [heq]
    refine loggedAt_resume h ?_
    rw [List.drop_length]
    intro i p hp
    cases hp

end IncrementalReasoner

end RdfDatalog.Datalog
