import RdfDatalog.Math.DeltaBuffer

namespace RdfDatalog.DeltaBuffer

variable {α : Type}

/-- An operation on listed elements. -/
inductive DataOp (α : Type) where
  | insert (q : Finset α)
  | delete (q : Finset α)

namespace DataOp

def effect : DataOp α → Effect α
  | insert q => .insert q
  | delete q => .delete q

def Inserts (x : α) (ops : List (DataOp α)) : Prop := ∃ q, insert q ∈ ops ∧ x ∈ q

def Deletes (x : α) (ops : List (DataOp α)) : Prop := ∃ q, delete q ∈ ops ∧ x ∈ q

/-- Some deletion of `x` comes after an insertion of it. -/
def DeletesOwn (x : α) (ops : List (DataOp α)) : Prop :=
  ∃ pre q post, ops = pre ++ delete q :: post ∧ x ∈ q ∧ Inserts x pre

theorem inserts_append (x : α) (ops ops' : List (DataOp α)) :
    Inserts x (ops ++ ops') ↔ Inserts x ops ∨ Inserts x ops' := by
  simp only [Inserts, List.mem_append, or_and_right, exists_or]

theorem deletes_append (x : α) (ops ops' : List (DataOp α)) :
    Deletes x (ops ++ ops') ↔ Deletes x ops ∨ Deletes x ops' := by
  simp only [Deletes, List.mem_append, or_and_right, exists_or]

theorem inserts_singleton (x : α) (op : DataOp α) :
    Inserts x [op] ↔ ∃ q, op = insert q ∧ x ∈ q := by
  simp only [Inserts, List.mem_singleton, eq_comm]

theorem deletes_singleton (x : α) (op : DataOp α) :
    Deletes x [op] ↔ ∃ q, op = delete q ∧ x ∈ q := by
  simp only [Deletes, List.mem_singleton, eq_comm]

variable {x : α} {ops : List (DataOp α)}

theorem DeletesOwn.inserts (h : DeletesOwn x ops) :
    Inserts x ops := by
  obtain ⟨pre, q, post, rfl, -, hpre⟩ := h
  exact (inserts_append x pre _).mpr (.inl hpre)

theorem DeletesOwn.deletes (h : DeletesOwn x ops) :
    Deletes x ops := by
  obtain ⟨pre, q, post, rfl, hx, -⟩ := h
  exact ⟨q, List.mem_append_right pre List.mem_cons_self, hx⟩

theorem Inserts.flatten {requests : List (List (DataOp α))} (h : Inserts x ops)
    (hops : ops ∈ requests) : Inserts x requests.flatten := by
  obtain ⟨q, hq, hx⟩ := h
  exact ⟨q, List.mem_flatten.mpr ⟨ops, hops, hq⟩, hx⟩

theorem deletesOwn_append_singleton (x : α) (ops : List (DataOp α)) (op : DataOp α) :
    DeletesOwn x (ops ++ [op]) ↔ DeletesOwn x ops ∨ (Deletes x [op] ∧ Inserts x ops) := by
  constructor
  · intro ⟨pre, q, post, hsplit, hx, hpre⟩
    rcases List.eq_nil_or_concat post with rfl | ⟨post, op', rfl⟩
    · obtain ⟨rfl, hop⟩ := List.append_inj' hsplit rfl
      exact .inr ⟨⟨q, by rw [hop]; exact List.mem_singleton_self _, hx⟩, hpre⟩
    · rw [List.concat_eq_append, ← List.cons_append, ← List.append_assoc] at hsplit
      obtain ⟨hops, -⟩ := List.append_inj' hsplit rfl
      exact .inl ⟨pre, q, post, hops, hx, hpre⟩
  · rintro (⟨pre, q, post, rfl, hx, hpre⟩ | ⟨⟨q, hq, hx⟩, hpre⟩)
    · exact ⟨pre, q, post ++ [op], by simp, hx, hpre⟩
    · rw [List.mem_singleton] at hq
      exact ⟨ops, q, [], by rw [hq], hx, hpre⟩

variable [DecidableEq α]

/-- The operations one after another on the set itself. -/
def runAll (s : Finset α) (ops : List (DataOp α)) : Finset α :=
  ops.foldl (fun s op => op.effect.run s) s

/-- The last operation on `x`: `true` if it inserts `x`, `false` if it deletes it. -/
def last (x : α) (ops : List (DataOp α)) : Option Bool :=
  ops.foldl (fun found op =>
    match op with
    | insert q => if x ∈ q then some true else found
    | delete q => if x ∈ q then some false else found) none

theorem last_append_insert (x : α) (ops : List (DataOp α)) (q : Finset α) :
    last x (ops ++ [insert q]) = if x ∈ q then some true else last x ops := by
  rw [last, List.foldl_append]
  rfl

theorem last_append_delete (x : α) (ops : List (DataOp α)) (q : Finset α) :
    last x (ops ++ [delete q]) = if x ∈ q then some false else last x ops := by
  rw [last, List.foldl_append]
  rfl

theorem mem_runAll (s : Finset α) (x : α) (ops : List (DataOp α)) :
    x ∈ runAll s ops ↔ last x ops = some true ∨ (last x ops = none ∧ x ∈ s) := by
  induction ops using List.reverseRecOn with
  | nil => simp [runAll, last]
  | append_singleton ops op ih =>
    have hstep : runAll s (ops ++ [op]) = op.effect.run (runAll s ops) := List.foldl_append
    rw [hstep]
    cases op with
    | insert q =>
      rw [last_append_insert, effect, Effect.run, Finset.mem_union, ih]
      by_cases hx : x ∈ q
      · simp [hx]
      · simp [hx]
    | delete q =>
      rw [last_append_delete, effect, Effect.run, Finset.mem_sdiff, ih]
      by_cases hx : x ∈ q
      · simp [hx]
      · simp [hx]

theorem inserts_of_last (h : last x ops = some true) :
    Inserts x ops := by
  induction ops using List.reverseRecOn with
  | nil => cases h
  | append_singleton ops op ih =>
    rw [inserts_append]
    cases op with
    | insert q =>
      rw [last_append_insert] at h
      by_cases hx : x ∈ q
      · exact .inr ⟨q, List.mem_singleton_self _, hx⟩
      · rw [if_neg hx] at h
        exact .inl (ih h)
    | delete q =>
      rw [last_append_delete] at h
      by_cases hx : x ∈ q
      · rw [if_pos hx] at h
        cases h
      · rw [if_neg hx] at h
        exact .inl (ih h)

theorem deletes_of_last (h : last x ops = some false) :
    Deletes x ops := by
  induction ops using List.reverseRecOn with
  | nil => cases h
  | append_singleton ops op ih =>
    rw [deletes_append]
    cases op with
    | insert q =>
      rw [last_append_insert] at h
      by_cases hx : x ∈ q
      · rw [if_pos hx] at h
        cases h
      · rw [if_neg hx] at h
        exact .inl (ih h)
    | delete q =>
      rw [last_append_delete] at h
      by_cases hx : x ∈ q
      · exact .inr ⟨q, List.mem_singleton_self _, hx⟩
      · rw [if_neg hx] at h
        exact .inl (ih h)

theorem not_of_last_none (h : last x ops = none) :
    ¬ Inserts x ops ∧ ¬ Deletes x ops := by
  induction ops using List.reverseRecOn with
  | nil => simp [Inserts, Deletes]
  | append_singleton ops op ih =>
    rw [inserts_append, deletes_append, inserts_singleton, deletes_singleton]
    cases op with
    | insert q =>
      rw [last_append_insert] at h
      split_ifs at h with hx
      obtain ⟨hi, hd⟩ := ih h
      simp [hi, hd, hx]
    | delete q =>
      rw [last_append_delete] at h
      split_ifs at h with hx
      obtain ⟨hi, hd⟩ := ih h
      simp [hi, hd, hx]

end DataOp

namespace Buffer

open DataOp

variable [DecidableEq α] {stored : Finset α} {x : α}

/-- What one request buffers by itself, over the stored set. -/
def collect (stored : Finset α) (ops : List (DataOp α)) : Buffer α :=
  ops.foldl (fun b op => b.apply op.effect) ⟨stored, ∅, ∅⟩

/-- Add what a request has buffered to what the requests before it have. A deletion is kept for what
is stored or about to be. -/
def join (b c : Buffer α) : Buffer α where
  live := b.live
  ins := b.ins ∪ c.ins
  del := b.del ∪ c.del.filter fun x => x ∈ b.live ∨ x ∈ b.ins ∪ c.ins

def buffered (stored : Finset α) (requests : List (List (DataOp α))) : Buffer α :=
  requests.foldl (fun b ops => b.join (collect stored ops)) ⟨stored, ∅, ∅⟩

/-- What a commit writes: the deletions of stored elements, then the insertions that none of these
cancels. -/
def committed (b : Buffer α) : Finset α :=
  (b.live \ b.del) ∪ b.ins.filter fun x => ¬ (x ∈ b.del ∧ x ∈ b.live)

theorem collect_append (stored : Finset α) (ops : List (DataOp α)) (op : DataOp α) :
    collect stored (ops ++ [op]) = (collect stored ops).apply op.effect := by
  rw [collect, List.foldl_append]
  rfl

theorem collect_live (stored : Finset α) (ops : List (DataOp α)) :
    (collect stored ops).live = stored := by
  induction ops using List.reverseRecOn with
  | nil => rfl
  | append_singleton ops op ih =>
    rw [collect_append]
    cases op with
    | insert q => exact ih
    | delete q => exact ih

theorem mem_collect_ins (ops : List (DataOp α)) :
    x ∈ (collect stored ops).ins ↔ Inserts x ops := by
  induction ops using List.reverseRecOn with
  | nil => simp [collect, Inserts]
  | append_singleton ops op ih =>
    rw [collect_append, inserts_append, inserts_singleton, ← ih]
    cases op with
    | insert | delete => simp [effect, apply]

theorem mem_collect_del (ops : List (DataOp α)) :
    x ∈ (collect stored ops).del ↔ (x ∈ stored ∧ Deletes x ops) ∨ DeletesOwn x ops := by
  induction ops using List.reverseRecOn with
  | nil => simp [collect, Deletes, DeletesOwn]
  | append_singleton ops op ih =>
    have hins := @mem_collect_ins α _ stored x ops
    rw [collect_append, deletes_append, deletesOwn_append_singleton, ← hins, deletes_singleton]
    cases op with
    | insert q =>
      have hsame : ((collect stored ops).apply (insert q).effect).del = (collect stored ops).del :=
        rfl
      rw [hsame, ih]
      simp
    | delete q =>
      have hdel : ((collect stored ops).apply (delete q).effect).del = (collect stored ops).del ∪
          q.filter fun x => x ∈ (collect stored ops).live ∨ x ∈ (collect stored ops).ins := rfl
      rw [hdel, Finset.mem_union, Finset.mem_filter, collect_live, ih]
      simp only [delete.injEq, exists_eq_left']
      tauto

theorem buffered_append (stored : Finset α) (requests : List (List (DataOp α)))
    (ops : List (DataOp α)) : buffered stored (requests ++ [ops]) =
      (buffered stored requests).join (collect stored ops) := by
  rw [buffered, List.foldl_append]
  rfl

theorem buffered_live (stored : Finset α) (requests : List (List (DataOp α))) :
    (buffered stored requests).live = stored := by
  induction requests using List.reverseRecOn with
  | nil => rfl
  | append_singleton requests ops ih =>
    rw [buffered_append]
    exact ih

theorem mem_buffered_ins (requests : List (List (DataOp α))) :
    x ∈ (buffered stored requests).ins ↔ Inserts x requests.flatten := by
  induction requests using List.reverseRecOn with
  | nil => simp [buffered, Inserts]
  | append_singleton requests ops ih =>
    have hop := @mem_collect_ins α _ stored x ops
    rw [buffered_append, join, List.flatten_append, List.flatten_singleton, inserts_append, ← ih,
      ← hop]
    exact Finset.mem_union

theorem mem_buffered_del (requests : List (List (DataOp α))) :
    x ∈ (buffered stored requests).del ↔
      (x ∈ stored ∧ Deletes x requests.flatten) ∨ ∃ ops ∈ requests, DeletesOwn x ops := by
  induction requests using List.reverseRecOn with
  | nil => simp [buffered, Deletes]
  | append_singleton requests ops ih =>
    have hop := @mem_collect_del α _ stored x ops
    have hlive := buffered_live stored requests
    -- the deletions of a request pass the filter at the buffering
    have hkept : x ∈ (collect stored ops).del → x ∈ (buffered stored requests).live ∨
        x ∈ (buffered stored requests).ins ∪ (collect stored ops).ins := by
      intro hdel
      rw [hlive]
      rcases hop.mp hdel with ⟨hstored, -⟩ | ⟨pre, q, post, rfl, -, hpre⟩
      · exact .inl hstored
      · refine .inr (Finset.mem_union_right _ ((mem_collect_ins _).mpr ?_))
        exact (inserts_append x pre _).mpr (.inl hpre)
    have hsplit : (∃ r ∈ requests ++ [ops], DeletesOwn x r) ↔
        (∃ r ∈ requests, DeletesOwn x r) ∨ DeletesOwn x ops := by
      simp only [List.mem_append, List.mem_singleton, or_and_right, exists_or, exists_eq_left]
    rw [buffered_append, join, Finset.mem_union, Finset.mem_filter, and_iff_left_of_imp hkept, ih,
      hop, List.flatten_append, List.flatten_singleton, deletes_append, hsplit, and_or_left,
      or_or_or_comm]

end Buffer

open DataOp Buffer

variable [DecidableEq α]

/-- The requests so far and one more leave every element as if their operations had taken place in
order: no stored element was last inserted after a deletion, and no other one was last deleted after
an insertion, or deleted after it by the request itself. -/
structure InOrder (stored : Finset α) (earlier request : List (DataOp α)) : Prop where
  old : ∀ x ∈ stored, last x (earlier ++ request) = some true → ¬ Deletes x (earlier ++ request)
  fresh : ∀ x ∉ stored, Inserts x (earlier ++ request) →
    last x (earlier ++ request) = some true ∧ ¬ DeletesOwn x request

section Sequential

variable {stored : Finset α} {x : α}

/-- The commit leaves the view, unless an element not stored is both inserted and deleted. -/
theorem committed_eq_view_iff (b : Buffer α) :
    b.committed = b.view ↔ ∀ x ∈ b.ins, x ∈ b.del → x ∈ b.live := by
  have hmem (x : α) : x ∈ b.committed ↔
      (x ∈ b.live ∧ x ∉ b.del) ∨ (x ∈ b.ins ∧ ¬ (x ∈ b.del ∧ x ∈ b.live)) := by
    rw [committed, Finset.mem_union, Finset.mem_sdiff, Finset.mem_filter]
  constructor
  · intro heq x hins hdel
    by_contra hlive
    have hx : x ∈ b.view := heq ▸ (hmem x).mpr (.inr ⟨hins, fun h => hlive h.2⟩)
    exact (mem_view.mp hx).2 hdel
  · intro h
    ext x
    have hx := h x
    rw [hmem, mem_view]
    tauto

theorem mem_view_old (hx : x ∈ stored) (requests : List (List (DataOp α))) :
    x ∈ (buffered stored requests).view ↔ ¬ Deletes x requests.flatten := by
  have hdel : x ∈ (buffered stored requests).del ↔ Deletes x requests.flatten := by
    rw [mem_buffered_del, and_iff_right hx]
    refine or_iff_left_of_imp fun ⟨ops, hops, hown⟩ => ?_
    obtain ⟨q, hq, hxq⟩ := hown.deletes
    exact ⟨q, List.mem_flatten.mpr ⟨ops, hops, hq⟩, hxq⟩
  rw [mem_view, hdel, buffered_live]
  exact and_iff_right (.inl hx)

theorem mem_view_fresh (hx : x ∉ stored) (requests : List (List (DataOp α))) :
    x ∈ (buffered stored requests).view ↔
      Inserts x requests.flatten ∧ ∀ ops ∈ requests, ¬ DeletesOwn x ops := by
  have hdel : x ∈ (buffered stored requests).del ↔ ∃ ops ∈ requests, DeletesOwn x ops := by
    rw [mem_buffered_del]
    exact or_iff_right fun h => hx h.1
  rw [mem_view, hdel, buffered_live, mem_buffered_ins, or_iff_right hx]
  simp only [not_exists, not_and]

theorem view_agrees_old (hx : x ∈ stored) (requests : List (List (DataOp α))) :
    (x ∈ (buffered stored requests).view ↔ x ∈ runAll stored requests.flatten) ↔
      (last x requests.flatten = some true → ¬ Deletes x requests.flatten) := by
  rw [mem_view_old hx, mem_runAll]
  cases hlast : last x requests.flatten with
  | none =>
    have hno := (not_of_last_none hlast).2
    simp [hno, hx]
  | some b =>
    cases b with
    | true => simp
    | false =>
      have hdel := deletes_of_last hlast
      simp [hdel]

/-- On another one, where no request has deleted what it inserted itself, the view is right unless
it is last deleted after an insertion. -/
theorem view_agrees_fresh (hx : x ∉ stored) {requests : List (List (DataOp α))}
    (hown : ∀ ops ∈ requests, ¬ DeletesOwn x ops) :
    (x ∈ (buffered stored requests).view ↔ x ∈ runAll stored requests.flatten) ↔
      (Inserts x requests.flatten → last x requests.flatten = some true) := by
  have hrun : x ∈ runAll stored requests.flatten ↔ last x requests.flatten = some true := by
    rw [mem_runAll]
    exact or_iff_left fun h => hx h.2
  rw [mem_view_fresh hx, and_iff_left hown, hrun]
  exact ⟨Iff.mp, fun h => ⟨h, inserts_of_last⟩⟩

/-- The views after each request, and the commit, are those of the operations in order exactly when
every request finds and leaves the elements so. -/
theorem buffered_sequential_iff (stored : Finset α) (requests : List (List (DataOp α))) :
    ((∀ pre, pre <+: requests →
        (buffered stored pre).view = runAll stored pre.flatten) ∧
      (buffered stored requests).committed = runAll stored requests.flatten) ↔
    ∀ pre ops, pre ++ [ops] <+: requests → InOrder stored pre.flatten ops := by
  have hflat (pre : List (List (DataOp α))) (ops : List (DataOp α)) :
      (pre ++ [ops]).flatten = pre.flatten ++ ops := by simp
  constructor
  · intro ⟨hviews, hcommit⟩
    have hown (x : α) (hx : x ∉ stored) (ops : List (DataOp α)) (hops : ops ∈ requests) :
        ¬ DeletesOwn x ops := by
      intro hown
      have heq := hcommit.trans (hviews requests List.prefix_rfl).symm
      refine hx ?_
      have hlive := (committed_eq_view_iff _).mp heq x
        ((mem_buffered_ins _).mpr (hown.inserts.flatten hops))
        ((mem_buffered_del _).mpr (.inr ⟨ops, hops, hown⟩))
      rwa [buffered_live] at hlive
    intro pre ops hpre
    have hview := hviews _ hpre
    refine ⟨fun x hx => ?_, fun x hx hins => ⟨?_, hown x hx ops ?_⟩⟩
    · rw [← hflat]
      exact (view_agrees_old hx _).mp (by rw [hview])
    · rw [← hflat] at hins ⊢
      refine (view_agrees_fresh hx fun ops' hops' => ?_).mp (by rw [hview]) hins
      exact hown x hx ops' (hpre.subset hops')
    · exact hpre.subset (List.mem_append_right pre (List.mem_singleton_self ops))
  · intro h
    have hown (x : α) (hx : x ∉ stored) (ops : List (DataOp α)) (hops : ops ∈ requests) :
        ¬ DeletesOwn x ops := by
      intro hown
      obtain ⟨pre, post, rfl⟩ := List.append_of_mem hops
      have horder := h pre ops ⟨post, by simp⟩
      exact (horder.fresh x hx ((inserts_append x _ _).mpr (.inr hown.inserts))).2 hown
    have hviews (pre : List (List (DataOp α))) (hpre : pre <+: requests) :
        (buffered stored pre).view = runAll stored pre.flatten := by
      rcases List.eq_nil_or_concat pre with rfl | ⟨pre, ops, rfl⟩
      · simp [buffered, runAll, view]
      rw [List.concat_eq_append] at hpre ⊢
      have horder := h pre ops hpre
      ext x
      by_cases hx : x ∈ stored
      · refine (view_agrees_old hx _).mpr ?_
        rw [hflat]
        exact horder.old x hx
      · refine (view_agrees_fresh hx fun ops' hops' => ?_).mpr ?_
        · exact hown x hx ops' (hpre.subset hops')
        · rw [hflat]
          exact fun hins => (horder.fresh x hx hins).1
    refine ⟨hviews, ?_⟩
    rw [← hviews requests List.prefix_rfl, committed_eq_view_iff]
    intro x _ hdel
    rw [buffered_live]
    by_contra hx
    rcases (mem_buffered_del _).mp hdel with hold | ⟨ops, hops, hx'⟩
    · exact hx hold.1
    · exact hown x hx ops hops hx'

theorem append_singleton_prefix_iff {β : Type} (pre l : List β) (x : β) :
    pre ++ [x] <+: l ↔ pre = l.take pre.length ∧ l[pre.length]? = some x := by
  constructor
  · intro ⟨post, hpost⟩
    rw [← hpost]
    simp
  · intro ⟨htake, hx⟩
    have htake' : l.take (pre.length + 1) = pre ++ [x] := by
      rw [List.take_add_one, hx, ← htake]
      rfl
    rw [← htake']
    exact List.take_prefix _ _

theorem buffered_sequential_iff_take (stored : Finset α) (requests : List (List (DataOp α))) :
    ((∀ n, (buffered stored (requests.take n)).view = runAll stored (requests.take n).flatten) ∧
      (buffered stored requests).committed = runAll stored requests.flatten) ↔
    ∀ n ops, requests[n]? = some ops → InOrder stored (requests.take n).flatten ops := by
  have hviews : (∀ n, (buffered stored (requests.take n)).view =
        runAll stored (requests.take n).flatten) ↔
      ∀ pre, pre <+: requests → (buffered stored pre).view = runAll stored pre.flatten := by
    constructor
    · intro h pre hpre
      rw [List.prefix_iff_eq_take.mp hpre]
      exact h _
    · exact fun h n => h _ (List.take_prefix n requests)
  rw [hviews, buffered_sequential_iff]
  constructor
  · intro h n ops hops
    have hn : (requests.take n).length = n :=
      List.length_take_of_le (List.getElem?_eq_some_iff.mp hops).1.le
    refine h (requests.take n) ops ((append_singleton_prefix_iff _ _ _).mpr ?_)
    rw [hn]
    exact ⟨rfl, hops⟩
  · intro h pre ops hpre
    obtain ⟨htake, hops⟩ := (append_singleton_prefix_iff _ _ _).mp hpre
    have horder := h pre.length ops hops
    rwa [← htake] at horder

end Sequential

end RdfDatalog.DeltaBuffer
