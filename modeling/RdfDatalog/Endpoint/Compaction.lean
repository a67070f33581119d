import RdfDatalog.Datalog.RuleStatus
import RdfDatalog.Endpoint.ChangelogAgreement
import RdfDatalog.Endpoint.Server
import RdfDatalog.Math.SequenceTable
import Mathlib.Data.Finset.Sort
import Mathlib.Data.String.Basic

namespace RdfDatalog.Endpoint

open DeltaBuffer GraphElementManager SequenceTable Datalog

variable {N : NativeTypes} {Expr : Type}

/-- The dataset that is there from the start. -/
def defaultDatasetName : String := "ds"

def isRulesetEntry : ChangelogEntry → Bool
  | .replaceRuleset .. | .setNamedRuleset .. | .deleteNamedRuleset .. => true
  | _ => false

/-- The dataset that an entry is about; entries on the registration of datasets have none. -/
def entryDataset : ChangelogEntry → Option String
  | .quad (.clearGraph dataset _) => some dataset
  | .quad (.insertQuad dataset _ _ _ _) => some dataset
  | .quad (.deleteQuad dataset _ _ _ _) => some dataset
  | .replaceRuleset dataset _ => some dataset
  | .setNamedRuleset dataset _ _ => some dataset
  | .deleteNamedRuleset dataset _ => some dataset
  | .createDataset _ | .deleteDataset _ => none

def createdName : ChangelogEntry → Option String
  | .createDataset name => some name
  | _ => none

/-- Where the current incarnation of each dataset starts that was created. -/
def createCutoffs (entries : List (ℕ × ChangelogEntry)) : Finmap fun _ : String => ℕ :=
  lastMarks createdName entries

/-- The entry belongs to the current incarnation of its dataset. -/
def isCurrent (cutoffs : Finmap fun _ : String => ℕ) (row : ℕ × ChangelogEntry) : Bool :=
  (entryDataset row.2).any fun dataset => decide ((cutoffs.lookup dataset).getD 0 ≤ row.1)

/-- The durable changelog: its table, and the next sequence number. -/
structure QuadChangelog where
  db : SequenceTable ChangelogEntry
  nextSeq : ℕ
  below : db.Below nextSeq

/-- Replay of an entry; those on rulesets and on the registration of datasets change no store. -/
def applyChangelogEntry (ds : Datastore N) : ChangelogEntry → Datastore N
  | .quad entry => applyEntry ds entry
  | _ => ds

def applyRows (ds : Datastore N) (rows : List (ℕ × ChangelogEntry)) : Datastore N :=
  rows.foldl (fun ds row => applyChangelogEntry ds row.2) ds

/-- The dataset, and one entry for each of its quads, derived ones included. -/
def snapshotEntries (name : String) (ds : Datastore N) : List ChangelogEntry :=
  (if name = defaultDatasetName then [] else [.createDataset name]) ++
    (ds.namedGraphs.quadList.filterMap fun quad =>
      quadEntry .insertQuad name ds (tmpGraphIri ds quad.tripleId) quad).map .quad

namespace QuadChangelog

def ofTable (db : SequenceTable ChangelogEntry) : QuadChangelog where
  db := db
  nextSeq := db.nextKey
  below := db.below_nextKey

variable (log : QuadChangelog)

def allEntries : List (ℕ × ChangelogEntry) := log.db.rows

def appendBatch (entries : List ChangelogEntry) : QuadChangelog where
  db := log.db.insertFrom log.nextSeq entries
  nextSeq := log.nextSeq + entries.length
  below := log.below.insertFrom entries

def rulesetEntries : List ChangelogEntry :=
  let cutoffs := createCutoffs log.allEntries
  (log.allEntries.filter fun row => isRulesetEntry row.2 && isCurrent cutoffs row).map Prod.snd

/-- The names that were created last, not deleted, in order. -/
def discoverDatasetNames : List String :=
  let live : Finmap fun _ : String => Bool := log.allEntries.foldl (fun live row =>
    match row.2 with
    | .createDataset name => live.insert name true
    | .deleteDataset name => live.insert name false
    | _ => live) ∅
  (live.keys.sort (· ≤ ·)).filter fun name => live.lookup name = some true

def compactedEntries (datasets : List (String × Datastore N)) : List ChangelogEntry :=
  let liveNames := datasets.map Prod.fst
  let preserved := log.rulesetEntries.filter fun entry =>
    (entryDataset entry).any fun dataset => decide (dataset ∈ liveNames)
  datasets.flatMap (fun dataset => snapshotEntries dataset.1 dataset.2) ++ preserved

/-- Rewrite the changelog, in one transaction, to what the live datasets hold. Gives the numbers of
entries before and after. -/
def compactMulti (datasets : List (String × Datastore N)) : (ℕ × ℕ) × QuadChangelog :=
  let entriesBefore := log.db.rows.length
  let newEntries := log.compactedEntries datasets
  let cleared := log.db.removeKeys log.db.keys
  have hcleared : cleared.Below 0 := below_of_rows_eq_nil (rows_removeKeys log.db) 0
  ((entriesBefore, newEntries.length),
    ⟨cleared.insertFrom 0 newEntries, newEntries.length, by
      have hbelow := hcleared.insertFrom newEntries
      rwa [Nat.zero_add] at hbelow⟩)

/-- Replay for the dataset `"ds"`, over what was loaded from files before. -/
def replayInto (ds : Datastore N) : Datastore N :=
  applyRows ds (log.allEntries.filter fun row => entryDataset row.2 = some defaultDatasetName)

def replayDataset (N : NativeTypes) (log : QuadChangelog) (name : String) : Datastore N :=
  let cutoff := ((createCutoffs log.allEntries).lookup name).getD 0
  applyRows .new (log.allEntries.filter fun row =>
    decide (cutoff ≤ row.1) && decide (entryDataset row.2 = some name))

/-- The store that a restart gives a dataset before its reasoner is built. -/
def restored (base : Datastore N) (name : String) : Datastore N :=
  if name = defaultDatasetName then log.replayInto base else log.replayDataset N name

end QuadChangelog

section Entries

theorem entryDataset_of_isRulesetEntry {entry : ChangelogEntry} (h : isRulesetEntry entry = true) :
    (∃ dataset, entryDataset entry = some dataset) ∧ createdName entry = none := by
  cases entry with
  | quad | createDataset | deleteDataset => cases h
  | _ => exact ⟨⟨_, rfl⟩, rfl⟩

theorem quadEntry_insertQuad {name : String} {ds : Datastore N} {graph : Option String}
    {quad : Quad} {entry : LogEntry} (h : quadEntry .insertQuad name ds graph quad = some entry) :
    ∃ s p o, entry = .insertQuad name graph s p o := by
  unfold quadEntry at h
  split at h
  · exact ⟨_, _, _, (Option.some.inj h).symm⟩
  · cases h

theorem mem_snapshotEntries {name : String} {ds : Datastore N} {entry : ChangelogEntry} :
    entry ∈ snapshotEntries name ds ↔
      name ≠ defaultDatasetName ∧ entry = .createDataset name ∨
      ∃ quad ∈ ds.namedGraphs, ∃ e,
        quadEntry .insertQuad name ds (tmpGraphIri ds quad.tripleId) quad = some e ∧
          entry = .quad e := by
  unfold snapshotEntries
  rw [List.mem_append, List.mem_ite_nil_left, List.mem_singleton, List.mem_map]
  refine or_congr_right ⟨?_, ?_⟩
  · intro ⟨e, he, heq⟩
    obtain ⟨quad, hquad, he⟩ := List.mem_filterMap.mp he
    exact ⟨quad, hquad, e, he, heq.symm⟩
  · intro ⟨quad, hquad, e, he, heq⟩
    exact ⟨e, List.mem_filterMap.mpr ⟨quad, hquad, he⟩, heq.symm⟩

variable {name : String} {ds : Datastore N} {entry : ChangelogEntry}

variable (h : entry ∈ snapshotEntries name ds)

include h

theorem dataset_of_mem_snapshotEntries {dataset : String}
    (hdataset : entryDataset entry = some dataset) : dataset = name := by
  rcases mem_snapshotEntries.mp h with ⟨-, rfl⟩ | ⟨quad, -, e, he, rfl⟩
  · cases hdataset
  · obtain ⟨s, p, o, rfl⟩ := quadEntry_insertQuad he
    exact (Option.some.inj hdataset).symm

theorem created_of_mem_snapshotEntries {created : String}
    (hcreated : createdName entry = some created) :
    created = name ∧ name ≠ defaultDatasetName := by
  rcases mem_snapshotEntries.mp h with ⟨hname, rfl⟩ | ⟨quad, -, e, -, rfl⟩
  · exact ⟨(Option.some.inj hcreated).symm, hname⟩
  · cases hcreated

theorem isRulesetEntry_of_mem_snapshotEntries :
    isRulesetEntry entry = false := by
  rcases mem_snapshotEntries.mp h with ⟨-, rfl⟩ | ⟨quad, -, e, -, rfl⟩
  · rfl
  · rfl

omit h

theorem settled_snapshotEntries (name : String) (ds : Datastore N) :
    Settled createdName entryDataset (snapshotEntries name ds) := by
  refine List.pairwise_append.mpr ⟨?_, ?_, ?_⟩
  · split_ifs
    · exact .nil
    · exact List.pairwise_singleton _ _
  · refine List.pairwise_map.mpr (List.pairwise_of_forall_mem_list fun a _ b _ c hc => ?_)
    cases hc
  · intro a _ b hb c hc
    obtain ⟨e, -, rfl⟩ := List.mem_map.mp hb
    cases hc

end Entries

namespace QuadChangelog

variable {log : QuadChangelog} {base : Datastore N} {datasets : List (String × Datastore N)}

theorem allEntries_compactMulti (log : QuadChangelog) (datasets : List (String × Datastore N)) :
    (log.compactMulti datasets).2.allEntries = numbered 0 (log.compactedEntries datasets) := by
  have hcleared := rows_removeKeys log.db
  have hrows := rows_insertFrom (below_of_rows_eq_nil hcleared 0) (log.compactedEntries datasets)
  rw [hcleared, List.nil_append] at hrows
  exact hrows

theorem mem_preserved {entry : ChangelogEntry} (h : entry ∈ log.rulesetEntries) :
    isRulesetEntry entry = true := by
  obtain ⟨row, hrow, rfl⟩ := List.mem_map.mp h
  have hkept := (List.mem_filter.mp hrow).2
  rw [Bool.and_eq_true] at hkept
  exact hkept.1

theorem settled_compactedEntries (log : QuadChangelog) (h : (datasets.map Prod.fst).Nodup) :
    Settled createdName entryDataset (log.compactedEntries datasets) := by
  have hpreserved {y : ChangelogEntry} {a : String} {p : ChangelogEntry → Bool}
      (hy : y ∈ log.rulesetEntries.filter p) : createdName y ≠ some a := by
    have hnone := (entryDataset_of_isRulesetEntry (mem_preserved (List.mem_filter.mp hy).1)).2
    rw [hnone]
    exact nofun
  refine List.pairwise_append.mpr ⟨List.pairwise_flatMap.mpr ⟨?_, ?_⟩, ?_, ?_⟩
  · exact fun dataset _ => settled_snapshotEntries dataset.1 dataset.2
  · refine (List.pairwise_map.mp h).imp fun hne x hx y hy a hcreated hscope => ?_
    have hfst := dataset_of_mem_snapshotEntries hx hscope
    have hsnd := (created_of_mem_snapshotEntries hy hcreated).1
    exact hne (hfst.symm.trans hsnd)
  · exact List.pairwise_of_forall_mem_list
      fun x _ y hy a hcreated => absurd hcreated (hpreserved hy)
  · exact fun x _ y hy a hcreated => absurd hcreated (hpreserved hy)

theorem settled_compactMulti (log : QuadChangelog) (h : (datasets.map Prod.fst).Nodup) :
    Settled createdName entryDataset
      ((log.compactMulti datasets).2.allEntries.map Prod.snd) := by
  rw [allEntries_compactMulti, map_snd_numbered]
  exact log.settled_compactedEntries h

theorem isCurrent_of_settled (h : Settled createdName entryDataset (log.allEntries.map Prod.snd))
    {row : ℕ × ChangelogEntry} (hrow : row ∈ log.allEntries) {dataset : String}
    (hdataset : entryDataset row.2 = some dataset) :
    ((createCutoffs log.allEntries).lookup dataset).getD 0 ≤ row.1 :=
  cutoff_le h hrow hdataset

theorem rulesetEntries_compactMulti (log : QuadChangelog) (h : (datasets.map Prod.fst).Nodup) :
    (log.compactMulti datasets).2.rulesetEntries = log.rulesetEntries.filter fun entry =>
      (entryDataset entry).any fun dataset => decide (dataset ∈ datasets.map Prod.fst) := by
  have hsettled := log.settled_compactMulti h
  have hcurrent : ∀ row ∈ (log.compactMulti datasets).2.allEntries,
      (isRulesetEntry row.2 &&
        isCurrent (createCutoffs (log.compactMulti datasets).2.allEntries) row) =
      isRulesetEntry row.2 := by
    intro row hrow
    cases hruleset : isRulesetEntry row.2 with
    | false => rfl
    | true =>
      obtain ⟨⟨dataset, hdataset⟩, -⟩ := entryDataset_of_isRulesetEntry hruleset
      have hle := isCurrent_of_settled hsettled hrow hdataset
      rw [Bool.true_and, isCurrent, hdataset]
      exact decide_eq_true hle
  have hnone : (datasets.flatMap fun dataset => snapshotEntries dataset.1 dataset.2).filter
      isRulesetEntry = [] := by
    refine List.filter_eq_nil_iff.mpr fun entry hentry => ?_
    obtain ⟨dataset, -, hentry⟩ := List.mem_flatMap.mp hentry
    rw [isRulesetEntry_of_mem_snapshotEntries hentry]
    exact Bool.false_ne_true
  rw [rulesetEntries, List.filter_congr hcurrent]
  have hmap := List.filter_map (p := isRulesetEntry) (f := Prod.snd)
    (l := (log.compactMulti datasets).2.allEntries)
  rw [allEntries_compactMulti, map_snd_numbered] at hmap
  rw [allEntries_compactMulti]
  refine hmap.symm.trans ?_
  rw [compactedEntries, List.filter_append, hnone, List.nil_append]
  exact List.filter_eq_self.mpr fun entry hentry => mem_preserved (List.mem_filter.mp hentry).1

theorem lookup_live {rows : List (ℕ × ChangelogEntry)}
    (h : ∀ row ∈ rows, ∀ name, row.2 ≠ .deleteDataset name) (live : Finmap fun _ : String => Bool)
    (name : String) :
    (rows.foldl (fun live row =>
      match row.2 with
      | .createDataset name => live.insert name true
      | .deleteDataset name => live.insert name false
      | _ => live) live).lookup name = some true ↔
      (∃ row ∈ rows, row.2 = .createDataset name) ∨ live.lookup name = some true := by
  induction rows generalizing live with
  | nil => simp
  | cons row rows ih =>
    have hrest := ih fun row' hrow' => h row' (List.mem_cons_of_mem _ hrow')
    rw [List.foldl_cons, hrest]
    have hstep : (match row.2 with
        | .createDataset name => live.insert name true
        | .deleteDataset name => live.insert name false
        | _ => live).lookup name = some true ↔
        row.2 = .createDataset name ∨ live.lookup name = some true := by
      cases hrow : row.2 with
      | deleteDataset => exact absurd hrow (h row List.mem_cons_self _)
      | createDataset created =>
        by_cases hname : name = created
        · subst hname
          simp
        · have hne : created ≠ name := fun h => hname h.symm
          simp [Finmap.lookup_insert_of_ne _ hname, hne]
      | _ => simp
    rw [hstep, List.exists_mem_cons_iff, or_assoc, or_left_comm]

theorem mem_compactedEntries_createDataset {name : String} :
    .createDataset name ∈ log.compactedEntries datasets ↔
      name ∈ datasets.map Prod.fst ∧ name ≠ defaultDatasetName := by
  rw [compactedEntries, List.mem_append, List.mem_flatMap, List.mem_map]
  constructor
  · rintro (⟨dataset, hdataset, hmem⟩ | hmem)
    · have hcreated : createdName (.createDataset name) = some name := rfl
      obtain ⟨rfl, hne⟩ := created_of_mem_snapshotEntries hmem hcreated
      exact ⟨⟨dataset, hdataset, rfl⟩, hne⟩
    · have hruleset := mem_preserved (List.mem_filter.mp hmem).1
      cases hruleset
  · intro ⟨⟨dataset, hdataset, hname⟩, hne⟩
    subst hname
    exact .inl ⟨dataset, hdataset, mem_snapshotEntries.mpr (.inl ⟨hne, rfl⟩)⟩

theorem not_mem_compactedEntries_deleteDataset {name : String} :
    .deleteDataset name ∉ log.compactedEntries datasets := by
  intro hmem
  rcases List.mem_append.mp hmem with hmem | hmem
  · obtain ⟨dataset, -, hmem⟩ := List.mem_flatMap.mp hmem
    rcases mem_snapshotEntries.mp hmem with ⟨-, heq⟩ | ⟨quad, -, e, -, heq⟩
    · cases heq
    · cases heq
  · have hruleset := mem_preserved (List.mem_filter.mp hmem).1
    cases hruleset

theorem discoverDatasetNames_compactMulti (log : QuadChangelog)
    (h : (datasets.map Prod.fst).Nodup) :
    (log.compactMulti datasets).2.discoverDatasetNames.Perm
      ((datasets.map Prod.fst).filter fun name => name ≠ defaultDatasetName) := by
  have hrows (entry : ChangelogEntry) :
      (∃ row ∈ (log.compactMulti datasets).2.allEntries, row.2 = entry) ↔
        entry ∈ log.compactedEntries datasets := by
    rw [allEntries_compactMulti]
    conv_rhs => rw [← map_snd_numbered 0 (log.compactedEntries datasets)]
    exact List.mem_map.symm
  have hdelete : ∀ row ∈ (log.compactMulti datasets).2.allEntries,
      ∀ name, row.2 ≠ .deleteDataset name := by
    intro row hrow name heq
    exact not_mem_compactedEntries_deleteDataset ((hrows _).mp ⟨row, hrow, heq⟩)
  refine (List.perm_ext_iff_of_nodup ((Finset.sort_nodup _ _).filter _) (h.filter _)).mpr ?_
  intro name
  have hlive := lookup_live hdelete ∅ name
  rw [hrows, mem_compactedEntries_createDataset] at hlive
  simp only [Finmap.lookup_empty, reduceCtorEq, or_false] at hlive
  rw [List.mem_filter, List.mem_filter, Finset.mem_sort, decide_eq_true_eq, decide_eq_true_eq,
    ← hlive]
  refine and_iff_right_of_imp fun hlookup => Finmap.mem_keys.mpr ?_
  exact Finmap.lookup_isSome.mp (Option.isSome_iff_exists.mpr ⟨true, hlookup⟩)

theorem allEntries_appendBatch (log : QuadChangelog) (entries : List ChangelogEntry) :
    ∃ added, (log.appendBatch entries).allEntries = log.allEntries ++ added ∧
      added.map Prod.snd = entries ∧
      ∀ row ∈ log.allEntries, ∀ row' ∈ added, row.1 < row'.1 := by
  refine ⟨numbered log.nextSeq entries, rows_insertFrom log.below entries, map_snd_numbered _ _, ?_⟩
  intro row hrow row' hrow'
  have hbelow := log.below row hrow
  have habove := le_of_mem_numbered hrow'
  omega

end QuadChangelog

section Replay

def graphName : GraphElement N → Option String
  | .nodeOrEdge (.iri iri) => some iri
  | _ => none

/-- A quad as it comes back from the log. -/
def logged (r : QuadResource N) : QuadResource N :=
  ⟨logGraph (graphName r.graph), fromRepr (toRepr r.subject), fromRepr (toRepr r.predicate),
    fromRepr (toRepr r.obj)⟩

variable {ds : Datastore N}

theorem logGraph_graphName {gid : GraphElementId} {e : GraphElement N}
    (h : ds.resources.getGraphElement gid = some e) :
    (logGraph (tmpGraphIri ds gid) : GraphElement N) = logGraph (graphName e) := by
  unfold tmpGraphIri
  split_ifs with hd
  · rw [hd, show ds.resources.getGraphElement defaultGraphElementId =
      some (.iri defaultGraphIri) from ds.resources.defaultGraph] at h
    obtain rfl := Option.some.inj h
    rfl
  · rw [getNamedResource, h]
    cases e with
    | nodeOrEdge r => cases r <;> rfl
    | graphLiteral | tripleTerm => rfl

theorem quadEntry_logged {quad : Quad} {r : QuadResource N}
    (h : ds.resources.getResourceQuad quad = some r) (name : String) :
    ∃ entry, quadEntry .insertQuad name ds (tmpGraphIri ds quad.tripleId) quad = some entry ∧
      (LogEntry.effect entry : Effect (QuadResource N)) = .insert {logged r} := by
  obtain ⟨hg, hs, hp, ho⟩ := getResourceQuad_eq_some.mp h
  refine ⟨.insertQuad name (tmpGraphIri ds quad.tripleId) (toRepr r.subject) (toRepr r.predicate)
    (toRepr r.obj), ?_, ?_⟩
  · unfold quadEntry
    rw [hs, hp, ho]
  · rw [LogEntry.effect, logGraph_graphName hg]
    rfl

theorem logged_of_mem_replay {entries : List LogEntry} {s : Finset (QuadResource N)}
    {r : QuadResource N} (h : r ∈ replay s entries) : r ∈ s ∨ logged r = r := by
  induction entries generalizing s with
  | nil => exact .inl h
  | cons entry entries ih =>
    rcases ih h with h | h
    · cases entry with
      | clearGraph dataset graph => exact .inl (Finset.mem_filter.mp h).1
      | deleteQuad dataset graph s p o => exact .inl (Finset.mem_sdiff.mp h).1
      | insertQuad dataset graph s p o =>
        rcases Finset.mem_union.mp h with h | h
        · exact .inl h
        · rw [Finset.mem_singleton.mp h]
          refine .inr (congr (congr (congr (congrArg QuadResource.mk ?_) ?_) ?_) ?_)
          · rfl
          · exact congrArg fromRepr (toRepr_fromRepr s)
          · exact congrArg fromRepr (toRepr_fromRepr p)
          · exact congrArg fromRepr (toRepr_fromRepr o)
    · exact .inr h

theorem applyRows_resolved (h : ds.Interned) (rows : List (ℕ × ChangelogEntry)) :
    (applyRows ds rows).resolved =
      replay ds.resolved (rows.filterMap fun row => row.2.quad?) := by
  rw [← applyEntries_resolved h]
  refine congrArg Datastore.resolved ?_
  induction rows generalizing ds with
  | nil => rfl
  | cons row rows ih =>
    obtain ⟨seq, entry⟩ := row
    cases entry with
    | quad entry => exact ih (applyEntry_effect h entry).1
    | _ => exact ih h

end Replay

section Restart

variable {log : QuadChangelog} {base : Datastore N} {datasets : List (String × Datastore N)}

/-- What is loaded from files before the changelog is replayed. -/
def fileQuads (base : Datastore N) (name : String) : Finset (QuadResource N) :=
  if name = defaultDatasetName then base.resolved else ∅

theorem interned_new : (Datastore.new : Datastore N).Interned := by
  intro quad hquad
  exact absurd hquad (QuadStore.not_mem_new quad)

theorem resolved_new : (Datastore.new : Datastore N).resolved = ∅ := by
  refine Finset.eq_empty_of_forall_notMem fun r hr => ?_
  obtain ⟨quad, hquad, -⟩ := mem_resolve.mp hr
  exact absurd hquad (QuadStore.not_mem_new quad)

namespace QuadChangelog

theorem mem_restored (hbase : base.Interned) {name : String} {r : QuadResource N}
    (h : r ∈ (log.restored base name).resolved) : r ∈ fileQuads base name ∨ logged r = r := by
  unfold restored at h
  unfold fileQuads
  split_ifs at h ⊢ with hname
  · rw [replayInto, applyRows_resolved hbase] at h
    exact logged_of_mem_replay h
  · rw [replayDataset, applyRows_resolved interned_new, resolved_new] at h
    exact logged_of_mem_replay h

theorem interned_applyRows {ds : Datastore N} (h : ds.Interned) (rows : List (ℕ × ChangelogEntry)) :
    (applyRows ds rows).Interned := by
  induction rows generalizing ds with
  | nil => exact h
  | cons row rows ih =>
    obtain ⟨seq, entry⟩ := row
    cases entry with
    | quad entry => exact ih (applyEntry_effect h entry).1
    | _ => exact ih h

theorem restored_of_settled (hbase : base.Interned)
    (h : Settled createdName entryDataset (log.allEntries.map Prod.snd)) (name : String) :
    (log.restored base name).resolved = replay (fileQuads base name)
      ((log.allEntries.filter fun row => entryDataset row.2 = some name).filterMap
        fun row => row.2.quad?) := by
  unfold restored fileQuads
  split_ifs with hname
  · rw [replayInto, applyRows_resolved hbase, hname]
  · have hcurrent : ∀ row ∈ log.allEntries,
        (decide (((createCutoffs log.allEntries).lookup name).getD 0 ≤ row.1) &&
          decide (entryDataset row.2 = some name)) = decide (entryDataset row.2 = some name) := by
      intro row hrow
      by_cases hdataset : entryDataset row.2 = some name
      · have hle := isCurrent_of_settled h hrow hdataset
        rw [decide_eq_true hle, Bool.true_and]
      · rw [decide_eq_false hdataset, Bool.and_false]
    rw [replayDataset, applyRows_resolved interned_new, resolved_new, List.filter_congr hcurrent]

variable {dataset : String × Datastore N}

theorem mem_quads_compactMulti (log : QuadChangelog) (h : (datasets.map Prod.fst).Nodup)
    (hdataset : dataset ∈ datasets) (entry : LogEntry) :
    entry ∈ ((log.compactMulti datasets).2.allEntries.filter
        fun row => entryDataset row.2 = some dataset.1).filterMap (fun row => row.2.quad?) ↔
      ∃ quad ∈ dataset.2.namedGraphs, quadEntry .insertQuad dataset.1 dataset.2
        (tmpGraphIri dataset.2 quad.tripleId) quad = some entry := by
  have hrow : entry ∈ ((log.compactMulti datasets).2.allEntries.filter
        fun row => entryDataset row.2 = some dataset.1).filterMap (fun row => row.2.quad?) ↔
      .quad entry ∈ log.compactedEntries datasets ∧
        entryDataset (.quad entry) = some dataset.1 := by
    rw [allEntries_compactMulti, List.mem_filterMap]
    conv_rhs => rw [← map_snd_numbered 0 (log.compactedEntries datasets), List.mem_map]
    constructor
    · intro ⟨row, hrow, hquad⟩
      obtain ⟨hrow, hscope⟩ := List.mem_filter.mp hrow
      have heq : row.2 = .quad entry := by
        cases hsnd : row.2 with
        | quad e => rw [hsnd] at hquad; exact congrArg _ (Option.some.inj hquad)
        | _ => rw [hsnd] at hquad; cases hquad
      exact ⟨⟨row, hrow, heq⟩, heq ▸ of_decide_eq_true hscope⟩
    · intro ⟨⟨row, hrow, heq⟩, hscope⟩
      refine ⟨row, List.mem_filter.mpr ⟨hrow, decide_eq_true (heq ▸ hscope)⟩, ?_⟩
      rw [heq]
      rfl
  rw [hrow]
  constructor
  · intro ⟨hmem, hscope⟩
    rcases List.mem_append.mp hmem with hmem | hmem
    · obtain ⟨dataset', hdataset', hmem⟩ := List.mem_flatMap.mp hmem
      have hname := dataset_of_mem_snapshotEntries hmem hscope
      obtain rfl := List.inj_on_of_nodup_map h hdataset hdataset' hname
      rcases mem_snapshotEntries.mp hmem with ⟨-, heq⟩ | ⟨quad, hquad, e, he, heq⟩
      · cases heq
      · cases heq
        exact ⟨quad, hquad, he⟩
    · have hruleset := mem_preserved (List.mem_filter.mp hmem).1
      cases hruleset
  · intro ⟨quad, hquad, he⟩
    obtain ⟨s, p, o, rfl⟩ := quadEntry_insertQuad he
    refine ⟨List.mem_append_left _ (List.mem_flatMap.mpr ⟨dataset, hdataset, ?_⟩), rfl⟩
    exact mem_snapshotEntries.mpr (.inr ⟨quad, hquad, _, he, rfl⟩)

/-- What a restart finds after a compaction: what is loaded, and all stored quads, as they come
back from the log. -/
theorem mem_restored_compactMulti (log : QuadChangelog) (hbase : base.Interned)
    (h : (datasets.map Prod.fst).Nodup) (hdataset : dataset ∈ datasets)
    (hinterned : dataset.2.Interned) (x : QuadResource N) :
    x ∈ ((log.compactMulti datasets).2.restored base dataset.1).resolved ↔
      x ∈ fileQuads base dataset.1 ∨ ∃ r ∈ dataset.2.resolved, logged r = x := by
  have hentry := log.mem_quads_compactMulti h hdataset
  have hinserts : ∀ entry ∈ ((log.compactMulti datasets).2.allEntries.filter
        fun row => entryDataset row.2 = some dataset.1).filterMap (fun row => row.2.quad?),
      ∃ r ∈ dataset.2.resolved,
        (LogEntry.effect entry : Effect (QuadResource N)) = .insert {logged r} := by
    intro entry hmem
    obtain ⟨quad, hquad, he⟩ := (hentry entry).mp hmem
    obtain ⟨r, hr⟩ := Option.isSome_iff_exists.mp (hinterned quad hquad)
    obtain ⟨entry', he', heffect⟩ := quadEntry_logged hr dataset.1
    obtain rfl := Option.some.inj (he.symm.trans he')
    exact ⟨r, mem_resolve.mpr ⟨quad, hquad, hr⟩, heffect⟩
  rw [restored_of_settled hbase (log.settled_compactMulti h),
    mem_replay_inserts fun entry hmem => (hinserts entry hmem).imp' logged fun _ hr => hr.2]
  refine or_congr_right ⟨?_, ?_⟩
  · intro ⟨entry, hmem, heffect⟩
    obtain ⟨r, hr, heq⟩ := hinserts entry hmem
    have hx : Effect.insert {x} = Effect.insert {logged r} := heffect.symm.trans heq
    rw [Effect.insert.injEq, Finset.singleton_inj] at hx
    exact ⟨r, hr, hx.symm⟩
  · intro ⟨r, hr, hx⟩
    obtain ⟨quad, hquad, hr⟩ := mem_resolve.mp hr
    obtain ⟨entry, he, heffect⟩ := quadEntry_logged hr dataset.1
    exact ⟨entry, (hentry entry).mpr ⟨quad, hquad, he⟩, hx ▸ heffect⟩

theorem interned_restored (hbase : base.Interned) (log : QuadChangelog) (name : String) :
    (log.restored base name).Interned := by
  unfold restored
  split_ifs
  · exact interned_applyRows hbase _
  · exact interned_applyRows interned_new _

end QuadChangelog

theorem resolved_subset_of_new [DecidableEq Expr] {env : ReasonerEnv Expr}
    {rules : List (Rule Expr)} {m : IncrementalReasoner Expr} {ds : Datastore N}
    {resources : GraphElementManager N}
    (h : IncrementalReasoner.new env rules ds.namedGraphs = .ok m)
    (hextends : ds.resources.Extends resources) :
    ds.resolved ⊆ (⟨m.base, resources⟩ : Datastore N).resolved := by
  intro r hr
  obtain ⟨quad, hquad, hr⟩ := mem_resolve.mp hr
  have hstored := (IncrementalReasoner.new_status h).stored quad hquad
  exact mem_resolve.mpr ⟨quad, hstored, hextends.getResourceQuad hr⟩

/-- The live datasets. The store of each holds what a restart gives it, and what its reasoner
produced. -/
structure Live (log : QuadChangelog) (base : Datastore N) (datasets : List (String × Datastore N)) :
    Prop where
  nodup : (datasets.map Prod.fst).Nodup
  interned : ∀ dataset ∈ datasets, dataset.2.Interned
  kept : ∀ dataset ∈ datasets, (log.restored base dataset.1).resolved ⊆ dataset.2.resolved

/-- A restart after the compaction sees what a restart before it saw. -/
structure PreservesRestart (log : QuadChangelog) (base : Datastore N)
    (datasets : List (String × Datastore N)) : Prop where
  replayed : ∀ dataset ∈ datasets,
    ((log.compactMulti datasets).2.restored base dataset.1).resolved =
      (log.restored base dataset.1).resolved
  names : (log.compactMulti datasets).2.discoverDatasetNames.Perm
    ((datasets.map Prod.fst).filter fun name => name ≠ defaultDatasetName)
  rulesets : (log.compactMulti datasets).2.rulesetEntries = log.rulesetEntries.filter fun entry =>
    (entryDataset entry).any fun dataset => decide (dataset ∈ datasets.map Prod.fst)
  appended : ∀ entries, ∃ added, ((log.compactMulti datasets).2.appendBatch entries).allEntries =
      (log.compactMulti datasets).2.allEntries ++ added ∧ added.map Prod.snd = entries ∧
    ∀ row ∈ (log.compactMulti datasets).2.allEntries, ∀ row' ∈ added, row.1 < row'.1

/-- Every stored quad, derived or not, comes back from the log as an asserted one, and the
changelog takes nothing away that the files hold. -/
structure KeptByLog (log : QuadChangelog) (base : Datastore N)
    (datasets : List (String × Datastore N)) : Prop where
  stored : ∀ dataset ∈ datasets, ∀ r ∈ dataset.2.resolved,
    logged r ∈ (log.restored base dataset.1).resolved
  files : ∀ dataset ∈ datasets,
    fileQuads base dataset.1 ⊆ (log.restored base dataset.1).resolved

/-- A compaction preserves what a restart sees iff the log holds it. -/
theorem preservesRestart_iff (hbase : base.Interned) (hlive : Live log base datasets) :
    PreservesRestart log base datasets ↔ KeptByLog log base datasets := by
  have hmem {dataset : String × Datastore N} (hdataset : dataset ∈ datasets) :=
    log.mem_restored_compactMulti hbase hlive.nodup hdataset (hlive.interned dataset hdataset)
  constructor
  · intro h
    refine ⟨fun dataset hdataset r hr => ?_, fun dataset hdataset r hr => ?_⟩
    · rw [← h.replayed dataset hdataset]
      exact (hmem hdataset _).mpr (.inr ⟨r, hr, rfl⟩)
    · rw [← h.replayed dataset hdataset]
      exact (hmem hdataset r).mpr (.inl hr)
  · intro h
    refine ⟨fun dataset hdataset => ?_, log.discoverDatasetNames_compactMulti hlive.nodup,
      log.rulesetEntries_compactMulti hlive.nodup,
      (log.compactMulti datasets).2.allEntries_appendBatch⟩
    ext x
    rw [hmem hdataset]
    constructor
    · rintro (hx | ⟨r, hr, rfl⟩)
      · exact h.files dataset hdataset hx
      · exact h.stored dataset hdataset r hr
    · intro hx
      refine (QuadChangelog.mem_restored hbase hx).imp_right fun hlogged => ?_
      exact ⟨x, hlive.kept dataset hdataset hx, hlogged⟩

theorem keptByLog_of_restored (hbase : base.Interned)
    (hfiles : ∀ dataset ∈ datasets, fileQuads base dataset.1 = ∅)
    (h : ∀ dataset ∈ datasets, dataset.2 = log.restored base dataset.1) :
    KeptByLog log base datasets := by
  refine ⟨fun dataset hdataset r hr => ?_, fun dataset hdataset => ?_⟩
  · rw [h dataset hdataset] at hr
    have hlogged := QuadChangelog.mem_restored hbase hr
    rw [hfiles dataset hdataset] at hlogged
    rw [hlogged.resolve_left (Finset.notMem_empty r)]
    exact hr
  · rw [hfiles dataset hdataset]
    exact Finset.empty_subset _

end Restart

section Samples

def sampleEntries : List ChangelogEntry :=
  [.quad (.insertQuad "ds" none (.iri "a") (.iri "p") (.iri defaultGraphIri)),
    .createDataset "foo", .replaceRuleset "foo" "old", .deleteDataset "foo", .createDataset "foo",
    .setNamedRuleset "foo" "r" "new", .quad (.insertQuad "foo" (some "g") (.blank 0) (.iri "p")
      (.literalPlain "x"))]

def sampleChangelog : QuadChangelog :=
  (QuadChangelog.ofTable ⟨[], .nil⟩).appendBatch sampleEntries

theorem preservesRestart_sample :
    PreservesRestart sampleChangelog (.new : Datastore NativeTypes.text)
      (["ds", "foo"].map fun name => (name, sampleChangelog.restored .new name)) := by
  have hrestored : ∀ dataset ∈ (["ds", "foo"].map fun name =>
      (name, sampleChangelog.restored (.new : Datastore NativeTypes.text) name)),
      dataset.2 = sampleChangelog.restored .new dataset.1 := by
    intro dataset hdataset
    obtain ⟨name, -, rfl⟩ := List.mem_map.mp hdataset
    rfl
  have hlive : Live sampleChangelog (.new : Datastore NativeTypes.text)
      (["ds", "foo"].map fun name => (name, sampleChangelog.restored .new name)) := by
    refine ⟨?_, fun dataset hdataset => ?_, fun dataset hdataset => ?_⟩
    · show ["ds", "foo"].Nodup
      decide
    · rw [hrestored dataset hdataset]
      exact QuadChangelog.interned_restored interned_new _ _
    · rw [hrestored dataset hdataset]
  refine (preservesRestart_iff interned_new hlive).mpr
    (keptByLog_of_restored interned_new (fun dataset _ => ?_) hrestored)
  unfold fileQuads
  rw [resolved_new, ite_self]

/-- A derived quad is asserted after the compaction. -/
theorem not_preservesRestart : ¬ ∀ (log : QuadChangelog) (base : Datastore NativeTypes.text)
    (datasets : List (String × Datastore NativeTypes.text)), base.Interned →
    Live log base datasets →
    (∀ dataset ∈ datasets, ∃ (rules : List (Rule Empty)) (m : IncrementalReasoner Empty),
      IncrementalReasoner.new .plain rules (log.restored base dataset.1).namedGraphs = .ok m ∧
        dataset.2 = ⟨m.base, (log.restored base dataset.1).resources⟩) →
    PreservesRestart log base datasets := by
  intro h
  let store : Datastore NativeTypes.text := sampleChangelog.restored .new "ds"
  have hstore : store.namedGraphs.quadList = [unaryQuad 2 1] := by decide
  obtain ⟨m, hnew, hquads⟩ :
      ∃ m, IncrementalReasoner.new .plain [unaryRule 1 [2] []] store.namedGraphs = .ok m ∧
        m.base.quadList = [unaryQuad 2 1, unaryQuad 1 1] := by decide
  let live : Datastore NativeTypes.text := ⟨m.base, store.resources⟩
  have hinterned : live.Interned := by
    have hall : ∀ quad ∈ [unaryQuad 2 1, unaryQuad 1 1],
        (store.resources.getResourceQuad quad).isSome = true := by decide
    intro quad hquad
    have hmem : quad ∈ m.base.quadList := hquad
    exact hall quad (hquads ▸ hmem)
  have hlive : Live sampleChangelog .new [("ds", live)] := by
    refine ⟨List.nodup_singleton _, fun dataset hdataset => ?_, fun dataset hdataset => ?_⟩
    · exact List.mem_singleton.mp hdataset ▸ hinterned
    · rw [List.mem_singleton.mp hdataset]
      exact resolved_subset_of_new hnew (Extends.refl _)
  have hpreserves := h sampleChangelog .new [("ds", live)] interned_new hlive
    fun dataset hdataset =>
      ⟨[unaryRule 1 [2] []], m, List.mem_singleton.mp hdataset ▸ ⟨hnew, rfl⟩⟩
  have hderived : store.resources.getResourceQuad (unaryQuad 1 1) =
      some ⟨.iri defaultGraphIri, .iri "a", .iri "a", .iri defaultGraphIri⟩ := by decide
  have hmem : unaryQuad 1 1 ∈ m.base.quadList :=
    hquads ▸ List.mem_cons_of_mem _ List.mem_cons_self
  have hafter := (sampleChangelog.mem_restored_compactMulti interned_new hlive.nodup
    List.mem_cons_self hinterned _).mpr (.inr ⟨_, mem_resolve.mpr ⟨_, hmem, hderived⟩, rfl⟩)
  rw [hpreserves.replayed _ List.mem_cons_self] at hafter
  obtain ⟨quad, hquad, hbefore⟩ := mem_resolve.mp hafter
  have heq := getResourceQuad_inj hbefore hderived
  have hasserted : quad ∈ store.namedGraphs.quadList := hquad
  rw [hstore, List.mem_singleton, heq] at hasserted
  exact absurd hasserted (by decide)

end Samples

end RdfDatalog.Endpoint
