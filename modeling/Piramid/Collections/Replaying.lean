-- SUMMARY: Replaying a log keeps every id in the vector index, unless an IVF index is built anew from what was replayed alone.
import Piramid.Collections.Roster
import Piramid.Reference.Sample

/-!
# The vector index over a replay

A replay starts with an empty cache. An IVF index whose ids still wait for the first
clustering is built from that cache as soon as it has enough vectors, and then has the
replayed ids alone.
-/

open Loop Prog

/-! ## Ids over a log -/

theorem insert_erase_ids (ids : Finset Uuid) (id : Uuid) : insert id (ids.erase id) = insert id ids := by
  ext id'
  simp only [Finset.mem_insert, Finset.mem_erase]
  tauto

namespace WalEntry

/-- The id that an entry inserts, updates or deletes. -/
def id? : WalEntry → Option Uuid
  | .insert doc _ | .update doc _ => some doc.id
  | .delete id _ => some id
  | .checkpoint _ _ => none

/-- A set of ids once an entry is replayed. -/
def replayIds (ids : Finset Uuid) : WalEntry → Finset Uuid
  | .insert doc _ | .update doc _ => Insert.insert doc.id ids
  | .delete id _ => ids.erase id
  | .checkpoint _ _ => ids

/-- An entry puts an id into the vector index that is not in it. -/
def Lists (stored : Finset Uuid) : WalEntry → Prop
  | .insert doc _ => doc.id ∉ stored
  | .update _ _ => True
  | .delete _ _ | .checkpoint _ _ => False

/-- The log, replayed where `stored` are stored and `replayed` were replayed, comes to an entry
that lists an id when at least `n` replayed ids are stored. -/
def Gathers (n : Nat) : Finset Uuid → Finset Uuid → List WalEntry → Prop
  | _, _, [] => False
  | stored, replayed, entry :: entries =>
    entry.Lists stored ∧ n ≤ (entry.replayIds replayed).card ∨
      Gathers n (entry.replayIds stored) (entry.replayIds replayed) entries

/-- What a log replayed over two sets makes of them is the same if and only if it has an entry
for every id that only one of them has. -/
theorem foldl_replayIds_eq_iff {entries : List WalEntry} {ids ids' : Finset Uuid} (h : ids' ⊆ ids) :
    entries.foldl replayIds ids = entries.foldl replayIds ids' ↔
      ∀ id ∈ ids, id ∈ ids' ∨ ∃ entry ∈ entries, entry.id? = some id := by
  induction entries generalizing ids ids' with
  | nil =>
      simp only [List.foldl_nil, List.not_mem_nil, false_and, exists_false, or_false]
      exact ⟨fun heq id hid => heq ▸ hid, fun hall => Finset.Subset.antisymm hall h⟩
  | cons entry entries ih =>
      have hsub : entry.replayIds ids' ⊆ entry.replayIds ids := by
        cases entry with
        | insert doc seq | update doc seq => exact Finset.insert_subset_insert _ h
        | delete id seq => exact Finset.erase_subset_erase _ h
        | checkpoint timestamp seq => exact h
      rw [List.foldl_cons, List.foldl_cons, ih hsub]
      simp only [List.exists_mem_cons_iff]
      cases entry with
      | insert doc seq | update doc seq =>
          simp only [replayIds, id?, Finset.mem_insert, Option.some.injEq]
          grind
      | delete id seq =>
          simp only [replayIds, id?, Finset.mem_erase, Option.some.injEq]
          grind
      | checkpoint timestamp seq => simp [replayIds, id?]

end WalEntry

/-! ## Rosters over a log -/

namespace Roster

variable [Floats]

/-- What the replay of an entry does to a roster. -/
def Replays (r r' : Roster) : WalEntry → Prop
  | .insert doc _ => Adds doc.id r r'
  | .update doc _ => ∃ r₁, Drops doc.id r r₁ ∧ Adds doc.id r₁ r'
  | .delete id _ => Drops id r r'
  | .checkpoint _ _ => r' = r

/-- An IVF index whose ids wait until `n` vectors are cached. -/
def Waits (n : Nat) (ix : VectorIndex) : Prop :=
  ∃ ivf, ix = .ivf ivf ∧ ivf.centroids = [] ∧ ivf.config.numClusters = n

/-- An index that takes each id as it comes. -/
def Settled (ix : VectorIndex) : Prop := ∀ ivf, ix = .ivf ivf → ivf.centroids ≠ []

variable {r r' : Roster} {id : Uuid} {n : Nat}

omit [Floats] in
theorem waits_or_settled (ix : VectorIndex) : (∃ n, Waits n ix) ∨ Settled ix := by
  cases ix with
  | flat ix => exact .inr fun _ h => by cases h
  | hnsw ix => exact .inr fun _ h => by cases h
  | ivf ix =>
      by_cases hcentroids : ix.centroids = []
      · exact .inl ⟨_, ix, rfl, hcentroids, rfl⟩
      · refine .inr fun _ h => ?_
        cases h
        exact hcentroids

/-! ### A settled index -/

theorem Adds.settled (h : Adds id r r') (hlisted : r.index.Listed) (hsettled : Settled r.index) :
    r'.index.Listed ∧ Settled r'.index ∧ r'.index.trackedIds = insert id r.index.trackedIds := by
  obtain ⟨-, -, vector, reader, x, -, hret⟩ := h
  cases hix : r.index with
  | flat ix =>
      rw [hix] at hret
      have heq : VectorIndex.flat (ix.insert id) = r'.index := Except.ok.inj hret
      rw [← heq]
      exact ⟨trivial, nofun, ix.trackedIds_insert id⟩
  | hnsw ix =>
      rw [hix] at hret
      obtain ⟨ix', hix', heq⟩ := map_eq_ok.mp hret
      rw [← heq]
      exact ⟨trivial, nofun, (HnswIndex.insert_inserted hix').trackedIds⟩
  | ivf ix =>
      rw [hix] at hret hlisted
      obtain ⟨ix', hix', heq⟩ := map_eq_ok.mp hret
      have hcentroids := hsettled ix hix
      have hkept : ¬ix.Rebuilds id reader := fun hre => hcentroids hre.2.1
      obtain ⟨htracked, hlisted', hnil, -⟩ := IvfIndex.insert_tracks hkept hlisted hix'
      rw [← heq]
      refine ⟨hlisted', fun _ heq' => ?_, htracked⟩
      cases heq'
      exact fun h => hcentroids (hnil.mp h)

omit [Floats] in
theorem Drops.settled (h : Drops id r r') (hlisted : r.index.Listed) (hsettled : Settled r.index) :
    r'.index.Listed ∧ Settled r'.index ∧ r'.index.trackedIds = r.index.trackedIds.erase id := by
  obtain ⟨-, ⟨order, hix⟩, -⟩ := h
  rw [hix]
  refine ⟨hlisted.remove id order, fun ivf heq => ?_, VectorIndex.trackedIds_remove _ _ _⟩
  obtain ⟨ivf₀, hivf₀, rfl⟩ := VectorIndex.remove_eq_ivf heq
  rw [IvfIndex.centroids_remove]
  exact hsettled ivf₀ hivf₀

/-- A settled index gains and loses the ids that the log inserts and deletes. -/
theorem Replays.settled {entry : WalEntry} (h : r.Replays r' entry) (hlisted : r.index.Listed)
    (hsettled : Settled r.index) : r'.index.Listed ∧ Settled r'.index ∧
      r'.index.trackedIds = entry.replayIds r.index.trackedIds := by
  cases entry with
  | insert doc seq => exact Adds.settled h hlisted hsettled
  | update doc seq =>
      obtain ⟨r₁, hdrop, hadd⟩ := h
      obtain ⟨hlisted₁, hsettled₁, htracked₁⟩ := hdrop.settled hlisted hsettled
      obtain ⟨hlisted', hsettled', htracked'⟩ := hadd.settled hlisted₁ hsettled₁
      refine ⟨hlisted', hsettled', ?_⟩
      rw [htracked', htracked₁]
      exact insert_erase_ids _ _
  | delete id seq => exact Drops.settled h hlisted hsettled
  | checkpoint timestamp seq =>
      cases h
      exact ⟨hlisted, hsettled, rfl⟩

/-! ### An index that waits -/

/-- An id that is new to the index and makes the cache large enough has the index built from
the cache. -/
theorem Adds.builds (h : Adds id r r') (hwaits : Waits n r.index) (hnew : id ∉ r.index.trackedIds)
    (henough : n ≤ r'.cached.card) :
    r'.index.Listed ∧ Settled r'.index ∧ r'.index.trackedIds = r'.cached := by
  obtain ⟨-, hcached, vector, reader, x, hreader, hret⟩ := h
  obtain ⟨ix, hix, hcentroids, rfl⟩ := hwaits
  rw [hix] at hret hnew
  obtain ⟨ix', hix', heq⟩ := map_eq_ok.mp hret
  have hlen : reader.len = r'.cached.card := by
    rw [← hreader]
    rfl
  have hne : reader.len ≠ 0 := by
    rw [hlen, hcached]
    exact Finset.card_ne_zero_of_mem (Finset.mem_insert_self _ _)
  have hre : ix.Rebuilds id reader := ⟨hnew, hcentroids, hlen ▸ henough, hne⟩
  obtain ⟨htracked, hlisted, hcentroids', -⟩ := IvfIndex.insert_rebuilds hre hix'
  rw [← hreader, ← heq]
  refine ⟨hlisted, fun ivf hivf => ?_, htracked⟩
  cases hivf
  exact hcentroids'

/-- Any other id waits with the rest. -/
theorem Adds.waits (h : Adds id r r') (hlisted : r.index.Listed) (hwaits : Waits n r.index)
    (hfew : ¬(id ∉ r.index.trackedIds ∧ n ≤ r'.cached.card)) :
    r'.index.Listed ∧ Waits n r'.index ∧ r'.index.trackedIds = insert id r.index.trackedIds := by
  obtain ⟨-, -, vector, reader, x, hreader, hret⟩ := h
  obtain ⟨ix, hix, hcentroids, rfl⟩ := hwaits
  rw [hix] at hret hfew hlisted ⊢
  obtain ⟨ix', hix', heq⟩ := map_eq_ok.mp hret
  have hkept : ¬ix.Rebuilds id reader := by
    rintro ⟨hnew, -, henough, -⟩
    rw [← hreader] at hfew
    exact hfew ⟨hnew, henough⟩
  obtain ⟨htracked, hlisted', hnil, hconfig⟩ := IvfIndex.insert_tracks hkept hlisted hix'
  rw [← heq]
  exact ⟨hlisted', ⟨ix', rfl, hnil.mpr hcentroids, by rw [hconfig]⟩, htracked⟩

omit [Floats] in
theorem Drops.waits (h : Drops id r r') (hlisted : r.index.Listed) (hwaits : Waits n r.index) :
    r'.index.Listed ∧ Waits n r'.index ∧ r'.index.trackedIds = r.index.trackedIds.erase id ∧
      r'.cached = r.cached.erase id := by
  obtain ⟨-, ⟨order, hix'⟩, hcached⟩ := h
  obtain ⟨ix, hix, hcentroids, rfl⟩ := hwaits
  rw [hix'] at hcached ⊢
  rw [hix] at hcached hlisted ⊢
  refine ⟨hlisted.remove id order, ⟨ix.remove id, rfl, ?_, ?_⟩, VectorIndex.trackedIds_remove _ _ _, ?_⟩
  · rw [IvfIndex.centroids_remove]
    exact hcentroids
  · rw [IvfIndex.config_remove]
  · rw [hcached, if_pos (by simp [VectorIndex.indexType, VectorIndex.remove])]

theorem Replays.stored {entry : WalEntry} (h : r.Replays r' entry) :
    r'.stored = entry.replayIds r.stored := by
  cases entry with
  | insert doc seq => exact h.1
  | update doc seq =>
      obtain ⟨r₁, hdrop, hadd⟩ := h
      rw [hadd.1, hdrop.1]
      exact insert_erase_ids _ _
  | delete id seq => exact h.1
  | checkpoint timestamp seq =>
      cases h
      rfl

/-- An index that waits is built when the log gathers enough vectors, and waits on otherwise. -/
theorem Replays.waits {entry : WalEntry} (h : r.Replays r' entry) (hlisted : r.index.Listed)
    (hwaits : Waits n r.index) (htracked : r.index.trackedIds = r.stored) :
    r'.index.Listed ∧ r'.cached = entry.replayIds r.cached ∧
      (entry.Lists r.stored ∧ n ≤ (entry.replayIds r.cached).card →
        Settled r'.index ∧ r'.index.trackedIds = r'.cached) ∧
      (¬(entry.Lists r.stored ∧ n ≤ (entry.replayIds r.cached).card) →
        Waits n r'.index ∧ r'.index.trackedIds = r'.stored) := by
  have hstored := h.stored
  cases entry with
  | insert doc seq =>
      have hadd : Adds doc.id r r' := h
      have hcached : r'.cached = insert doc.id r.cached := hadd.2.1
      rw [WalEntry.replayIds, ← hcached, WalEntry.Lists, ← htracked]
      by_cases hbuild : doc.id ∉ r.index.trackedIds ∧ n ≤ r'.cached.card
      · obtain ⟨hlisted', hsettled, htracked'⟩ := hadd.builds hwaits hbuild.1 hbuild.2
        exact ⟨hlisted', rfl, fun _ => ⟨hsettled, htracked'⟩, fun hnot => absurd hbuild hnot⟩
      · obtain ⟨hlisted', hwaits', htracked'⟩ := hadd.waits hlisted hwaits hbuild
        refine ⟨hlisted', rfl, fun hyes => absurd hyes hbuild, fun _ => ⟨hwaits', ?_⟩⟩
        rw [htracked', htracked, hstored]
        rfl
  | update doc seq =>
      obtain ⟨r₁, hdrop, hadd⟩ := h
      obtain ⟨hlisted₁, hwaits₁, htracked₁, hcached₁⟩ := hdrop.waits hlisted hwaits
      have hcached : r'.cached = insert doc.id r.cached := by
        rw [hadd.2.1, hcached₁]
        exact insert_erase_ids _ _
      have hnew : doc.id ∉ r₁.index.trackedIds := by
        rw [htracked₁]
        exact Finset.notMem_erase _ _
      rw [WalEntry.replayIds, ← hcached, WalEntry.Lists, true_and]
      by_cases hbuild : n ≤ r'.cached.card
      · obtain ⟨hlisted', hsettled, htracked'⟩ := hadd.builds hwaits₁ hnew hbuild
        exact ⟨hlisted', rfl, fun _ => ⟨hsettled, htracked'⟩, fun hnot => absurd hbuild hnot⟩
      · obtain ⟨hlisted', hwaits', htracked'⟩ := hadd.waits hlisted₁ hwaits₁ fun h => hbuild h.2
        refine ⟨hlisted', rfl, fun hyes => absurd hyes hbuild, fun _ => ⟨hwaits', ?_⟩⟩
        rw [htracked', htracked₁, htracked, hstored]
        exact insert_erase_ids _ _
  | delete id seq =>
      obtain ⟨hlisted', hwaits', htracked', hcached'⟩ := Drops.waits h hlisted hwaits
      refine ⟨hlisted', hcached', fun hyes => hyes.1.elim, fun _ => ⟨hwaits', ?_⟩⟩
      rw [htracked', htracked, hstored]
      rfl
  | checkpoint timestamp seq =>
      cases h
      exact ⟨hlisted, rfl, fun hyes => hyes.1.elim, fun _ => ⟨hwaits, htracked⟩⟩

/-! ### Whole logs -/

/-- What the replay of a log does to a roster. -/
def ReplaysAll : List WalEntry → Roster → Roster → Prop
  | [], r, r' => r' = r
  | entry :: entries, r, r' => ∃ r₁, r.Replays r₁ entry ∧ ReplaysAll entries r₁ r'

variable {entries : List WalEntry}

theorem ReplaysAll.stored (h : ReplaysAll entries r r') :
    r'.stored = entries.foldl WalEntry.replayIds r.stored := by
  induction entries generalizing r with
  | nil => exact congrArg Roster.stored h
  | cons entry entries ih =>
      obtain ⟨r₁, hstep, hrest⟩ := h
      rw [ih hrest, hstep.stored, List.foldl_cons]

theorem ReplaysAll.settled (h : ReplaysAll entries r r') (hlisted : r.index.Listed)
    (hsettled : Settled r.index) :
    r'.index.trackedIds = entries.foldl WalEntry.replayIds r.index.trackedIds := by
  induction entries generalizing r with
  | nil =>
      cases h
      rfl
  | cons entry entries ih =>
      obtain ⟨r₁, hstep, hrest⟩ := h
      obtain ⟨hlisted₁, hsettled₁, htracked₁⟩ := hstep.settled hlisted hsettled
      rw [ih hrest hlisted₁ hsettled₁, htracked₁, List.foldl_cons]

/-- An index that waits ends with the replayed ids alone if the log gathers enough vectors, and
with all of them otherwise. -/
theorem ReplaysAll.waits (h : ReplaysAll entries r r') (hlisted : r.index.Listed)
    (hwaits : Waits n r.index) (htracked : r.index.trackedIds = r.stored) :
    (WalEntry.Gathers n r.stored r.cached entries →
        r'.index.trackedIds = entries.foldl WalEntry.replayIds r.cached) ∧
      (¬WalEntry.Gathers n r.stored r.cached entries →
        r'.index.trackedIds = entries.foldl WalEntry.replayIds r.stored) := by
  induction entries generalizing r with
  | nil =>
      cases h
      exact ⟨fun h => h.elim, fun _ => htracked⟩
  | cons entry entries ih =>
      obtain ⟨r₁, hstep, hrest⟩ := h
      have hstored₁ := hstep.stored
      obtain ⟨hlisted₁, hcached₁, hbuilds, hkeeps⟩ := hstep.waits hlisted hwaits htracked
      rw [List.foldl_cons, List.foldl_cons, WalEntry.Gathers]
      by_cases hgathers : entry.Lists r.stored ∧ n ≤ (entry.replayIds r.cached).card
      · obtain ⟨hsettled₁, htracked₁⟩ := hbuilds hgathers
        refine ⟨fun _ => ?_, fun hnot => absurd (.inl hgathers) hnot⟩
        rw [hrest.settled hlisted₁ hsettled₁, htracked₁, hcached₁]
      · obtain ⟨hwaits₁, htracked₁⟩ := hkeeps hgathers
        have hih := ih hrest hlisted₁ hwaits₁ htracked₁
        rw [hstored₁, hcached₁] at hih
        exact ⟨fun h => hih.1 (h.resolve_left hgathers), fun h => hih.2 fun hlater => h (.inr hlater)⟩

end Roster

/-! ## Opening a collection -/

/-- The replay of the log builds the vector index without an id of the snapshot. -/
def Collection.Forgets (snapshot : Collection) (entries : List WalEntry) : Prop :=
  ∃ ix, snapshot.vectorIndex = .ivf ix ∧ ix.centroids = [] ∧
    WalEntry.Gathers ix.config.numClusters snapshot.index.keys ∅ entries ∧
    ∃ id ∈ snapshot.index.keys, ∀ entry ∈ entries, entry.id? ≠ some id

section

variable [Env] {s : Session} {d d' : Disk}

theorem Roster.ReplaysAll.tracked_iff {r r' : Roster} {entries : List WalEntry}
    (h : Roster.ReplaysAll entries r r') (hlisted : r.index.Listed)
    (htracked : r.index.trackedIds = r.stored) (hcached : r.cached = ∅) :
    r'.index.trackedIds = r'.stored ↔
      ¬∃ ix, r.index = .ivf ix ∧ ix.centroids = [] ∧
        WalEntry.Gathers ix.config.numClusters r.stored ∅ entries ∧
        ∃ id ∈ r.stored, ∀ entry ∈ entries, entry.id? ≠ some id := by
  rw [h.stored]
  rcases Roster.waits_or_settled r.index with ⟨n, hwaits⟩ | hsettled
  · obtain ⟨hbuilt, hwaited⟩ := h.waits hlisted hwaits htracked
    rw [hcached] at hbuilt hwaited
    obtain ⟨ix, hix, hcentroids, rfl⟩ := hwaits
    by_cases hgathers : WalEntry.Gathers ix.config.numClusters r.stored ∅ entries
    · rw [hbuilt hgathers, eq_comm, WalEntry.foldl_replayIds_eq_iff (Finset.empty_subset _)]
      constructor
      · rintro hall ⟨-, -, -, -, id, hid, hnone⟩
        obtain ⟨entry, hentry, heq⟩ := (hall id hid).resolve_left (Finset.notMem_empty id)
        exact hnone entry hentry heq
      · intro hnot id hid
        by_contra hmissing
        refine hnot ⟨ix, hix, hcentroids, hgathers, id, hid, fun entry hentry heq => hmissing ?_⟩
        exact .inr ⟨entry, hentry, heq⟩
    · refine iff_of_true (hwaited hgathers) ?_
      rintro ⟨ix', hix', -, hgathers', -⟩
      rw [hix] at hix'
      cases hix'
      exact hgathers hgathers'
  · refine iff_of_true ?_ ?_
    · rw [h.settled hlisted hsettled, htracked]
    · rintro ⟨ix, hix, hcentroids, -⟩
      exact hsettled ix hix hcentroids

namespace CollectionBuilder

open Collection

theorem ensures_replayEntry_roster {entry : WalEntry} :
    ensures (replayEntry entry) (fun _ s' _ => s.roster.Replays s'.roster entry) s d := by
  cases entry with
  | insert doc seq =>
      simp only [replayEntry, ensures_bind, ensures_pure]
      exact ensures_insertInternal_adds fun _ _ h => h
  | update doc seq =>
      simp only [replayEntry, ensures_bind, ensures_pure]
      refine ensures_deleteInternal_drops_roster fun s₁ d₁ hdrop => ?_
      exact ensures_insertInternal_adds fun _ _ hadd => ⟨_, hdrop, hadd⟩
  | delete id seq => exact ensures_deleteInternal_drops_roster fun _ _ h => h
  | checkpoint timestamp seq => exact ensures_pure.mpr rfl

theorem ensures_replayWal_roster {entries : List WalEntry} :
    ensures (replayWal entries) (fun _ s' _ => Roster.ReplaysAll entries s.roster s'.roster) s d := by
  unfold replayWal
  induction entries generalizing s d with
  | nil => exact ensures_pure.mpr rfl
  | cons entry entries ih =>
      change ensures (replayEntry entry >>= fun _ => entries.forM replayEntry) _ s d
      rw [ensures_bind]
      refine ensures_mono ensures_replayEntry_roster fun _ s₁ d₁ hstep => ?_
      exact ensures_mono ih fun _ s₂ d₂ hrest => ⟨_, hstep, hrest⟩

theorem ensures_recover_roster {entries : List WalEntry} {Q : Unit → Session → Disk → Prop}
    (hQ : ∀ s' d' r', Roster.ReplaysAll entries s.roster r' → s'.roster.stored = r'.stored →
      s'.roster.index = r'.index → Q () s' d') : ensures (recover entries) Q s d := by
  simp only [recover, ensures_bind]
  refine ensures_mono ensures_replayWal_roster fun _ s₁ d₁ hreplayed => ?_
  refine ensures_rebuildVectorCache_roster fun s₂ hstored hindex => ?_
  refine ensures_checkpointNow fun s₃ d₃ ha => hQ s₃ d₃ _ hreplayed ?_ ?_
  · rw [← hstored]
    unfold Session.roster
    rw [ha.coll]
  · rw [← hindex]
    unfold Session.roster
    rw [ha.coll]

/-- What is loaded has an empty cache, and a vector index without ids if there was none. -/
theorem ensures_loadCollection_bare {path : String} {config : CollectionConfig} {n : Nat} :
    ensures (loadCollection path config) (fun out _ _ => out.1.cache.vectors = ∅ ∧
      (out.2.1 = true → out.1.vectorIndex.trackedIds = ∅)) n d := by
  simp only [loadCollection, ensures_bind]
  refine ensures_of_forall fun index n₁ d₁ => ?_
  refine ensures_of_forall fun store n₂ d₂ => ?_
  refine ensures_of_forall fun chance n₃ d₃ => ?_
  refine ensures_of_forall fun metadata n₄ d₄ => ?_
  refine ensures_of_forall fun ix n₅ d₅ => ?_
  refine ensures_of_forall fun minSeq n₆ d₆ => ?_
  refine ensures_of_forall fun wal n₇ d₇ => ?_
  refine ensures_of_forall fun entries n₈ d₈ => ?_
  refine ensures_pure.mpr ⟨rfl, fun hmissing => ?_⟩
  rw [Option.isNone_iff_eq_none] at hmissing
  simp only [hmissing, Option.getD_none]
  exact config.index.trackedIds_createIndex _

/-- Opened on a coherent snapshot, whatever the log, a collection has the ids of its documents
in the vector index if and only if the replay does not forget one. -/
theorem replay_tracks_iff {path : String} {config : CollectionConfig} {n n' : Nat}
    {snapshot c : Collection} {missing : Bool} {entries : List WalEntry}
    (hload : (loadCollection path config n d).result = .ok (snapshot, missing, entries))
    (htracked : snapshot.vectorIndex.trackedIds = snapshot.index.keys)
    (hlisted : snapshot.vectorIndex.Listed) (hopen : Runs (openCollection path config) n d c n' d') :
    c.vectorIndex.trackedIds = c.index.keys ↔ ¬snapshot.Forgets entries := by
  refine ensures_runs (Q := fun c _ _ => c.vectorIndex.trackedIds = c.index.keys ↔
    ¬snapshot.Forgets entries) ?_ hopen
  simp only [openCollection, ensures_bind]
  refine ensures_mono (ensures_result ensures_loadCollection_bare hload) ?_
  rintro _ n₁ d₁ ⟨rfl, hcache, hbare⟩
  simp only [onCollection, ensures_ite, ensures_bind, ensures_embed, ensures_pure]
  constructor
  · intro _
    refine ensures_recover_roster (s := ⟨snapshot, n₁⟩) fun s₂ d₂ r' hreplayed hstored hindex => ?_
    have hvectors : snapshot.cache.vectors = ∅ := hcache
    have hempty : (Session.mk snapshot n₁).roster.cached = ∅ := by
      unfold Session.roster
      rw [hvectors, Finmap.keys_empty]
    have hiff := hreplayed.tracked_iff hlisted htracked hempty
    rw [← hstored, ← hindex] at hiff
    exact hiff
  · intro hnone
    have hnil : entries = [] := by simpa using hnone
    have hkept : ¬snapshot.Forgets entries := by
      rintro ⟨ix, -, -, hgathers, -⟩
      rw [hnil] at hgathers
      exact hgathers
    have hloaded : ¬(snapshot.index.len ≠ 0 ∧ missing = true) := by
      rintro ⟨hlen, hmissing⟩
      refine hlen ?_
      unfold HashMap.len
      rw [← htracked, hbare hmissing, Finset.card_empty]
    unfold restoreVectorIndex
    rw [if_neg hloaded, ensures_pure]
    refine ensures_rebuildVectorCache_roster (s := ⟨snapshot, n₁⟩) fun s₂ hstored hindex => ?_
    refine iff_of_true ?_ hkept
    change s₂.roster.index.trackedIds = s₂.roster.stored
    rw [hstored, hindex]
    exact htracked

end CollectionBuilder

end

/-! ## A snapshot whose ids wait -/

section

attribute [local instance] Reference.flat

open Reference

/-- An IVF index of `numClusters` clusters. -/
def clusteredConfig (numClusters : Nat) : CollectionConfig :=
  config (.ivf numClusters 1 10 .cosine .auto) .unlimited 1000

/-- The files of a session that inserts documents, makes a checkpoint, inserts others, and is not
ended by another checkpoint. -/
def leftBehind (numClusters : Nat) (saved logged : List Document) : Disk :=
  Machine.disk <| after (clusteredConfig numClusters) <|
    .open :: saved.map (fun doc => .call (.insert doc)) ++ .call .checkpoint ::
      logged.map fun doc => .call (.insert doc)

/-- An IVF index that was never built. -/
def unbuilt : VectorIndex → Bool
  | .ivf ix => decide (ix.centroids = []) && decide (ix.invertedLists = [])
  | _ => false

theorem listed_of_unbuilt {ix : VectorIndex} (h : unbuilt ix = true) : ix.Listed := by
  unfold unbuilt at h
  split at h
  · rename_i ivf
    rw [Bool.and_eq_true, decide_eq_true_eq, decide_eq_true_eq] at h
    obtain ⟨hcentroids, hlists⟩ := h
    change ivf.invertedLists.length = ivf.centroids.length
    rw [hcentroids, hlists]
    rfl
  · cases h

/-- What is loaded of the files of a session, and what is opened on them. -/
theorem loaded_and_opened (numClusters : Nat) (saved logged : List Document) (agrees : Bool)
    (hload : (CollectionBuilder.loadCollection "c" (clusteredConfig numClusters) 0
        (leftBehind numClusters saved logged)).result.toOption.map (fun out =>
      (unbuilt out.1.vectorIndex, decide (out.1.vectorIndex.trackedIds = out.1.index.keys))) =
        some (true, true))
    (hopen : (CollectionBuilder.openCollection "c" (clusteredConfig numClusters) 0
        (leftBehind numClusters saved logged)).result.toOption.map (fun c =>
      decide (c.vectorIndex.trackedIds = c.index.keys)) = some agrees) :
    ∃ snapshot missing entries c n' d',
      (CollectionBuilder.loadCollection "c" (clusteredConfig numClusters) 0
        (leftBehind numClusters saved logged)).result = .ok (snapshot, missing, entries) ∧
      snapshot.vectorIndex.trackedIds = snapshot.index.keys ∧ snapshot.vectorIndex.Listed ∧
      Runs (CollectionBuilder.openCollection "c" (clusteredConfig numClusters)) 0
        (leftBehind numClusters saved logged) c n' d' ∧
      decide (c.vectorIndex.trackedIds = c.index.keys) = agrees := by
  obtain ⟨⟨snapshot, missing, entries⟩, hloaded, hsnapshot⟩ := ok_of_map hload
  obtain ⟨c, hopened, hagrees⟩ := ok_of_map hopen
  have hunbuilt : unbuilt snapshot.vectorIndex = true := congrArg Prod.fst hsnapshot
  have htracked : decide (snapshot.vectorIndex.trackedIds = snapshot.index.keys) = true :=
    congrArg Prod.snd hsnapshot
  exact ⟨snapshot, missing, entries, c, _, _, hloaded, of_decide_eq_true htracked,
    listed_of_unbuilt hunbuilt, runs_of_ok hopened, hagrees⟩

/-- One id is saved and another one logged, and three clusters are not built of them. -/
theorem waiting_ids_kept :
    ∃ snapshot missing entries c n' d',
      (CollectionBuilder.loadCollection "c" (clusteredConfig 3) 0
        (leftBehind 3 [doc 0 1] [doc 1 1])).result = .ok (snapshot, missing, entries) ∧
      Runs (CollectionBuilder.openCollection "c" (clusteredConfig 3)) 0
        (leftBehind 3 [doc 0 1] [doc 1 1]) c n' d' ∧
      c.vectorIndex.trackedIds = c.index.keys ∧ ¬snapshot.Forgets entries := by
  obtain ⟨snapshot, missing, entries, c, n', d', hload, htracked, hlisted, hopen, hagrees⟩ :=
    loaded_and_opened 3 [doc 0 1] [doc 1 1] true
      (by decide +kernel) (by decide +kernel)
  have heq : c.vectorIndex.trackedIds = c.index.keys := of_decide_eq_true hagrees
  exact ⟨snapshot, missing, entries, c, n', d', hload, hopen, heq,
    (CollectionBuilder.replay_tracks_iff hload htracked hlisted hopen).mp heq⟩

/-- One id is saved and two are logged, of which two clusters are built without the first. -/
theorem waiting_id_forgotten :
    ∃ snapshot missing entries c n' d',
      (CollectionBuilder.loadCollection "c" (clusteredConfig 2) 0
        (leftBehind 2 [doc 0 1] [doc 1 1, doc 2 1])).result = .ok (snapshot, missing, entries) ∧
      snapshot.vectorIndex.trackedIds = snapshot.index.keys ∧ snapshot.vectorIndex.Listed ∧
      Runs (CollectionBuilder.openCollection "c" (clusteredConfig 2)) 0
        (leftBehind 2 [doc 0 1] [doc 1 1, doc 2 1]) c n' d' ∧
      c.vectorIndex.trackedIds ≠ c.index.keys := by
  obtain ⟨snapshot, missing, entries, c, n', d', hload, htracked, hlisted, hopen, hagrees⟩ :=
    loaded_and_opened 2 [doc 0 1] [doc 1 1, doc 2 1] false
      (by decide +kernel) (by decide +kernel)
  exact ⟨snapshot, missing, entries, c, n', d', hload, htracked, hlisted, hopen,
    of_decide_eq_false hagrees⟩

end
