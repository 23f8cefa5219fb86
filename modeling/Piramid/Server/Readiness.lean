-- SUMMARY: What the readiness check makes of the files in the data directory, and when it reports the collections.
import Piramid.Collections.Lasting
import Piramid.Reference.Sample
import Piramid.Server.Names

/-!
# Readiness

The files of all collections lie in one directory, and most of them end in `.db`.
The service and the command line each read the names of the collections off the
names of these files.
-/

open Prog

/-! ## File names -/

namespace CollFile

def all : List CollFile :=
  [.data, .index, .vecindex, .metadata, .wal, .walMeta, .walMetaTmp, .compactTmp]

theorem mem_all (f : CollFile) : f ∈ all := by
  cases f <;> decide

end CollFile

/-- `Path::extension` of a file name: what comes after its last dot. -/
def fileExtension (name : List Char) : Option (List Char) :=
  match name.reverse.dropWhile (· ≠ '.') with
  | [] | [_] => none
  | _ => some (name.reverse.takeWhile (· ≠ '.')).reverse

/-- `collection_name_from_base_db_filename`. -/
def collectionNameFromBaseDbFilename (fileName : List Char) : Option String :=
  let endsWith (suffix : String) := suffix.toList.isSuffixOf fileName
  if !endsWith ".db" then none
  else if endsWith ".index.db" || endsWith ".vecindex.db" || endsWith ".metadata.db" ||
      endsWith ".wal.db" then none
  else
    let name := fileName.take (fileName.length - ".db".toList.length)
    if name = [] then none else some (String.ofList name)

/-! ## The data directory -/

/-- The data directory, and the collections that are loaded. -/
structure DataDir where
  disks : HashMap String Disk
  loaded : HashMap String Collection
  draws : Nat

namespace DataDir

inductive Event where
  /-- Load a collection, or create it. -/
  | open (name : String) (config : CollectionConfig)
  | call (name : String) (call : Call)
  /-- The process ends, and another one starts. -/
  | restart

/-- The files of a collection; of one that does not exist, none. -/
def disk (dir : DataDir) (name : String) : Disk := (dir.disks.lookup name).getD Disk.empty

def empty : DataDir := ⟨∅, ∅, 0⟩

variable [Env] [UnicodeTables] (dataDir : String)

def step (dir : DataDir) : Event → DataDir
  | .open name config =>
    if validateCollectionName name = .ok () ∧ name ∉ dir.loaded.keys then
      let p := CollectionBuilder.openCollection (collectionPath dataDir name) config
      { disks := dir.disks.insert name (p.final dir.draws (dir.disk name))
        loaded := match (p dir.draws (dir.disk name)).result with
          | .ok c => dir.loaded.insert name c
          | .error _ => dir.loaded
        draws := (p dir.draws (dir.disk name)).state }
    else dir
  | .call name call =>
    match dir.loaded.lookup name with
    | none => dir
    | some c =>
      let s := (call.run ⟨c, dir.draws⟩ (dir.disk name)).state
      { disks := dir.disks.insert name (call.run.final ⟨c, dir.draws⟩ (dir.disk name))
        loaded := dir.loaded.insert name s.coll
        draws := s.draws }
  | .restart => { dir with loaded := ∅ }

def run (dir : DataDir) (events : List Event) : DataDir := events.foldl (step dataDir) dir

end DataDir

namespace DataDir

/-- The names of all files. -/
def fileNames (dir : DataDir) : Finset (List Char) :=
  dir.disks.keys.biUnion fun name =>
    ((CollFile.all.filter fun f => (dir.disk name f).isSome).map (·.fileName name)).toFinset

theorem mem_fileNames {dir : DataDir} {fileName : List Char} : fileName ∈ dir.fileNames ↔
    ∃ name f, name ∈ dir.disks.keys ∧ (dir.disk name f).isSome ∧ fileName = f.fileName name := by
  simp only [fileNames, Finset.mem_biUnion, List.mem_toFinset, List.mem_map, List.mem_filter]
  constructor
  · rintro ⟨name, hname, f, ⟨-, hf⟩, rfl⟩
    exact ⟨name, f, hname, hf, rfl⟩
  · rintro ⟨name, f, hname, hf, rfl⟩
    exact ⟨name, hname, f, ⟨CollFile.mem_all f, hf⟩, rfl⟩

end DataDir

/-! ## The readiness check -/

/-- `CollectionHealth`. -/
structure CollectionHealth where
  name : String
  loaded : Bool
  count : Option Nat
  indexType : Option String
  lastCheckpoint : Option Nat
  checkpointAgeSecs : Option Nat
  walSizeBytes : Option Nat
  schemaVersion : Option Nat
  integrityOk : Bool
  error : Option String

/-- `ReadyzResponse`. -/
structure ReadyzResponse where
  ok : Bool
  version : String
  dataDir : String
  totalCollections : Nat
  loadedCollections : Nat
  totalVectors : Nat
  diskTotalBytes : Option Nat
  diskAvailableBytes : Option Nat
  collections : List CollectionHealth

/-- The server around the data directory. -/
structure ReadyzState where
  dir : DataDir
  dataDir : String
  shuttingDown : Bool
  version : String
  /-- `current_unix_secs().ok()`. -/
  now : Option Nat
  /-- What `statvfs` says about the total and the available bytes. -/
  diskStats : Except Fault (Option Nat × Option Nat)

def IndexType.display : IndexType → String
  | .flat => "Flat"
  | .hnsw => "HNSW"
  | .ivf => "IVF"

namespace ReadyzState

/-- The entry of a collection that is loaded. -/
def loadedHealth (st : ReadyzState) (name : String) (c : Collection) : CollectionHealth where
  name := name
  loaded := true
  count := some c.count
  indexType := some c.vectorIndex.indexType.display
  lastCheckpoint := c.checkpoint.lastCheckpointTs
  checkpointAgeSecs := do
    let timestamp ← c.checkpoint.lastCheckpointTs
    let now ← st.now
    if timestamp ≤ now then some (now - timestamp) else none
  walSizeBytes := (st.dir.disk name .wal).map List.length
  schemaVersion := some c.metadata.schemaVersion
  integrityOk := true
  error := none

def unloadedHealth (name : String) : CollectionHealth where
  name := name
  loaded := false
  count := none
  indexType := none
  lastCheckpoint := none
  checkpointAgeSecs := none
  walSizeBytes := none
  schemaVersion := none
  integrityOk := false
  error := some "not loaded"

/-- One entry of the directory. -/
def listEntry (st : ReadyzState) (fileName : List Char) : Option CollectionHealth :=
  if fileExtension fileName = some "db".toList then
    let name := String.ofList (CollectionBuilder.stem fileName)
    if name ∈ st.dir.loaded.keys then none else some (unloadedHealth name)
  else none

/-- The list `collections`. The two orders are those of the map of loaded collections and of the
directory. -/
def collectHealth (st : ReadyzState) (order : HashOrder String) (listing : HashOrder (List Char)) :
    List CollectionHealth :=
  (order.entries st.dir.loaded).map (fun e => st.loadedHealth e.1 e.2) ++
    (listing.enum st.dir.fileNames).filterMap st.listEntry

def readyz (st : ReadyzState) (order : HashOrder String) (listing : HashOrder (List Char)) :
    Except Fault ReadyzResponse :=
  if st.shuttingDown then .error (.serviceUnavailable "Server is shutting down")
  else do
    let collections := st.collectHealth order listing
    let (diskTotalBytes, diskAvailableBytes) ← st.diskStats
    pure {
      ok := collections.all fun collection => collection.integrityOk && collection.loaded
      version := st.version
      dataDir := st.dataDir
      totalCollections := collections.length
      loadedCollections := st.dir.loaded.len
      totalVectors := ((order.entries st.dir.loaded).map fun e => e.2.count).sum
      diskTotalBytes
      diskAvailableBytes
      collections }

end ReadyzState

/-! ## Reading names off file names -/

namespace CollFile

/-- What stands between the name of the collection and the last dot. -/
def inner : CollFile → String
  | .data => ""
  | .index => ".db.index"
  | .vecindex => ".db.vecindex"
  | .metadata => ".db.metadata"
  | .wal | .walMeta | .walMetaTmp => ".db.wal"
  | .compactTmp => ".db"

/-- What comes after the last dot. -/
def extension : CollFile → String
  | .data | .index | .vecindex | .metadata | .wal => "db"
  | .walMeta => "meta"
  | .walMetaTmp => "tmp"
  | .compactTmp => "compact"

/-- The sidecars that a directory listing takes for data files. -/
def IsSidecarDb (f : CollFile) : Prop := f ≠ .data ∧ f.extension = "db"

instance (f : CollFile) : Decidable f.IsSidecarDb := inferInstanceAs (Decidable (_ ∧ _))

theorem fileName_eq (f : CollFile) (name : String) :
    f.fileName name = (name.toList ++ f.inner.toList) ++ '.' :: f.extension.toList := by
  cases f <;> simp [fileName, inner, extension, suffix]

theorem dot_mem_inner {f : CollFile} (h : f.IsSidecarDb) : '.' ∈ f.inner.toList := by
  cases f with
  | data => exact absurd rfl h.1
  | index | vecindex | metadata | wal | walMeta | walMetaTmp | compactTmp => decide

end CollFile

section

variable {before ext : List Char}

theorem dropWhile_extension (hext : '.' ∉ ext) :
    (before ++ '.' :: ext).reverse.dropWhile (· ≠ '.') = '.' :: before.reverse := by
  have hall : ∀ c ∈ ext.reverse, decide (c ≠ '.') = true := by
    intro c hc
    simpa using ne_of_mem_of_not_mem (List.mem_reverse.mp hc) hext
  rw [List.reverse_append, List.reverse_cons, List.append_assoc,
    List.dropWhile_append_of_pos hall]
  simp

theorem stem_append (hbefore : before ≠ []) (hext : '.' ∉ ext) :
    CollectionBuilder.stem (before ++ '.' :: ext) = before := by
  unfold CollectionBuilder.stem
  rw [dropWhile_extension hext]
  cases hrev : before.reverse with
  | nil => exact absurd (List.reverse_eq_nil_iff.mp hrev) hbefore
  | cons c cs =>
      simp only
      rw [← hrev, List.reverse_reverse]

theorem fileExtension_append (hbefore : before ≠ []) (hext : '.' ∉ ext) :
    fileExtension (before ++ '.' :: ext) = some ext := by
  have hall : ∀ c ∈ ext.reverse, decide (c ≠ '.') = true := by
    intro c hc
    simpa using ne_of_mem_of_not_mem (List.mem_reverse.mp hc) hext
  have htake : (before ++ '.' :: ext).reverse.takeWhile (· ≠ '.') = ext.reverse := by
    rw [List.reverse_append, List.reverse_cons, List.append_assoc,
      List.takeWhile_append_of_pos hall]
    simp
  unfold fileExtension
  rw [dropWhile_extension hext, htake]
  cases hrev : before.reverse with
  | nil => exact absurd (List.reverse_eq_nil_iff.mp hrev) hbefore
  | cons c cs => simp

/-- Stem and extension make up the whole name. -/
theorem eq_of_fileExtension {fileName ext : List Char} (h : fileExtension fileName = some ext) :
    fileName = CollectionBuilder.stem fileName ++ '.' :: ext := by
  have hsplit : fileName.reverse.takeWhile (· ≠ '.') ++ fileName.reverse.dropWhile (· ≠ '.') =
      fileName.reverse := List.takeWhile_append_dropWhile
  unfold fileExtension at h
  unfold CollectionBuilder.stem
  cases hdrop : fileName.reverse.dropWhile (· ≠ '.') with
  | nil =>
      rw [hdrop] at h
      cases h
  | cons dot rest =>
      have hdot : dot = '.' := by
        have hnonempty : fileName.reverse.dropWhile (· ≠ '.') ≠ [] := by simp only [hdrop]; simp
        have hhead := List.head_dropWhile_not _ hnonempty
        simpa only [hdrop, List.head_cons, decide_eq_false_iff_not, not_not] using hhead
      cases rest with
      | nil =>
          rw [hdrop] at h
          cases h
      | cons c cs =>
          simp only [hdrop, Option.some.injEq] at h
          rw [hdrop, hdot] at hsplit
          have hrev := congrArg List.reverse hsplit
          rw [List.reverse_reverse, List.reverse_append, h] at hrev
          rw [← hrev]
          simp

end

namespace CollFile

variable {f : CollFile} {name : String}

theorem fileExtension_fileName (hname : name.toList ≠ []) :
    fileExtension (f.fileName name) = some f.extension.toList := by
  have hbefore : name.toList ++ f.inner.toList ≠ [] := by simp [hname]
  have hext : '.' ∉ f.extension.toList := by cases f <;> decide
  rw [fileName_eq, fileExtension_append hbefore hext]

theorem stem_fileName (hname : name.toList ≠ []) :
    CollectionBuilder.stem (f.fileName name) = name.toList ++ f.inner.toList := by
  have hbefore : name.toList ++ f.inner.toList ≠ [] := by simp [hname]
  have hext : '.' ∉ f.extension.toList := by cases f <;> decide
  rw [fileName_eq, stem_append hbefore hext]

end CollFile

theorem isSuffixOf_append {s b : List Char} (h : s.length ≤ b.length) (a : List Char) :
    s.isSuffixOf (a ++ b) = s.isSuffixOf b := by
  rw [Bool.eq_iff_iff, List.isSuffixOf_iff_suffix, List.isSuffixOf_iff_suffix]
  constructor
  · intro hs
    exact List.suffix_of_suffix_length_le hs (List.suffix_append a b) h
  · intro hs
    exact hs.trans (List.suffix_append a b)

/-- Two dots do not fit into the name of a data file. -/
theorem not_isSuffixOf_data {s name : List Char} (hs : s.count '.' = 2) (hdot : '.' ∉ name) :
    s.isSuffixOf (name ++ ".db".toList) = false := by
  rw [Bool.eq_false_iff, ne_eq, List.isSuffixOf_iff_suffix]
  intro hsuffix
  have hcount := hsuffix.sublist.count_le '.'
  rw [hs, List.count_append, List.count_eq_zero_of_not_mem hdot] at hcount
  revert hcount
  decide

/-- The command line takes the data file of a collection, and no other file, for the collection. -/
theorem collectionName_fileName {name : String} (hdot : '.' ∉ name.toList) (hname : name.toList ≠ [])
    (f : CollFile) :
    collectionNameFromBaseDbFilename (f.fileName name) = if f = .data then some name else none := by
  have hsplit : f.fileName name = name.toList ++ (".db".toList ++ f.suffix.toList) := by
    cases f <;> simp [CollFile.fileName, CollFile.suffix]
  have hends : ∀ (suffix : String) (b : Bool),
      suffix.toList.length ≤ (".db".toList ++ f.suffix.toList).length →
      suffix.toList.isSuffixOf (".db".toList ++ f.suffix.toList) = b →
      suffix.toList.isSuffixOf (f.fileName name) = b := by
    intro suffix b hlen hb
    rw [hsplit, isSuffixOf_append hlen, hb]
  unfold collectionNameFromBaseDbFilename
  cases f with
  | data =>
      have hdata : CollFile.data.fileName name = name.toList ++ ".db".toList := hsplit
      have hnot : ∀ s : String, s.toList.count '.' = 2 →
          s.toList.isSuffixOf (CollFile.data.fileName name) = false := by
        intro s hs
        rw [hdata]
        exact not_isSuffixOf_data hs hdot
      have hlength : (CollFile.data.fileName name).length - ".db".toList.length =
          name.toList.length := by
        rw [hdata, List.length_append, Nat.add_sub_cancel]
      simp only [hends ".db" true (by decide) (by decide), hnot ".index.db" (by decide),
        hnot ".vecindex.db" (by decide), hnot ".metadata.db" (by decide),
        hnot ".wal.db" (by decide), hlength]
      rw [hdata, List.take_left, if_neg hname, String.ofList_toList]
      rfl
  | index =>
      simp only [hends ".db" true (by decide) (by decide),
        hends ".index.db" true (by decide) (by decide), Bool.not_true, Bool.true_or]
      rfl
  | vecindex =>
      simp only [hends ".db" true (by decide) (by decide),
        hends ".vecindex.db" true (by decide) (by decide), Bool.not_true, Bool.or_true, Bool.true_or]
      rfl
  | metadata =>
      simp only [hends ".db" true (by decide) (by decide),
        hends ".metadata.db" true (by decide) (by decide), Bool.not_true, Bool.or_true, Bool.true_or]
      rfl
  | wal =>
      simp only [hends ".db" true (by decide) (by decide),
        hends ".wal.db" true (by decide) (by decide), Bool.not_true, Bool.or_true]
      rfl
  | walMeta | walMetaTmp | compactTmp =>
      simp only [hends ".db" false (by decide) (by decide), Bool.not_false]
      rfl

/-! ## What every directory is like -/

namespace DataDir

variable [Env] [UnicodeTables]

/-- The names are valid, every collection has its data file, and what is loaded is on disk. -/
structure Sound (dir : DataDir) : Prop where
  valid : ∀ name ∈ dir.disks.keys, validateCollectionName name = .ok ()
  created : ∀ name ∈ dir.disks.keys, (dir.disk name).Created
  onDisk : dir.loaded.keys ⊆ dir.disks.keys

variable {dir : DataDir} {dataDir : String}

omit [Env] [UnicodeTables] in
theorem disk_insert (dir : DataDir) (name name' : String) (d : Disk)
    (loaded : HashMap String Collection) (draws : Nat) :
    disk ⟨dir.disks.insert name d, loaded, draws⟩ name' = if name' = name then d else dir.disk name' := by
  unfold disk
  rw [HashMap.lookup_insert]
  split
  · rfl
  · rfl

omit [Env] [UnicodeTables] in
/-- A name that nothing is stored under has no files. -/
theorem disk_eq_empty {name : String} (h : name ∉ dir.disks.keys) : dir.disk name = Disk.empty := by
  rw [disk, (dir.disks.not_mem_keys_iff name).mp h]
  rfl

omit [Env] in
/-- New contents for the files of one collection. -/
theorem Sound.insert (h : dir.Sound) {name : String} (hname : validateCollectionName name = .ok ())
    {d : Disk} (hd : d.Created) {loaded : HashMap String Collection}
    (hloaded : loaded.keys ⊆ Insert.insert name dir.loaded.keys) (draws : Nat) :
    Sound ⟨dir.disks.insert name d, loaded, draws⟩ where
  valid name' hname' := by
    rw [HashMap.keys_insert] at hname'
    cases Finset.mem_insert.mp hname' with
    | inl heq => exact heq ▸ hname
    | inr hold => exact h.valid name' hold
  created name' hname' := by
    rw [disk_insert]
    split
    · exact hd
    · rename_i hne
      rw [HashMap.keys_insert] at hname'
      exact h.created name' ((Finset.mem_insert.mp hname').resolve_left hne)
  onDisk := by
    rw [HashMap.keys_insert]
    exact hloaded.trans (Finset.insert_subset_insert name h.onDisk)

omit [Env] in
theorem sound_empty : Sound empty where
  valid _ h := by simp [empty] at h
  created _ h := by simp [empty] at h
  onDisk := Finset.Subset.refl _

theorem Sound.step (h : dir.Sound) (e : Event) : (dir.step dataDir e).Sound := by
  cases e with
  | «open» name config =>
      unfold DataDir.step
      simp only
      split
      · rename_i hopen
        have hd : (dir.disk name).Created ∨ dir.disk name = Disk.empty := by
          by_cases hknown : name ∈ dir.disks.keys
          · exact .inl (h.created name hknown)
          · exact .inr (disk_eq_empty hknown)
        refine h.insert hopen.1 (created_openCollection hd) ?_ _
        split
        · rw [HashMap.keys_insert]
        · exact Finset.subset_insert name _
      · exact h
  | call name call =>
      unfold DataDir.step
      simp only
      split
      · exact h
      · rename_i c hc
        have hknown : name ∈ dir.disks.keys :=
          h.onDisk ((dir.loaded.mem_keys_iff name).mpr ⟨c, hc⟩)
        refine h.insert (h.valid name hknown) (call.created_final (h.created name hknown)) ?_ _
        rw [HashMap.keys_insert]
  | restart => exact ⟨h.valid, h.created, by simp [DataDir.step]⟩

theorem Sound.run (h : dir.Sound) (events : List Event) : (dir.run dataDir events).Sound := by
  induction events generalizing dir with
  | nil => exact h
  | cons e events ih => exact ih (h.step e)

end DataDir

/-! ## When the collections are reported -/

namespace DataDir

/-- No collection has a sidecar that a listing takes for a data file. -/
def NoSidecarDb (dir : DataDir) : Prop := ∀ name, ∀ f : CollFile, f.IsSidecarDb → dir.disk name f = none

end DataDir

namespace ReadyzState

/-- The response reports the collections: each one once, flagged if it is loaded, and nothing
else; and the command line finds the same names. -/
structure Reflects (st : ReadyzState) (r : ReadyzResponse) : Prop where
  once : (r.collections.map CollectionHealth.name).Nodup
  listed : ∀ name flag, (∃ h ∈ r.collections, h.name = name ∧ h.loaded = flag) ↔
    name ∈ st.dir.disks.keys ∧ flag = decide (name ∈ st.dir.loaded.keys)
  ready : r.ok = true ↔ ∀ name ∈ st.dir.disks.keys, name ∈ st.dir.loaded.keys
  commandLine : ∀ name, name ∈ r.collections.map CollectionHealth.name ↔
    ∃ fileName ∈ st.dir.fileNames, collectionNameFromBaseDbFilename fileName = some name

variable {st : ReadyzState} {order : HashOrder String} {listing : HashOrder (List Char)}
  {h : CollectionHealth}

theorem listEntry_eq_some {fileName : List Char} : st.listEntry fileName = some h ↔
    fileExtension fileName = some "db".toList ∧
      String.ofList (CollectionBuilder.stem fileName) ∉ st.dir.loaded.keys ∧
      unloadedHealth (String.ofList (CollectionBuilder.stem fileName)) = h := by
  unfold listEntry
  split
  · rename_i hext
    simp only [hext, true_and]
    split
    · rename_i hin
      simp [hin]
    · rename_i hout
      simp [hout]
  · rename_i hext
    simp only [hext, false_and, reduceCtorEq]

theorem mem_collectHealth : h ∈ st.collectHealth order listing ↔
    (∃ name c, st.dir.loaded.lookup name = some c ∧ st.loadedHealth name c = h) ∨
      ∃ fileName ∈ st.dir.fileNames, st.listEntry fileName = some h := by
  simp only [collectHealth, List.mem_append, List.mem_map, List.mem_filterMap, listing.mem_enum,
    Prod.exists, HashOrder.mem_entries]

/-- Every entry is in order exactly if it is loaded. -/
theorem integrityOk_eq (hmem : h ∈ st.collectHealth order listing) : h.integrityOk = h.loaded := by
  cases mem_collectHealth.mp hmem with
  | inl hloaded =>
      obtain ⟨name, c, -, rfl⟩ := hloaded
      rfl
  | inr hfile =>
      obtain ⟨fileName, -, hentry⟩ := hfile
      obtain ⟨-, -, rfl⟩ := listEntry_eq_some.mp hentry
      rfl

/-- No name comes up twice, whatever files there are. -/
theorem nodup_names : ((st.collectHealth order listing).map CollectionHealth.name).Nodup := by
  have hloaded : ((order.entries st.dir.loaded).map fun e => st.loadedHealth e.1 e.2).map
      CollectionHealth.name = order.enum st.dir.loaded.keys := by
    rw [List.map_map, ← order.map_fst_entries]
    rfl
  rw [collectHealth, List.map_append, hloaded, List.map_filterMap]
  refine List.Nodup.append (order.nodup _) ?_ ?_
  · refine (listing.nodup _).filterMap ?_
    intro fileName fileName' name hname hname'
    obtain ⟨h, hentry, rfl⟩ := Option.map_eq_some_iff.mp hname
    obtain ⟨h', hentry', hsame⟩ := Option.map_eq_some_iff.mp hname'
    obtain ⟨hext, -, rfl⟩ := listEntry_eq_some.mp hentry
    obtain ⟨hext', -, rfl⟩ := listEntry_eq_some.mp hentry'
    have hstem := String.ofList_injective hsame
    rw [eq_of_fileExtension hext, eq_of_fileExtension hext', hstem]
  · intro name hin hout
    obtain ⟨fileName, -, hname⟩ := List.mem_filterMap.mp hout
    obtain ⟨h, hentry, rfl⟩ := Option.map_eq_some_iff.mp hname
    obtain ⟨-, hnot, rfl⟩ := listEntry_eq_some.mp hentry
    exact hnot ((order.mem_enum _ _).mp hin)

section

variable [Env] [UnicodeTables]

omit [Env] in
/-- The entry of a data file, which names the collection. -/
theorem listEntry_data {name : String} (hname : validateCollectionName name = .ok ()) :
    st.listEntry (CollFile.data.fileName name) = some h ↔
      name ∉ st.dir.loaded.keys ∧ unloadedHealth name = h := by
  obtain ⟨-, -, hne⟩ := plain_of_valid hname
  have hstem : CollectionBuilder.stem (CollFile.data.fileName name) = name.toList := by
    rw [CollFile.stem_fileName hne]
    exact List.append_nil _
  rw [listEntry_eq_some, CollFile.fileExtension_fileName hne, hstem, String.ofList_toList]
  exact and_iff_right rfl

omit [Env] in
/-- A sidecar is listed under a name that no collection has. -/
theorem listed_sidecar (order : HashOrder String) (listing : HashOrder (List Char))
    (hsound : st.dir.Sound) {name : String} {f : CollFile}
    (hf : f.IsSidecarDb) (hfile : st.dir.disk name f ≠ none) :
    ∃ h ∈ st.collectHealth order listing, h.name ∉ st.dir.disks.keys := by
  have hknown : name ∈ st.dir.disks.keys := by
    by_contra hunknown
    rw [DataDir.disk_eq_empty hunknown] at hfile
    exact hfile rfl
  obtain ⟨-, -, hne⟩ := plain_of_valid (hsound.valid name hknown)
  have hunknown : String.ofList (CollectionBuilder.stem (f.fileName name)) ∉ st.dir.disks.keys := by
    intro hin
    obtain ⟨-, hdot, -⟩ := plain_of_valid (hsound.valid _ hin)
    rw [String.toList_ofList, CollFile.stem_fileName hne] at hdot
    exact hdot (List.mem_append_right _ (CollFile.dot_mem_inner hf))
  refine ⟨unloadedHealth (String.ofList (CollectionBuilder.stem (f.fileName name))), ?_, hunknown⟩
  refine mem_collectHealth.mpr (.inr ⟨f.fileName name, ?_, ?_⟩)
  · exact DataDir.mem_fileNames.mpr ⟨name, f, hknown, Option.isSome_iff_ne_none.mpr hfile, rfl⟩
  · refine listEntry_eq_some.mpr ⟨?_, fun hin => hunknown (hsound.onDisk hin), rfl⟩
    rw [CollFile.fileExtension_fileName hne, hf.2]

omit [Env] in
/-- Without sidecars, an entry of the directory is the data file of its collection. -/
theorem eq_data_of_listEntry (hsound : st.dir.Sound) (hbare : st.dir.NoSidecarDb)
    {fileName : List Char} (hfile : fileName ∈ st.dir.fileNames)
    (hentry : st.listEntry fileName = some h) :
    ∃ name ∈ st.dir.disks.keys, fileName = CollFile.data.fileName name := by
  obtain ⟨name, f, hknown, hexists, rfl⟩ := DataDir.mem_fileNames.mp hfile
  obtain ⟨-, -, hne⟩ := plain_of_valid (hsound.valid name hknown)
  obtain ⟨hext, -⟩ := listEntry_eq_some.mp hentry
  rw [CollFile.fileExtension_fileName hne, Option.some_inj, String.toList_inj] at hext
  refine ⟨name, hknown, ?_⟩
  by_cases hdata : f = .data
  · rw [hdata]
  · rw [hbare name f ⟨hdata, hext⟩] at hexists
    cases hexists

omit [Env] in
/-- The names that the command line finds are those on disk. -/
theorem commandLine_iff (hsound : st.dir.Sound) {name : String} :
    (∃ fileName ∈ st.dir.fileNames, collectionNameFromBaseDbFilename fileName = some name) ↔
      name ∈ st.dir.disks.keys := by
  constructor
  · rintro ⟨fileName, hfile, hname⟩
    obtain ⟨name', f, hknown, -, rfl⟩ := DataDir.mem_fileNames.mp hfile
    obtain ⟨-, hdot, hne⟩ := plain_of_valid (hsound.valid name' hknown)
    rw [collectionName_fileName hdot hne] at hname
    split at hname
    · cases hname
      exact hknown
    · cases hname
  · intro hknown
    obtain ⟨-, hdot, hne⟩ := plain_of_valid (hsound.valid name hknown)
    refine ⟨CollFile.data.fileName name, ?_, ?_⟩
    · exact DataDir.mem_fileNames.mpr ⟨name, .data, hknown, hsound.created name hknown, rfl⟩
    · rw [collectionName_fileName hdot hne, if_pos rfl]

omit [Env] in
theorem listed_iff (order : HashOrder String) (listing : HashOrder (List Char))
    (hsound : st.dir.Sound) (hbare : st.dir.NoSidecarDb) (name : String)
    (flag : Bool) :
    (∃ h ∈ st.collectHealth order listing, h.name = name ∧ h.loaded = flag) ↔
      name ∈ st.dir.disks.keys ∧ flag = decide (name ∈ st.dir.loaded.keys) := by
  constructor
  · rintro ⟨h, hmem, rfl, rfl⟩
    cases mem_collectHealth.mp hmem with
    | inl hloaded =>
        obtain ⟨name, c, hc, rfl⟩ := hloaded
        have hin : name ∈ st.dir.loaded.keys := (st.dir.loaded.mem_keys_iff name).mpr ⟨c, hc⟩
        exact ⟨hsound.onDisk hin, (decide_eq_true hin).symm⟩
    | inr hfile =>
        obtain ⟨fileName, hin, hentry⟩ := hfile
        obtain ⟨name, hknown, rfl⟩ := eq_data_of_listEntry hsound hbare hin hentry
        obtain ⟨hout, rfl⟩ := (listEntry_data (hsound.valid name hknown)).mp hentry
        exact ⟨hknown, (decide_eq_false hout).symm⟩
  · rintro ⟨hknown, rfl⟩
    by_cases hin : name ∈ st.dir.loaded.keys
    · obtain ⟨c, hc⟩ := (st.dir.loaded.mem_keys_iff name).mp hin
      exact ⟨st.loadedHealth name c, mem_collectHealth.mpr (.inl ⟨name, c, hc, rfl⟩), rfl,
        (decide_eq_true hin).symm⟩
    · refine ⟨unloadedHealth name, mem_collectHealth.mpr (.inr ⟨CollFile.data.fileName name, ?_, ?_⟩),
        rfl, (decide_eq_false hin).symm⟩
      · exact DataDir.mem_fileNames.mpr ⟨name, .data, hknown, hsound.created name hknown, rfl⟩
      · exact (listEntry_data (hsound.valid name hknown)).mpr ⟨hin, rfl⟩

/-- For every directory that sessions have left, and every part of its collections that is loaded:
a server that is up reports the collections exactly if none of them has a sidecar that ends in
`.db`. -/
theorem readyz_reflects_iff (dataDir : String) (events : List DataDir.Event)
    (loaded : HashMap String Collection)
    (hloaded : loaded.keys ⊆ (DataDir.empty.run dataDir events).disks.keys)
    (hdir : st.dir = { DataDir.empty.run dataDir events with loaded })
    (hup : st.shuttingDown = false) {stats : Option Nat × Option Nat}
    (hstats : st.diskStats = .ok stats) (order : HashOrder String)
    (listing : HashOrder (List Char)) :
    ∃ r, st.readyz order listing = .ok r ∧ (st.Reflects r ↔ st.dir.NoSidecarDb) := by
  have hrun : (DataDir.empty.run dataDir events).Sound := DataDir.sound_empty.run events
  have hsound : st.dir.Sound := by
    rw [hdir]
    exact ⟨hrun.valid, hrun.created, hloaded⟩
  unfold readyz
  rw [hup, hstats]
  refine ⟨_, rfl, ?_⟩
  constructor
  · intro hreflects name f hf
    by_contra hfile
    obtain ⟨h, hmem, hunknown⟩ := listed_sidecar order listing hsound hf hfile
    exact hunknown ((hreflects.listed h.name h.loaded).mp ⟨h, hmem, rfl, rfl⟩).1
  · intro hbare
    refine ⟨nodup_names, listed_iff order listing hsound hbare, ?_, ?_⟩
    · simp only [List.all_eq_true, Bool.and_eq_true]
      constructor
      · intro hok name hknown
        have hlisted := (listed_iff order listing hsound hbare name
          (decide (name ∈ st.dir.loaded.keys))).mpr ⟨hknown, rfl⟩
        obtain ⟨h, hmem, -, hflag⟩ := hlisted
        exact of_decide_eq_true (hflag ▸ (hok h hmem).2)
      · intro hall h hmem
        have hflag : h.loaded = true := by
          obtain ⟨hknown, hflag⟩ := (listed_iff order listing hsound hbare
            h.name h.loaded).mp ⟨h, hmem, rfl, rfl⟩
          rw [hflag]
          exact decide_eq_true (hall h.name hknown)
        exact ⟨(integrityOk_eq hmem).trans hflag, hflag⟩
    · intro name
      rw [commandLine_iff hsound, List.mem_map]
      constructor
      · rintro ⟨h, hmem, rfl⟩
        exact ((listed_iff order listing hsound hbare h.name h.loaded).mp ⟨h, hmem, rfl, rfl⟩).1
      · intro hknown
        obtain ⟨h, hmem, hname, -⟩ := (listed_iff order listing hsound hbare
          name (decide (name ∈ st.dir.loaded.keys))).mpr ⟨hknown, rfl⟩
        exact ⟨h, hmem, hname⟩

end

/-! A server over what some events have left. -/

section

@[reducible] def asciiOnly : UnicodeTables := ⟨fun _ => false⟩

attribute [local instance] Reference.flat asciiOnly

def openNamed (name : String) (walEnabled : Bool) : DataDir.Event :=
  .open name { Reference.flatConfig with wal := { Reference.flatConfig.wal with enabled := walEnabled } }

def server (events : List DataDir.Event) : ReadyzState where
  dir := DataDir.empty.run "./data" events
  dataDir := "./data"
  shuttingDown := false
  version := "0.2.0"
  now := some 0
  diskStats := .ok (none, none)

def byName : HashOrder String := .sortedBy id Function.injective_id

def byFileName : HashOrder (List Char) := .sortedBy String.ofList fun _ _ h => String.ofList_injective h

/-- Two collections without a log, and a second process that loads one of them and writes to it. -/
def docsAndNotes : List DataDir.Event :=
  [openNamed "docs" false, openNamed "notes" false, .restart, openNamed "docs" false,
    .call "docs" (.insert (Reference.doc 0 1))]

/-- Without a log there are the data files alone, and the one that is not loaded is reported too. -/
theorem data_file_reported :
    ∃ r, (server docsAndNotes).readyz byName byFileName = .ok r ∧ (server docsAndNotes).Reflects r ∧
      r.ok = false ∧ r.collections.map (fun h => (h.name, h.loaded, h.count)) =
        [("docs", true, some 1), ("notes", false, none)] := by
  have hbare : (server docsAndNotes).dir.NoSidecarDb := by
    intro name f hf
    by_cases hname : name ∈ (server docsAndNotes).dir.disks.keys
    · have hkeys : (server docsAndNotes).dir.disks.keys = {"docs", "notes"} := by decide +kernel
      rw [hkeys, Finset.mem_insert, Finset.mem_singleton] at hname
      revert hf
      rcases hname with rfl | rfl
      · cases f <;> decide +kernel
      · cases f <;> decide +kernel
    · rw [DataDir.disk_eq_empty hname]
      rfl
  have hreport : ((server docsAndNotes).readyz byName byFileName).toOption.map
      (fun r => (r.ok, r.collections.map fun h => (h.name, h.loaded, h.count))) =
        some (false, [("docs", true, some 1), ("notes", false, none)]) := by decide +kernel
  obtain ⟨r, hr, hreflects⟩ : ∃ r, (server docsAndNotes).readyz byName byFileName = .ok r ∧
      ((server docsAndNotes).Reflects r ↔ (server docsAndNotes).dir.NoSidecarDb) :=
    readyz_reflects_iff "./data" docsAndNotes (server docsAndNotes).dir.loaded (by decide +kernel)
      rfl rfl rfl byName byFileName
  simp only [hr, Except.toOption, Option.map_some, Option.some.injEq, Prod.mk.injEq] at hreport
  exact ⟨r, hr, hreflects.mpr hbare, hreport.1, hreport.2⟩

/-- One collection, with or without a log, which is loaded. -/
def docs (walEnabled : Bool) : ReadyzState := server [openNamed "docs" walEnabled]

/-- The log is listed as a second collection, which is not loaded, so the server is never ready. -/
theorem log_reported_as_collection :
    (docs true).dir.disks.keys = (docs true).dir.loaded.keys ∧
      ∃ r, (docs true).readyz byName byFileName = .ok r ∧ r.ok = false ∧
        r.collections.map CollectionHealth.name = ["docs", "docs.db.wal"] ∧
        ¬(docs true).Reflects r := by
  have hloaded : (docs true).dir.disks.keys = (docs true).dir.loaded.keys := by decide +kernel
  have hreport : ((docs true).readyz byName byFileName).toOption.map
      (fun r => (r.ok, r.collections.map CollectionHealth.name)) =
      some (false, ["docs", "docs.db.wal"]) := by decide +kernel
  refine ⟨hloaded, ?_⟩
  cases hr : (docs true).readyz byName byFileName with
  | error e => simp [hr, Except.toOption] at hreport
  | ok r =>
      simp only [hr, Except.toOption, Option.map_some, Option.some.injEq, Prod.mk.injEq] at hreport
      refine ⟨r, rfl, hreport.1, hreport.2, fun hreflects => ?_⟩
      have hready := hreflects.ready.mpr fun name hname => hloaded ▸ hname
      rw [hreport.1] at hready
      cases hready

end

end ReadyzState
