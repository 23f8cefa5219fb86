-- SUMMARY: Collection names: which of them the services let through, and the files they stand for.
import Piramid.Base.Paths
import Piramid.Error
import Piramid.Storage.Disk

/-!
# Collection names

The path of every file of a collection is its name with text around it. Whether a
name was checked before that depends on the service it came in through.
-/

open Paths

/-- What is not fixed here: which characters above ASCII are alphanumeric. -/
class UnicodeTables where
  isAlphanumeric : Char → Bool

/-- `char::is_alphanumeric`. -/
def Char.isAlphanumeric [UnicodeTables] (c : Char) : Bool :=
  if c.toNat < 128 then c.isAlphanum else UnicodeTables.isAlphanumeric c

/-- `validate_collection_name`. -/
def validateCollectionName [UnicodeTables] (name : String) : Except Fault Unit :=
  if name = "" then .error (.invalidRequest "Collection name cannot be empty")
  else if name.utf8ByteSize > 255 then
    .error (.invalidRequest "Collection name too long (max 255 chars)")
  else if !name.toList.all fun c => c.isAlphanumeric || c == '_' || c == '-' then
    .error (.invalidRequest
      "Collection name can only contain alphanumeric characters, underscores, and hyphens")
  else .ok ()

/-! ## Services -/

/-- The services that take the name of a collection and open it, or create it. -/
inductive EntryPoint where
  | createCollection | getCollection | collectionCount | indexStats | rebuildIndex
  | findDuplicates | compactCollection
  | insertVector | getVector | listVectors | deleteVector | deleteVectors | searchVectors
  | upsertVector | rangeSearchVectors
  | embedText | searchByText
deriving DecidableEq

namespace EntryPoint

/-- The service calls `validate_collection_name` before anything else sees the name. -/
def validates : EntryPoint → Bool
  | createCollection | insertVector | deleteVectors | searchVectors | upsertVector
  | rangeSearchVectors => true
  | getCollection | collectionCount | indexStats | rebuildIndex | findDuplicates
  | compactCollection | getVector | listVectors | deleteVector | embedText | searchByText => false

/-- The service hands the name on to the collection manager. -/
def Accepts [UnicodeTables] (e : EntryPoint) (name : String) : Prop :=
  e.validates = true → validateCollectionName name = .ok ()

end EntryPoint

/-! ## Paths -/

/-- `collection_path`. -/
def collectionPath (dataDir name : String) : String := dataDir ++ "/" ++ name ++ ".db"

/-- What is appended to the path of a collection. -/
def CollFile.suffix : CollFile → String
  | .data => ""
  | .index => ".index.db"
  | .vecindex => ".vecindex.db"
  | .metadata => ".metadata.db"
  | .wal => ".wal.db"
  | .walMeta => ".wal.meta"
  | .walMetaTmp => ".wal.tmp"
  | .compactTmp => ".compact"

def CollFile.path (f : CollFile) (dataDir name : String) : String :=
  collectionPath dataDir name ++ f.suffix

/-- Every file of the collection lies right in the data directory. -/
def Contained (dataDir name : String) : Prop :=
  ∀ f : CollFile, DirectChild dataDir.toList (f.path dataDir name).toList

/-- No file of one collection is a file of the other. -/
def Separate (dataDir name name' : String) : Prop :=
  ∀ f f' : CollFile, resolve (f.path dataDir name).toList ≠ resolve (f'.path dataDir name').toList

/-! ## Names that were checked -/

section

variable [UnicodeTables]

theorem Char.not_alphanumeric_separators : '/'.isAlphanumeric = false ∧ '.'.isAlphanumeric = false :=
  ⟨rfl, rfl⟩

/-- A name that passes the check has no slash and no dot, and is not empty. -/
theorem plain_of_valid {name : String} (h : validateCollectionName name = .ok ()) :
    '/' ∉ name.toList ∧ '.' ∉ name.toList ∧ name.toList ≠ [] := by
  unfold validateCollectionName at h
  split at h
  · cases h
  · rename_i hne
    split at h
    · cases h
    · split at h
      · cases h
      · rename_i hall
        simp only [Bool.not_eq_true', Bool.not_eq_false, List.all_eq_true] at hall
        refine ⟨fun hmem => ?_, fun hmem => ?_, fun hnil => hne ?_⟩
        · have := hall _ hmem
          rw [Char.not_alphanumeric_separators.1] at this
          revert this
          decide
        · have := hall _ hmem
          rw [Char.not_alphanumeric_separators.2] at this
          revert this
          decide
        · exact String.toList_inj.mp hnil

end

/-- The name of a file of a collection, behind the data directory. -/
def CollFile.fileName (f : CollFile) (name : String) : List Char :=
  name.toList ++ '.' :: ("db" ++ f.suffix).toList

theorem CollFile.path_toList (f : CollFile) (dataDir name : String) :
    (f.path dataDir name).toList = dataDir.toList ++ '/' :: f.fileName name := by
  simp [CollFile.path, collectionPath, CollFile.fileName]

theorem CollFile.fileName_plain (f : CollFile) {name : String} (hslash : '/' ∉ name.toList) :
    Plain (f.fileName name) := by
  have hsuffix : '/' ∉ ("db" ++ f.suffix).toList := by cases f <;> decide
  have hlen : 3 ≤ (f.fileName name).length := by
    simp [CollFile.fileName]
    omega
  refine ⟨?_, ?_, ?_, ?_⟩
  · simp only [CollFile.fileName, List.mem_append, List.mem_cons, not_or]
    exact ⟨hslash, by decide, hsuffix⟩
  · rintro h
    simp [h] at hlen
  · rintro h
    simp [h, dot] at hlen
  · rintro h
    simp [h, dotdot] at hlen

/-- The name of a collection is what comes before the first dot. -/
theorem CollFile.fileName_inj {f f' : CollFile} {name name' : String} (hdot : '.' ∉ name.toList)
    (hdot' : '.' ∉ name'.toList) (h : f.fileName name = f'.fileName name') : name = name' := by
  have key : ∀ (f : CollFile) (name : String), '.' ∉ name.toList →
      (f.fileName name).takeWhile (· ≠ '.') = name.toList := by
    intro f name hdot
    rw [CollFile.fileName, List.takeWhile_append_of_pos fun c hc => by
      simpa using ne_of_mem_of_not_mem hc hdot]
    simp
  have heq := congrArg (List.takeWhile (· ≠ '.')) h
  rw [key f name hdot, key f' name' hdot'] at heq
  exact String.toList_inj.mp heq

section

variable [UnicodeTables]

theorem contained_of_valid {name : String} (h : validateCollectionName name = .ok ())
    (dataDir : String) : Contained dataDir name := by
  intro f
  rw [CollFile.path_toList]
  exact directChild_append (f.fileName_plain (plain_of_valid h).1) _

theorem separate_of_valid {name name' : String} (h : validateCollectionName name = .ok ())
    (h' : validateCollectionName name' = .ok ()) (hne : name ≠ name') (dataDir : String) :
    Separate dataDir name name' := by
  intro f f' heq
  obtain ⟨hslash, hdot, -⟩ := plain_of_valid h
  obtain ⟨hslash', hdot', -⟩ := plain_of_valid h'
  rw [CollFile.path_toList, CollFile.path_toList, resolve_append (f.fileName_plain hslash),
    resolve_append (f'.fileName_plain hslash')] at heq
  exact hne (CollFile.fileName_inj hdot hdot' (List.cons.inj heq).1)

omit [UnicodeTables] in
/-- A name with a slash in it may lead anywhere, and nobody looks. -/
theorem not_contained_of_slash (dataDir : String) : ¬Contained dataDir "a/b" := by
  intro h
  have hdata := h .data
  rw [CollFile.path_toList] at hdata
  have hsub : Plain ['a'] := by constructor <;> decide
  have hpart : Plain ['b', '.', 'd', 'b'] := by constructor <;> decide
  exact not_directChild_append hsub hpart dataDir.toList hdata

/-- For every data directory and every two services: the files of all names they let
through lie right in the data directory, and those of two different names are
different files, exactly if both services check the name. Whatever the service, a
name that passes the check is safe with every other one that does. -/
theorem collections_isolated_iff (dataDir : String) (e e' : EntryPoint) :
    ((∀ name name', e.Accepts name → e'.Accepts name' →
      Contained dataDir name ∧ Contained dataDir name' ∧
        (name ≠ name' → Separate dataDir name name')) ↔
      e.validates = true ∧ e'.validates = true) ∧
    ∀ name name', validateCollectionName name = .ok () → validateCollectionName name' = .ok () →
      Contained dataDir name ∧ (name ≠ name' → Separate dataDir name name') := by
  refine ⟨⟨fun h => ?_, fun h name name' hname hname' => ?_⟩, fun name name' hname hname' =>
    ⟨contained_of_valid hname _, fun hne => separate_of_valid hname hname' hne _⟩⟩
  · have hvalid : ∀ e : EntryPoint, e.Accepts "a" := fun _ _ => rfl
    constructor
    · by_contra hnot
      exact not_contained_of_slash dataDir
        (h "a/b" "a" (fun hval => absurd hval hnot) (hvalid e')).1
    · by_contra hnot
      exact not_contained_of_slash dataDir
        (h "a" "a/b" (hvalid e) fun hval => absurd hval hnot).2.1
  · exact ⟨contained_of_valid (hname h.1) _, contained_of_valid (hname' h.2) _,
      fun hne => separate_of_valid (hname h.1) (hname' h.2) hne _⟩

end

/-- Text is embedded into a collection outside of the data directory, and into one
whose data file is the log of another collection. -/
theorem embed_text_takes_any_name :
    let tables : UnicodeTables := ⟨fun _ => false⟩
    (@EntryPoint.Accepts tables .embedText "../x" ∧ ¬Contained "./data" "../x") ∧
      (@EntryPoint.Accepts tables .embedText "a" ∧ @EntryPoint.Accepts tables .embedText "a.db.wal" ∧
        ¬Separate "./data" "a" "a.db.wal") := by
  intro tables
  have haccepts : ∀ name, EntryPoint.embedText.Accepts name := fun name h => by cases h
  refine ⟨⟨haccepts _, fun h => ?_⟩, haccepts _, haccepts _, fun h => ?_⟩
  · obtain ⟨part, hpart⟩ := h .data
    have hlen := congrArg List.length hpart
    rw [List.length_cons] at hlen
    revert hlen
    decide
  · exact h .wal .data (by decide)
