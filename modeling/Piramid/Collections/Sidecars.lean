-- SUMMARY: A process that stops while a sidecar file is written: when the file is still whole.
import Piramid.Reference.Sample

/-!
# Interrupted writes

`fs::write` empties the file and then writes the bytes in order. The three
sidecars are replaced that way, in place; `wal.meta` is written beside and renamed.
-/

open Prog

/-- The sidecar files. -/
inductive Sidecar where
  | index | vecindex | metadata

namespace Sidecar

def file : Sidecar → CollFile
  | .index => .index
  | .vecindex => .vecindex
  | .metadata => .metadata

variable [Env]

/-- `load_index`, `load_vector_index` or `load_metadata`, for whether it fails. -/
def load (sidecar : Sidecar) (path : String) : Io Unit Unit :=
  match sidecar with
  | .index => do
    let _ ← loadIndex path
    pure ()
  | .vecindex => do
    let _ ← loadVectorIndex
    pure ()
  | .metadata => do
    let _ ← loadMetadata
    pure ()

/-- The sidecar can be loaded. -/
def Loads (sidecar : Sidecar) (path : String) (d : Disk) : Prop :=
  (sidecar.load path () d).result = .ok ()

/-- Bytes that the sidecar's decoder refuses. -/
def Refuses (sidecar : Sidecar) (bytes : Bytes) : Prop :=
  match sidecar with
  | .index => Env.offsetIndex.Rejects bytes
  | .vecindex => Env.vectorIndex.Rejects bytes
  | .metadata => Env.collectionMetadata.Rejects bytes

theorem Refuses.not_loads {sidecar : Sidecar} {bytes : Bytes} (h : sidecar.Refuses bytes)
    {d : Disk} (hd : d sidecar.file = some bytes) (path : String) : ¬sidecar.Loads path d := by
  intro hload
  cases sidecar with
  | index =>
      cases hdec : Env.offsetIndex.decode bytes with
      | ok v => exact h v hdec
      | error e =>
          simp only [Sidecar.file] at hd
          have hspec : wp (load .index path) (fun _ => True) (fun _ _ _ => False)
              (fun _ _ _ => True) () d := by simp [load, loadIndex, hd, hdec, fail]
          exact wp_ok hspec hload
  | vecindex =>
      cases hdec : Env.vectorIndex.decode bytes with
      | ok v => exact h v hdec
      | error e =>
          simp only [Sidecar.file] at hd
          have hspec : wp (load .vecindex path) (fun _ => True) (fun _ _ _ => False)
              (fun _ _ _ => True) () d := by simp [load, loadVectorIndex, hd, hdec, fail]
          exact wp_ok hspec hload
  | metadata =>
      cases hdec : Env.collectionMetadata.decode bytes with
      | ok v => exact h v hdec
      | error e =>
          simp only [Sidecar.file] at hd
          have hspec : wp (load .metadata path) (fun _ => True) (fun _ _ _ => False)
              (fun _ _ _ => True) () d := by simp [load, loadMetadata, hd, hdec, fail]
          exact wp_ok hspec hload

end Sidecar

/-- The operations that write sidecars. -/
inductive SidecarWriter where
  | checkpoint | rebuildIndex | compact

def SidecarWriter.run [Env] : SidecarWriter → CollM Unit
  | .checkpoint => Collection.checkpointNow
  | .rebuildIndex => Collection.rebuildIndex
  | .compact => do
    let _ ← Collection.compact
    pure ()

/-- How far an interrupted `fs::write` got. -/
inductive WriteStop where
  | before
  /-- The file was emptied and this many bytes were written, or all if there are fewer. -/
  | written (n : Nat)

/-- What the file then holds. -/
def WriteStop.contents (stop : WriteStop) (previous : Option Bytes) (bytes : Bytes) :
    Option Bytes :=
  match stop with
  | .before => previous
  | .written n => some (bytes.take n)

section

variable [Env]

theorem SidecarWriter.blocks (w : SidecarWriter) : Blocks w.run := by
  cases w with
  | checkpoint => exact Collection.blocks_checkpointNow
  | rebuildIndex => exact Collection.blocks_rebuildIndex
  | compact => exact .bind Collection.blocks_compact fun _ => .pure _

/-- Every effect is part of a block. -/
theorem block_of_mem {σ α : Type} {p : Io σ α} (hp : Blocks p) {s : σ} {d : Disk} {e : Effect}
    (he : e ∈ (p s d).effects) : ∃ b, Block b ∧ e ∈ b := by
  obtain ⟨bs, heq, hbs⟩ := hp s d
  rw [heq] at he
  obtain ⟨b, hb, hmem⟩ := List.mem_flatten.mp he
  exact ⟨b, hbs b hb, hmem⟩

/-- What is written to a sidecar is refused if it ends early. -/
theorem refuses_torn [StrictBincode] {σ α : Type} {p : Io σ α} (hp : Blocks p) {s : σ} {d : Disk}
    {sidecar : Sidecar} {bytes : Bytes} (he : .write sidecar.file bytes ∈ (p s d).effects)
    {torn : Bytes} (htorn : torn <+: bytes) (hne : torn ≠ bytes) : sidecar.Refuses torn := by
  obtain ⟨b, hb, hmem⟩ := block_of_mem hp he
  cases hb with
  | index v =>
      simp only [List.mem_singleton, Effect.write.injEq] at hmem
      obtain ⟨hfile, rfl⟩ := hmem
      cases sidecar <;> simp [Sidecar.file] at hfile
      exact StrictBincode.offsetIndex v torn htorn hne
  | vecindex v =>
      simp only [List.mem_singleton, Effect.write.injEq] at hmem
      obtain ⟨hfile, rfl⟩ := hmem
      cases sidecar <;> simp [Sidecar.file] at hfile
      exact StrictBincode.vectorIndex v torn htorn hne
  | metadata v =>
      simp only [List.mem_singleton, Effect.write.injEq] at hmem
      obtain ⟨hfile, rfl⟩ := hmem
      cases sidecar <;> simp [Sidecar.file] at hfile
      exact StrictBincode.collectionMetadata v torn htorn hne
  | walMeta seq => cases sidecar <;> simp [Sidecar.file] at hmem
  | create | setLen | store | createWal | log | rotate | removeTmp | syncStore | replace =>
      simp at hmem

/-- For every operation that writes sidecars, whatever the file held before, and every
point at which the process stops while it writes one: the file holds all of the
previous or all of the new contents exactly if it was not emptied yet, all bytes
were written, or those written so far are by chance what it held before. Chance
plays no part if the file could be loaded before. At every other point it cannot
be loaded. -/
theorem interrupted_write_whole_iff [StrictBincode] (w : SidecarWriter) (s : Session) (d : Disk)
    (sidecar : Sidecar) (path : String) (k : Nat) (bytes : Bytes)
    (hwrite : (w.run s d).effects[k]? = some (.write sidecar.file bytes)) (stop : WriteStop) :
    let previous := w.run.crash k s d sidecar.file
    let stopped := (w.run.crash k s d).put sidecar.file (stop.contents previous bytes)
    let whole := stopped sidecar.file = previous ∨ stopped sidecar.file = some bytes
    (whole ↔ stop = .before ∨
      ∃ n, stop = .written n ∧ (bytes.length ≤ n ∨ previous = some (bytes.take n))) ∧
    (sidecar.Loads path (w.run.crash k s d) →
      (whole ↔ stop = .before ∨ ∃ n, stop = .written n ∧ bytes.length ≤ n)) ∧
    (¬whole → ¬sidecar.Loads path stopped) := by
  intro previous stopped whole
  have hstopped : stopped sidecar.file = stop.contents previous bytes := Disk.put_self _ _ _
  cases stop with
  | before =>
      have hwhole : whole := .inl hstopped
      exact ⟨iff_of_true hwhole (.inl rfl), fun _ => iff_of_true hwhole (.inl rfl), absurd hwhole⟩
  | written n =>
      by_cases hn : bytes.length ≤ n
      · have hwhole : whole := .inr (by
          rw [hstopped, WriteStop.contents, List.take_of_length_le hn])
        exact ⟨iff_of_true hwhole (.inr ⟨n, rfl, .inl hn⟩),
          fun _ => iff_of_true hwhole (.inr ⟨n, rfl, hn⟩), absurd hwhole⟩
      · have hne : bytes.take n ≠ bytes := fun h => by
          have := congrArg List.length h
          simp only [List.length_take] at this
          omega
        have hrefuses : sidecar.Refuses (bytes.take n) :=
          refuses_torn w.blocks (List.mem_of_getElem? hwrite) (List.take_prefix n bytes) hne
        have hwhole : whole ↔ previous = some (bytes.take n) := by
          refine ⟨fun h => ?_, fun h => .inl (hstopped.trans h.symm)⟩
          rcases h with h | h
          · exact h.symm.trans hstopped
          · exact absurd (Option.some.inj (hstopped.symm.trans h)) hne
        refine ⟨hwhole.trans ⟨fun h => .inr ⟨n, rfl, .inr h⟩, ?_⟩, fun hload => ?_,
          fun _ => hrefuses.not_loads hstopped path⟩
        · rintro (h | ⟨n', h, hn' | hprev⟩)
          · cases h
          · cases h
            exact absurd hn' hn
          · cases h
            exact hprev
        · refine iff_of_false (fun h => hrefuses.not_loads (hwhole.mp h) path hload) ?_
          rintro (h | ⟨n', h, hn'⟩)
          · cases h
          · cases h
            exact hn hn'

/-- `wal.meta` is never written in place: an effect that changes it is the rename
of a file that was written beside it. -/
theorem walMeta_replaced_by_rename {σ α : Type} {p : Io σ α} (hp : Blocks p) {s : σ}
    {d : Disk} {e : Effect} (he : e ∈ (p s d).effects) (htouch : e.Touches .walMeta) :
    e = .rename .walMetaTmp .walMeta := by
  obtain ⟨b, hb, hmem⟩ := block_of_mem hp he
  cases hb with
  | walMeta seq =>
      simp only [List.mem_cons, List.not_mem_nil, or_false] at hmem
      rcases hmem with rfl | rfl | rfl
      · simp [Effect.Touches] at htouch
      · rfl
      · simp [Effect.Touches] at htouch
  | rotate =>
      simp only [List.mem_cons, List.not_mem_nil, or_false] at hmem
      rcases hmem with rfl | rfl <;> simp [Effect.Touches] at htouch
  | create f | setLen f | store f | syncStore f =>
      obtain rfl := List.mem_singleton.mp hmem
      cases f <;> simp [Effect.Touches, StoreFile.file] at htouch
  | index | vecindex | metadata | createWal | log | removeTmp | replace =>
      obtain rfl := List.mem_singleton.mp hmem
      simp [Effect.Touches] at htouch

end

/-! ## A checkpoint that is interrupted -/

section

attribute [local instance] Reference.flat

/-- A collection with one document that was never checkpointed. -/
def uncheckpointed : Machine :=
  Reference.after Reference.flatConfig [.open, .call (.insert (Reference.doc 1 1))]

def uncheckpointedSession : Session :=
  ⟨uncheckpointed.coll.get (by decide +kernel), uncheckpointed.draws⟩

/-- The offset index that a checkpoint of it writes. -/
def firstIndex : Bytes := Env.offsetIndex.encode uncheckpointedSession.coll.index

/-- A checkpoint that stops once the offset index is written leaves it whole. -/
theorem stopped_behind_index_whole :
    let d := SidecarWriter.checkpoint.run.crash 0 uncheckpointedSession uncheckpointed.disk
    d.put .index (some (firstIndex.take firstIndex.length)) .index = d .index ∨
      d.put .index (some (firstIndex.take firstIndex.length)) .index = some firstIndex :=
  (interrupted_write_whole_iff .checkpoint uncheckpointedSession uncheckpointed.disk .index "c" 0
    firstIndex rfl (.written firstIndex.length)).1.mpr (.inr ⟨_, rfl, .inl le_rfl⟩)

/-- One that stops after the first byte of it leaves a collection that cannot be opened. -/
theorem stopped_inside_index_torn :
    let d := SidecarWriter.checkpoint.run.crash 0 uncheckpointedSession uncheckpointed.disk
    let stopped := d.put .index (some (firstIndex.take 1))
    (SidecarWriter.checkpoint.run uncheckpointedSession uncheckpointed.disk).effects[0]? =
        some (.write .index firstIndex) ∧
      d .index = none ∧ stopped .index ≠ d .index ∧ stopped .index ≠ some firstIndex ∧
      (CollectionBuilder.openCollection "c" Reference.flatConfig 0 stopped).result.isOk = false :=
  ⟨rfl, by decide +kernel⟩

end
