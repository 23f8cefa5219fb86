-- SUMMARY: Whole runs of the record store: live records lie apart, and no write reaches into one.
import Piramid.Collections.Memory
import Piramid.Reference.Sample

/-!
# Separation

While a store is open its cursor only moves up. Opening puts the cursor behind the
last record that is still live, which may be back over dead bytes. So every write
lies behind all records that are live when it is made.
-/

open Device Prog

/-! ## Writes that go up -/

/-- An effect on `f` that only grows it, or a write inside it that begins at `k` or above. -/
def Effect.Above (f : CollFile) (k : Nat) (d : Disk) : Effect → Prop
  | .create f' => f' = f
  | .setLen f' size => f' = f ∧ (d.read f).length ≤ size
  | .store f' offset bytes => f' = f ∧ k ≤ offset ∧ offset + bytes.length ≤ (d.read f).length
  | _ => False

/-- Where the next write may begin. -/
def Effect.next (k : Nat) : Effect → Nat
  | .store _ offset bytes => offset + bytes.length
  | _ => k

/-- The writes on `f` begin at `k` or above, each behind the one before, and lie inside `f` as
it is when they are made. -/
def Upwards (f : CollFile) : Nat → List Effect → Disk → Prop
  | _, [], _ => True
  | k, e :: es, d => e.Above f k d ∧ Upwards f (e.next k) es (apply e d)

namespace RecordStore

variable {σ : Type} {f : StoreFile} {store : RecordStore} {s : σ} {d : Disk}

/-- A run that succeeds, and what comes after it. -/
theorem bind_run {α β : Type} {p : Io σ α} {q : α → Io σ β} {a : α} {s' : σ} {es : List Effect}
    (hp : p s d = ⟨.ok a, s', es⟩) :
    (p >>= q) s d = ⟨(q a s' (applyAll es d)).result, (q a s' (applyAll es d)).state,
      es ++ (q a s' (applyAll es d)).effects⟩ := by
  change Prog.bind p q s d = _
  unfold Prog.bind
  rw [hp]

@[simp] theorem pure_run {α : Type} (a : α) : (pure a : Io σ α) s d = ⟨.ok a, s, []⟩ := rfl

@[simp] theorem modify_run (g : σ → σ) :
    (Prog.modify g : Io σ Unit) s d = ⟨.ok (), g s, []⟩ :=
  rfl

theorem fileLen_run (f : CollFile) (s : σ) (d : Disk) :
    fileLen f s d = ⟨.ok (d.read f).length, s, []⟩ :=
  rfl

/-- Growing has no write among its effects, and leaves room up to `requiredSize`. -/
theorem growMmapIfNeeded_run (h : store.OpenOn f d) (requiredSize : Nat) :
    ∃ mmap es, store.growMmapIfNeeded requiredSize s d = ⟨.ok { store with mmap }, s, es⟩ ∧
      OpenOn { store with mmap } f (applyAll es d) ∧
      requiredSize ≤ ((applyAll es d).read f).length ∧
      ∀ k es', Upwards f k es' (applyAll es d) → Upwards f k (es ++ es') d := by
  obtain rfl := h.dataFile
  by_cases hgrow : requiredSize > store.mmap.getD (d.read store.dataFile).length
  · refine ⟨store.mmap.map fun _ => requiredSize * 2, [.setLen store.dataFile (requiredSize * 2)],
      ?_, ⟨rfl, ?_⟩, ?_, ?_⟩
    · refine (bind_run (fileLen_run _ s d)).trans ?_
      simp only [applyAll_nil]
      rw [if_pos hgrow]
      rfl
    · intro len hlen
      obtain ⟨_, _, rfl⟩ := Option.map_eq_some_iff.mp hlen
      simp
    · simp only [applyAll_cons, applyAll_nil, Effect.apply_setLen, Disk.read_put_self,
        Option.getD_some, Extent.length_resize]
      omega
    · intro k es' hup
      refine ⟨⟨rfl, ?_⟩, hup⟩
      cases hmmap : store.mmap with
      | none =>
          rw [hmmap, Option.getD_none] at hgrow
          omega
      | some len =>
          rw [hmmap, Option.getD_some, h.mmap len hmmap] at hgrow
          omega
  · refine ⟨store.mmap, [], ?_, h, ?_, fun _ _ hup => hup⟩
    · refine (bind_run (fileLen_run _ s d)).trans ?_
      simp only [applyAll_nil]
      rw [if_neg hgrow]
      rfl
    · cases hmmap : store.mmap with
      | none =>
          rw [hmmap, Option.getD_none] at hgrow
          simpa using hgrow
      | some len =>
          rw [hmmap, Option.getD_some, h.mmap len hmmap] at hgrow
          simpa using hgrow

theorem writeAt_run {offset : Nat} {bytes : Bytes}
    (hfits : ∀ len, store.mmap = some len → offset + bytes.length ≤ len) :
    store.writeAt offset bytes s d = ⟨.ok (), s, [.store store.dataFile offset bytes]⟩ := by
  unfold writeAt
  cases hmmap : store.mmap with
  | none => rfl
  | some len =>
      simp only [if_pos (hfits len hmmap)]
      rfl

end RecordStore

/-! ## Records where they were appended -/

/-- What was appended, and the pointer that was handed out for it. -/
structure Placed where
  pointer : EntryPointer
  bytes : Bytes

/-- Records one behind the other from `k` on. -/
def placeFrom : Nat → List Bytes → List Placed
  | _, [] => []
  | k, bytes :: rest => ⟨.new k bytes.length, bytes⟩ :: placeFrom (k + bytes.length) rest

theorem placeFrom_bytes (k : Nat) (records : List Bytes) :
    (placeFrom k records).map Placed.bytes = records := by
  induction records generalizing k with
  | nil => rfl
  | cons bytes rest ih => exact congrArg (bytes :: ·) (ih _)

theorem zipWith_placeFrom (k : Nat) (records : List Bytes) :
    List.zipWith Placed.mk ((placeFrom k records).map Placed.pointer) records =
      placeFrom k records := by
  induction records generalizing k with
  | nil => rfl
  | cons bytes rest ih => exact congrArg (_ :: ·) (ih _)

/-- What holds of each record and its pointer. -/
theorem placeFrom_forall {P : Bytes → EntryPointer → Prop} {k : Nat} {records : List Bytes}
    (h : List.Forall₂ P records ((placeFrom k records).map Placed.pointer)) {r : Placed}
    (hr : r ∈ placeFrom k records) : P r.bytes r.pointer := by
  induction records generalizing k with
  | nil => cases hr
  | cons bytes rest ih =>
      obtain ⟨hhead, hrest⟩ := List.forall₂_cons.mp h
      cases List.mem_cons.mp hr with
      | inl heq =>
          rw [heq]
          exact hhead
      | inr hmem => exact ih hrest hmem

/-- They lie from `k` on and end where the next record goes. -/
theorem placeFrom_between {k : Nat} {records : List Bytes} {r : Placed}
    (h : r ∈ placeFrom k records) :
    k ≤ r.pointer.offset ∧ r.pointer.stop ≤ k + (records.map List.length).sum := by
  induction records generalizing k with
  | nil => cases h
  | cons bytes rest ih =>
      rw [List.map_cons, List.sum_cons]
      cases List.mem_cons.mp h with
      | inl heq =>
          have hle : bytes.length % 2 ^ 32 ≤ bytes.length := Nat.mod_le _ _
          rw [heq]
          simp only [EntryPointer.new, EntryPointer.stop]
          omega
      | inr hmem =>
          have hrest := ih hmem
          omega

theorem placeFrom_apart (k : Nat) (records : List Bytes) :
    (placeFrom k records).Pairwise fun a b => a.pointer.stop ≤ b.pointer.offset := by
  induction records generalizing k with
  | nil => exact .nil
  | cons bytes rest ih =>
      refine .cons (fun r hr => ?_) (ih _)
      have hle : bytes.length % 2 ^ 32 ≤ bytes.length := Nat.mod_le _ _
      exact (Nat.add_le_add_left hle k).trans (placeFrom_between hr).1

namespace RecordStore

variable {σ : Type} {f : StoreFile} {store : RecordStore} {s : σ} {d : Disk}

/-- The loop of a batch, where there is room for the whole batch. -/
theorem appendEach_run {entries : List (Uuid × Bytes)} (h : store.OpenOn f d)
    (hroom : store.appendCursor + (entries.map fun entry => entry.2.length).sum ≤
      (d.read f).length) :
    ∃ store' es, store.appendEach entries s d =
        ⟨.ok ((placeFrom store.appendCursor (entries.map Prod.snd)).map Placed.pointer, store'),
          s, es⟩ ∧
      Upwards f store.appendCursor es d := by
  induction entries generalizing store d with
  | nil => exact ⟨store, [], rfl, trivial⟩
  | cons entry entries ih =>
      obtain ⟨key, bytes⟩ := entry
      simp only [List.map_cons, List.sum_cons] at hroom
      obtain rfl := h.dataFile
      have hfits : ∀ len, store.mmap = some len → store.appendCursor + bytes.length ≤ len := by
        intro len hlen
        rw [h.mmap len hlen]
        omega
      have hlen : ((apply (.store store.dataFile store.appendCursor bytes) d).read
          store.dataFile).length = (d.read store.dataFile).length := by
        rw [Effect.apply_store, Disk.read_put_self, Option.getD_some, Extent.length_overwrite]
        omega
      -- the record fits the file, so the memory map still spans it
      have hopen : OpenOn { store with appendCursor := store.appendCursor + bytes.length }
          store.dataFile (apply (.store store.dataFile store.appendCursor bytes) d) :=
        ⟨rfl, fun len hmap => (h.mmap len hmap).trans hlen.symm⟩
      obtain ⟨store', es, hrun, hup⟩ := ih hopen (by rw [hlen]; simp only; omega)
      refine ⟨store', .store store.dataFile store.appendCursor bytes :: es, ?_,
        ⟨rfl, le_rfl, by omega⟩, hup⟩
      refine (bind_run (writeAt_run hfits)).trans ?_
      simp only [applyAll_cons, applyAll_nil]
      rw [bind_run hrun]
      simp [placeFrom, pure_run]

/-- `append_batch` places the records behind the cursor, one behind the other. -/
theorem appendBatch_run (h : store.OpenOn f d) (entries : List (Uuid × Bytes)) :
    ∃ store' es, store.appendBatch entries s d =
        ⟨.ok ((placeFrom store.appendCursor (entries.map Prod.snd)).map Placed.pointer, store'),
          s, es⟩ ∧
      Upwards f store.appendCursor es d := by
  obtain ⟨mmap, es, hgrow, hopen, hroom, hup⟩ := growMmapIfNeeded_run (s := s) h
    (store.appendCursor + (entries.map fun entry => entry.2.length).sum)
  obtain ⟨store', es', hrun, hup'⟩ := appendEach_run (s := s) hopen hroom
  refine ⟨store', es ++ es', (bind_run hgrow).trans ?_, hup _ es' hup'⟩
  rw [hrun]

/-- `append` does what `append_batch` does with one record. -/
theorem append_run (h : store.OpenOn f d) (bytes : Bytes) :
    ∃ store' es, store.append bytes s d =
        ⟨.ok (.new store.appendCursor bytes.length, store'), s, es⟩ ∧
      Upwards f store.appendCursor es d := by
  obtain ⟨mmap, es, hgrow, hopen, hroom, hup⟩ := growMmapIfNeeded_run (s := s) h
    (store.appendCursor + bytes.length)
  obtain rfl := h.dataFile
  have hfits : ∀ len, mmap = some len → store.appendCursor + bytes.length ≤ len := by
    intro len hlen
    exact hroom.trans (hopen.mmap len hlen).ge
  refine ⟨⟨store.dataFile, mmap, store.appendCursor + bytes.length⟩, _,
    (bind_run hgrow).trans ?_,
    hup _ [.store store.dataFile store.appendCursor bytes] ⟨⟨rfl, le_rfl, hroom⟩, trivial⟩⟩
  rw [bind_run (writeAt_run hfits)]
  rfl

/-- Opening has no write among its effects. -/
theorem openFile_run (f : StoreFile) (config : CollectionConfig) (index : OffsetIndex) (s : σ)
    (d : Disk) : ∃ store es, openFile f config index s d = ⟨.ok store, s, es⟩ ∧
      ∀ k, Upwards f k es d := by
  have hcreate : (Prog.emit (.create f) : Io σ Unit) s d = ⟨.ok (), s, [.create f]⟩ := rfl
  have hensure : ∃ es, ensureFileSize f (initialSize config) s (apply (.create f) d) =
      ⟨.ok (), s, es⟩ ∧ ∀ k, Upwards f k es (apply (.create f) d) := by
    by_cases hsmall : ((apply (.create f) d).read f).length < initialSize config
    · refine ⟨[.setLen f (initialSize config)], (bind_run (fileLen_run _ _ _)).trans ?_,
        fun k => ⟨⟨rfl, hsmall.le⟩, trivial⟩⟩
      rw [Prog.when, applyAll_nil, if_pos hsmall]
      rfl
    · refine ⟨[], (bind_run (fileLen_run _ _ _)).trans ?_, fun k => trivial⟩
      rw [Prog.when, applyAll_nil, if_neg hsmall]
      rfl
  obtain ⟨es, hensure, hup⟩ := hensure
  refine ⟨⟨f, if config.memory.useMmap then
      some ((applyAll es (apply (.create f) d)).read f).length else none, nextAppendOffset index⟩,
    .create f :: es, (bind_run hcreate).trans ?_, fun k => ⟨rfl, hup k⟩⟩
  simp only [applyAll_cons, applyAll_nil]
  rw [bind_run hensure, bind_run (fileLen_run _ _ _)]
  simp

end RecordStore

/-! ## Runs -/

/-- An open record store, and the records that are live. -/
structure RecordShelf where
  store : RecordStore
  live : List Placed

namespace RecordShelf

/-- What a run does with the store. -/
inductive Op where
  | append (bytes : Bytes)
  | appendBatch (entries : List (Uuid × Bytes))
  /-- Close the store and open it again: what `index` does not point to is dead from then on. -/
  | reopen (config : CollectionConfig) (index : OffsetIndex)

/-- A memory map needs a file that is not empty. -/
def Opens (config : CollectionConfig) : Prop :=
  config.memory.useMmap → 0 < config.memory.initialMmapSize

/-- The index has a pointer to the record. -/
def Points (index : OffsetIndex) (r : Placed) : Prop :=
  ∃ id ∈ index.keys, index.lookup id = some r.pointer

instance (index : OffsetIndex) (r : Placed) : Decidable (Points index r) :=
  inferInstanceAs (Decidable (∃ id ∈ index.keys, index.lookup id = some r.pointer))

/-- Records are shorter than `2^32` bytes and lie below `2^63`. An index that a store is opened
with has pointers to live records only. -/
def Op.Allowed (shelf : RecordShelf) : Op → Prop
  | .append bytes => bytes.length < 2 ^ 32 ∧ shelf.store.appendCursor + bytes.length < 2 ^ 63
  | .appendBatch entries =>
    (∀ entry ∈ entries, entry.2.length < 2 ^ 32) ∧
      shelf.store.appendCursor + (entries.map fun entry => entry.2.length).sum < 2 ^ 63
  | .reopen config index =>
    Opens config ∧ ∀ id p, index.lookup id = some p → ∃ r ∈ shelf.live, r.pointer = p

def Op.run : Op → Io RecordShelf Unit
  | .append bytes => do
    let shelf ← asks id
    let (pointer, store) ← shelf.store.append bytes
    modify fun _ => ⟨store, shelf.live ++ [⟨pointer, bytes⟩]⟩
  | .appendBatch entries => do
    let shelf ← asks id
    let (pointers, store) ← shelf.store.appendBatch entries
    modify fun _ => ⟨store, shelf.live ++ List.zipWith Placed.mk pointers (entries.map Prod.snd)⟩
  | .reopen config index => do
    let store ← RecordStore.openFile .data config index
    modify fun shelf => ⟨store, shelf.live.filter fun r => Points index r⟩

/-- The records that stay live. -/
def Op.keeps (shelf : RecordShelf) : Op → List Placed
  | .append _ | .appendBatch _ => shelf.live
  | .reopen _ index => shelf.live.filter fun r => Points index r

/-- The records that are appended. -/
def Op.records : Op → List Bytes
  | .append bytes => [bytes]
  | .appendBatch entries => entries.map Prod.snd
  | .reopen _ _ => []

/-- Reached by a run that begins by opening a store with an empty index on any disk. -/
inductive Reachable : RecordShelf → Disk → Prop where
  | start {config : CollectionConfig} {store : RecordStore} {es : List Effect} {d : Disk} :
    Opens config → RecordStore.openFile .data config ∅ () d = ⟨.ok store, (), es⟩ →
    Reachable ⟨store, []⟩ (applyAll es d)
  | step {shelf : RecordShelf} {d : Disk} {op : Op} :
    Reachable shelf d → op.Allowed shelf → (op.run shelf d).result = .ok () →
    Reachable (op.run shelf d).state (op.run.final shelf d)

/-- Every live record lies where its pointer says, apart from the others and below the cursor. -/
structure Kept (shelf : RecordShelf) (d : Disk) : Prop where
  openOn : shelf.store.OpenOn .data d
  apart : shelf.live.Pairwise fun a b => a.pointer.stop ≤ b.pointer.offset
  below : ∀ r ∈ shelf.live, r.pointer.stop ≤ shelf.store.appendCursor
  short : ∀ r ∈ shelf.live, r.bytes.length < 2 ^ 32
  written : ∀ r ∈ shelf.live, RecordStore.Written (d.read .data) r.pointer r.bytes

variable {shelf : RecordShelf} {d d' : Disk}

/-- Records that are placed behind the cursor join the live ones. -/
theorem Kept.place (h : Kept shelf d) {records : List Bytes} {store : RecordStore}
    (hk : Disk.Grows .data shelf.store.appendCursor d d') (hopen : store.OpenOn .data d')
    (hcursor : store.appendCursor =
      shelf.store.appendCursor + (records.map List.length).sum)
    (hshort : ∀ bytes ∈ records, bytes.length < 2 ^ 32)
    (hwritten : ∀ r ∈ placeFrom shelf.store.appendCursor records,
      RecordStore.Written (d'.read .data) r.pointer r.bytes) :
    Kept ⟨store, shelf.live ++ placeFrom shelf.store.appendCursor records⟩ d' where
  openOn := hopen
  apart := by
    refine List.pairwise_append.mpr ⟨h.apart, placeFrom_apart _ _, fun a ha b hb => ?_⟩
    -- what was live ends below the cursor, what is placed begins at it
    exact (h.below a ha).trans (placeFrom_between hb).1
  below r hr := by
    simp only [hcursor]
    cases List.mem_append.mp hr with
    | inl hold => exact (h.below r hold).trans (Nat.le_add_right _ _)
    | inr hnew => exact (placeFrom_between hnew).2
  short r hr := by
    cases List.mem_append.mp hr with
    | inl hold => exact h.short r hold
    | inr hnew =>
        apply hshort
        rw [← placeFrom_bytes shelf.store.appendCursor records]
        exact List.mem_map_of_mem hnew
  written r hr := by
    cases List.mem_append.mp hr with
    | inl hold => exact (h.written r hold).grows hk (h.below r hold)
    | inr hnew => exact hwritten r hnew

/-- Opening keeps the records that the index has. -/
theorem Kept.reopen (h : Kept shelf d) {index : OffsetIndex} {store : RecordStore}
    (hk : ∀ k, Disk.Grows .data k d d') (hopen : store.OpenOn .data d')
    (hcursor : store.appendCursor = RecordStore.nextAppendOffset index) :
    Kept ⟨store, shelf.live.filter fun r => Points index r⟩ d' where
  openOn := hopen
  apart := h.apart.filter _
  below r hr := by
    obtain ⟨id, _, hid⟩ := of_decide_eq_true (List.mem_filter.mp hr).2
    simp only [hcursor]
    exact below_nextAppendOffset index id _ hid
  short r hr := h.short r (List.mem_filter.mp hr).1
  written r hr := (h.written r (List.mem_filter.mp hr).1).grows (hk r.pointer.stop) le_rfl

/-- Every step that is allowed succeeds, writes above the cursor only, and keeps the live
records. -/
theorem Kept.step (h : Kept shelf d) {op : Op} (hop : op.Allowed shelf) :
    (op.run shelf d).result = .ok () ∧
      Upwards .data shelf.store.appendCursor (op.run shelf d).effects d ∧
      (∃ placed, (op.run shelf d).state.live = op.keeps shelf ++ placed ∧
        placed.map Placed.bytes = op.records) ∧
      Kept (op.run shelf d).state (op.run.final shelf d) := by
  have hasks : (asks id : Io RecordShelf RecordShelf) shelf d = ⟨.ok shelf, shelf, []⟩ := rfl
  unfold Prog.final
  cases op with
  | append bytes =>
      obtain ⟨store, es, hrun, hup⟩ := RecordStore.append_run (s := shelf) h.openOn bytes
      have hstep : (Op.append bytes).run shelf d =
          ⟨.ok (), ⟨store, shelf.live ++ placeFrom shelf.store.appendCursor [bytes]⟩, es⟩ := by
        refine (RecordStore.bind_run hasks).trans ?_
        rw [applyAll_nil, RecordStore.bind_run hrun]
        simp [placeFrom]
      rw [hstep]
      refine ⟨rfl, hup, ⟨_, rfl, placeFrom_bytes _ _⟩, ?_⟩
      have hwp : wp (shelf.store.append bytes) (fun _ => True)
          (fun r _ d' => Disk.Grows .data shelf.store.appendCursor d d' ∧ r.2.OpenOn .data d' ∧
            r.2.appendCursor = shelf.store.appendCursor + bytes.length ∧
            RecordStore.Written (d'.read .data) r.1 bytes) (fun _ _ _ => False) shelf d :=
        RecordStore.wp_append_written h.openOn (fun _ _ => trivial)
          fun p store' d' hk hopen hcursor _ hwritten => ⟨hk, hopen, hcursor, hwritten⟩
      obtain ⟨hk, hopen, hcursor, hwritten⟩ := wp_ok hwp (congrArg Outcome.result hrun)
      rw [Prog.final, hrun] at hk hopen hwritten
      refine h.place hk hopen (by simpa using hcursor) (by simpa using hop.1) fun r hr => ?_
      cases List.mem_singleton.mp hr
      exact hwritten
  | appendBatch entries =>
      obtain ⟨store, es, hrun, hup⟩ := RecordStore.appendBatch_run (s := shelf) h.openOn entries
      have hstep : (Op.appendBatch entries).run shelf d =
          ⟨.ok (), ⟨store, shelf.live ++
            placeFrom shelf.store.appendCursor (entries.map Prod.snd)⟩, es⟩ := by
        refine (RecordStore.bind_run hasks).trans ?_
        rw [applyAll_nil, RecordStore.bind_run hrun]
        simp only [RecordStore.modify_run, zipWith_placeFrom, List.append_nil, List.nil_append]
      rw [hstep]
      refine ⟨rfl, hup, ⟨_, rfl, placeFrom_bytes _ _⟩, ?_⟩
      have hwp : wp (shelf.store.appendBatch entries) (fun _ => True)
          (fun r _ d' => Disk.Grows .data shelf.store.appendCursor d d' ∧ r.2.OpenOn .data d' ∧
            r.2.appendCursor = shelf.store.appendCursor +
              (entries.map fun entry => entry.2.length).sum ∧
            List.Forall₂ (fun entry p => p.stop ≤ r.2.appendCursor ∧
              RecordStore.Written (d'.read .data) p entry.2) entries r.1)
          (fun _ _ _ => False) shelf d :=
        RecordStore.wp_appendBatch_written h.openOn (fun _ _ => trivial)
          fun ps store' d' hk hopen hcursor hps => ⟨hk, hopen, hcursor, hps⟩
      obtain ⟨hk, hopen, hcursor, hps⟩ := wp_ok hwp (congrArg Outcome.result hrun)
      rw [Prog.final, hrun] at hk hopen hps
      refine h.place hk hopen ?_ ?_ ?_
      · rw [List.map_map]
        exact hcursor
      · intro bytes hbytes
        obtain ⟨entry, hentry, rfl⟩ := List.mem_map.mp hbytes
        exact hop.1 entry hentry
      · intro r hr
        have hzip : List.Forall₂
            (fun bytes p => RecordStore.Written ((applyAll es d).read .data) p bytes)
            (entries.map Prod.snd)
            ((placeFrom shelf.store.appendCursor (entries.map Prod.snd)).map Placed.pointer) :=
          List.forall₂_map_left_iff.mpr (hps.imp fun _ _ h => h.2)
        exact placeFrom_forall hzip hr
  | reopen config index =>
      obtain ⟨store, es, hrun, hup⟩ :=
        RecordStore.openFile_run (σ := RecordShelf) .data config index shelf d
      have hstep : (Op.reopen config index).run shelf d =
          ⟨.ok (), ⟨store, shelf.live.filter fun r => Points index r⟩, es⟩ := by
        refine (RecordStore.bind_run hrun).trans ?_
        simp
      rw [hstep]
      refine ⟨rfl, hup _, ⟨[], (List.append_nil _).symm, rfl⟩, ?_⟩
      have hwp : wp (RecordStore.openFile .data config index) (fun _ => True)
          (fun store _ d' => (∀ k, Disk.Grows .data k d d') ∧ store.OpenOn .data d' ∧
            store.appendCursor = RecordStore.nextAppendOffset index)
          (fun _ _ _ => False) shelf d :=
        RecordStore.wp_openFile_grows (fun _ _ => trivial)
          fun store' d' hk hopen hcursor => ⟨hk, hopen, hcursor⟩
      obtain ⟨hk, hopen, hcursor⟩ := wp_ok hwp (congrArg Outcome.result hrun)
      rw [Prog.final, hrun] at hk hopen
      exact h.reopen hk hopen hcursor

theorem kept {shelf : RecordShelf} {d : Disk} (h : Reachable shelf d) : Kept shelf d := by
  induction h with
  | @start config store es d _ hrun =>
      have hwp : wp (RecordStore.openFile .data config ∅) (fun _ => True)
          (fun store _ d' => store.OpenOn .data d') (fun _ _ _ => False) () d :=
        RecordStore.wp_openFile_grows (fun _ _ => trivial) fun store' d' _ hopen _ => hopen
      have hopen := wp_ok hwp (congrArg Outcome.result hrun)
      rw [Prog.final, hrun] at hopen
      exact ⟨hopen, .nil, by simp, by simp, by simp⟩
  | step _ hop _ ih => exact (ih.step hop).2.2.2

/-- In every state of every run the live records lie apart from each other and below the
cursor, and each reads back as what was appended. No step that is allowed fails: what it
writes goes behind all live records and inside the file, which a memory map spans, and it hands
out a pointer for each record. -/
theorem live_records_kept [Env] [LawfulEnv] {shelf : RecordShelf} {d : Disk} (h : Reachable shelf d) :
    (shelf.live.Pairwise fun a b => a.pointer.stop ≤ b.pointer.offset) ∧
    (∀ r ∈ shelf.live, r.pointer.length = r.bytes.length ∧
      r.pointer.stop ≤ shelf.store.appendCursor ∧
      shelf.store.readBytes d r.pointer = .ok r.bytes ∧
      ∀ doc, r.bytes = RecordStore.encodeDocument doc →
        shelf.store.readDocument d r.pointer = .ok doc) ∧
    (∀ len, shelf.store.mmap = some len → len = (d.read .data).length) ∧
    ∀ op : Op, op.Allowed shelf →
      (op.run shelf d).result = .ok () ∧
        Upwards .data shelf.store.appendCursor (op.run shelf d).effects d ∧
        ∃ placed, (op.run shelf d).state.live = op.keeps shelf ++ placed ∧
          placed.map Placed.bytes = op.records := by
  have hkept := kept h
  refine ⟨hkept.apart, fun r hr => ?_, hkept.openOn.mmap, fun op hop => ?_⟩
  · have hwritten := hkept.written r hr
    have hlength : r.pointer.length = r.bytes.length := by
      rw [hwritten.length, Nat.mod_eq_of_lt (hkept.short r hr)]
    refine ⟨hlength, hkept.below r hr, ?_, ?_⟩
    · have hslice := hwritten.slice
      rw [hlength, List.take_length] at hslice
      unfold RecordStore.readBytes
      rw [hkept.openOn.dataFile]
      refine (if_pos (.inr (.inr hwritten.inside))).trans (congrArg Except.ok ?_)
      rw [hlength]
      exact hslice
    · intro doc hdoc
      have hshort := hkept.short r hr
      rw [hdoc] at hwritten hshort
      exact RecordStore.readDocument_eq hkept.openOn (hwritten.record hshort)
  · have hstep := hkept.step hop
    exact ⟨hstep.1, hstep.2.1, hstep.2.2.1⟩

/-! A record that does not fit the memory map, behind another one. -/

section

attribute [local instance] Reference.flat

/-- A store that was opened on an empty disk. -/
def emptyShelf : RecordShelf := ⟨⟨.data, some 16, 0⟩, []⟩

def emptyShelfDisk : Disk := applyAll [.create .data, .setLen .data 16] Disk.empty

theorem reachable_emptyShelf : Reachable emptyShelf emptyShelfDisk := by
  have hopens : Opens Reference.flatConfig := fun _ => by decide
  exact .start hopens rfl

def shortRecord : Bytes := [1, 2, 3]

def longRecord : Bytes := List.replicate 20 7

/-- The shelf with both records, before the store is closed. -/
def shortShelf : RecordShelf := ((Op.append shortRecord).run emptyShelf emptyShelfDisk).state

def shortShelfDisk : Disk := (Op.append shortRecord).run.final emptyShelf emptyShelfDisk

def longAppend : Op := .appendBatch [(1, longRecord)]

/-- The store is opened with a pointer to the long record only. -/
def longReopen : Op := .reopen Reference.flatConfig (Finmap.singleton 1 ⟨3, 20⟩)

/-- The memory map grows, the short record is left as it is, and the long one reads back after
the store was opened without the short one. -/
theorem long_record_kept :
    let appended := longAppend.run shortShelf shortShelfDisk
    let d := longAppend.run.final shortShelf shortShelfDisk
    let reopened := longReopen.run appended.state d
    shortShelf.live = [⟨⟨0, 3⟩, shortRecord⟩] ∧ appended.result = .ok () ∧
      Upwards .data 3 appended.effects shortShelfDisk ∧
      appended.state.store.readBytes d ⟨0, 3⟩ = .ok shortRecord ∧
      reopened.state.live = [⟨⟨3, 20⟩, longRecord⟩] ∧
      reopened.state.store.readBytes (longReopen.run.final appended.state d) ⟨3, 20⟩ = .ok longRecord := by
  intro appended d reopened
  have hshort : (Op.append shortRecord).Allowed emptyShelf := ⟨by decide, by decide⟩
  have hfirst := (live_records_kept reachable_emptyShelf).2.2.2 _ hshort
  have hreached : Reachable shortShelf shortShelfDisk := .step reachable_emptyShelf hshort hfirst.1
  have hcursor : shortShelf.store.appendCursor = 3 := rfl
  have hlong : longAppend.Allowed shortShelf := by
    refine ⟨by decide, ?_⟩
    rw [hcursor]
    decide
  have hsecond := (live_records_kept hreached).2.2.2 _ hlong
  have hboth : Reachable appended.state d := .step hreached hlong hsecond.1
  have hlive : appended.state.live = [⟨⟨0, 3⟩, shortRecord⟩, ⟨⟨3, 20⟩, longRecord⟩] := rfl
  -- the index has the second pointer only
  have hindex : ∀ id p, (Finmap.singleton 1 ⟨3, 20⟩ : OffsetIndex).lookup id = some p → p = ⟨3, 20⟩ := by
    intro id p hp
    have hid : id = 1 := (Finmap.mem_singleton _ _ _).mp (Finmap.mem_of_lookup_eq_some hp)
    rw [hid, Finmap.lookup_singleton_eq] at hp
    exact (Option.some.inj hp).symm
  have hpoints : longReopen.Allowed appended.state :=
    ⟨fun _ => by decide, fun id p hp => ⟨⟨⟨3, 20⟩, longRecord⟩, by simp [hlive], (hindex id p hp).symm⟩⟩
  have hthird := (live_records_kept hboth).2.2.2 _ hpoints
  have hreopened : Reachable reopened.state (longReopen.run.final appended.state d) :=
    .step hboth hpoints hthird.1
  have hdead : ¬Points (Finmap.singleton 1 ⟨3, 20⟩) ⟨⟨0, 3⟩, shortRecord⟩ := by
    rintro ⟨id, -, hid⟩
    exact absurd (hindex id _ hid) (by decide)
  have hpointed : Points (Finmap.singleton 1 ⟨3, 20⟩) ⟨⟨3, 20⟩, longRecord⟩ :=
    ⟨1, by simp, Finmap.lookup_singleton_eq⟩
  have hleft : reopened.state.live = [⟨⟨3, 20⟩, longRecord⟩] := by
    obtain ⟨placed, hkeeps, hplaced⟩ := hthird.2.2
    have hnone : placed = [] := List.map_eq_nil_iff.mp hplaced
    rw [hnone, List.append_nil] at hkeeps
    rw [hkeeps, longReopen, Op.keeps, hlive, List.filter_cons_of_neg (by simpa using hdead),
      List.filter_cons_of_pos (by simpa using hpointed), List.filter_nil]
  refine ⟨rfl, hsecond.1, hsecond.2.1, ?_, hleft, ?_⟩
  · exact ((live_records_kept hboth).2.1 ⟨⟨0, 3⟩, shortRecord⟩ (by simp [hlive])).2.2.1
  · exact ((live_records_kept hreopened).2.1 ⟨⟨3, 20⟩, longRecord⟩ (by simp [hleft])).2.2.1

end

end RecordShelf
