-- SUMMARY: A call that a limit or a dimension check refuses early leaves what can be observed of a collection as it was.
import Piramid.Reference.Sample

/-!
# Refused calls

A refused call has already been logged, so it never leaves the files as they
were. What can be observed of the open collection is unchanged if the refusal
comes before the first assignment to it, and that depends on the operation.
-/

open Prog

/-- What can be observed of a collection is the same. -/
structure Unchanged [Env] (c : Collection) (d : Disk) (c' : Collection) (d' : Disk) : Prop where
  get : ∀ id, c'.get d' id = c.get d id
  count : c'.count = c.count
  dimensions : c'.metadata.dimensions = c.metadata.dimensions
  trackedIds : c'.vectorIndex.trackedIds = c.vectorIndex.trackedIds
  cachedVector : ∀ id ∈ c.index, c'.cache.vectors.lookup id = c.cache.vectors.lookup id
  cachedMetadata : ∀ id ∈ c.index, c'.cache.metadata.lookup id = c.cache.metadata.lookup id

/-- `x` is an error. -/
def Except.Fails {ε α : Type} (x : Except ε α) : Prop := ∃ e, x = .error e

section

variable [Env]

/-- A limit refuses a record of `doc`. -/
def Collection.OverLimit (c : Collection) (doc : Document) : Prop :=
  (c.enforceSingle (RecordStore.encodeDocument doc).length).Fails

/-- A limit refuses the records of `docs` together. -/
def Collection.OverLimits (c : Collection) (docs : List Document) : Prop :=
  let sizes := docs.map fun doc => (RecordStore.encodeDocument doc).length
  (c.enforceBatch docs.length sizes.sum sizes.max?).Fails

/-- The call is refused before it assigns to the collection: by a limit, or, for a
new vector of a stored document, by its number of components. A limit refuses a
new vector that early only where the dimension is already set. -/
def Call.RefusedEarly (call : Call) (c : Collection) (d : Disk) : Prop :=
  match call with
  | .insert doc | .upsert doc => c.OverLimit doc
  | .insertBatch docs => c.OverLimits docs
  | .updateMetadata id metadata =>
    ∃ doc, c.get d id = .ok (some doc) ∧ c.OverLimit { doc with metadata }
  | .updateVector id vector =>
    ∃ doc dim, c.get d id = .ok (some doc) ∧ c.metadata.dimensions = some dim ∧
      (vector.length ≠ dim ∨ c.OverLimit { doc with vector })
  | _ => False

namespace Collection

variable {c : Collection} {d : Disk}

/-- Two collections that differ in their log alone, on disks that differ in the
log alone. -/
structure LoggedOnly (c : Collection) (d : Disk) (c' : Collection) (d' : Disk) : Prop where
  recordStore : c'.recordStore = c.recordStore
  index : c'.index = c.index
  vectorIndex : c'.vectorIndex = c.vectorIndex
  cache : c'.cache = c.cache
  config : c'.config = c.config
  metadata : c'.metadata = c.metadata
  files : ∀ f, f ≠ .wal → d' f = d f

omit [Env] in
theorem LoggedOnly.refl (c : Collection) (d : Disk) : LoggedOnly c d c d :=
  ⟨rfl, rfl, rfl, rfl, rfl, rfl, fun _ _ => rfl⟩

variable {c' c'' : Collection} {d' d'' : Disk}

omit [Env] in
theorem LoggedOnly.trans (h : LoggedOnly c d c' d') (h' : LoggedOnly c' d' c'' d'') :
    LoggedOnly c d c'' d'' where
  recordStore := h'.recordStore.trans h.recordStore
  index := h'.index.trans h.index
  vectorIndex := h'.vectorIndex.trans h.vectorIndex
  cache := h'.cache.trans h.cache
  config := h'.config.trans h.config
  metadata := h'.metadata.trans h.metadata
  files f hf := (h'.files f hf).trans (h.files f hf)

theorem LoggedOnly.get (h : LoggedOnly c d c' d') (id : Uuid) : c'.get d' id = c.get d id := by
  have hdata : ∀ f : StoreFile, d'.read f = d.read f := fun f => by
    rw [Disk.read, Disk.read, h.files f (by cases f <;> simp [StoreFile.file])]
  simp only [Collection.get, h.index, h.recordStore, RecordStore.readDocument,
    RecordStore.readBytes, hdata]

theorem LoggedOnly.unchanged (h : LoggedOnly c d c' d') : Unchanged c d c' d' where
  get := h.get
  count := by rw [Collection.count, Collection.count, h.index]
  dimensions := by rw [h.metadata]
  trackedIds := by rw [h.vectorIndex]
  cachedVector _ _ := by rw [h.cache]
  cachedMetadata _ _ := by rw [h.cache]

omit [Env] in
theorem LoggedOnly.enforceSingle (h : LoggedOnly c d c' d') (n : Nat) :
    c'.enforceSingle n = c.enforceSingle n := by
  rw [Collection.enforceSingle, Collection.enforceSingle, Collection.count, Collection.count,
    h.config, h.index, h.recordStore]

omit [Env] in
theorem LoggedOnly.enforceBatch (h : LoggedOnly c d c' d') (n bytes : Nat) (most : Option Nat) :
    c'.enforceBatch n bytes most = c.enforceBatch n bytes most := by
  unfold Collection.enforceBatch Collection.count
  rw [h.config, h.index, h.recordStore]

/-- The call fails, and only the log knows of it. -/
def FailsQuietly {α : Type} (p : CollM α) (s : Session) (d : Disk) : Prop :=
  wp p (fun _ => True) (fun _ _ _ => False) (fun _ s' d' => LoggedOnly s.coll d s'.coll d') s d

variable {s : Session} {C : Disk → Prop}

theorem wp_logEntry_quiet {α : Type} {entry : WalEntry} {p : CollM α}
    (h : ∀ s' d', LoggedOnly s.coll d s'.coll d' →
      wp p (fun _ => True) (fun _ _ _ => False)
        (fun _ s'' d'' => LoggedOnly s.coll d s''.coll d'') s' d') :
    FailsQuietly (do logEntry entry; p) s d := by
  refine wp_bind.mpr (wp_logEntry trivial (h _ _ ?_))
  exact ⟨rfl, rfl, rfl, rfl, rfl, rfl, fun f hf => Disk.logged_other hf⟩

omit [Env] in
theorem wp_enforce_fails {α : Type} {x : Except Fault Unit} (hx : x.Fails) {p : CollM α}
    {R : Fault → Session → Disk → Prop} {Q : α → Session → Disk → Prop} (hR : ∀ e, R e s d) :
    wp (do Prog.ofExcept x; p) C Q R s d := by
  obtain ⟨e, rfl⟩ := hx
  simp [hR]

theorem insertInternal_fails {doc : Document} {c₀ : Collection} {d₀ : Disk}
    (hlog : LoggedOnly c₀ d₀ s.coll d) (h : c₀.OverLimit doc) :
    wp (insertInternal doc) (fun _ => True) (fun _ _ _ => False)
      (fun _ s' d' => LoggedOnly c₀ d₀ s'.coll d') s d := by
  refine wp_bind.mpr (wp_self.mpr (wp_enforce_fails ?_ fun _ => hlog))
  rw [hlog.enforceSingle]
  exact h

theorem insert_quiet {doc : Document} (h : s.coll.OverLimit doc) :
    FailsQuietly (insert doc) s d :=
  wp_logEntry_quiet fun _ _ hlog => wp_bind.mpr <|
    wp_mono (insertInternal_fails hlog h) (fun _ => id) (fun _ _ _ h => h.elim) (fun _ _ _ => id)

theorem upsert_quiet {doc : Document} (h : s.coll.OverLimit doc) :
    FailsQuietly (upsert doc) s d :=
  wp_bind.mpr (wp_self.mpr (wp_enforce_fails h fun _ => .refl _ _))

theorem logAll_quiet (docs : List Document) {c₀ : Collection} {d₀ : Disk}
    (hlog : LoggedOnly c₀ d₀ s.coll d) :
    wp (docs.forM fun doc => logEntry (.insert doc 0)) (fun _ => True)
      (fun _ s' d' => LoggedOnly c₀ d₀ s'.coll d') (fun _ _ _ => False) s d := by
  refine wp_forM (fun _ s' d' => LoggedOnly c₀ d₀ s'.coll d') ?_ (fun _ _ h => h) hlog
  intro doc docs s' d' h
  refine wp_logEntry trivial (h.trans ?_)
  exact ⟨rfl, rfl, rfl, rfl, rfl, rfl, fun f hf => Disk.logged_other hf⟩

theorem insertBatch_quiet {docs : List Document} (h : s.coll.OverLimits docs) :
    FailsQuietly (insertBatch docs) s d := by
  refine wp_bind.mpr (wp_mono (logAll_quiet docs (.refl s.coll d)) (fun _ => id) ?_
    (fun _ _ _ h => h.elim))
  intro _ s' d' hlog
  refine wp_bind.mpr (wp_self.mpr (wp_enforce_fails ?_ fun _ => hlog))
  rw [hlog.enforceBatch]
  simpa [OverLimits, Function.comp_def] using h

theorem updateMetadata_quiet {id : Uuid} {metadata : Metadata} {doc : Document}
    (hget : s.coll.get d id = .ok (some doc)) (h : s.coll.OverLimit { doc with metadata }) :
    FailsQuietly (updateMetadata id metadata) s d := by
  have hfetch : ∀ Q : Option Document → Session → Disk → Prop, Q (some doc) s d →
      wp (fetch id) (fun _ => True) Q (fun _ s' d' => LoggedOnly s.coll d s'.coll d') s d := by
    intro Q hQ
    simp [fetch, hget, hQ]
  refine wp_bind.mpr (hfetch _ ?_)
  refine wp_logEntry_quiet fun s' d' hlog => ?_
  refine wp_bind.mpr (wp_self.mpr (wp_enforce_fails ?_ fun _ => hlog))
  rw [hlog.enforceSingle]
  exact h

theorem updateVector_quiet {id : Uuid} {vector : Vector32} {doc : Document} {dim : Nat}
    (hget : s.coll.get d id = .ok (some doc)) (hdim : s.coll.metadata.dimensions = some dim)
    (h : vector.length ≠ dim ∨ s.coll.OverLimit { doc with vector }) :
    FailsQuietly (updateVector id vector) s d := by
  have hfetch : ∀ Q : Option Document → Session → Disk → Prop, Q (some doc) s d →
      wp (fetch id) (fun _ => True) Q (fun _ s' d' => LoggedOnly s.coll d s'.coll d') s d := by
    intro Q hQ
    simp [fetch, hget, hQ]
  refine wp_bind.mpr (hfetch _ ?_)
  refine wp_logEntry_quiet fun s' d' hlog => ?_
  refine wp_bind.mpr (wp_bind.mpr (wp_self.mpr ?_))
  rw [hlog.metadata, hdim]
  by_cases hlen : vector.length = dim
  · refine wp_ofExcept.mpr ⟨fun _ _ => ?_, fun e he => ?_⟩
    · refine wp_bind.mpr (wp_self.mpr (wp_enforce_fails ?_ fun _ => hlog))
      rw [hlog.enforceSingle]
      exact h.resolve_left (not_not_intro hlen)
    · simp [validateDimensions, hlen] at he
  · refine wp_ofExcept.mpr ⟨fun _ hv => ?_, fun _ _ => hlog⟩
    simp [validateDimensions, hlen] at hv

end Collection

/-- For every collection and every disk: a call that is refused early returns an
error and leaves what can be observed as it was. -/
theorem refused_early_unchanged (call : Call) (s : Session) (d : Disk)
    (h : call.RefusedEarly s.coll d) :
    (call.run s d).result.Fails ∧
      Unchanged s.coll d (call.run s d).state.coll (call.run.final s d) := by
  have hquiet : Collection.FailsQuietly call.run s d := by
    cases call with
    | insert doc => exact wp_void.mpr (Collection.insert_quiet h)
    | upsert doc => exact wp_void.mpr (Collection.upsert_quiet h)
    | insertBatch docs => exact wp_void.mpr (Collection.insertBatch_quiet h)
    | updateMetadata id metadata =>
        obtain ⟨doc, hget, hlimit⟩ := h
        exact wp_void.mpr (Collection.updateMetadata_quiet hget hlimit)
    | updateVector id vector =>
        obtain ⟨doc, dim, hget, hdim, hrefuse⟩ := h
        exact wp_void.mpr (Collection.updateVector_quiet hget hdim hrefuse)
    | delete | deleteBatch | checkpoint | rebuildIndex | compact => exact h.elim
  cases hres : (call.run s d).result with
  | ok a => exact (wp_ok hquiet hres).elim
  | error e => exact ⟨⟨e, rfl⟩, (wp_error hquiet hres).unchanged⟩

end

/-! ## A refusal in time and one too late -/

section

attribute [local instance] Reference.flat

/-- A collection that may hold one document and holds one, of one component. -/
def fullCollection : Machine :=
  Reference.after (Reference.config (.flat .cosine .auto) ⟨some 1, none, none⟩ 1000)
    [.open, .call (.insert (Reference.doc 1 1))]

def fullSession : Session := ⟨fullCollection.coll.get (by decide +kernel), fullCollection.draws⟩

/-- The limit on the number of documents refuses a second one, and nothing changes. -/
theorem full_collection_unchanged :
    let call := Call.insert (Reference.doc 2 1)
    (call.run fullSession fullCollection.disk).result.Fails ∧
      Unchanged fullSession.coll fullCollection.disk
        (call.run fullSession fullCollection.disk).state.coll
        (call.run.final fullSession fullCollection.disk) :=
  refused_early_unchanged (.insert (Reference.doc 2 1)) fullSession fullCollection.disk
    ⟨.invalidRequest "Collection max vectors reached", by decide +kernel⟩

/-- The same collection without a limit. -/
def unlimitedCollection : Machine :=
  Reference.after Reference.flatConfig [.open, .call (.insert (Reference.doc 1 1))]

def unlimitedSession : Session :=
  ⟨unlimitedCollection.coll.get (by decide +kernel), unlimitedCollection.draws⟩

/-- A vector with a component too many is refused after its document was counted. -/
theorem mismatched_insert_changes :
    let call := Call.insert (Reference.doc 2 2)
    (call.run unlimitedSession unlimitedCollection.disk).result =
        .error (.invalidRequest "Vector dimension mismatch: expected 1, got 2") ∧
      ¬Unchanged unlimitedSession.coll unlimitedCollection.disk
        (call.run unlimitedSession unlimitedCollection.disk).state.coll
        (call.run.final unlimitedSession unlimitedCollection.disk) := by
  refine ⟨by decide +kernel, fun h => ?_⟩
  have hcount := h.count
  revert hcount
  decide +kernel

end
