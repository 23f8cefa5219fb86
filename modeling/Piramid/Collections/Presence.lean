-- SUMMARY: Whether a collection exists: its data file is created first, and is there between any two effects.
import Piramid.Collections.Compacting
import Piramid.Collections.Lasting

/-!
# Presence

A collection exists when its data file does. Opening a collection creates the file before anything
else. No operation but a compaction takes it away, not even for a moment.
-/

open Device Prog SnapshotLog

/-- An effect that leaves the data file in place. -/
def Effect.Keeps : Effect → Prop
  | .remove f => f ≠ .data
  | .rename src dst => src ≠ .data ∧ dst ≠ .data
  | .create _ | .setLen _ _ | .store _ _ _ | .write _ _ | .append _ _ | .truncate _ | .sync _ => True

def Keeping (es : List Effect) : Prop := ∀ e ∈ es, e.Keeps

theorem Effect.Keeps.created {e : Effect} (h : e.Keeps) {d : Disk} (hd : d.Created) :
    (Device.apply e d).Created := by
  unfold Disk.Created at hd ⊢
  cases e with
  | remove f =>
      rw [apply_remove, Disk.put_other _ (Ne.symm h)]
      exact hd
  | rename src dst =>
      rw [apply_rename, Disk.put_other _ (Ne.symm h.1), Disk.put_other _ (Ne.symm h.2)]
      exact hd
  | sync f => exact hd
  | create f => exact Lasting.isSome_put hd f _
  | setLen f size => exact Lasting.isSome_put hd f _
  | store f offset bytes => exact Lasting.isSome_put hd f _
  | write f bytes => exact Lasting.isSome_put hd f bytes
  | append f bytes => exact Lasting.isSome_put hd f _
  | truncate f => exact Lasting.isSome_put hd f []

theorem Keeping.through {es : List Effect} (h : Keeping es) {d : Disk} (hd : d.Created) :
    Through Disk.Created es d ∧ (applyAll es d).Created := by
  induction es generalizing d with
  | nil => exact ⟨trivial, hd⟩
  | cons e es ih =>
      have he : (Device.apply e d).Created := (h e (by simp)).created hd
      obtain ⟨hthrough, hfinal⟩ := ih (fun e' he' => h e' (by simp [he'])) he
      exact ⟨⟨he, hthrough⟩, hfinal⟩

instance [Env] : Admits Keeping where
  create f := by simp [Keeping, Effect.Keeps]
  setLen f size := by simp [Keeping, Effect.Keeps]
  store f offset bytes := by simp [Keeping, Effect.Keeps]
  index index := by simp [Keeping, Effect.Keeps]
  vecindex index := by simp [Keeping, Effect.Keeps]
  metadata metadata := by simp [Keeping, Effect.Keeps]
  createWal := by simp [Keeping, Effect.Keeps]
  log bytes := by simp [Keeping, Effect.Keeps]
  walMeta seq := by simp [Keeping, Effect.Keeps]
  rotate := by simp [Keeping, Effect.Keeps]
  syncStore f := by simp [Keeping, Effect.Keeps]

section

variable {σ α : Type} {p : Io σ α} {s : σ} {d : Disk}

theorem Prog.EmitsBlocks.keeping (h : EmitsBlocks Keeping p) (s : σ) (d : Disk) :
    Keeping (p s d).effects := by
  obtain ⟨bs, heffects, hbs⟩ := h s d
  rw [heffects]
  intro e he
  obtain ⟨b, hb, heb⟩ := List.mem_flatten.mp he
  exact hbs b hb e heb

/-- What is known of all effects, in the rules' form. -/
theorem Prog.wp_created_of_through (h : Through Disk.Created (p s d).effects d ∧
    (applyAll (p s d).effects d).Created) :
    wp p Disk.Created (fun _ _ d => d.Created) (fun _ _ d => d.Created) s d := by
  unfold wp
  split
  · rename_i hp
    rw [hp] at h
    exact h
  · rename_i hp
    rw [hp] at h
    exact h

theorem Prog.EmitsBlocks.wp_created (h : EmitsBlocks Keeping p) (hd : d.Created) :
    wp p Disk.Created (fun _ _ d => d.Created) (fun _ _ d => d.Created) s d :=
  wp_created_of_through ((h.keeping s d).through hd)

/-- A program that begins with creating the data file. -/
theorem Prog.EmitsBlocks.wp_creates (h : EmitsBlocks Keeping p)
    (hhead : (p s d).effects.head? = some (.create .data)) :
    wp p Disk.Created (fun _ _ d => d.Created) (fun _ _ d => d.Created) s d := by
  refine wp_created_of_through ?_
  have hkeeping := h.keeping s d
  cases hes : (p s d).effects with
  | nil => simp [hes] at hhead
  | cons e es =>
      rw [hes] at hhead hkeeping
      simp only [List.head?_cons, Option.some.injEq] at hhead
      subst hhead
      have hcreated : (Device.apply (Effect.create .data) d).Created := by simp [Disk.Created]
      have hrest : Keeping es := fun e he => hkeeping e (by simp [he])
      obtain ⟨hthrough, hfinal⟩ := hrest.through hcreated
      exact ⟨⟨hcreated, hthrough⟩, hfinal⟩

end

section

variable [Env] {dom : VectorDomain} {m : DocMap} {d : Disk}

theorem loadIndex_quiet {path : String} {index : OffsetIndex} (h : d.IndexFile index) (n : Nat) :
    (loadIndex path : Io Nat OffsetIndex) n d = ⟨.ok index, n, []⟩ := by
  unfold loadIndex
  change Prog.bind Prog.device _ n d = _
  rcases h with ⟨hnone, rfl⟩ | ⟨bytes, hsome, hdecode⟩
  · simp only [Prog.bind, Prog.device, applyAll_nil, hnone]
    rfl
  · simp only [Prog.bind, Prog.device, applyAll_nil, hsome, hdecode]
    rfl

/-- Opening a collection creates its data file first, if anything can be recovered from its
files. -/
theorem wp_openCollection_created {path : String} {config : CollectionConfig} {n : Nat}
    (h : Recoverable dom m d) :
    wp (CollectionBuilder.openCollection path config) Disk.Created (fun _ _ d => d.Created)
      (fun _ _ d => d.Created) n d := by
  obtain ⟨g, hstored, -⟩ := h
  obtain ⟨index, hindex, -⟩ := hstored.index
  have hload : (CollectionBuilder.loadCollection path config n d).effects.head? = some (.create .data) :=
    head_bind_quiet (loadIndex_quiet hindex n) (head_bind head_openFile)
  exact (CollectionBuilder.blocks_openCollection path config).wp_creates (head_bind hload)

end
