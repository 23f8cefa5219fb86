-- SUMMARY: The data file of a collection: created when the collection is, and there ever after.
import Piramid.Collections.Machine

/-!
# The data file lasts

No block of effects takes the data file away, but for the one that puts a compacted
file in its place; and what comes next after that one creates it if need be.
-/

open Device Prog

/-- Effects that leave the data file in place. -/
def Lasting (es : List Effect) : Prop :=
  ∀ d : Disk, (d .data).isSome → (applyAll es d .data).isSome

namespace Lasting

theorem isSome_put {d : Disk} (h : (d .data).isSome) (f : CollFile) (bytes : Bytes) :
    (d.put f (some bytes) .data).isSome := by
  unfold Disk.put
  split
  · rfl
  · exact h

theorem nil : Lasting [] := fun _ => id

theorem append {es es' : List Effect} (h : Lasting es) (h' : Lasting es') : Lasting (es ++ es') := by
  intro d hd
  rw [applyAll_append]
  exact h' _ (h d hd)

theorem flatten {bs : List (List Effect)} (h : ∀ b ∈ bs, Lasting b) : Lasting bs.flatten := by
  induction bs with
  | nil => exact nil
  | cons b bs ih =>
      have hhead : Lasting b := h b (by simp)
      have htail : Lasting bs.flatten := ih fun b' hb' => h b' (by simp [hb'])
      exact hhead.append htail

theorem remove : Lasting [.remove .compactTmp] := fun d hd => by simpa using hd

instance [Env] : Admits Lasting where
  create f d hd := isSome_put hd f (d.read f)
  setLen f size d hd := isSome_put hd f (Extent.resize (d.read f) size)
  store f offset bytes d hd := isSome_put hd f (Extent.overwrite (d.read f) offset bytes)
  index index _ hd := isSome_put hd .index (Env.offsetIndex.encode index)
  vecindex index _ hd := isSome_put hd .vecindex (Env.vectorIndex.encode index)
  metadata metadata _ hd := isSome_put hd .metadata (Env.collectionMetadata.encode metadata)
  createWal d hd := isSome_put hd .wal (d.read .wal)
  log bytes d hd := isSome_put hd .wal (d.read .wal ++ bytes)
  walMeta seq d hd := by
    have hwrite := isSome_put hd .walMetaTmp (Env.walMeta.encode ⟨seq⟩)
    simpa [Disk.put] using hwrite
  rotate _ hd := isSome_put hd .wal []
  syncStore _ _ hd := hd

end Lasting

section

variable {σ α : Type} {p : Io σ α} {s : σ} {d : Disk}

/-- The disk holds the data file. -/
def Disk.Created (d : Disk) : Prop := (d .data).isSome

/-- A disk at the end of a program, in the rules' form. -/
theorem Prog.wp_of_final (h : (p.final s d).Created) :
    wp p (fun _ => True) (fun _ _ d => d.Created) (fun _ _ d => d.Created) s d := by
  have hthrough : Through (fun _ => True) (p s d).effects d := .of_forall (fun _ => trivial) _ _
  unfold wp
  split
  · rename_i hp
    rw [final, hp] at h
    rw [hp] at hthrough
    exact ⟨hthrough, h⟩
  · rename_i hp
    rw [final, hp] at h
    rw [hp] at hthrough
    exact ⟨hthrough, h⟩

theorem Prog.created_of_wp
    (h : wp p (fun _ => True) (fun _ _ d => d.Created) (fun _ _ d => d.Created) s d) :
    (p.final s d).Created := by
  cases hr : (p s d).result with
  | ok a => exact wp_ok h hr
  | error e => exact wp_error h hr

theorem Prog.EmitsBlocks.created (h : EmitsBlocks Lasting p) (hd : d.Created) :
    (p.final s d).Created := by
  obtain ⟨bs, heffects, hbs⟩ := h s d
  rw [final, heffects]
  exact Lasting.flatten hbs d hd

/-- The first effect of a program is the first of the two. -/
theorem Prog.head_bind {β : Type} {q : α → Io σ β} {e : Effect}
    (h : (p s d).effects.head? = some e) : ((p >>= q) s d).effects.head? = some e := by
  change (Prog.bind p q s d).effects.head? = some e
  unfold Prog.bind
  split
  · rename_i hp
    rw [hp] at h
    simp [List.head?_append, h]
  · rename_i hp
    rw [hp] at h
    exact h

/-- A program without effects leaves the first one to what comes after it. -/
theorem Prog.head_bind_quiet {β : Type} {q : α → Io σ β} {a : α} {s' : σ} {e : Effect}
    (hp : p s d = ⟨.ok a, s', []⟩) (h : (q a s' d).effects.head? = some e) :
    ((p >>= q) s d).effects.head? = some e := by
  change (Prog.bind p q s d).effects.head? = some e
  unfold Prog.bind
  rw [hp]
  exact h

theorem head_openFile {config : CollectionConfig} {index : OffsetIndex} :
    (RecordStore.openFile .data config index s d).effects.head? = some (.create .data) :=
  head_bind rfl

/-- A program that begins with creating the data file ends with it there. -/
theorem Prog.EmitsBlocks.creates (h : EmitsBlocks Lasting p)
    (hhead : (p s d).effects.head? = some (.create .data)) : (p.final s d).Created := by
  obtain ⟨bs, heffects, hbs⟩ := h s d
  have hlasting : Lasting (p s d).effects := heffects ▸ Lasting.flatten hbs
  rw [final]
  cases hes : (p s d).effects with
  | nil => simp [hes] at hhead
  | cons e es =>
      obtain rfl : e = .create .data := by simpa [hes] using hhead
      rw [hes] at hlasting
      -- creating the file a second time changes nothing
      have hcreated : (apply (Effect.create .data) d).Created := rfl
      have htwice : apply (Effect.create .data) (apply (Effect.create .data) d) =
          apply (Effect.create .data) d := by
        funext f
        by_cases hf : f = .data
        · simp [hf]
        · simp [hf]
      have hfinal := hlasting _ hcreated
      rw [applyAll_cons, htwice] at hfinal
      exact hfinal

end

/-! ## Calls and opening -/

section

variable [Env] {s : Session} {d : Disk}

/-- A call leaves the data file there. Compaction may take it away, but opens it next. -/
theorem Call.created_final (call : Call) (hd : d.Created) : (call.run.final s d).Created := by
  by_cases h : call = .compact
  · subst h
    refine created_of_wp ?_
    have hadopt : ∀ newMetadata st s d,
        wp (Collection.adoptCompacted newMetadata st) (fun _ => True) (fun _ _ d => d.Created)
          (fun _ _ d => d.Created) s d := by
      intro newMetadata st s d
      exact wp_of_final ((Collection.blocks_adoptCompacted newMetadata st).creates
        (head_bind_quiet rfl (head_bind head_openFile)))
    simp only [Call.run, wp_void, Collection.compact, wp_bind, wp_self, wp_emit, wp_pure]
    refine wp_conseq (wp_of_final ((Collection.blocks_writeCompacted Lasting.remove).created hd)) ?_
    intro compacted s' d' _
    exact ⟨trivial, hadopt _ _ _ _⟩
  · exact (Call.admitted h).created hd

/-- Opening a collection leaves its data file there, and creates it if nothing was there. -/
theorem created_openCollection {path : String} {config : CollectionConfig} {draws : Nat}
    (hd : d.Created ∨ d = Disk.empty) :
    ((CollectionBuilder.openCollection path config).final draws d).Created := by
  have hblocks : EmitsBlocks Lasting (CollectionBuilder.openCollection path config) :=
    CollectionBuilder.blocks_openCollection path config
  cases hd with
  | inl hcreated => exact hblocks.created hcreated
  | inr hempty =>
      subst hempty
      have hload : (CollectionBuilder.loadCollection path config draws Disk.empty).effects.head? =
          some (.create .data) := head_bind_quiet rfl (head_bind head_openFile)
      exact hblocks.creates (head_bind hload)

end
