-- SUMMARY: What is relied on about bincode and serde_json.
import Piramid.Storage.Wal

/-!
# Laws of the encodings

Decoding undoes encoding, and a JSON text is one line. Log entries have laws of their
own: JSON has no text for an infinity or a NaN, and its parser does not descend into
deep metadata. The strictness laws say that a text cut short and two texts in a row
are refused.
-/

/-- The encodings round-trip, and JSON texts are lines that tell headers from
entries. -/
class LawfulEnv [Env] : Prop where
  document : Env.document.RoundTrips
  offsetIndex : Env.offsetIndex.RoundTrips
  vectorIndex : Env.vectorIndex.RoundTrips
  collectionMetadata : Env.collectionMetadata.RoundTrips
  walHeader : Env.walHeader.RoundTrips
  walMeta : Env.walMeta.RoundTrips
  header_line : ∀ header, Lines.OneLine (Env.walHeader.encode header)
  entry_line : ∀ entry, Lines.OneLine (Env.walEntry.encode entry)
  header_ne_nil : ∀ header, Env.walHeader.encode header ≠ []
  entry_ne_nil : ∀ entry, Env.walEntry.encode entry ≠ []
  header_rejects_entry : ∀ entry, Env.walHeader.Rejects (Env.walEntry.encode entry)

/-- Entries without a document are read back. -/
class BareEntries [Env] : Prop where
  legible : ∀ entry : WalEntry, entry.document? = none → entry.Legible

/-- Finite numbers are read back. JSON has no text for an infinity or a NaN, and what is
written in its place is not read as a float; a text nested too deep is not read at all. -/
class JsonEntries [Env] : Prop where
  legible : ∀ entry : WalEntry, entry.Carries Document.Finite → entry.Carries Document.Shallow →
    entry.Legible
  rejects : ∀ entry : WalEntry, ¬(entry.Carries Document.Finite ∧ entry.Carries Document.Shallow) →
    Env.walEntry.Rejects (Env.walEntry.encode entry)

theorem WalEntry.Carries.legible [Env] [BareEntries] {entry : WalEntry}
    (h : entry.Carries Document.Legible) : entry.Legible := by
  cases hdoc : entry.document? with
  | none => exact BareEntries.legible entry hdoc
  | some doc => exact h doc hdoc entry hdoc

/-- A text the log writes. -/
def WalText [Env] (text : Bytes) : Prop :=
  text = Env.walHeader.encode ⟨WAL_VERSION⟩ ∨ ∃ entry, text = Env.walEntry.encode entry

/-- The JSON decoders refuse a text that ends early and a text with another one
behind it. -/
class StrictJson [Env] : Prop where
  torn : ∀ text torn, WalText text → torn <+: text → torn ≠ text →
    Env.walHeader.Rejects torn ∧ Env.walEntry.Rejects torn
  glued : ∀ text text', WalText text → WalText text' →
    Env.walHeader.Rejects (text ++ text') ∧ Env.walEntry.Rejects (text ++ text')

/-- Bincode has one width for each type of number and writes a length before every sequence:
what is read as a document is no shorter than what the document is written as. -/
class TightDocuments [Env] : Prop where
  document : ∀ bytes doc, Env.document.decode bytes = .ok doc →
    (Env.document.encode doc).length ≤ bytes.length

/-- A decoder that refuses every encoding that ends early. -/
def Codec.RejectsTorn {α : Type} (codec : Codec α) : Prop :=
  ∀ a torn, torn <+: codec.encode a → torn ≠ codec.encode a → codec.Rejects torn

/-- The bincode decoders of the sidecars refuse bytes that end early. -/
class StrictBincode [Env] : Prop where
  offsetIndex : Env.offsetIndex.RejectsTorn
  vectorIndex : Env.vectorIndex.RejectsTorn
  collectionMetadata : Env.collectionMetadata.RejectsTorn

/-- Bincode refuses a document that ends early. -/
class StrictDocuments [Env] : Prop where
  document : Env.document.RejectsTorn

namespace Wal

variable [Env] [LawfulEnv]

/-! ## Reading a log back -/

/-- The log with these entries behind its header. -/
def fileOf (entries : List WalEntry) : Bytes :=
  Lines.unlines (Env.walHeader.encode ⟨WAL_VERSION⟩ :: entries.map Env.walEntry.encode)

omit [LawfulEnv] in
theorem fileOf_append (entries : List WalEntry) (entry : WalEntry) :
    fileOf entries ++ line (Env.walEntry.encode entry) = fileOf (entries ++ [entry]) := by
  simp [fileOf, line, Lines.unlines_append]

omit [LawfulEnv] in
theorem fileOf_ne_nil (entries : List WalEntry) : fileOf entries ≠ [] := by
  simp [fileOf]

theorem oneLine_of_mem {entries : List WalEntry} {l : Bytes}
    (h : l ∈ Env.walHeader.encode ⟨WAL_VERSION⟩ :: entries.map Env.walEntry.encode) :
    Lines.OneLine l := by
  cases List.mem_cons.mp h with
  | inl heq => exact heq ▸ LawfulEnv.header_line _
  | inr hmem =>
      obtain ⟨entry, -, rfl⟩ := List.mem_map.mp hmem
      exact LawfulEnv.entry_line entry

theorem readLine_header (minSeq : Nat) :
    readLine minSeq (Env.walHeader.encode ⟨WAL_VERSION⟩) = .ok none := by
  rw [readLine, if_neg (LawfulEnv.header_ne_nil _), LawfulEnv.walHeader]
  rfl

theorem readLine_entry (minSeq : Nat) {entry : WalEntry} (h : entry.Legible) :
    readLine minSeq (Env.walEntry.encode entry) =
      .ok (if minSeq < entry.seq then some entry else none) := by
  rw [readLine, if_neg (LawfulEnv.entry_ne_nil _)]
  cases hd : Env.walHeader.decode (Env.walEntry.encode entry) with
  | ok header => exact absurd hd (LawfulEnv.header_rejects_entry entry header)
  | error e =>
      simp only [show Env.walEntry.decode (Env.walEntry.encode entry) = .ok entry from h]
      by_cases hseq : minSeq < entry.seq
      · rw [if_neg (by omega), if_pos hseq]
      · rw [if_pos (by omega), if_neg hseq]

/-- The entries numbered above `minSeq`. -/
def above (minSeq : Nat) (entries : List WalEntry) : List WalEntry :=
  entries.filter fun entry => minSeq < entry.seq

theorem mapM_readLine (minSeq : Nat) {entries : List WalEntry} (h : ∀ e ∈ entries, e.Legible) :
    (entries.map Env.walEntry.encode).mapM (readLine minSeq) =
      .ok (entries.map fun entry => if minSeq < entry.seq then some entry else none) := by
  induction entries with
  | nil => rfl
  | cons entry entries ih =>
      rw [List.map_cons, List.mapM_cons, readLine_entry minSeq (h entry (by simp)),
        ih fun e he => h e (by simp [he])]
      rfl

/-- A whole log reads back as its entries. -/
theorem entriesOf_fileOf (minSeq : Nat) {entries : List WalEntry} (h : ∀ e ∈ entries, e.Legible) :
    entriesOf minSeq (fileOf entries) = .ok (above minSeq entries) := by
  rw [entriesOf, fileOf, Lines.lines_unlines fun l hl => oneLine_of_mem hl, List.mapM_cons,
    readLine_header, mapM_readLine minSeq h]
  change Except.ok _ = _
  congr 1
  simp only [List.filterMap_cons, id, List.filterMap_map, above, ← List.filterMap_eq_filter]
  apply List.filterMap_congr
  intro entry _
  simp [Option.guard]

end Wal
