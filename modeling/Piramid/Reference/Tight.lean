-- SUMMARY: An environment whose documents are only read from bytes that are long enough for them.
import Piramid.Reference.Env

/-!
# Documents no longer than their bytes

The reference bytes have an escape for numbers of the model that no machine word holds.
Here a document is refused where it is longer than what it is read from, as it never is where
all numbers are machine words.
-/

namespace Bincode

/-- The codec of a format, for values that are no longer than what they are read from. -/
def tightCodec {α : Type} (f : Binary α) : Codec α where
  encode := f.encode
  decode bytes :=
    match f.decode bytes with
    | some (a, _) =>
      if (f.encode a).length ≤ bytes.length then .ok a else .error "unexpected end of file"
    | none => .error "unexpected end of file"

theorem tightCodec_roundTrips {α : Type} (f : Binary α) : (tightCodec f).RoundTrips := by
  intro a
  simp [tightCodec]

theorem tightCodec_le {α : Type} (f : Binary α) {bytes : Bytes} {a : α}
    (h : (tightCodec f).decode bytes = .ok a) : (f.encode a).length ≤ bytes.length := by
  unfold tightCodec at h
  simp only at h
  split at h
  · split at h
    · rename_i hle
      cases h
      exact hle
    · cases h
  · cases h

end Bincode

namespace Reference

@[reducible] def tight : Env := { flat with document := Bincode.tightCodec Bincode.document }

instance tightDocuments : @TightDocuments tight :=
  letI := tight
  { document := fun _ _ h => Bincode.tightCodec_le _ h }

instance lawfulTight : @LawfulEnv tight :=
  letI := tight
  have h := lawfulEnv fun _ => half
  { document := Bincode.tightCodec_roundTrips _
    offsetIndex := h.offsetIndex
    vectorIndex := h.vectorIndex
    collectionMetadata := h.collectionMetadata
    walHeader := h.walHeader
    walMeta := h.walMeta
    header_line := h.header_line
    entry_line := h.entry_line
    header_ne_nil := h.header_ne_nil
    entry_ne_nil := h.entry_ne_nil
    header_rejects_entry := h.header_rejects_entry }

end Reference
