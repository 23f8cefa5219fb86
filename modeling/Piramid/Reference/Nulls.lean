-- SUMMARY: An environment whose JSON writes null for the floats that it has no text for, and has a recursion limit.
import Piramid.Reference.Env

/-!
# Null for a float

Where all floats of an entry are finite, the text is the one of the other reference
environments. What is nested too deep is written, and refused when it is read.
-/

namespace Json

open Format

/-- The text of a float, or `null`. -/
def floatText (x : F32) : Bytes := if x.isFinite then float.encode x else ascii "null"

/-- The floats behind the first one. -/
def floatTexts : Vector32 → Bytes
  | [] => [93]
  | x :: xs => 44 :: (floatText x ++ floatTexts xs)

def vectorText : Vector32 → Bytes
  | [] => [91, 93]
  | x :: xs => 91 :: (floatText x ++ floatTexts xs)

/-- Every float in the metadata is finite. -/
def finiteMetadata (md : Metadata) : Bool :=
  decide (∀ k ∈ md.keys, ((md.lookup k).map MetadataValue.isFinite).getD true)

def metadataText (md : Metadata) : Bytes :=
  if finiteMetadata md then metadata.encode md else ascii "null"

def fieldsText (doc : Document) (seq : Nat) : Bytes :=
  (after (ascii "\"id\":") uuid).encode doc.id ++
    ((ascii ",\"vector\":" ++ vectorText doc.vector) ++
      ((after (ascii ",\"text\":") string).encode doc.text ++
        ((ascii ",\"metadata\":" ++ metadataText doc.metadata) ++
          (after (ascii ",\"seq\":") number).encode seq)))

def entryText : WalEntry → Bytes
  | .insert doc seq => ascii "\x7b\"" ++
      (kind.encode .insert ++ ((ascii "nsert\":\x7b" ++ fieldsText doc seq) ++ ascii "\x7d\x7d"))
  | .update doc seq => ascii "\x7b\"" ++
      (kind.encode .update ++ ((ascii "pdate\":\x7b" ++ fieldsText doc seq) ++ ascii "\x7d\x7d"))
  | entry => walEntry.encode entry

/-- No value in the metadata is nested too deep. -/
def shallowMetadata (md : Metadata) : Bool :=
  decide (∀ k ∈ md.keys, ((md.lookup k).map fun v => decide (3 + v.nesting < Document.recursionLimit)).getD true)

def nulled : Codec WalEntry where
  encode := entryText
  decode text := do
    let entry ← (codec walEntry).decode text
    if (entry.document?.map fun doc => shallowMetadata doc.metadata).getD true then .ok entry
    else .error "recursion limit exceeded"

/-! ## Finite entries -/

/-- A check of every value that is looked up. -/
theorem all_keys_iff (md : Metadata) (p : MetadataValue → Bool) :
    decide (∀ k ∈ md.keys, ((md.lookup k).map p).getD true) = true ↔
      ∀ k v, md.lookup k = some v → p v := by
  rw [decide_eq_true_iff]
  constructor
  · intro h k v hv
    have hk := h k ((HashMap.mem_keys_iff md k).mpr ⟨v, hv⟩)
    rw [hv] at hk
    exact hk
  · intro h k hk
    obtain ⟨v, hv⟩ := (HashMap.mem_keys_iff md k).mp hk
    rw [hv]
    exact h k v hv

theorem finiteMetadata_iff (md : Metadata) :
    finiteMetadata md ↔ ∀ k v, md.lookup k = some v → v.isFinite := all_keys_iff md _

theorem shallowMetadata_iff (doc : Document) : shallowMetadata doc.metadata ↔ doc.Shallow := by
  refine (all_keys_iff doc.metadata _).trans ?_
  simp only [decide_eq_true_iff]
  rfl

theorem vectorText_eq {v : Vector32} (h : ∀ x ∈ v, x.isFinite) : vectorText v = vector.encode v := by
  have hfloat : ∀ x : F32, x.isFinite → floatText x = float.encode x := fun x hx => if_pos hx
  have htail : ∀ xs : Vector32, (∀ x ∈ xs, x.isFinite) → floatTexts xs = encodeStream 44 93 float xs := by
    intro xs hxs
    induction xs with
    | nil => rfl
    | cons x xs ih =>
        obtain ⟨hx, hxs⟩ := List.forall_mem_cons.mp hxs
        unfold floatTexts encodeStream
        rw [hfloat x hx, ih hxs]
  cases v with
  | nil => rfl
  | cons x xs =>
      obtain ⟨hx, hxs⟩ := List.forall_mem_cons.mp h
      simp only [vectorText, hfloat x hx, htail xs hxs]
      rfl

theorem fieldsText_eq {doc : Document} (h : doc.Finite) (seq : Nat) :
    fieldsText doc seq = fields.encode (doc, seq) := by
  unfold fieldsText metadataText
  rw [vectorText_eq h.1, if_pos ((finiteMetadata_iff _).mpr h.2)]
  rfl

theorem entryText_eq {entry : WalEntry} (h : entry.Carries Document.Finite) :
    entryText entry = walEntry.encode entry := by
  cases entry with
  | insert doc seq =>
      simp only [entryText, fieldsText_eq (h doc rfl)]
      rfl
  | update doc seq =>
      simp only [entryText, fieldsText_eq (h doc rfl)]
      rfl
  | delete id seq => rfl
  | checkpoint timestamp seq => rfl

/-! ## The others -/

theorem float_refuses_null (s : Bytes) : float.decode (ascii "null" ++ s) = none := rfl

theorem metadata_refuses_null (s : Bytes) : metadata.decode (ascii "null" ++ s) = none := rfl

theorem floatText_head (x : F32) : ∃ c s, floatText x = c :: s ∧ c ≠ 93 := by
  unfold floatText
  split
  · exact float_head x
  · exact ⟨110, ascii "ull", rfl, by decide⟩

theorem floatTexts_refused {xs : Vector32} (h : ∃ x ∈ xs, ¬x.isFinite) (fuel : Nat) (s : Bytes) :
    decodeStream 44 93 float fuel (floatTexts xs ++ s) = none := by
  induction xs generalizing fuel with
  | nil =>
      obtain ⟨x, hx, -⟩ := h
      cases hx
  | cons x xs ih =>
      cases fuel with
      | zero => rfl
      | succ fuel =>
          simp only [floatTexts, List.cons_append, List.append_assoc, decodeStream]
          rw [if_neg (by decide), if_pos trivial]
          by_cases hx : x.isFinite
          · obtain ⟨y, hy, hnot⟩ := h
            have hys : y ∈ xs := by
              refine (List.mem_cons.mp hy).resolve_left ?_
              rintro rfl
              exact hnot hx
            have hrest := ih ⟨y, hys, hnot⟩ fuel
            unfold floatText
            rw [if_pos hx, float.decode_encode, Option.bind_some, hrest]
            rfl
          · unfold floatText
            rw [if_neg hx, float_refuses_null]
            rfl

/-- A float that is written as `null` is refused where it is read. -/
theorem vectorText_refused {v : Vector32} (h : ∃ x ∈ v, ¬x.isFinite) (s : Bytes) :
    vector.decode (vectorText v ++ s) = none := by
  cases v with
  | nil =>
      obtain ⟨x, hx, -⟩ := h
      cases hx
  | cons x xs =>
      have hseq : (float.seq (stream 44 93 (by decide) float)).decode
          (floatText x ++ (floatTexts xs ++ s)) = none := by
        by_cases hx : x.isFinite
        · obtain ⟨y, hy, hnot⟩ := h
          have hys : y ∈ xs := by
            refine (List.mem_cons.mp hy).resolve_left ?_
            rintro rfl
            exact hnot hx
          unfold floatText
          rw [if_pos hx]
          exact seq_refuses_right x (floatTexts_refused ⟨y, hys, hnot⟩ _ s)
        · unfold floatText
          rw [if_neg hx]
          exact seq_refuses_left (float_refuses_null _)
      obtain ⟨c, t, htext, hc⟩ := floatText_head x
      rw [htext, List.cons_append] at hseq
      simp only [vectorText, List.cons_append, List.append_assoc, htext]
      change (if (91 : UInt8) ≠ 91 then none else if c = 93 then some ([], _) else
        ((float.seq (stream 44 93 _ float)).decode (c :: (t ++ (floatTexts xs ++ s)))).map _) = none
      rw [if_neg (by simp), if_neg hc, hseq]
      rfl

theorem fieldsText_refused {doc : Document} (h : ¬doc.Finite) (seq : Nat) (s : Bytes) :
    fields.decode (fieldsText doc seq ++ s) = none := by
  unfold fields fieldsText
  refine map_refuses ?_
  simp only [List.append_assoc]
  refine seq_refuses_right doc.id ?_
  by_cases hv : ∀ x ∈ doc.vector, x.isFinite
  · have hmd : ¬finiteMetadata doc.metadata := fun hmd => h ⟨hv, (finiteMetadata_iff _).mp hmd⟩
    have htext : ascii ",\"vector\":" ++ vectorText doc.vector =
        (after (ascii ",\"vector\":") vector).encode doc.vector := by
      rw [vectorText_eq hv]
      rfl
    rw [← List.append_assoc, htext]
    refine seq_refuses_right doc.vector (seq_refuses_right doc.text (seq_refuses_left ?_))
    rw [decode_after]
    unfold metadataText
    rw [if_neg hmd]
    exact metadata_refuses_null _
  · refine seq_refuses_left ?_
    rw [decode_after]
    refine vectorText_refused ?_ _
    simpa using hv

theorem entryText_refused {entry : WalEntry} (h : ¬entry.Carries Document.Finite) (s : Bytes) :
    walEntry.decode (entryText entry ++ s) = none := by
  have hdoc : ∃ doc, entry.document? = some doc ∧ ¬doc.Finite := by
    simpa only [WalEntry.Carries, not_forall, exists_prop] using h
  obtain ⟨doc, hdoc, hnot⟩ := hdoc
  cases entry with
  | insert doc' seq =>
      cases hdoc
      refine map_refuses ?_
      simp only [entryText, List.append_assoc]
      rw [decode_after]
      refine tagged_refuses Kind.insert (before_refuses ?_)
      exact (decode_after _ fields _).trans (fieldsText_refused hnot seq _)
  | update doc' seq =>
      cases hdoc
      refine map_refuses ?_
      simp only [entryText, List.append_assoc]
      rw [decode_after]
      refine tagged_refuses Kind.update (before_refuses ?_)
      exact (decode_after _ fields _).trans (fieldsText_refused hnot seq _)
  | delete id seq => cases hdoc
  | checkpoint timestamp seq => cases hdoc

/-! ## Deep entries -/

theorem shallow_iff (entry : WalEntry) :
    (entry.document?.map fun doc => shallowMetadata doc.metadata).getD true ↔
      entry.Carries Document.Shallow := by
  unfold WalEntry.Carries
  cases entry.document? with
  | none => simp
  | some doc => simp [shallowMetadata_iff]

theorem decode_entryText {entry : WalEntry} (h : entry.Carries Document.Finite) :
    nulled.decode (entryText entry) =
      if (entry.document?.map fun doc => shallowMetadata doc.metadata).getD true then .ok entry
      else .error "recursion limit exceeded" := by
  have hdecode : (codec walEntry).decode (entryText entry) = .ok entry := by
    rw [entryText_eq h]
    exact codec_roundTrips _ entry
  change (codec walEntry).decode (entryText entry) >>= _ = _
  rw [hdecode]
  rfl

/-! ## The laws -/

theorem printable_floatText (x : F32) : ∀ c ∈ floatText x, Printable c := by
  have hfloat : float.Within Printable := within_common _ (by decide) rfl
  unfold floatText
  split
  · exact hfloat x
  · exact printable_text rfl

theorem printable_vectorText (v : Vector32) : ∀ c ∈ vectorText v, Printable c := by
  have htail : ∀ xs : Vector32, ∀ c ∈ floatTexts xs, Printable c := by
    intro xs
    induction xs with
    | nil => exact printable_text rfl
    | cons x xs ih =>
        exact List.forall_mem_cons.mpr ⟨(by decide : Printable 44),
          List.forall_mem_append.mpr ⟨printable_floatText x, ih⟩⟩
  cases v with
  | nil => exact printable_text rfl
  | cons x xs =>
      exact List.forall_mem_cons.mpr ⟨(by decide : Printable 91),
        List.forall_mem_append.mpr ⟨printable_floatText x, htail xs⟩⟩

theorem printable_fieldsText (doc : Document) (seq : Nat) : ∀ c ∈ fieldsText doc seq, Printable c := by
  have hstring : string.Within Printable := within_common _ (by decide) rfl
  have hmetadata : ∀ c ∈ metadataText doc.metadata, Printable c := by
    have hwithin : metadata.Within Printable := within_common _ (by decide) rfl
    unfold metadataText
    split
    · exact hwithin doc.metadata
    · exact printable_text rfl
  unfold fieldsText
  simp only [List.forall_mem_append]
  refine ⟨within_after within_uuid rfl doc.id, ⟨printable_text rfl, printable_vectorText _⟩, ?_⟩
  exact ⟨within_after hstring rfl doc.text, ⟨printable_text rfl, hmetadata⟩,
    within_after within_number rfl seq⟩

theorem printable_entryText (entry : WalEntry) : ∀ c ∈ entryText entry, Printable c := by
  cases entry with
  | insert doc seq =>
      simp only [entryText, List.forall_mem_append]
      exact ⟨printable_text rfl, within_kind .insert,
        ⟨printable_text rfl, printable_fieldsText doc seq⟩, printable_text rfl⟩
  | update doc seq =>
      simp only [entryText, List.forall_mem_append]
      exact ⟨printable_text rfl, within_kind .update,
        ⟨printable_text rfl, printable_fieldsText doc seq⟩, printable_text rfl⟩
  | delete id seq => exact within_walEntry _
  | checkpoint timestamp seq => exact within_walEntry _

theorem header_rejects_entryText (entry : WalEntry) : walHeader.decode (entryText entry) = none := by
  cases entry with
  | insert doc seq => rfl
  | update doc seq => rfl
  | delete id seq => rfl
  | checkpoint timestamp seq => rfl

end Json

namespace Reference

/-- The flat environment, with null for the floats that JSON has no text for. -/
@[reducible] def nulls : Env := { flat with walEntry := Json.nulled }

instance lawfulNulls : @LawfulEnv nulls :=
  letI := nulls
  have h := lawfulEnv fun _ => half
  { document := h.document
    offsetIndex := h.offsetIndex
    vectorIndex := h.vectorIndex
    collectionMetadata := h.collectionMetadata
    walHeader := h.walHeader
    walMeta := h.walMeta
    header_line := h.header_line
    entry_line := by
      intro entry
      have hprintable := Json.printable_entryText entry
      have hlf : ¬Json.Printable Lines.lf := by decide
      have hcr : ¬Json.Printable Lines.cr := by decide
      exact ⟨fun hmem => hlf (hprintable _ hmem), fun hmem => hcr (hprintable _ hmem)⟩
    header_ne_nil := h.header_ne_nil
    entry_ne_nil := by
      intro entry
      cases entry with
      | insert doc seq => exact List.cons_ne_nil _ _
      | update doc seq => exact List.cons_ne_nil _ _
      | delete id seq => exact List.cons_ne_nil _ _
      | checkpoint timestamp seq => exact List.cons_ne_nil _ _
    header_rejects_entry := fun entry => rejects_of_none (Json.header_rejects_entryText entry) }

instance jsonEntries : @JsonEntries nulls :=
  letI := nulls
  { legible := by
      intro entry hfinite hshallow
      change Json.nulled.decode (Json.entryText entry) = _
      rw [Json.decode_entryText hfinite, if_pos ((Json.shallow_iff entry).mpr hshallow)]
    rejects := by
      intro entry hnot entry' hread
      change Json.nulled.decode (Json.entryText entry) = _ at hread
      by_cases hfinite : entry.Carries Document.Finite
      · have hdeep : ¬entry.Carries Document.Shallow := fun h => hnot ⟨hfinite, h⟩
        rw [Json.decode_entryText hfinite, if_neg fun h => hdeep ((Json.shallow_iff entry).mp h)] at hread
        cases hread
      · have hrefused := Json.entryText_refused hfinite []
        rw [List.append_nil] at hrefused
        obtain ⟨read, hdecode, -⟩ := Loop.bind_eq_ok.mp hread
        exact rejects_of_none hrefused read hdecode }

end Reference
