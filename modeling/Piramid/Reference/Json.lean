-- SUMMARY: A concrete text format for the log: JSON, with quoted bytes for values whose JSON text is not modelled.
import Piramid.Reference.Bincode

/-!
# A text format

The lines of the log and `wal.meta` as `serde_json` writes them, as far as the
structure goes. Of the values, ids and one-digit numbers have their JSON text, and
so have the float 1.0, the empty text and the empty map; any other is an `x` and
its binary format in hexadecimal.
-/

namespace Json

open Format

abbrev Text (α : Type) : Type := Format UInt8 α

/-- The bytes of an ASCII string. -/
def ascii (s : String) : Bytes := s.toList.map fun c => UInt8.ofNat c.toNat

/-! ## Hexadecimal -/

def hexDigit (d : Fin 16) : UInt8 :=
  if d.val < 10 then UInt8.ofNat (48 + d) else UInt8.ofNat (87 + d)

def hexValue (c : UInt8) : Option (Fin 16) :=
  if 48 ≤ c ∧ c < 58 then some (Fin.ofNat 16 (c.toNat - 48))
  else if 97 ≤ c ∧ c < 103 then some (Fin.ofNat 16 (c.toNat - 87))
  else none

theorem hexValue_hexDigit : ∀ d, hexValue (hexDigit d) = some d := by decide

def hex : Text (Fin 16) := symbol.convert hexValue hexDigit hexValue_hexDigit

def quote (b : UInt8) : UInt8 × UInt8 :=
  (hexDigit (Fin.ofNat 16 (b.toNat / 16)), hexDigit (Fin.ofNat 16 b.toNat))

def unquote (c c' : UInt8) : Option UInt8 :=
  match hexValue c, hexValue c' with
  | some d, some d' => some (UInt8.ofNat (16 * d + d'))
  | _, _ => none

theorem unquote_quote (b : UInt8) : unquote (quote b).1 (quote b).2 = some b := by
  have hb := b.toNat_lt
  have hsplit : 16 * (b.toNat / 16 % 16) + b.toNat % 16 = b.toNat := by omega
  simp only [unquote, quote, hexValue_hexDigit, Fin.val_ofNat, hsplit, UInt8.ofNat_toNat]

theorem hexDigit_ne_semicolon : ∀ d, hexDigit d ≠ 59 := by decide

/-- Bytes as pairs of digits, up to a semicolon. -/
def hexPairs : Quotation UInt8 UInt8 where
  quote := quote
  unquote := unquote
  stop := 59
  unquote_quote := unquote_quote
  quote_ne_stop _ := hexDigit_ne_semicolon _

def hexed {α : Type} (f : Bincode.Binary α) : Text α := quoted hexPairs f

/-! ## Values -/

/-- Whether a value has its JSON text, which then begins with `c`. -/
def spelled (c : UInt8) (h : c ≠ 120) : Text Bool :=
  symbol.convert (fun c' => if c' = c then some true else if c' = 120 then some false else none)
    (fun b => if b then c else 120) fun b => by
      cases b with
      | true => simp
      | false => simp [Ne.symm h]

/-- One value with its JSON text `c :: text`, the others in hexadecimal. -/
def common {α : Type} (c : UInt8) (h : c ≠ 120) (text : Bytes) (a₀ : α)
    (is : (a : α) → Decidable (a = a₀)) (f : Bincode.Binary α) : Text α :=
  (tagged (β := fun b => if b then Unit else α) (spelled c h) fun
      | true => literal text
      | false => hexed f).map
    (fun
      | ⟨true, _⟩ => a₀
      | ⟨false, a⟩ => a)
    (fun a => match is a with
      | .isTrue _ => ⟨true, ()⟩
      | .isFalse _ => ⟨false, a⟩)
    fun a => by
      cases is a with
      | isTrue heq => exact heq.symm
      | isFalse _ => rfl

theorem common_head {α : Type} {c : UInt8} {h : c ≠ 120} {text : Bytes} {a₀ : α}
    {is : (a : α) → Decidable (a = a₀)} {f : Bincode.Binary α} (a : α) :
    ∃ s, (common c h text a₀ is f).encode a = c :: s ∨
      (common c h text a₀ is f).encode a = 120 :: s := by
  cases his : is a with
  | isTrue _ =>
      refine ⟨text, .inl ?_⟩
      simp only [common, map, convert, his]
      rfl
  | isFalse _ =>
      refine ⟨(hexed f).encode a, .inr ?_⟩
      simp only [common, map, convert, his]
      rfl

def number : Text Nat :=
  escape symbol (hexed Bincode.u64)
    (fun n => if n < 10 then some (UInt8.ofNat (48 + n)) else none)
    (fun c => if 48 ≤ c ∧ c < 58 then some (c.toNat - 48) else none)
    120
    (by
      have h : ∀ n : Fin 10, (48 ≤ UInt8.ofNat (48 + n) ∧ UInt8.ofNat (48 + n) < 58) ∧
          (UInt8.ofNat (48 + n)).toNat - 48 = n := by decide
      intro n c hc
      split at hc
      · cases hc
        obtain ⟨hrange, hval⟩ := h ⟨n, ‹_›⟩
        rw [if_pos hrange]
        exact congrArg some hval
      · cases hc)
    (by decide)

def float : Text F32 :=
  common 49 (by decide) (ascii ".0") F32.one (fun x => inferInstance) Bincode.f32

def string : Text String :=
  common 34 (by decide) [34] "" (fun s => inferInstance) Bincode.string

def isEmpty (m : Metadata) : Decidable (m = ∅) :=
  decidable_of_iff (m.keys = ∅) ⟨fun h => Finmap.ext_lookup fun k => by
    rw [Finmap.lookup_empty, ← HashMap.not_mem_keys_iff, h]
    exact Finset.notMem_empty k, fun h => h ▸ Finmap.keys_empty⟩

def metadata : Text Metadata := common 123 (by decide) (ascii "\x7d") ∅ isEmpty Bincode.metadata

/-- The groups of digits of an id. -/
def groups : Text (Fin (16 ^ 8) × Fin (16 ^ 4) × Fin (16 ^ 4) × Fin (16 ^ 4) × Fin (16 ^ 12)) :=
  let dash {α : Type} (f : Text α) : Text α := after (ascii "-") f
  (bigEndian hex 8).seq ((dash (bigEndian hex 4)).seq ((dash (bigEndian hex 4)).seq
    ((dash (bigEndian hex 4)).seq (dash (bigEndian hex 12)))))

def uuid : Text Uuid :=
  before (after (ascii "\"") <| groups.map
    (fun p => BitVec.ofNat 128 ((((p.1 * 2 ^ 16 + p.2.1) * 2 ^ 16 + p.2.2.1) * 2 ^ 16 + p.2.2.2.1) *
      2 ^ 48 + p.2.2.2.2))
    (fun id => (⟨id.toNat / 2 ^ 96, by have := id.isLt; omega⟩,
      ⟨id.toNat / 2 ^ 80 % 2 ^ 16, by omega⟩, ⟨id.toNat / 2 ^ 64 % 2 ^ 16, by omega⟩,
      ⟨id.toNat / 2 ^ 48 % 2 ^ 16, by omega⟩, ⟨id.toNat % 2 ^ 48, by omega⟩))
    fun id => by
      apply BitVec.eq_of_toNat_eq
      have := id.isLt
      simp only [BitVec.toNat_ofNat]
      omega) (ascii "\"")

theorem float_head (x : F32) : ∃ c s, float.encode x = c :: s ∧ c ≠ 93 := by
  obtain ⟨s, h | h⟩ := common_head x
  · exact ⟨49, s, h, by decide⟩
  · exact ⟨120, s, h, by decide⟩

def vector : Text Vector32 := bracketed 91 44 93 (by decide) float float_head

/-! ## Lines -/

def walHeader : Text WalHeader :=
  (before (after (ascii "\x7b\"version\":") number) (ascii "\x7d")).map WalHeader.mk WalHeader.version
    fun _ => rfl

def walMeta : Text WalMeta :=
  (before (after (ascii "\x7b\"last_checkpoint_seq\":") number) (ascii "\x7d")).map WalMeta.mk
    WalMeta.lastCheckpointSeq fun _ => rfl

/-- The fields of an insert or an update. -/
def fields : Text (Document × Nat) :=
  ((after (ascii "\"id\":") uuid).seq ((after (ascii ",\"vector\":") vector).seq
    ((after (ascii ",\"text\":") string).seq ((after (ascii ",\"metadata\":") metadata).seq
      (after (ascii ",\"seq\":") number))))).map
    (fun p => (⟨p.1, p.2.1, p.2.2.1, p.2.2.2.1⟩, p.2.2.2.2))
    (fun p => (p.1.id, p.1.vector, p.1.text, p.1.metadata, p.2)) fun _ => rfl

/-- The variants of `WalEntry`. -/
inductive Kind where
  | insert | update | delete | checkpoint

/-- The first letter of a variant's name. -/
def kind : Text Kind :=
  symbol.convert
    (fun c =>
      if c = 73 then some .insert
      else if c = 85 then some .update
      else if c = 68 then some .delete
      else if c = 67 then some .checkpoint
      else none)
    (fun
      | .insert => 73
      | .update => 85
      | .delete => 68
      | .checkpoint => 67)
    (by rintro (_ | _) <;> rfl)

def Kind.Payload : Kind → Type
  | .insert | .update => Document × Nat
  | .delete => Uuid × Nat
  | .checkpoint => Nat × Nat

/-- What follows the first letter. -/
def payload : (k : Kind) → Text k.Payload
  | .insert => before (after (ascii "nsert\":\x7b") fields) (ascii "\x7d\x7d")
  | .update => before (after (ascii "pdate\":\x7b") fields) (ascii "\x7d\x7d")
  | .delete => before (after (ascii "elete\":\x7b\"id\":") (uuid.seq
      (after (ascii ",\"seq\":") number))) (ascii "\x7d\x7d")
  | .checkpoint => before (after (ascii "heckpoint\":\x7b\"timestamp\":") (number.seq
      (after (ascii ",\"seq\":") number))) (ascii "\x7d\x7d")

def walEntry : Text WalEntry :=
  (after (ascii "\x7b\"") (tagged kind payload)).map
    (fun
      | ⟨.insert, p⟩ => .insert p.1 p.2
      | ⟨.update, p⟩ => .update p.1 p.2
      | ⟨.delete, p⟩ => .delete p.1 p.2
      | ⟨.checkpoint, p⟩ => .checkpoint p.1 p.2)
    (fun
      | .insert doc seq => ⟨.insert, (doc, seq)⟩
      | .update doc seq => ⟨.update, (doc, seq)⟩
      | .delete id seq => ⟨.delete, (id, seq)⟩
      | .checkpoint timestamp seq => ⟨.checkpoint, (timestamp, seq)⟩)
    (by rintro (_ | _) <;> rfl)

/-! ## As a codec -/

/-- The codec of a format. Nothing may follow the value. -/
def codec {α : Type} (f : Text α) : Codec α where
  encode := f.encode
  decode text :=
    match f.decode text with
    | some (a, []) => .ok a
    | some (_, _ :: _) => .error "trailing characters"
    | none => .error "EOF while parsing a value"

theorem codec_roundTrips {α : Type} (f : Text α) : (codec f).RoundTrips := by
  intro a
  simp [codec]

/-! ## Laws -/

/-- Not a control character. -/
def Printable (c : UInt8) : Prop := 32 ≤ c

instance (c : UInt8) : Decidable (Printable c) := inferInstanceAs (Decidable (32 ≤ c))

theorem printable_text {text : Bytes} (h : (text.all fun c => 32 ≤ c) = true) :
    ∀ c ∈ text, Printable c :=
  fun c hc => of_decide_eq_true (List.all_eq_true.mp h c hc)

section

variable {α : Type} {f : Text α} {text : Bytes}

theorem within_after (hf : f.Within Printable) (h : (text.all fun c => 32 ≤ c) = true) :
    (after text f).Within Printable :=
  hf.after (printable_text h)

theorem within_before (hf : f.Within Printable) (h : (text.all fun c => 32 ≤ c) = true) :
    (before f text).Within Printable :=
  hf.before (printable_text h)

end

theorem printable_hexDigit : ∀ d, Printable (hexDigit d) := by decide

theorem within_hexed {α : Type} (f : Bincode.Binary α) : (hexed f).Within Printable :=
  within_quoted (by decide) fun _ => ⟨printable_hexDigit _, printable_hexDigit _⟩

theorem within_common {α : Type} {c : UInt8} {h : c ≠ 120} {text : Bytes} {a₀ : α}
    {is : (a : α) → Decidable (a = a₀)} (f : Bincode.Binary α) (hc : Printable c)
    (htext : (text.all fun c => 32 ≤ c) = true) : (common c h text a₀ is f).Within Printable := by
  refine Within.map (Within.tagged ?_ ?_) _
  · intro b c' hc'
    obtain rfl := List.mem_singleton.mp hc'
    cases b with
    | true => exact hc
    | false => exact (by decide : Printable 120)
  · intro b
    cases b with
    | true => exact within_literal (printable_text htext)
    | false => exact within_hexed f

theorem within_number : number.Within Printable := by
  have h : ∀ n : Fin 10, Printable (UInt8.ofNat (48 + n)) := by decide
  refine Within.escape ?_ (printable_text rfl) (within_hexed _) _ _
  intro n c hc c' hc'
  obtain rfl := List.mem_singleton.mp hc'
  split at hc
  · cases hc
    exact h ⟨n, ‹_›⟩
  · cases hc

theorem within_hex : hex.Within Printable := by
  intro d c hc
  obtain rfl := List.mem_singleton.mp hc
  exact printable_hexDigit d

theorem within_uuid : uuid.Within Printable := by
  have hdash : ∀ {k : Nat}, (after (ascii "-") (bigEndian hex k)).Within Printable :=
    within_after (within_hex.bigEndian _) rfl
  have hgroups : groups.Within Printable :=
    (within_hex.bigEndian 8).seq (hdash.seq (hdash.seq (hdash.seq hdash)))
  exact within_before (within_after (hgroups.map _) rfl) rfl

theorem within_vector : vector.Within Printable :=
  Within.bracketed (within_common _ (by decide) rfl) _ (by decide) (by decide) (by decide) _

theorem within_fields : fields.Within Printable := by
  have hstring : string.Within Printable := within_common _ (by decide) rfl
  have hmetadata : metadata.Within Printable := within_common _ (by decide) rfl
  exact ((within_after within_uuid rfl).seq ((within_after within_vector rfl).seq
    ((within_after hstring rfl).seq ((within_after hmetadata rfl).seq
      (within_after within_number rfl))))).map _

theorem within_walHeader : walHeader.Within Printable :=
  (within_before (within_after within_number rfl) rfl).map _

theorem within_kind : kind.Within Printable := by
  intro k c hc
  obtain rfl := List.mem_singleton.mp hc
  cases k with
  | insert => exact (by decide : Printable 73)
  | update => exact (by decide : Printable 85)
  | delete => exact (by decide : Printable 68)
  | checkpoint => exact (by decide : Printable 67)

theorem within_payload (k : Kind) : (payload k).Within Printable := by
  have hseq : (after (ascii ",\"seq\":") number).Within Printable := within_after within_number rfl
  cases k with
  | insert => exact within_before (within_after within_fields rfl) rfl
  | update => exact within_before (within_after within_fields rfl) rfl
  | delete => exact within_before (within_after (within_uuid.seq hseq) rfl) rfl
  | checkpoint => exact within_before (within_after (within_number.seq hseq) rfl) rfl

theorem within_walEntry : walEntry.Within Printable :=
  (within_after (Within.tagged within_kind within_payload) rfl).map _

/-- Printable text is one line. -/
theorem oneLine_encode {α : Type} {f : Text α} (h : f.Within Printable) (a : α) :
    Lines.OneLine (f.encode a) := by
  have hlf : ¬Printable Lines.lf := by decide
  have hcr : ¬Printable Lines.cr := by decide
  exact ⟨fun hmem => hlf (h a _ hmem), fun hmem => hcr (h a _ hmem)⟩

/-- No entry is taken for a header, whatever follows it. -/
theorem header_rejects (entry : WalEntry) (more : Bytes) :
    walHeader.decode (walEntry.encode entry ++ more) = none := by
  cases entry <;> rfl

/-- No header is taken for an entry. -/
theorem entry_rejects (header : WalHeader) (more : Bytes) :
    walEntry.decode (walHeader.encode header ++ more) = none := rfl

end Json
