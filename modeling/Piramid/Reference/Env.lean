-- SUMMARY: A concrete environment that satisfies every law the development relies on.
import Piramid.Reference.Json

/-!
# A concrete environment

Of the arithmetic, only comparisons are those of the processor throughout. The
other operations are tables that agree with it on zero, one, two and the
logarithms of the two draws used, and return zero elsewhere.
-/

namespace Reference

def half : F32 := 0x3f000000#32
def quarter : F32 := 0x3e800000#32
def two : F32 := 0x40000000#32
/-- The logarithm of 2. -/
def ln2 : F32 := 0x3f317218#32
/-- The logarithm of 4. -/
def ln4 : F32 := 0x3fb17218#32

def neg (x : F32) : F32 := x ^^^ 0x80000000#32

/-- The bits of a number, as a signed magnitude. -/
def magnitude (x : F32) : Int :=
  let bits := (x &&& 0x7fffffff#32).toNat
  if x.msb then -bits else bits

def isNaN (x : F32) : Bool := (x &&& 0x7fffffff#32).toNat > F32.infinity.toNat

def partialCmp (x y : F32) : Option Ordering :=
  if isNaN x || isNaN y then none else some (compare (magnitude x) (magnitude y))

/-- The first value paired with `x`, or zero. -/
def tabulated {α : Type} [DecidableEq α] (table : List (α × F32)) (x : α) : F32 :=
  ((table.find? fun row => row.1 = x).map Prod.snd).getD F32.zero

@[reducible] def floats : Floats where
  add x y :=
    if x = F32.zero then y else if y = F32.zero then x
    else tabulated [((F32.one, F32.one), two)] (x, y)
  sub x y :=
    if y = F32.zero then x
    else tabulated [((two, F32.one), F32.one), ((F32.one, two), neg F32.one)] (x, y)
  mul x y := if y = F32.one then x else if x = F32.one then y else F32.zero
  div x y :=
    if y = F32.one then x else tabulated [((two, two), F32.one), ((F32.one, two), half)] (x, y)
  neg := neg
  sqrt := tabulated [(F32.one, F32.one)]
  ln := tabulated [(half, neg ln2), (quarter, neg ln4)]
  floor := tabulated [(ln4, F32.one), (F32.one, F32.one), (two, two)]
  max x y := if partialCmp x y = some .lt then y else x
  min x y := if partialCmp x y = some .gt then y else x
  partialCmp := partialCmp
  ofUsize := tabulated [(1, F32.one), (2, two)]
  toUsize x := if x = F32.one then 1 else if x = two then 2 else 0
  simdDetected := true
  cosineKernel _ := fun v w => tabulated [(([F32.one], [F32.one]), F32.one)] (v, w)
  euclideanKernel _ := fun v w => tabulated [(([two], [F32.one]), F32.one),
    (([F32.one], [two]), F32.one)] (v, w)
  dotKernel _ := fun v w => tabulated [(([F32.one], [F32.one]), F32.one),
    (([F32.one], [two]), two), (([two], [F32.one]), two)] (v, w)
  disorder _ _ _ := none

/-- The environment with the given random numbers, at the epoch. -/
@[reducible] def env (random : Nat → F32) : Env where
  toFloats := floats
  document := Bincode.codec Bincode.document
  offsetIndex := Bincode.codec Bincode.offsetIndex
  vectorIndex := Bincode.codec Bincode.vectorIndex
  collectionMetadata := Bincode.codec Bincode.collectionMetadata
  walHeader := Json.codec Json.walHeader
  walEntry := Json.codec Json.walEntry
  walMeta := Json.codec Json.walMeta
  chance n := ⟨random n, Bincode.idOrder, 0⟩

/-- The environment in which every draw puts a node on layer 0. -/
@[reducible] def flat : Env := env fun _ => half

variable (random : Nat → F32)

theorem rejects_of_none {α : Type} {f : Json.Text α} {text : Bytes} (h : f.decode text = none) :
    (Json.codec f).Rejects text := by
  intro a ha
  simp [Json.codec, h] at ha

instance lawfulEnv : @LawfulEnv (env random) :=
  letI := env random
  { document := Bincode.codec_roundTrips _
    offsetIndex := Bincode.codec_roundTrips _
    vectorIndex := Bincode.codec_roundTrips _
    collectionMetadata := Bincode.codec_roundTrips _
    walHeader := Json.codec_roundTrips _
    walMeta := Json.codec_roundTrips _
    header_line := Json.oneLine_encode Json.within_walHeader
    entry_line := Json.oneLine_encode Json.within_walEntry
    header_ne_nil := fun _ => List.cons_ne_nil _ _
    entry_ne_nil := fun _ => List.cons_ne_nil _ _
    header_rejects_entry := by
      intro entry
      have hdecode := Json.header_rejects entry []
      rw [List.append_nil] at hdecode
      exact rejects_of_none hdecode }

instance bareEntries : @BareEntries (env random) :=
  letI := env random
  { legible := fun entry _ => Json.codec_roundTrips _ entry }

theorem legible (doc : Document) : @Document.Legible (env random) doc :=
  letI := env random
  fun entry _ => Json.codec_roundTrips _ entry

theorem rejects_trailing {α : Type} {f : Json.Text α} (a : α) {more : Bytes} (h : more ≠ []) :
    (Json.codec f).Rejects (f.encode a ++ more) := by
  intro b hb
  obtain ⟨c, s, rfl⟩ := List.exists_cons_of_ne_nil h
  simp [Json.codec, f.decode_encode] at hb

instance strictJson : @StrictJson (env random) :=
  letI := env random
  { torn := by
      rintro text torn (rfl | ⟨entry, rfl⟩) hpre hne
      · refine ⟨rejects_of_none (Json.walHeader.decode_torn hpre hne), rejects_of_none ?_⟩
        obtain ⟨more, hmore⟩ := hpre
        have h : Json.walEntry.decode (torn ++ more) = none := by
          rw [hmore]
          exact Json.entry_rejects ⟨WAL_VERSION⟩ []
        exact Json.walEntry.decode_prefix_none h
      · refine ⟨rejects_of_none ?_, rejects_of_none (Json.walEntry.decode_torn hpre hne)⟩
        obtain ⟨more, hmore⟩ := hpre
        have h : Json.walHeader.decode (torn ++ more) = none := by
          rw [hmore, ← List.append_nil (Env.walEntry.encode entry)]
          exact Json.header_rejects entry []
        exact Json.walHeader.decode_prefix_none h
    glued := by
      have hne : ∀ text : Bytes, WalText text → text ≠ [] := by
        rintro text (rfl | ⟨entry, rfl⟩)
        · exact LawfulEnv.header_ne_nil _
        · exact LawfulEnv.entry_ne_nil entry
      rintro text text' (rfl | ⟨entry, rfl⟩) htext'
      · exact ⟨rejects_trailing _ (hne text' htext'), rejects_of_none (Json.entry_rejects _ _)⟩
      · exact ⟨rejects_of_none (Json.header_rejects entry text'),
          rejects_trailing entry (hne text' htext')⟩ }

instance strictDocuments : @StrictDocuments (env random) :=
  letI := env random
  { document := Bincode.codec_rejectsTorn _ }

instance strictBincode : @StrictBincode (env random) :=
  letI := env random
  { offsetIndex := Bincode.codec_rejectsTorn _
    vectorIndex := Bincode.codec_rejectsTorn _
    collectionMetadata := Bincode.codec_rejectsTorn _ }

end Reference
