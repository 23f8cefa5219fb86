-- SUMMARY: A log cut at any byte: it can be read and appended to exactly when the cut falls between two lines.
import Piramid.Base.Loop
import Piramid.Reference.Env

/-!
# Torn logs

The log refines a list of numbered entries: one step lemma for each of its
operations, then runs. A log cut short is then a run's file up to some byte.
-/

open Loop Prog

/-- An operation on an open log. -/
inductive WalOp where
  | log (entry : WalEntry)
  | checkpoint (timestamp : Nat)
  | rotate

/-- The entries a log holds and the next number it gives out. -/
structure LogState where
  entries : List WalEntry
  nextSeq : Nat

namespace LogState

def log (st : LogState) (entry : WalEntry) : LogState :=
  ⟨st.entries ++ [entry.withSeq st.nextSeq], st.nextSeq + 1⟩

def step (st : LogState) : WalOp → LogState
  | .log entry => st.log entry
  | .checkpoint timestamp => st.log (.checkpoint timestamp 0)
  | .rotate => ⟨[], st.nextSeq⟩

def run (st : LogState) (ops : List WalOp) : LogState := ops.foldl step st

/-- The documents it holds satisfy `P`. -/
def Carries (P : Document → Prop) (st : LogState) : Prop := ∀ e ∈ st.entries, e.Carries P

end LogState

def WalOp.Carries (P : Document → Prop) : WalOp → Prop
  | .log entry => entry.Carries P
  | _ => True

section

variable {P : Document → Prop}

theorem LogState.Carries.log {st : LogState} (h : st.Carries P) {entry : WalEntry}
    (he : entry.Carries P) : (st.log entry).Carries P := by
  intro e hmem
  cases List.mem_append.mp hmem with
  | inl hold => exact h e hold
  | inr hnew => exact List.mem_singleton.mp hnew ▸ he.withSeq _

theorem LogState.Carries.run {s : LogState} (h : s.Carries P) {ops : List WalOp}
    (hops : ∀ op ∈ ops, op.Carries P) : (s.run ops).Carries P := by
  induction ops generalizing s with
  | nil => exact h
  | cons op ops ih =>
      refine ih ?_ fun op' hop' => hops op' (by simp [hop'])
      cases op with
      | log entry => exact h.log (hops (.log entry) (by simp))
      | checkpoint timestamp => exact h.log fun doc hdoc => by cases hdoc
      | rotate => exact fun e he => by cases he

end

namespace Wal

variable [Env] {σ : Type}

def step (wal : Wal) : WalOp → Io σ Wal
  | .log entry => wal.log entry
  | .checkpoint timestamp => wal.checkpoint timestamp
  | .rotate => do
    wal.rotate
    pure wal

def run (wal : Wal) : List WalOp → Io σ Wal
  | [] => pure wal
  | op :: ops => do
    let wal ← wal.step op
    run wal ops

/-- Open a log, operate on it, and replay it. -/
def session (nextSeq : Nat) (ops : List WalOp) (minSeq : Nat) : Io σ (List WalEntry) := do
  let wal ← Wal.new nextSeq
  let wal ← wal.run ops
  wal.replay minSeq

/-! ## The log refines its entries -/

variable {s : σ} {d : Disk}

/-- The log on disk `d` holds `st`. -/
def Holds (d : Disk) (st : LogState) : Prop := d .wal = some (fileOf st.entries)

theorem new_spec (nextSeq : Nat) :
    wp (Wal.new nextSeq : Io σ Wal) (fun _ => True)
      (fun wal _ d' => wal = ⟨true, nextSeq⟩ ∧ d' .wal = some
        (if d.read .wal = [] then fileOf [] else d.read .wal))
      (fun _ _ _ => False) s d := by
  simp only [Wal.new, ensureHeader, fileLen, Bool.not_true, Bool.false_eq_true, if_false, wp_bind,
    wp_emit, wp_device, wp_pure, wp_when, true_and, Effect.apply_create, Effect.apply_append,
    Disk.read_put_self, Disk.put_self, Option.getD_some, List.length_eq_zero_iff]
  refine ⟨fun hnil => ?_, fun hne => ?_⟩
  · simp [hnil, fileOf, line]
  · simp [hne]

theorem step_spec {st : LogState} (h : Holds d st) (op : WalOp) :
    wp ((⟨true, st.nextSeq⟩ : Wal).step op : Io σ Wal) (fun _ => True)
      (fun wal _ d' => wal = ⟨true, (st.step op).nextSeq⟩ ∧ Holds d' (st.step op))
      (fun _ _ _ => False) s d := by
  have hread : d.read .wal = fileOf st.entries := by
    rw [Disk.read, h]
    rfl
  cases op with
  | log entry =>
      simp [step, log, LogState.step, LogState.log, Holds, hread, fileOf_append]
  | checkpoint timestamp =>
      simp [step, checkpoint, log, LogState.step, LogState.log, Holds, hread, fileOf_append]
  | rotate =>
      simp [step, rotate, ensureHeader, fileLen, LogState.step, Holds, fileOf, line]

theorem run_spec {st : LogState} (h : Holds d st) (ops : List WalOp) :
    wp ((⟨true, st.nextSeq⟩ : Wal).run ops : Io σ Wal) (fun _ => True)
      (fun wal _ d' => wal = ⟨true, (st.run ops).nextSeq⟩ ∧ Holds d' (st.run ops))
      (fun _ _ _ => False) s d := by
  induction ops generalizing st s d with
  | nil => exact wp_pure.mpr ⟨rfl, h⟩
  | cons op ops ih =>
      refine wp_bind.mpr (wp_conseq (step_spec h op) ?_)
      rintro wal s' d' ⟨rfl, h'⟩
      exact ih h'

/-- A session on a log that holds whole lines, or nothing yet. -/
theorem session_whole [LawfulEnv] [BareEntries] {entries : List WalEntry}
    (hdocs : ∀ e ∈ entries, e.Carries Document.Legible)
    (h : d.read .wal = fileOf entries ∨ d.read .wal = [] ∧ entries = []) (nextSeq minSeq : Nat)
    {ops : List WalOp} (hops : ∀ op ∈ ops, op.Carries Document.Legible) :
    (session nextSeq ops minSeq s d).result =
      .ok (above minSeq ((LogState.mk entries nextSeq).run ops).entries) := by
  have hspec : wp (session nextSeq ops minSeq : Io σ (List WalEntry)) (fun _ => True)
      (fun es _ _ => es = above minSeq ((LogState.mk entries nextSeq).run ops).entries)
      (fun _ _ _ => False) s d := by
    refine wp_bind.mpr (wp_conseq (new_spec nextSeq) ?_)
    rintro wal s₁ d₁ ⟨rfl, hd₁⟩
    have hholds : Holds d₁ ⟨entries, nextSeq⟩ := by
      rcases h with h | ⟨hnil, rfl⟩
      · rw [Holds, hd₁, h, if_neg (fileOf_ne_nil _)]
      · rw [Holds, hd₁, if_pos hnil]
    refine wp_bind.mpr (wp_conseq (run_spec hholds ops) ?_)
    rintro wal s₂ d₂ ⟨rfl, hd₂⟩
    have hread : d₂.read .wal = fileOf ((LogState.mk entries nextSeq).run ops).entries := by
      rw [Disk.read, hd₂]
      rfl
    have hheld : ((LogState.mk entries nextSeq).run ops).Carries Document.Legible :=
      LogState.Carries.run (s := ⟨entries, nextSeq⟩) hdocs hops
    simp [replay, hread, entriesOf_fileOf minSeq fun e he => (hheld e he).legible, eq_comm]
  obtain ⟨es, hres, rfl⟩ := wp_returns hspec
  exact hres

/-! ## Cutting a log -/

/-- The entries whose lines lie in the first `k` bytes of the log. -/
def keptBy (k : Nat) (entries : List WalEntry) : List WalEntry :=
  entries.take ((Lines.wholeLines k
    (Env.walHeader.encode ⟨WAL_VERSION⟩ :: entries.map Env.walEntry.encode)).length - 1)

/-- Reopening the log on `d` replays exactly `entries`, and what is logged from
then on is replayed as well. -/
def Tolerated (s : σ) (d : Disk) (entries : List WalEntry) (nextSeq minSeq : Nat) : Prop :=
  (session nextSeq [] minSeq s d).result = .ok (above minSeq entries) ∧
  ∀ later : List WalEntry, (∀ e ∈ later, e.Carries Document.Legible) → ∀ minSeq' : Nat,
    (session nextSeq (later.map .log) minSeq' s d).result =
      .ok (above minSeq' ((LogState.mk entries nextSeq).run (later.map .log)).entries)

theorem tolerated_of_whole [LawfulEnv] [BareEntries] {entries : List WalEntry}
    (hdocs : ∀ e ∈ entries, e.Carries Document.Legible)
    (h : d.read .wal = fileOf entries ∨ d.read .wal = [] ∧ entries = []) (nextSeq minSeq : Nat) :
    Tolerated s d entries nextSeq minSeq := by
  refine ⟨session_whole hdocs h nextSeq minSeq (by simp), fun later hlater minSeq' => ?_⟩
  refine session_whole hdocs h nextSeq minSeq' fun op hop => ?_
  obtain ⟨e, he, rfl⟩ := List.mem_map.mp hop
  exact hlater e he

theorem entriesOf_ne_ok {contents text : Bytes} (hmem : text ∈ Lines.lines contents)
    (hne : text ≠ []) (hheader : Env.walHeader.Rejects text) (hentry : Env.walEntry.Rejects text)
    (minSeq : Nat) (es : List WalEntry) : entriesOf minSeq contents ≠ .ok es := by
  intro h
  rw [entriesOf, bind_eq_ok] at h
  obtain ⟨ys, hys, -⟩ := h
  obtain ⟨y, hy⟩ := mapM_ok_of_mem hys hmem
  rw [readLine, if_neg hne] at hy
  cases hh : Env.walHeader.decode text with
  | ok header => exact hheader header hh
  | error e =>
      rw [hh] at hy
      cases he : Env.walEntry.decode text with
      | ok entry => exact hentry entry he
      | error e' =>
          rw [he] at hy
          cases hy

/-- A session on a log that already has text replays that text. -/
theorem replay_spec (hne : d.read .wal ≠ []) (nextSeq minSeq : Nat) :
    wp (session nextSeq [] minSeq : Io σ (List WalEntry)) (fun _ => True)
      (fun es _ _ => entriesOf minSeq (d.read .wal) = .ok es) (fun _ _ _ => True) s d := by
  refine wp_bind.mpr (wp_mono (new_spec nextSeq) (fun _ => id) ?_ (fun _ _ _ _ => trivial))
  rintro wal s₁ d₁ ⟨rfl, hd₁⟩
  rw [if_neg hne] at hd₁
  simp [run, replay, Disk.read_of_eq hd₁]

/-- A session on a log that already has text appends to that text. -/
theorem log_spec (hne : d.read .wal ≠ []) (nextSeq minSeq : Nat) (entry : WalEntry) :
    wp (session nextSeq [.log entry] minSeq : Io σ (List WalEntry)) (fun _ => True)
      (fun es _ _ => entriesOf minSeq
        (d.read .wal ++ line (Env.walEntry.encode (entry.withSeq nextSeq))) = .ok es)
      (fun _ _ _ => True) s d := by
  refine wp_bind.mpr (wp_mono (new_spec nextSeq) (fun _ => id) ?_ (fun _ _ _ _ => trivial))
  rintro wal s₁ d₁ ⟨rfl, hd₁⟩
  rw [if_neg hne] at hd₁
  simp [run, step, log, replay, Disk.read_of_eq hd₁]

/-- A line that was cut cannot be read, and one that only lost its terminator
cannot be appended to. -/
theorem not_tolerated_of_torn [LawfulEnv] [StrictJson] {whole : List Bytes} {text torn : Bytes}
    (hwhole : ∀ l ∈ whole, Lines.OneLine l) (htext : WalText text) (hline : Lines.OneLine text)
    (htorn : torn <+: text) (hne : torn ≠ []) (hread : d.read .wal = Lines.unlines whole ++ torn)
    (entries : List WalEntry) (nextSeq minSeq : Nat) :
    ¬Tolerated s d entries nextSeq minSeq := by
  have hne' : d.read .wal ≠ [] := by simp [hread, hne]
  rintro ⟨hreplay, hlater⟩
  by_cases hcut : torn = text
  · -- the next entry ends up on the same line
    have hlog := wp_ok (log_spec (s := s) hne' nextSeq minSeq (.checkpoint 0 0))
      (hlater [.checkpoint 0 0] (by intro e he doc hdoc; simp at he; subst he; cases hdoc) minSeq)
    have hmem : torn ++ Env.walEntry.encode (WalEntry.withSeq (.checkpoint 0 0) nextSeq) ∈
        Lines.lines (d.read .wal ++
          line (Env.walEntry.encode (WalEntry.withSeq (.checkpoint 0 0) nextSeq))) := by
      have hone : Lines.OneLine
          (torn ++ Env.walEntry.encode (WalEntry.withSeq (.checkpoint 0 0) nextSeq)) := by
        have hentry := LawfulEnv.entry_line (WalEntry.withSeq (.checkpoint 0 0) nextSeq)
        rw [hcut]
        exact ⟨by simp [hline.1, hentry.1], by simp [hline.2, hentry.2]⟩
      rw [hread, List.append_assoc, Lines.lines_unlines_append hwhole, line, ← List.append_assoc,
        Lines.lines_append hone]
      simp
    obtain ⟨hheader, hentry⟩ := StrictJson.glued text _ htext
      (.inr ⟨WalEntry.withSeq (.checkpoint 0 0) nextSeq, rfl⟩)
    exact entriesOf_ne_ok hmem (by simp [hne]) (hcut ▸ hheader) (hcut ▸ hentry) _ _ hlog
  · obtain ⟨hheader, hentry⟩ := StrictJson.torn text torn htext htorn hcut
    have hmem : torn ∈ Lines.lines (d.read .wal) := by
      rw [hread, Lines.lines_unlines_append hwhole,
        Lines.lines_torn (hline.of_prefix htorn) hne]
      simp
    exact entriesOf_ne_ok hmem hne hheader hentry _ _
      (wp_ok (replay_spec (s := s) hne' nextSeq minSeq) hreplay)

/-- For every log made by `Wal::new` and a run of operations, and every number of
bytes it is cut to: the rest is tolerated exactly if it is empty or ends with a
line feed. -/
theorem torn_tail_tolerated_iff [LawfulEnv] [BareEntries] [StrictJson] (s : σ) (d : Disk)
    (hfresh : d.read .wal = []) (firstSeq : Nat) (ops : List WalOp)
    (hops : ∀ op ∈ ops, op.Carries Document.Legible) (k nextSeq minSeq : Nat) :
    let made := (do
      let wal ← Wal.new firstSeq
      wal.run ops : Io σ Wal).final s d
    let cut := made.put .wal (some ((made.read .wal).take k))
    Tolerated s cut (keptBy k ((LogState.mk [] firstSeq).run ops).entries) nextSeq minSeq ↔
      cut.read .wal = [] ∨ (cut.read .wal).getLast? = some Lines.lf := by
  intro made cut
  have hspec : wp (do
      let wal ← Wal.new firstSeq
      wal.run ops : Io σ Wal) (fun _ => True)
      (fun _ _ d' => Holds d' ((LogState.mk [] firstSeq).run ops)) (fun _ _ _ => False) s d := by
    refine wp_bind.mpr (wp_conseq (new_spec firstSeq) ?_)
    rintro wal s₁ d₁ ⟨rfl, hd₁⟩
    rw [if_pos hfresh] at hd₁
    have hlog : Holds d₁ ⟨[], firstSeq⟩ := hd₁
    exact wp_conseq (run_spec hlog ops) fun _ _ _ h => h.2
  obtain ⟨-, -, hmade⟩ := wp_returns hspec
  have hheld : ((LogState.mk [] firstSeq).run ops).Carries Document.Legible :=
    LogState.Carries.run (s := ⟨[], firstSeq⟩) (by simp [LogState.Carries]) hops
  generalize (LogState.mk [] firstSeq).run ops = st at hmade hheld ⊢
  have hcut : cut.read .wal = (fileOf st.entries).take k := by
    rw [Disk.read_put_self, Option.getD_some, Disk.read_of_eq hmade]
  let texts := Env.walHeader.encode ⟨WAL_VERSION⟩ :: st.entries.map Env.walEntry.encode
  have hwhole : ∀ l ∈ Lines.wholeLines k texts, Lines.OneLine l := fun l hl =>
    oneLine_of_mem ((Lines.wholeLines_prefix k texts).subset hl)
  obtain ⟨torn, htake, htorn⟩ := Lines.take_unlines texts k
  have hread : cut.read .wal = Lines.unlines (Lines.wholeLines k texts) ++ torn := hcut.trans htake
  by_cases hnil : torn = []
  · -- the cut falls between two lines
    rw [hnil, List.append_nil] at hread
    obtain ⟨rest, hrest⟩ := Lines.wholeLines_prefix k texts
    cases hlines : Lines.wholeLines k texts with
    | nil =>
        have hkept : keptBy k st.entries = [] := by simp [keptBy, texts] at hlines ⊢; simp [hlines]
        rw [hlines] at hread
        refine iff_of_true (tolerated_of_whole ?_ (.inr ⟨hread, hkept⟩) _ _) (.inl hread)
        simp [hkept]
    | cons header lines =>
        rw [hlines] at hread hrest
        have hheader : header = Env.walHeader.encode ⟨WAL_VERSION⟩ := (List.cons.inj hrest).1
        have hentries : lines = (keptBy k st.entries).map Env.walEntry.encode := by
          have htail : lines ++ rest = st.entries.map Env.walEntry.encode := (List.cons.inj hrest).2
          have hlen : (Lines.wholeLines k texts).length - 1 = lines.length := by simp [hlines]
          rw [keptBy, hlen, List.map_take, ← htail, List.take_left]
        have hfile : cut.read .wal = fileOf (keptBy k st.entries) := by
          rw [hread, hheader, hentries, fileOf]
        refine iff_of_true (tolerated_of_whole ?_ (.inl hfile) _ _) (.inr ?_)
        · exact fun e he => hheld e (List.mem_of_mem_take he)
        · rw [hread]
          exact Lines.getLast?_unlines (by simp)
  · -- the cut falls inside a line
    obtain ⟨text, hpre, hsub⟩ := htorn.resolve_left hnil
    have hmem : text ∈ texts := hpre.subset (by simp)
    have hline : Lines.OneLine text := oneLine_of_mem hmem
    have htext : WalText text := by
      cases List.mem_cons.mp hmem with
      | inl heq => exact .inl heq
      | inr hmem' =>
          obtain ⟨entry, -, rfl⟩ := List.mem_map.mp hmem'
          exact .inr ⟨entry, rfl⟩
    refine iff_of_false (not_tolerated_of_torn hwhole htext hline hsub hnil hread _ _ _) ?_
    rw [hread]
    rintro (h | h)
    · simp [hnil] at h
    · rw [List.getLast?_append_of_ne_nil _ hnil] at h
      exact (hline.of_prefix hsub).1 (List.mem_of_getLast? h)

end Wal

/-! ## Two cuts of one log -/

section

attribute [local instance] Reference.flat

/-- The log of one delete, cut to `k` bytes. -/
def cutLog (k : Nat) : Disk :=
  let made := (do
    let wal ← Wal.new 1
    wal.run [.log (.delete 0 0)] : Io Unit Wal).final () Disk.empty
  made.put .wal (some ((made.read .wal).take k))

/-- A cut behind the header line is tolerated. -/
theorem Wal.cut_behind_header_tolerated : Tolerated () (cutLog 14) (keptBy 14 [.delete 0 1]) 1 0 :=
  (torn_tail_tolerated_iff () Disk.empty rfl 1 [.log (.delete 0 0)]
    (by simp [WalOp.Carries, WalEntry.Carries, WalEntry.document?]) 14 1 0).mpr (.inr (by decide))

/-- A cut inside the header is not: the log cannot be replayed any more. -/
theorem Wal.cut_header_not_tolerated :
    ¬Tolerated () (cutLog 3) (keptBy 3 [.delete 0 1]) 1 0 := by
  intro h
  have hok := congrArg Except.isOk h.1
  revert hok
  decide

end
