-- SUMMARY: The collection manager: looking a collection up, opening it and registering it are three steps, with other calls in between.
import Piramid.Base.Threads
import Piramid.Error

/-!
# The collection manager

The map of loaded collections is shared by all requests. Each access to it, and
each opening of files, is one atomic step.
-/

open Threads

/-- The identity of an open collection: `Arc::ptr_eq`. -/
abbrev CollectionHandle : Type := Nat

/-- `collections::CollectionManager`, and the files it looks at. -/
structure CollectionManager where
  collections : String → Option CollectionHandle
  /-- A data file exists at the path of the name. -/
  onDisk : String → Bool
  /-- The next collection that is opened gets this handle. -/
  nextHandle : CollectionHandle

/-- How an attempt to open a collection ends, and whether it leaves a data file. -/
structure OpenOutcome where
  result : Except Fault Unit
  dataFile : Bool

namespace CollectionManager

/-- A call of the manager. -/
abbrev CallThread : Type := Thread Empty CollectionManager (Except Fault CollectionHandle)

/-- What an attempt to open the files of `name` does to them. -/
def openFiles (outcome : OpenOutcome) (name : String) (m : CollectionManager) : CollectionManager :=
  { m with
    onDisk := fun name' => if name' = name then m.onDisk name' || outcome.dataFile else m.onDisk name'
    nextHandle := m.nextHandle + 1 }

/-- `self.collections.insert(name, handle)`. -/
def register (name : String) (h : CollectionHandle) (m : CollectionManager) : CollectionManager :=
  { m with collections := Function.update m.collections name (some h) }

/-- The last step of `open_and_register`. -/
def registerThread (name : String) (h : CollectionHandle) : CallThread :=
  .act (register name h) fun _ => .ret (.ok h)

/-- `open_and_register`; `outcome n` is how opening the collection with handle `n` ends. -/
def openAndRegister (outcome : CollectionHandle → OpenOutcome) (name : String) : CallThread :=
  .act (fun m => openFiles (outcome m.nextHandle) name m) fun m =>
    match (outcome m.nextHandle).result with
    | .error e => .ret (.error e)
    | .ok () => registerThread name m.nextHandle

/-- The second step of `get_existing`. -/
def openIfOnDisk (outcome : CollectionHandle → OpenOutcome) (name : String) : CallThread :=
  .act id fun m =>
    if m.onDisk name then openAndRegister outcome name
    else .ret (.error (.error (.server (.notFound "Collection not found"))))

/-- `get_existing`. -/
def getExisting (outcome : CollectionHandle → OpenOutcome) (name : String) : CallThread :=
  .act id fun m =>
    match m.collections name with
    | some h => .ret (.ok h)
    | none => openIfOnDisk outcome name

/-- `get_or_create`. -/
def getOrCreate (outcome : CollectionHandle → OpenOutcome) (name : String) : CallThread :=
  .act id fun m =>
    match m.collections name with
    | some h => .ret (.ok h)
    | none => openAndRegister outcome name

/-- A call is `get_or_create`, or else `get_existing`. -/
def call (outcome : CollectionHandle → OpenOutcome) (name : String) (create : Bool) : CallThread :=
  if create then getOrCreate outcome name else getExisting outcome name

/-! ## One collection for each name -/

variable {outcome : CollectionHandle → OpenOutcome} {name : String}

/-- The call has looked `name` up in vain, and has not come to an end. -/
inductive Opening (outcome : CollectionHandle → OpenOutcome) (name : String) : CallThread → Prop where
  | checking : Opening outcome name (openIfOnDisk outcome name)
  | opening : Opening outcome name (openAndRegister outcome name)
  | registering (h : CollectionHandle) : Opening outcome name (registerThread name h)

variable {ι : Type} [DecidableEq ι]

/-- A call that is about to look `name` up in vain is not made while another one is
opening the collection. -/
def LooksUpAlone (outcome : CollectionHandle → OpenOutcome) (name : String) (create : ι → Bool)
    (i : ι) (c : State ι Empty CollectionManager (Except Fault CollectionHandle)) : Prop :=
  c.thread i = call outcome name (create i) → c.shared.collections name = none →
    ∀ j, ¬Opening outcome name (c.thread j)

/-- The collection with handle `h` is open on the files of `name`: it is in the map,
was returned, or is about to be registered. -/
def Open (name : String) (h : CollectionHandle)
    (c : State ι Empty CollectionManager (Except Fault CollectionHandle)) : Prop :=
  c.shared.collections name = some h ∨
    ∃ i, c.thread i = .ret (.ok h) ∨ c.thread i = registerThread name h

/-- What calls on `name` keep as long as each of them looks up alone. -/
structure Exclusive (outcome : CollectionHandle → OpenOutcome) (name : String) (create : ι → Bool)
    (c : State ι Empty CollectionManager (Except Fault CollectionHandle)) : Prop where
  shape : ∀ i, c.thread i = call outcome name (create i) ∨ Opening outcome name (c.thread i) ∨
    ∃ r, c.thread i = .ret r
  one : ∀ i j, Opening outcome name (c.thread i) → Opening outcome name (c.thread j) → i = j
  missing : ∀ i, Opening outcome name (c.thread i) → c.shared.collections name = none
  returned : ∀ i h, c.thread i = .ret (.ok h) → c.shared.collections name = some h

omit [DecidableEq ι] in
theorem not_opening_ret (r : Except Fault CollectionHandle) : ¬Opening outcome name (.ret r) := by
  intro h
  generalize ht : (Thread.ret r : CallThread) = t at h
  cases h <;> cases ht

/-- A call that has not begun is not opening: they differ on some manager. -/
theorem not_opening_call (create : Bool) : ¬Opening outcome name (call outcome name create) := by
  intro h
  have hact : ∃ next, call outcome name create = .act id next ∧
      ∀ m handle, m.collections name = some handle → next m = .ret (.ok handle) := by
    cases create with
    | true => exact ⟨_, rfl, fun m handle hm => by simp only [hm]⟩
    | false => exact ⟨_, rfl, fun m handle hm => by simp only [hm]⟩
  obtain ⟨next, hcall, hnext⟩ := hact
  rw [hcall] at h
  generalize ht : (Thread.act id next : CallThread) = t at h
  cases h with
  | checking =>
      injection ht with _ hfun
      have hret := hnext ⟨fun _ => some 0, fun _ => false, 0⟩ 0 rfl
      rw [hfun] at hret
      cases hret
  | opening =>
      injection ht with hchange _
      have hcount := congrArg nextHandle (congrFun hchange ⟨fun _ => none, fun _ => false, 0⟩)
      cases hcount
  | registering handle =>
      injection ht with _ hfun
      have hret := hnext ⟨fun _ => some (handle + 1), fun _ => false, 0⟩ _ rfl
      rw [hfun] at hret
      injection hret with heq
      injection heq with heq
      exact Nat.succ_ne_self handle heq.symm

theorem registerThread_inj {h h' : CollectionHandle}
    (heq : registerThread name h = registerThread name h') : h = h' := by
  unfold registerThread at heq
  injection heq with _ hnext
  have hret := congrFun hnext ⟨fun _ => none, fun _ => false, 0⟩
  cases hret
  rfl

section

variable {create : ι → Bool}
  {c : State ι Empty CollectionManager (Except Fault CollectionHandle)} {i : ι}

/-- A call goes on without changing the map, and is opening only if it was the only
one and the name is missing. -/
theorem Exclusive.advance (h : Exclusive outcome name create c) {m : CollectionManager}
    {next : CallThread} (hmap : m.collections name = c.shared.collections name)
    (hshape : Opening outcome name next ∨ ∃ r, next = .ret r)
    (hopening : Opening outcome name next →
      c.shared.collections name = none ∧ ∀ j, j ≠ i → ¬Opening outcome name (c.thread j))
    (hreturned : ∀ handle, next = .ret (.ok handle) → c.shared.collections name = some handle) :
    Exclusive outcome name create (c.advance i m next (c.held i)) := by
  have hthread : ∀ j, (c.advance i m next (c.held i)).thread j =
      if j = i then next else c.thread j := fun j => Function.update_apply _ _ _ _
  constructor
  · intro j
    rw [hthread]
    split
    · exact .inr hshape
    · exact h.shape j
  · intro j k hj hk
    rw [hthread] at hj hk
    split at hj <;> split at hk
    · rename_i hji hki
      exact hji.trans hki.symm
    · rename_i hji hki
      exact absurd hk ((hopening hj).2 k hki)
    · rename_i hji hki
      exact absurd hj ((hopening hk).2 j hji)
    · exact h.one j k hj hk
  · intro j hj
    rw [hthread] at hj
    change m.collections name = none
    rw [hmap]
    split at hj
    · exact (hopening hj).1
    · exact h.missing j hj
  · intro j handle hj
    rw [hthread] at hj
    change m.collections name = some handle
    rw [hmap]
    split at hj
    · exact hreturned handle hj
    · exact h.returned j handle hj

/-- The only call that is opening registers what it has opened. -/
theorem Exclusive.register (h : Exclusive outcome name create c) {handle : CollectionHandle}
    (hi : c.thread i = registerThread name handle) :
    Exclusive outcome name create
      (c.advance i (register name handle c.shared) (.ret (.ok handle)) (c.held i)) := by
  have hopening : Opening outcome name (c.thread i) := hi ▸ .registering handle
  have hthread : ∀ j, (c.advance i (CollectionManager.register name handle c.shared)
      (.ret (.ok handle)) (c.held i)).thread j =
      if j = i then .ret (.ok handle) else c.thread j := fun j => Function.update_apply _ _ _ _
  have hnone : ∀ j, ¬Opening outcome name ((c.advance i
      (CollectionManager.register name handle c.shared) (.ret (.ok handle)) (c.held i)).thread j) := by
    intro j hj
    rw [hthread] at hj
    split at hj
    · exact not_opening_ret _ hj
    · rename_i hji
      exact hji (h.one j i hj hopening)
  constructor
  · intro j
    rw [hthread]
    split
    · exact .inr (.inr ⟨_, rfl⟩)
    · exact h.shape j
  · exact fun j _ hj => absurd hj (hnone j)
  · exact fun j hj => absurd hj (hnone j)
  · intro j handle' hj
    rw [hthread] at hj
    split at hj
    · cases hj
      exact Function.update_self _ _ _
    · have hsome := h.returned j handle' hj
      rw [h.missing i hopening] at hsome
      cases hsome

theorem Exclusive.step {c' : State ι Empty CollectionManager (Except Fault CollectionHandle)}
    (h : Exclusive outcome name create c) (halone : LooksUpAlone outcome name create i c)
    (hstep : Step i c c') : Exclusive outcome name create c' := by
  -- the only step of a call is to read and change the manager
  obtain ⟨change, next, hi, rfl⟩ : ∃ change next, c.thread i = .act change next ∧
      c' = c.advance i (change c.shared) (next c.shared) (c.held i) := by
    cases hstep with
    | @acquire l mode next hi _ => exact l.elim
    | @release l next hi => exact l.elim
    | act hi => exact ⟨_, _, hi, rfl⟩
  have hlookup : ∀ {missed : CallThread}, Opening outcome name missed →
      c.thread i = call outcome name (create i) →
      Exclusive outcome name create (c.advance i c.shared
        (match c.shared.collections name with
          | some h => .ret (.ok h)
          | none => missed) (c.held i)) := by
    intro missed hmissed hstart
    cases hmap : c.shared.collections name with
    | some handle =>
        refine h.advance rfl (.inr ⟨_, rfl⟩) (fun ho => absurd ho (not_opening_ret _)) ?_
        intro handle' heq
        cases heq
        exact hmap
    | none =>
        refine h.advance rfl (.inl hmissed) (fun _ => ⟨hmap, fun j _ => halone hstart hmap j⟩) ?_
        rintro handle rfl
        exact absurd hmissed (not_opening_ret _)
  rcases h.shape i with hstart | hopening | ⟨r, hret⟩
  · rw [hstart] at hi
    unfold call at hi
    cases hcreate : create i with
    | true =>
        simp only [hcreate, if_true, getOrCreate] at hi
        cases hi
        exact hlookup .opening hstart
    | false =>
        simp only [hcreate, Bool.false_eq_true, if_false, getExisting] at hi
        cases hi
        exact hlookup .checking hstart
  · have hmissing := h.missing i hopening
    have hothers : ∀ j, j ≠ i → ¬Opening outcome name (c.thread j) :=
      fun j hj ho => hj (h.one j i ho hopening)
    generalize hthread : c.thread i = t at hopening
    cases hopening with
    | checking =>
        rw [hthread] at hi
        cases hi
        refine h.advance rfl ?_ (fun _ => ⟨hmissing, hothers⟩) ?_
        · beta_reduce
          split
          · exact .inl .opening
          · exact .inr ⟨_, rfl⟩
        · intro handle heq
          beta_reduce at heq
          split at heq <;> cases heq
    | opening =>
        rw [hthread] at hi
        cases hi
        refine h.advance rfl ?_ (fun _ => ⟨hmissing, hothers⟩) ?_
        · beta_reduce
          split
          · exact .inr ⟨_, rfl⟩
          · exact .inl (.registering _)
        · intro handle heq
          beta_reduce at heq
          split at heq <;> cases heq
    | registering handle =>
        rw [hthread] at hi
        cases hi
        exact h.register hthread
  · rw [hret] at hi
    cases hi

end

/-- Any number of calls on one name, in any order of their steps, whatever was loaded
and on disk before and however each opening ends: if no call looks the name up in
vain while another one is opening the collection, then at no time are two
collections open on its files, and all calls that return a handle return the same. -/
theorem one_collection_open (outcome : CollectionHandle → OpenOutcome) (name : String)
    (create : ι → Bool) (m : CollectionManager)
    {c : State ι Empty CollectionManager (Except Fault CollectionHandle)}
    (hrun : StepsIf (LooksUpAlone outcome name create)
      (start m fun i => call outcome name (create i)) c) :
    (∀ h h', Open name h c → Open name h' c → h = h') ∧
      ∀ i j h h', c.thread i = .ret (.ok h) → c.thread j = .ret (.ok h') → h = h' := by
  have hinv : Exclusive outcome name create c := by
    refine hrun.keeps (fun i c c' h halone hstep => h.step halone hstep) ?_
    refine ⟨fun i => .inl rfl, fun i _ hi => absurd hi (not_opening_call _),
      fun i hi => absurd hi (not_opening_call _), fun i h hi => ?_⟩
    change call outcome name (create i) = _ at hi
    unfold call at hi
    split at hi <;> cases hi
  have hunique : ∀ h h', Open name h c → Open name h' c → h = h' := by
    intro h h' ho ho'
    -- a call that is about to register is alone, and the name is missing
    have halone : ∀ i handle handle', c.thread i = registerThread name handle →
        Open name handle' c → handle = handle' := by
      intro i handle handle' hi ho'
      have hopening : Opening outcome name (c.thread i) := hi ▸ .registering handle
      have hmissing := hinv.missing i hopening
      rcases ho' with hmap | ⟨j, hj | hj⟩
      · rw [hmissing] at hmap
        cases hmap
      · rw [hinv.returned j handle' hj] at hmissing
        cases hmissing
      · have hij := hinv.one i j hopening (hj ▸ .registering handle')
        rw [← hij, hi] at hj
        exact registerThread_inj hj
    have hmapped : ∀ handle, Open name handle c →
        (∃ i, c.thread i = registerThread name handle) ∨
          c.shared.collections name = some handle := by
      rintro handle (hmap | ⟨i, hi | hi⟩)
      · exact .inr hmap
      · exact .inr (hinv.returned i handle hi)
      · exact .inl ⟨i, hi⟩
    rcases hmapped h ho with ⟨i, hi⟩ | hmap
    · exact halone i h h' hi ho'
    · rcases hmapped h' ho' with ⟨j, hj⟩ | hmap'
      · exact (halone j h' h hj ho).symm
      · exact Option.some.inj (hmap.symm.trans hmap')
  exact ⟨hunique, fun i j h h' hi hj => hunique h h' (.inr ⟨i, .inl hi⟩) (.inr ⟨j, .inl hj⟩)⟩

/-- Nothing loaded, nothing on disk. -/
def noneLoaded : CollectionManager := ⟨fun _ => none, fun _ => false, 0⟩

/-- Every attempt to open a collection succeeds. -/
def opens (_ : CollectionHandle) : OpenOutcome := ⟨.ok (), true⟩

/-- The first attempt to open a collection fails, and all later ones succeed. -/
def opensLater (h : CollectionHandle) : OpenOutcome :=
  if h = 0 then ⟨.error (.searchFailed "torn"), true⟩ else ⟨.ok (), true⟩

/-- Of three calls, the last of which is `get_existing`, the first fails to open the collection, the
second opens it, and the third looks it up once it is registered. -/
theorem three_calls_open_one :
    ∃ c : State (Fin 3) Empty CollectionManager (Except Fault CollectionHandle),
      c.thread 0 = .ret (.error (.searchFailed "torn")) ∧ c.thread 1 = .ret (.ok 1) ∧
        c.thread 2 = .ret (.ok 1) ∧ (∀ h h', Open "c" h c → Open "c" h' c → h = h') ∧
        ∀ i j h h', c.thread i = .ret (.ok h) → c.thread j = .ret (.ok h') → h = h' := by
  let create (i : Fin 3) : Bool := i ≠ 2
  let May := LooksUpAlone opensLater "c" create
  -- a call that is not at its beginning may always go on
  have hlater : ∀ {c : State (Fin 3) Empty CollectionManager (Except Fault CollectionHandle)} {i : Fin 3},
      Opening opensLater "c" (c.thread i) → May i c :=
    fun ho heq _ => absurd (heq ▸ ho) (not_opening_call _)
  obtain ⟨c, hrun, hreturned⟩ : ∃ c, StepsIf May (start noneLoaded fun i => call opensLater "c" (create i)) c ∧
      c.thread 0 = .ret (.error (.searchFailed "torn")) ∧ c.thread 1 = .ret (.ok 1) ∧
        c.thread 2 = .ret (.ok 1) := by
    refine ⟨_, .head ⟨0, fun _ _ j => not_opening_call _, .act rfl⟩ (.head ⟨0, hlater ?_, .act rfl⟩
      (.head ⟨1, fun _ _ j => ?_, .act rfl⟩ (.head ⟨1, hlater ?_, .act rfl⟩
      (.head ⟨1, hlater ?_, .act rfl⟩ (.head ⟨2, fun _ hmissing => ?_, .act rfl⟩ .refl))))), rfl, rfl, rfl⟩
    · exact .opening
    · -- the first call has come to its end, and the third has not begun
      match j with
      | 0 => exact not_opening_ret _
      | 1 => exact not_opening_call true
      | 2 => exact not_opening_call false
    · exact .opening
    · exact .registering 1
    · cases hmissing
  exact ⟨c, hreturned.1, hreturned.2.1, hreturned.2.2,
    one_collection_open opensLater "c" create noneLoaded hrun⟩

/-- Two calls that look the name up before either has registered it get a
collection each. -/
theorem two_calls_open_two :
    ∃ c : State Bool Empty CollectionManager (Except Fault CollectionHandle),
      Steps (start noneLoaded fun _ => getOrCreate opens "c") c ∧
        c.thread true = .ret (.ok 0) ∧ c.thread false = .ret (.ok 1) :=
  ⟨_, .head ⟨true, trivial, .act rfl⟩ (.head ⟨false, trivial, .act rfl⟩
    (.head ⟨true, trivial, .act rfl⟩ (.head ⟨false, trivial, .act rfl⟩
    (.head ⟨true, trivial, .act rfl⟩ (.head ⟨false, trivial, .act rfl⟩ .refl))))), rfl, rfl⟩

end CollectionManager
