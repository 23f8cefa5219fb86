-- SUMMARY: Best-first traversals of a graph that go no farther than the closest live node seen, and which nodes they come to.
import Mathlib.Data.Finset.Insert
import Mathlib.Data.List.Infix
import Mathlib.Logic.Relation
import Mathlib.Order.Lattice
import Mathlib.Tactic.Common

/-!
# Best-first traversals

Each node has a distance. A traversal explores one of the closest nodes among those it has
seen and not explored, and sees the nodes next to it. It stops when there is none, or when a
live node that it has seen is closer than that one.

Which nodes it comes to depends on the ways to them. A node `u` on a way is explored unless
a live node closer than `u` is seen first, and that one is seen first if it can be reached
from an earlier point of the way through nodes that are closer than the farthest one from
there on up to `u`. Among nodes of one distance the choice is left open.
-/

namespace BestFirst

/-- A graph with distances, some of whose nodes are live. -/
structure Terrain (α ι : Type) where
  next : α → List α
  distance : α → ι
  live : α → Bool

/-- How far a traversal has come. -/
structure Front (α : Type) where
  seen : Finset α
  explored : Finset α

variable {α ι : Type} {t : Terrain α ι} {entries way stretch back : List α} {x y u : α}
  {starts P Q : α → Prop}

/-! ## Ways -/

namespace Terrain

/-- Edges lead to a node from one of the starts, by way of nodes that satisfy `P`. -/
inductive Leads (t : Terrain α ι) (starts P : α → Prop) : α → Prop
  | start {x : α} (hx : starts x) : Leads t starts P x
  | next {x y : α} (h : Leads t starts P x) (hx : P x) (hy : y ∈ t.next x) : Leads t starts P y

theorem Leads.mono (h : t.Leads starts P x) (hPQ : ∀ y, t.Leads starts P y → P y → Q y) :
    t.Leads starts Q x := by
  induction h with
  | start hx => exact .start hx
  | next h hx hy ih => exact .next ih (hPQ _ h hx) hy

/-- The nodes that edges lead to from the entries. -/
def Reaches (t : Terrain α ι) (entries : List α) : α → Prop := t.Leads (· ∈ entries) fun _ => True

/-- The nodes that may come next on a way, which is listed backwards. -/
def Onward (t : Terrain α ι) (entries : List α) : List α → α → Prop
  | [], x => x ∈ entries
  | u :: _, x => x ∈ t.next u

/-- The nodes on a way from the entries to `x`, the one before `x` first. -/
def Way (t : Terrain α ι) (entries : List α) : List α → α → Prop
  | [], x => x ∈ entries
  | u :: way, x => x ∈ t.next u ∧ t.Way entries way u

theorem Way.onward (h : t.Way entries way x) : t.Onward entries way x := by
  cases way with
  | nil => exact h
  | cons u way => exact h.1

theorem Way.reaches (h : t.Way entries way x) :
    t.Reaches entries x ∧ ∀ u ∈ way, t.Reaches entries u := by
  induction way generalizing x with
  | nil => exact ⟨.start h, fun u hu => by cases hu⟩
  | cons u way ih =>
      obtain ⟨hu, hway⟩ := ih h.2
      refine ⟨.next hu trivial h.1, fun v hv => ?_⟩
      rcases List.mem_cons.mp hv with rfl | hv
      · exact hu
      · exact hway v hv

/-- What edges lead to from a point of a way can be reached. -/
theorem Leads.reaches (hway : t.Way entries way x) (hback : back <:+ way)
    (h : t.Leads (t.Onward entries back) P y) : t.Reaches entries y := by
  induction h with
  | start hy =>
      cases back with
      | nil => exact .start hy
      | cons u back => exact .next (hway.reaches.2 u (hback.mem (by simp))) trivial hy
  | next _ _ hy ih => exact .next ih trivial hy

section

variable [LinearOrder ι]

/-- No live node closer than a node on the way is met before it: `stretch` goes up to that
node, and what is met before is what edges lead to from the point before the stretch, by way
of the nodes `aside` of it. -/
def Clear (t : Terrain α ι) (entries : List α) (aside : List α → α → Prop) (way : List α) : Prop :=
  ∀ u stretch back, (u :: stretch) ++ back <:+ way → ∀ w, t.live w → t.distance w < t.distance u →
    ¬t.Leads (t.Onward entries back) (aside (u :: stretch)) w

/-- There is a way to `x` that is clear. -/
def Open (t : Terrain α ι) (entries : List α) (aside : List α → α → Prop) (x : α) : Prop :=
  ∃ way, t.Way entries way x ∧ t.Clear entries aside way

/-- Closer than some node of the stretch: explored before the stretch is. -/
def nearer (t : Terrain α ι) (stretch : List α) (x : α) : Prop :=
  ∃ p ∈ stretch, t.distance x < t.distance p

/-- Not on the stretch, and no farther than it goes: what may be explored before it is. -/
def besides (t : Terrain α ι) (stretch : List α) (x : α) : Prop :=
  x ∉ stretch ∧ ∃ p ∈ stretch, t.distance x ≤ t.distance p

/-- No two nodes that can be reached are at one distance. -/
def Untied (t : Terrain α ι) (entries : List α) : Prop :=
  ∀ x y, t.Reaches entries x → t.Reaches entries y → t.distance x = t.distance y → x = y

theorem Clear.tail {aside : List α → α → Prop} (h : t.Clear entries aside (u :: way)) :
    t.Clear entries aside way := by
  intro v stretch back hsuffix
  exact h v stretch back (hsuffix.trans (List.suffix_cons u way))

/-- Without ties nothing is left open. -/
theorem Open.besides (h : t.Open entries t.nearer x) (huntied : t.Untied entries) :
    t.Open entries t.besides x := by
  obtain ⟨way, hway, hclear⟩ := h
  refine ⟨way, hway, fun u stretch back hsuffix w hw hlt hleads => ?_⟩
  refine hclear u stretch back hsuffix w hw hlt (hleads.mono fun y hy hbesides => ?_)
  obtain ⟨hnot, p, hp, hle⟩ := hbesides
  have hreached : t.Reaches entries y := hy.reaches hway ((List.suffix_append _ back).trans hsuffix)
  have hpway : t.Reaches entries p := hway.reaches.2 p (hsuffix.mem (List.mem_append_left _ hp))
  refine ⟨p, hp, lt_of_le_of_ne hle fun heq => hnot ?_⟩
  rw [huntied y p hreached hpway heq]
  exact hp

end

end Terrain

/-! ## Traversals -/

namespace Front

variable [DecidableEq α] {f g : Front α}

def see (f : Front α) (x : α) : Front α := { f with seen := insert x f.seen }

/-- Where a traversal begins. -/
def enter (entries : List α) : Front α := entries.foldl see ⟨∅, ∅⟩

def explore (t : Terrain α ι) (f : Front α) (u : α) : Front α :=
  (t.next u).foldl see { f with explored := insert u f.explored }

/-- The node has been seen, and not explored. -/
def Waits (f : Front α) (u : α) : Prop := u ∈ f.seen ∧ u ∉ f.explored

omit [DecidableEq α] in
theorem explored_of_not_waits (hseen : x ∈ f.seen) (h : ¬f.Waits x) : x ∈ f.explored := by
  by_contra hnot
  exact h ⟨hseen, hnot⟩

theorem foldl_see (xs : List α) (f : Front α) :
    (xs.foldl see f).explored = f.explored ∧ ∀ x, x ∈ (xs.foldl see f).seen ↔ x ∈ xs ∨ x ∈ f.seen := by
  induction xs generalizing f with
  | nil => simp
  | cons y xs ih =>
      obtain ⟨hexplored, hseen⟩ := ih (f.see y)
      refine ⟨hexplored, fun x => ?_⟩
      rw [List.foldl_cons, hseen, List.mem_cons]
      simp only [see, Finset.mem_insert]
      tauto

theorem mem_enter : x ∈ (enter entries).seen ↔ x ∈ entries := by
  rw [enter, (foldl_see entries _).2]
  simp

theorem not_explored_enter : x ∉ (enter entries).explored := by
  rw [enter, (foldl_see entries _).1]
  simp

@[simp] theorem mem_seen_explore : x ∈ (f.explore t u).seen ↔ x ∈ t.next u ∨ x ∈ f.seen :=
  (foldl_see _ _).2 x

@[simp] theorem mem_explored_explore : x ∈ (f.explore t u).explored ↔ x = u ∨ x ∈ f.explored := by
  rw [explore, (foldl_see _ _).1, Finset.mem_insert]

variable [LinearOrder ι]

/-- The traversal may go on with `u`. -/
structure Ready (t : Terrain α ι) (f : Front α) (u : α) : Prop where
  waits : f.Waits u
  closest : ∀ y, f.Waits y → t.distance u ≤ t.distance y
  within : ∀ y ∈ f.seen, t.live y → t.distance u ≤ t.distance y

/-- A traversal comes from `f` to `g`. -/
def Walks (t : Terrain α ι) : Front α → Front α → Prop :=
  Relation.ReflTransGen fun f g => ∃ u, f.Ready t u ∧ g = f.explore t u

/-- The traversal goes no further. -/
def Stopped (t : Terrain α ι) (f : Front α) : Prop :=
  ∀ u, f.Waits u → ∃ y ∈ f.seen, t.live y ∧ t.distance y < t.distance u

/-- Entries and what is next to explored nodes have been seen. -/
structure Closed (t : Terrain α ι) (entries : List α) (f : Front α) : Prop where
  entered : ∀ x ∈ entries, x ∈ f.seen
  next : ∀ u ∈ f.explored, ∀ x ∈ t.next u, x ∈ f.seen
  reached : ∀ x ∈ f.seen, t.Reaches entries x

omit [DecidableEq α] [LinearOrder ι] in
theorem Closed.onward (h : f.Closed t entries) (hback : ∀ a, back.head? = some a → a ∈ f.explored)
    (hx : t.Onward entries back x) : x ∈ f.seen := by
  cases back with
  | nil => exact h.entered x hx
  | cons a back => exact h.next a (hback a rfl) x hx

omit [LinearOrder ι] in
theorem Closed.explore (h : f.Closed t entries) (hu : f.Waits u) : (f.explore t u).Closed t entries := by
  refine ⟨fun x hx => ?_, fun v hv x hx => ?_, fun x hx => ?_⟩
  · exact mem_seen_explore.mpr (.inr (h.entered x hx))
  · rcases mem_explored_explore.mp hv with rfl | hv
    · exact mem_seen_explore.mpr (.inl hx)
    · exact mem_seen_explore.mpr (.inr (h.next v hv x hx))
  · rcases mem_seen_explore.mp hx with hx | hx
    · exact .next (h.reached u hu.1) trivial hx
    · exact h.reached x hx

theorem Walks.closed (h : Walks t (enter entries) f) : f.Closed t entries := by
  induction h with
  | refl =>
      refine ⟨fun x hx => mem_enter.mpr hx, fun u hu => absurd hu not_explored_enter, fun x hx => ?_⟩
      exact .start (mem_enter.mp hx)
  | tail _ hstep ih =>
      obtain ⟨u, hready, rfl⟩ := hstep
      exact ih.explore hready.waits

/-! ## What has been seen lies open -/

/-- Whatever is closer than a stretch of the way has been explored with it. -/
structure Settled (t : Terrain α ι) (entries : List α) (f : Front α) (way : List α) : Prop where
  explored : ∀ u ∈ way, u ∈ f.explored
  stretches : ∀ u stretch back, (u :: stretch) ++ back <:+ way → ∀ x,
    t.Leads (t.Onward entries back) (t.nearer (u :: stretch)) x →
      x ∈ f.seen ∧ (t.nearer (u :: stretch) x → x ∈ f.explored)

theorem Settled.explore (h : f.Settled t entries way) (v : α) : (f.explore t v).Settled t entries way := by
  refine ⟨fun u hu => mem_explored_explore.mpr (.inr (h.explored u hu)), ?_⟩
  intro u stretch back hsuffix x hx
  obtain ⟨hseen, hexplored⟩ := h.stretches u stretch back hsuffix x hx
  exact ⟨mem_seen_explore.mpr (.inr hseen), fun hnear => mem_explored_explore.mpr (.inr (hexplored hnear))⟩

omit [DecidableEq α] in
/-- A stretch that ends in the node to be explored is settled. -/
theorem Settled.extend (h : f.Settled t entries way) (hclosed : f.Closed t entries) (hu : f.Ready t u)
    (hway : stretch ++ back = way) (hx : t.Leads (t.Onward entries back) (t.nearer (u :: stretch)) x) :
    x ∈ f.seen ∧ (t.nearer (u :: stretch) x → x ∈ f.explored) := by
  by_cases hfar : ∃ p ∈ stretch, t.distance u ≤ t.distance p
  · -- the stretch went as far before
    obtain ⟨p, hp, hle⟩ := hfar
    have hnearer : ∀ y, t.nearer (u :: stretch) y → t.nearer stretch y := by
      rintro y ⟨q, hq, hlt⟩
      rcases List.mem_cons.mp hq with rfl | hq
      · exact ⟨p, hp, lt_of_lt_of_le hlt hle⟩
      · exact ⟨q, hq, hlt⟩
    cases stretch with
    | nil => cases hp
    | cons v stretch =>
        have hsettled := h.stretches v stretch back (by rw [hway]) x (hx.mono fun y _ => hnearer y)
        exact ⟨hsettled.1, fun hnear => hsettled.2 (hnearer x hnear)⟩
  · -- what is closer than `u` does not wait
    have hexplored : ∀ y ∈ f.seen, t.nearer (u :: stretch) y → y ∈ f.explored := by
      rintro y hy ⟨q, hq, hlt⟩
      refine explored_of_not_waits hy fun hwaits => ?_
      have hle := hu.closest y hwaits
      rcases List.mem_cons.mp hq with rfl | hq
      · exact absurd hlt (not_lt.mpr hle)
      · exact hfar ⟨q, hq, le_of_lt (lt_of_le_of_lt hle hlt)⟩
    have hseen : x ∈ f.seen := by
      induction hx with
      | start hx =>
          refine hclosed.onward (fun a ha => h.explored a ?_) hx
          rw [← hway]
          exact List.mem_append_right _ (List.mem_of_head? ha)
      | next _ hy hz ih => exact hclosed.next _ (hexplored _ ih hy) _ hz
    exact ⟨hseen, hexplored x hseen⟩

/-- A traversal only sees what lies open. -/
theorem Walks.open (h : Walks t (enter entries) f) (hx : x ∈ f.seen) : t.Open entries t.nearer x := by
  have hways : ∀ x ∈ f.seen, ∃ way, t.Way entries way x ∧ t.Clear entries t.nearer way ∧
      f.Settled t entries way := by
    clear hx
    induction h with
    | refl =>
        intro x hx
        have hnil : ∀ {u : α} {rest : List α}, ¬u :: rest <:+ [] := fun hsuffix =>
          absurd (List.suffix_nil.mp hsuffix) (by simp)
        exact ⟨[], mem_enter.mp hx, fun u stretch back hsuffix => (hnil hsuffix).elim,
          fun u hu => (by cases hu), fun u stretch back hsuffix => (hnil hsuffix).elim⟩
    | tail hwalk hstep ih =>
        rename_i f g
        obtain ⟨u, hready, rfl⟩ := hstep
        intro x hx
        rcases mem_seen_explore.mp hx with hx | hx
        · obtain ⟨way, hway, hclear, hsettled⟩ := ih u hready.waits.1
          have hextend : ∀ {stretch back : List α} {y : α}, stretch ++ back = way →
              t.Leads (t.Onward entries back) (t.nearer (u :: stretch)) y →
                y ∈ f.seen ∧ (t.nearer (u :: stretch) y → y ∈ f.explored) :=
            fun hsplit hy => hsettled.extend (Walks.closed hwalk) hready hsplit hy
          refine ⟨u :: way, ⟨hx, hway⟩, ?_, ?_, ?_⟩
          · intro v stretch back hsuffix w hw hlt hleads
            rcases List.suffix_cons_iff.mp hsuffix with heq | hsuffix
            · obtain ⟨rfl, hsplit⟩ := List.cons.inj heq
              have hseen := (hextend hsplit hleads).1
              exact absurd hlt (not_lt.mpr (hready.within w hseen hw))
            · exact hclear v stretch back hsuffix w hw hlt hleads
          · intro v hv
            rcases List.mem_cons.mp hv with rfl | hv
            · exact mem_explored_explore.mpr (.inl rfl)
            · exact mem_explored_explore.mpr (.inr (hsettled.explored v hv))
          · intro v stretch back hsuffix y hy
            rcases List.suffix_cons_iff.mp hsuffix with heq | hsuffix
            · obtain ⟨rfl, hsplit⟩ := List.cons.inj heq
              obtain ⟨hseen, hexplored⟩ := hextend hsplit hy
              exact ⟨mem_seen_explore.mpr (.inr hseen),
                fun hnear => mem_explored_explore.mpr (.inr (hexplored hnear))⟩
            · exact (hsettled.explore u).stretches v stretch back hsuffix y hy
        · obtain ⟨way, hway, hclear, hsettled⟩ := ih x hx
          exact ⟨way, hway, hclear, hsettled.explore u⟩
  obtain ⟨way, hway, hclear, -⟩ := hways x hx
  exact ⟨way, hway, hclear⟩

/-! ## What lies open is seen -/

omit [LinearOrder ι] in
/-- While the end of a way has not been explored, some node of it waits. -/
theorem Closed.waits (h : f.Closed t entries) (hway : t.Way entries (stretch ++ back) u)
    (hback : ∀ a, back.head? = some a → a ∈ f.explored) (hu : u ∉ f.explored) :
    ∃ p ∈ u :: stretch, f.Waits p := by
  induction stretch generalizing u with
  | nil => exact ⟨u, by simp, h.onward hback hway.onward, hu⟩
  | cons v stretch ih =>
      by_cases hv : v ∈ f.explored
      · exact ⟨u, by simp, h.next v hv u hway.1, hu⟩
      · obtain ⟨p, hp, hwaits⟩ := ih hway.2 hv
        exact ⟨p, List.mem_cons_of_mem u hp, hwaits⟩

/-- While the end of a way has not been explored, what is seen lies aside of the way. -/
theorem Walks.aside (h : Walks t (enter entries) f) (hway : t.Way entries way u) (hu : u ∉ f.explored)
    (hx : x ∈ f.seen) :
    ∃ stretch back, stretch ++ back = way ∧ (∀ a, back.head? = some a → a ∈ f.explored) ∧
      t.Leads (t.Onward entries back) (t.besides (u :: stretch)) x := by
  induction h generalizing x with
  | refl => exact ⟨way, [], by simp, by simp, .start (mem_enter.mp hx)⟩
  | tail hwalk hstep ih =>
      rename_i f g
      obtain ⟨v, hready, rfl⟩ := hstep
      obtain ⟨huv, hunexplored⟩ := not_or.mp (mem_explored_explore.not.mp hu)
      have hkept : ∀ {x : α}, x ∈ f.explored → x ∈ (f.explore t v).explored :=
        fun hx => mem_explored_explore.mpr (.inr hx)
      rcases mem_seen_explore.mp hx with hx | hx
      · by_cases hv : v ∈ way
        · -- the way goes through `v`
          obtain ⟨stretch, back, rfl⟩ := List.append_of_mem hv
          refine ⟨stretch, v :: back, rfl, fun a ha => ?_, .start hx⟩
          cases ha
          exact mem_explored_explore.mpr (.inl rfl)
        · obtain ⟨stretch, back, rfl, hback, hleads⟩ := ih hunexplored hready.waits.1
          obtain ⟨p, hp, hwaits⟩ := (Walks.closed hwalk).waits hway hback hunexplored
          have hbesides : t.besides (u :: stretch) v := by
            refine ⟨fun hmem => ?_, p, hp, hready.closest p hwaits⟩
            rcases List.mem_cons.mp hmem with heq | hmem
            · exact huv heq.symm
            · exact hv (List.mem_append_left _ hmem)
          exact ⟨stretch, back, rfl, fun a ha => hkept (hback a ha), hleads.next hbesides hx⟩
      · obtain ⟨stretch, back, hsplit, hback, hleads⟩ := ih hunexplored hx
        exact ⟨stretch, back, hsplit, fun a ha => hkept (hback a ha), hleads⟩

/-- A traversal does not stop before it has seen what lies open, whichever of the closest nodes
it explored. -/
theorem Walks.sees (h : Walks t (enter entries) f) (hstopped : f.Stopped t)
    (hopen : t.Open entries t.besides x) : x ∈ f.seen := by
  obtain ⟨way, hway, hclear⟩ := hopen
  induction way generalizing x with
  | nil => exact h.closed.entered x hway
  | cons u way ih =>
      have hu : u ∈ f.seen := ih hway.2 hclear.tail
      by_cases hexplored : u ∈ f.explored
      · exact h.closed.next u hexplored x hway.1
      · obtain ⟨w, hw, hlive, hlt⟩ := hstopped u ⟨hu, hexplored⟩
        obtain ⟨stretch, back, rfl, -, hleads⟩ := h.aside hway.2 hexplored hw
        exact (hclear u stretch back (List.suffix_refl _) w hlive hlt hleads).elim

end Front

end BestFirst
