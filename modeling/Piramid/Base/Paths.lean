-- SUMMARY: File paths as text: the parts they are made of, and the file they lead to.
import Mathlib.Data.List.Basic
import Mathlib.Tactic.Common

/-!
# Paths

A path is followed part by part. Empty parts and `.` stay where they are, `..`
goes up; above the directory the path starts from, `..` is kept.
-/

namespace Paths

abbrev Part : Type := List Char

def dot : Part := ['.']

def dotdot : Part := ['.', '.']

/-- The parts of a path that lead somewhere. -/
def parts (path : List Char) : List Part :=
  (path.splitOn '/').filter fun part => part ≠ [] ∧ part ≠ dot

/-- Follow one part; the innermost directory comes first. -/
def follow (place : List Part) (part : Part) : List Part :=
  if part = dotdot then
    match place with
    | [] => [dotdot]
    | inner :: outer => if inner = dotdot then dotdot :: place else outer
  else part :: place

/-- Where a path leads, innermost part first. -/
def resolve (path : List Char) : List Part := (parts path).foldl follow []

/-- A part that names something in its directory. -/
structure Plain (part : Part) : Prop where
  slash : '/' ∉ part
  ne_nil : part ≠ []
  ne_dot : part ≠ dot
  ne_dotdot : part ≠ dotdot

theorem parts_append (path rest : List Char) : parts (path ++ '/' :: rest) = parts path ++ parts rest := by
  rw [parts, List.splitOn_append_cons_self, List.filter_append]
  rfl

theorem Plain.parts {part : Part} (h : Plain part) : parts part = [part] := by
  rw [Paths.parts, List.splitOn_eq_singleton h.slash, List.filter_singleton]
  simp [h.ne_nil, h.ne_dot]

theorem Plain.follow {part : Part} (h : Plain part) (place : List Part) :
    follow place part = part :: place := by
  unfold Paths.follow
  rw [if_neg h.ne_dotdot]

/-- What is behind the last slash lies in the directory before it. -/
theorem resolve_append {part : Part} (h : Plain part) (dir : List Char) :
    resolve (dir ++ '/' :: part) = part :: resolve dir := by
  rw [resolve, parts_append, h.parts, List.foldl_append, List.foldl_cons, List.foldl_nil, h.follow,
    resolve]

/-- The path leads to something that lies right in the directory `dir`. -/
def DirectChild (dir path : List Char) : Prop := ∃ part, resolve path = part :: resolve dir

theorem directChild_append {part : Part} (h : Plain part) (dir : List Char) :
    DirectChild dir (dir ++ '/' :: part) :=
  ⟨part, resolve_append h dir⟩

/-- What lies in a subdirectory does not lie in the directory. -/
theorem not_directChild_append {sub part : Part} (hsub : Plain sub) (hpart : Plain part)
    (dir : List Char) : ¬DirectChild dir (dir ++ '/' :: (sub ++ '/' :: part)) := by
  rintro ⟨child, hchild⟩
  have hpath : dir ++ '/' :: (sub ++ '/' :: part) = (dir ++ '/' :: sub) ++ '/' :: part := by simp
  rw [hpath, resolve_append hpart, resolve_append hsub] at hchild
  have hlen := congrArg List.length hchild
  simp at hlen

end Paths
