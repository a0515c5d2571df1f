import Nightfall.L4System.System

/-!
# Files and directories

`World` has files only. A `FileTree` adds the directories there are, and
`treeHandle` runs the same flows on it: a directory counts as existing, takes in
what is copied to it, and can be neither overwritten nor read, and below a file
nothing can be written. The flows that run on it rename and unlink files only.
-/
namespace Nightfall
open Nightfall.Core Storage Prog

/-- The files of a world and the directories they may lie in. -/
structure FileTree extends World where
  dirs : List Path
  /-- `st_size` of a directory -/
  dirSize : Path → Nat
  /-- no directory is a file -/
  apart : ∀ p ∈ dirs, fs.get p = none
  root : [] ∈ dirs

namespace FileTree

/-- `path.exists()`. -/
def present (d : FileTree) (p : Path) : Bool := (d.fs.get p).isSome || d.dirs.contains p

/-- A file is in the place of a directory above `p`, which can then not be made. -/
def blocked (d : FileTree) (p : Path) : Bool :=
  p.dropLast.inits.any fun q => (d.fs.get q).isSome

/-- Where `shutil.copy2` puts a file: into a directory, if there is one. -/
def landing (d : FileTree) (src dst : Path) : Path :=
  if dst ∈ d.dirs then dst ++ [src.name] else dst

/-- A file can be written at `p`. -/
def Accepts (d : FileTree) (p : Path) : Prop := p ∉ d.dirs ∧ d.blocked p = false

instance (d : FileTree) (p : Path) : Decidable (d.Accepts p) := inferInstanceAs (Decidable (_ ∧ _))

def put (d : FileTree) (p : Path) (b : Bytes) (h : p ∉ d.dirs) : FileTree :=
  { d with
    fs := d.fs.put p b
    apart := fun q hq => by
      rw [Table.get_put, if_neg (ne_of_mem_of_not_mem hq h)]
      exact d.apart q hq }

def drop (d : FileTree) (p : Path) : FileTree :=
  { d with
    fs := d.fs.drop p
    apart := fun q hq => by
      rw [Table.get_drop]
      split
      · rfl
      · exact d.apart q hq }

end FileTree

/-- The steps on a tree. `mkdir` of the destination's directory, which comes before
a file is written, is part of the write; the other steps see only files. -/
def treeHandle (env : Env) : Handler Ops FileTree
  | .pathExists p, d => (d.present p, d)
  | .statSize p, d => (if p ∈ d.dirs then some (d.dirSize p) else (d.fs.get p).map (·.length), d)
  | .replace src dst, d =>
    match d.fs.get src with
    | none => (false, d)
    | some b => if h : d.Accepts dst then (true, (d.drop src).put dst b h.1) else (false, d)
  | .copy2 src dst, d =>
    match d.fs.get src with
    | none => (false, d)
    | some b =>
      if h : d.Accepts (d.landing src dst) ∧ d.landing src dst ≠ src then
        (true, d.put (d.landing src dst) b h.1.1)
      else (false, d)
  | .unlink p, d => ((), d.drop p)
  | o, d =>
    ((handle env o d.toWorld).1,
      { d with toWorld := { (handle env o d.toWorld).2 with fs := d.fs }, apart := d.apart })

theorem blocked_eq_false {d : FileTree} {p : Path} :
    d.blocked p = false ↔ ∀ q, q <+: p.dropLast → d.fs.get q = none := by
  simp [FileTree.blocked, List.any_eq_false, List.mem_inits]

/-- Files in the directories they need. -/
def sampleTree (files : List (Path × Bytes)) (dirs : List Path)
    (apart : ∀ p ∈ [] :: dirs, (sampleWorld files Registry.empty).fs.get p = none) : FileTree :=
  { sampleWorld files Registry.empty with
    dirs := [] :: dirs
    dirSize := fun _ => 4096
    apart := apart
    root := List.mem_cons_self }

end Nightfall
