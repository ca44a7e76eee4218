import Mathlib.Data.List.Dedup
import Mathlib.Data.List.Infix

/-!
# A disk

Files and directories by their paths, where a path is the list of its names. A directory is made
with the directories above it, a new file is created in a directory that exists, and a rename
replaces the file that it is over. An operation that the disk refuses gives `none`.

## Main definitions

* `Disk.read`, `Disk.names` — a node, and the names in a directory.
* `Disk.makeDirs`, `Disk.create`, `Disk.replace`, `Disk.rename`, `Disk.remove` — the operations.
-/

namespace TianmaCoder

inductive DiskNode (τ : Type*) where
  | directory
  | file (text : τ)

/-- Nodes by their paths; the first entry of a path counts. -/
structure Disk (τ : Type*) where
  nodes : List (List String × DiskNode τ)

namespace Disk

variable {τ : Type*} {d d' : Disk τ} {p q : List String}

def read (d : Disk τ) (p : List String) : Option (DiskNode τ) :=
  (d.nodes.find? fun entry => entry.1 = p).map Prod.snd

def isDirectory (d : Disk τ) (p : List String) : Bool :=
  match d.read p with
  | some .directory => true
  | _ => false

def isFile (d : Disk τ) (p : List String) : Bool :=
  match d.read p with
  | some (.file _) => true
  | _ => false

/-- Put a node at a path, over whatever was there. -/
def write (d : Disk τ) (p : List String) (node : DiskNode τ) : Disk τ := ⟨(p, node) :: d.nodes⟩

def remove (d : Disk τ) (p : List String) : Disk τ := ⟨d.nodes.filter fun entry => entry.1 ≠ p⟩

/-- The name of a path in a directory. -/
def childName (dir p : List String) : Option String :=
  if p.dropLast = dir then p.getLast? else none

/-- The names in a directory. -/
def names (d : Disk τ) (dir : List String) : List String :=
  (d.nodes.filterMap fun entry => childName dir entry.1).dedup

/-! ## Reading -/

theorem read_write (d : Disk τ) (p : List String) (node : DiskNode τ) (q : List String) :
    (d.write p node).read q = if q = p then some node else d.read q := by
  unfold read write
  by_cases h : q = p
  · simp [h]
  · have hne : ¬p = q := fun heq => h heq.symm
    simp [h, hne]

theorem read_remove (d : Disk τ) (p q : List String) :
    (d.remove p).read q = if q = p then none else d.read q := by
  unfold read remove
  rw [List.find?_filter]
  by_cases h : q = p
  · subst h
    simp
  · rw [if_neg h]
    congr 2
    funext entry
    by_cases hentry : entry.1 = q
    · have hne : ¬entry.1 = p := fun heq => h (hentry.symm.trans heq)
      simp [hentry, h]
    · simp [hentry]

theorem isSome_read_iff : (d.read p).isSome = true ↔ ∃ entry ∈ d.nodes, entry.1 = p := by
  simp [read, List.find?_isSome]

theorem childName_eq_some_iff {dir p : List String} {name : String} :
    childName dir p = some name ↔ p = dir ++ [name] := by
  unfold childName
  constructor
  · intro h
    split at h
    · next hdir => rw [← hdir, List.dropLast_append_getLast? name h]
    · cases h
  · rintro rfl
    simp

theorem mem_names {dir : List String} {name : String} :
    name ∈ d.names dir ↔ (d.read (dir ++ [name])).isSome = true := by
  rw [isSome_read_iff, names, List.mem_dedup, List.mem_filterMap]
  simp only [childName_eq_some_iff]

theorem isDirectory_iff : d.isDirectory p = true ↔ d.read p = some .directory := by
  unfold isDirectory
  split
  · next h => simp [h]
  · next h => exact iff_of_false (by simp) h

theorem isFile_iff : d.isFile p = true ↔ ∃ text, d.read p = some (.file text) := by
  unfold isFile
  split
  · next text h => simp [h]
  · next h => exact iff_of_false (by simp) (by rintro ⟨text, htext⟩; exact h text htext)

/-! ## Operations -/

/-- Make a directory and those above it. -/
def makeDirs (d : Disk τ) (p : List String) : Option (Disk τ) :=
  if p.inits.any d.isFile then none
  else some (p.inits.foldl
    (fun disk q => if (disk.read q).isNone then disk.write q .directory else disk) d)

/-- A new file in a directory that exists. -/
def create (d : Disk τ) (p : List String) (text : τ) : Option (Disk τ) :=
  if (d.read p).isSome ∨ d.isDirectory p.dropLast = false then none
  else some (d.write p (.file text))

/-- Write the text of a file that exists. -/
def replace (d : Disk τ) (p : List String) (text : τ) : Option (Disk τ) :=
  if d.isFile p then some (d.write p (.file text)) else none

/-- Move a file over another. -/
def rename (d : Disk τ) (source target : List String) : Option (Disk τ) :=
  match d.read source with
  | some (.file text) =>
    if d.isDirectory target ∨ d.isDirectory target.dropLast = false then none
    else some ((d.remove source).write target (.file text))
  | _ => none

theorem read_foldl_directories (paths : List (List String)) (d : Disk τ) (q : List String) :
    (paths.foldl (fun disk q => if (disk.read q).isNone then disk.write q .directory else disk)
        d).read q =
      if q ∈ paths ∧ d.read q = none then some .directory else d.read q := by
  induction paths generalizing d with
  | nil => simp
  | cons p paths ih =>
    rw [List.foldl_cons, ih]
    by_cases hp : (d.read p).isNone = true
    · rw [if_pos hp, read_write]
      by_cases hq : q = p
      · subst hq
        rw [Option.isNone_iff_eq_none] at hp
        simp [hp]
      · simp [hq]
    · rw [if_neg hp]
      by_cases hq : q = p
      · subst hq
        rw [Option.isNone_iff_eq_none] at hp
        simp [hp]
      · simp [hq]

/-- The directories above a path are made where there is nothing, unless one of them is a file. -/
theorem makeDirs_eq_some_iff :
    d.makeDirs p = some d' ↔ (∀ q, q <+: p → d.isFile q = false) ∧
      d' = p.inits.foldl
        (fun disk q => if (disk.read q).isNone then disk.write q .directory else disk) d := by
  unfold makeDirs
  split
  · next h =>
      refine iff_of_false (by simp) ?_
      rintro ⟨hfiles, -⟩
      obtain ⟨q, hq, hfile⟩ := List.any_eq_true.mp h
      rw [hfiles q (List.mem_inits _ _ |>.mp hq)] at hfile
      cases hfile
  · next h =>
      rw [Option.some.injEq]
      constructor
      · intro heq
        refine ⟨fun q hq => ?_, heq.symm⟩
        rw [List.any_eq_true] at h
        by_contra hfile
        exact h ⟨q, List.mem_inits _ _ |>.mpr hq, by simpa using hfile⟩
      · rintro ⟨-, rfl⟩
        rfl

theorem read_of_makeDirs (h : d.makeDirs p = some d') (q : List String) :
    d'.read q = if q <+: p ∧ d.read q = none then some .directory else d.read q := by
  obtain ⟨-, rfl⟩ := makeDirs_eq_some_iff.mp h
  rw [read_foldl_directories]
  simp only [List.mem_inits]

theorem create_eq_some_iff {text : τ} :
    d.create p text = some d' ↔
      d.read p = none ∧ d.isDirectory p.dropLast = true ∧ d' = d.write p (.file text) := by
  unfold create
  split
  · next h =>
      refine iff_of_false (by simp) ?_
      rintro ⟨hnone, hparent, -⟩
      rcases h with h | h
      · rw [hnone] at h
        cases h
      · rw [hparent] at h
        cases h
  · next h =>
      push Not at h
      rw [Option.some.injEq, eq_comm]
      simpa [h] using fun _ => Option.not_isSome_iff_eq_none.mp h.1

theorem replace_eq_some_iff {text : τ} :
    d.replace p text = some d' ↔ d.isFile p = true ∧ d' = d.write p (.file text) := by
  unfold replace
  split
  · next h => rw [Option.some.injEq, eq_comm]; simp [h]
  · next h => simp [h]

theorem rename_eq_some_iff {source target : List String} :
    d.rename source target = some d' ↔
      ∃ text, d.read source = some (.file text) ∧ d.isDirectory target = false ∧
        d.isDirectory target.dropLast = true ∧
        d' = (d.remove source).write target (.file text) := by
  unfold rename
  cases hread : d.read source with
  | none => simp
  | some node =>
    cases node with
    | directory => simp
    | file text =>
      dsimp only
      split
      · next h =>
          refine iff_of_false (by simp) ?_
          rintro ⟨text', htext, htarget, hparent, -⟩
          rw [htarget, hparent] at h
          simp at h
      · next h =>
          push Not at h
          rw [Option.some.injEq]
          constructor
          · rintro rfl
            exact ⟨text, rfl, by simpa using h.1, by simpa using h.2, rfl⟩
          · rintro ⟨text', htext, -, -, rfl⟩
            cases htext
            rfl

end Disk

end TianmaCoder
