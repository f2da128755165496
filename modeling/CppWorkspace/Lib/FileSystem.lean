import Mathlib

/-!
A file system as a map from paths to contents, with the three calls a
write-then-rename update makes. Appending is byte by byte, so that a crash
between two calls leaves any prefix of the data in the file.
-/

namespace CppWorkspace.Lib

abbrev Path := List Char

abbrev FileSystem := Path → Option (List UInt8)

inductive FileOp where
  | truncate (path : Path)
  | append (path : Path) (bytes : List UInt8)
  | rename (source target : Path)
deriving Repr, DecidableEq

namespace FileSystem

/-- Renaming a file that does not exist fails and changes nothing. -/
def rename (fs : FileSystem) (source target : Path) : FileSystem :=
  match fs source with
  | none => fs
  | some content =>
      Function.update (Function.update fs source none) target (some content)

def applyOp (fs : FileSystem) : FileOp → FileSystem
  | .truncate path => Function.update fs path (some [])
  | .append path bytes =>
      match fs path with
      | none => fs
      | some old => Function.update fs path (some (old ++ bytes))
  | .rename source target => fs.rename source target

def applyOps (fs : FileSystem) (ops : List FileOp) : FileSystem :=
  ops.foldl applyOp fs

/-- Write `data` to `tmp` and rename it over `path`. -/
def replaceOps (tmp path : Path) (data : List UInt8) : List FileOp :=
  .truncate tmp :: (data.map (fun b => .append tmp [b]) ++ [.rename tmp path])

@[simp] theorem replaceOps_length (tmp path : Path) (data : List UInt8) :
    (replaceOps tmp path data).length = data.length + 2 := by
  simp [replaceOps]

theorem applyOps_take_succ (fs : FileSystem) {ops : List FileOp} {k : Nat} {op : FileOp}
    (hop : ops[k]? = some op) :
    fs.applyOps (ops.take (k + 1)) = (fs.applyOps (ops.take k)).applyOp op := by
  rw [List.take_add_one, hop]
  simp [applyOps]

theorem applyOps_appends (fs : FileSystem) (tmp : Path) (old data : List UInt8)
    (htmp : fs tmp = some old) :
    fs.applyOps (data.map fun b => .append tmp [b]) =
      Function.update fs tmp (some (old ++ data)) := by
  induction data generalizing fs old with
  | nil => simp [applyOps, ← htmp]
  | cons b rest ih =>
      have hstep : fs.applyOp (.append tmp [b]) =
          Function.update fs tmp (some (old ++ [b])) := by simp [applyOp, htmp]
      have hrest := ih (Function.update fs tmp (some (old ++ [b]))) (old ++ [b]) (by simp)
      simp only [applyOps, List.map_cons, List.foldl_cons, hstep] at hrest ⊢
      rw [hrest]
      simp

/-- Before the rename only the temporary file differs, and it holds a prefix
of the data. -/
theorem applyOps_replace_take (fs : FileSystem) (tmp path : Path) (data : List UInt8)
    {k : Nat} (hk : k ≤ data.length) :
    fs.applyOps ((replaceOps tmp path data).take (k + 1)) =
      Function.update fs tmp (some (data.take k)) := by
  have htake : (replaceOps tmp path data).take (k + 1) =
      .truncate tmp :: (data.take k).map fun b => .append tmp [b] := by
    rw [replaceOps, List.take_succ_cons, List.take_append_of_le_length (by simpa using hk),
      List.map_take]
  have happend := applyOps_appends (Function.update fs tmp (some [])) tmp [] (data.take k)
    (by simp)
  rw [htake]
  simpa [applyOps, applyOp] using happend

theorem applyOps_replace (fs : FileSystem) (tmp path : Path) (data : List UInt8) :
    fs.applyOps (replaceOps tmp path data) =
      FileSystem.rename (Function.update fs tmp (some data)) tmp path := by
  have hpre := applyOps_replace_take fs tmp path data (le_refl data.length)
  have hall : (replaceOps tmp path data).take (data.length + 2) = replaceOps tmp path data :=
    List.take_of_length_le (by simp)
  have hop : (replaceOps tmp path data)[data.length + 1]? = some (.rename tmp path) := by
    simp [replaceOps]
  rw [← hall, applyOps_take_succ fs hop, hpre, List.take_length]
  rfl

/-- A replacement cut short anywhere leaves the target as it was; only the
whole sequence changes it, to the new data. -/
theorem replace_atomic (fs : FileSystem) {tmp path : Path} (hne : tmp ≠ path)
    (data : List UInt8) (k : Nat) :
    fs.applyOps ((replaceOps tmp path data).take k) path =
      if k < data.length + 2 then fs path else some data := by
  by_cases hk : k < data.length + 2
  · rw [if_pos hk]
    cases k with
    | zero => rfl
    | succ k =>
        rw [applyOps_replace_take fs tmp path data (by omega)]
        exact Function.update_of_ne hne.symm _ _
  · rw [if_neg hk, List.take_of_length_le (by simp; omega), applyOps_replace]
    simp [rename]

end FileSystem

end CppWorkspace.Lib
