import Mathlib.Data.String.Basic
import Abstraktor.Ir.Types

/-!
# `get_debug_loc`: the (file, line) the pass reads off an instruction
-/

namespace Abstraktor.Pass
open Ir

/-- The file name of a debug location made absolute: its `realpath` when that succeeds, or else
the directory joined to it when the directory is not empty. -/
def resolvePath (realpath : String → Option String) (filename directory : String) : String :=
  match realpath filename with
  | some path => path
  | none => if directory.length > 0 then directory ++ "/" ++ filename else filename

/-- `get_debug_loc` under `if (DILocation *Loc = I->getDebugLoc())`; the inlined-at fallback
joins the parent's file name to the directory of `Loc`, as the source does. -/
def locationOf (realpath : String → Option String) (loc : DILocation) : String × UInt32 :=
  let name := resolvePath realpath loc.filename loc.directory
  if name.isEmpty then
    match loc.inlinedAt with
    | some parent => (resolvePath realpath parent.filename loc.directory, parent.line)
    | none => (name, loc.line)
  else (name, loc.line)

/-- `get_debug_loc`, with `Filename` and `Line` passed in and returned: without a debug location
they come back as they were. -/
def getDebugLoc (realpath : String → Option String) (i : Instruction) (filename : String)
    (line : UInt32) : String × UInt32 :=
  match i.debugLoc with
  | none => (filename, line)
  | some loc => locationOf realpath loc

/-- `Xlibs`: the prefix of system files the pass does not instrument. -/
def xlibs : String := "/usr/"

/-- The test that makes the instruction loop `continue`: no file, line 0, or a file under
`/usr/` (`!filename.compare(0, Xlibs.size(), Xlibs)`). -/
def skipsLocation (filename : String) (line : UInt32) : Bool :=
  filename.isEmpty || line == 0 || xlibs.toList.isPrefixOf filename.toList

@[simp] theorem getDebugLoc_some (realpath : String → Option String) {i : Instruction}
    {loc : DILocation} (located : i.debugLoc = some loc) (filename : String) (line : UInt32) :
    getDebugLoc realpath i filename line = locationOf realpath loc := by
  simp [getDebugLoc, located]

@[simp] theorem getDebugLoc_none (realpath : String → Option String) {i : Instruction}
    (unlocated : i.debugLoc = none) (filename : String) (line : UInt32) :
    getDebugLoc realpath i filename line = (filename, line) := by
  simp [getDebugLoc, unlocated]

theorem length_pos_of_ne_empty {s : String} (nonempty : s ≠ "") : 0 < s.length := by
  cases s with
  | mk data =>
    cases data with
    | nil => exact absurd rfl nonempty
    | cons c cs => exact Nat.succ_pos _

/-- The fallback runs only where `Loc`'s directory is empty, so its `dir + "/" + Filename`
never runs. -/
theorem getDebugLoc_fallback_unjoined (realpath : String → Option String)
    (nonempty : ∀ f path, realpath f = some path → path ≠ "") {i : Instruction} {loc : DILocation}
    (located : i.debugLoc = some loc) (filename : String) (line : UInt32) :
    getDebugLoc realpath i filename line =
      if loc.filename = "" ∧ realpath "" = none ∧ loc.directory = "" then
        match loc.inlinedAt with
        | some parent => ((realpath parent.filename).getD parent.filename, parent.line)
        | none => ("", loc.line)
      else (resolvePath realpath loc.filename loc.directory, loc.line) := by
  rw [getDebugLoc_some realpath located]
  unfold locationOf resolvePath
  cases resolved : realpath loc.filename with
  | some path =>
    have named : ¬(loc.filename = "" ∧ realpath "" = none ∧ loc.directory = "") :=
      fun ⟨empty, fails, _⟩ => by rw [empty, fails] at resolved; cases resolved
    simp [named, String.isEmpty_iff, nonempty _ _ resolved]
  | none =>
    by_cases dir : loc.directory = ""
    · by_cases empty : loc.filename = ""
      · have fails : realpath "" = none := empty ▸ resolved
        cases inlined : loc.inlinedAt with
        | none => simp [dir, empty, fails, inlined, String.isEmpty_iff]
        | some parent =>
          simp only [dir, empty, fails, String.length_empty, gt_iff_lt, lt_self_iff_false,
            ↓reduceIte, String.isEmpty_iff, and_self, Prod.mk.injEq, and_true]
          cases realpath parent.filename <;> rfl
      · simp [dir, empty, String.isEmpty_iff]
    · have joined : loc.directory ++ "/" ++ loc.filename ≠ "" := fun empty => by
        have lengths := congrArg String.length empty
        simp at lengths
        exact absurd lengths.1.2 (by decide)
      simp [dir, length_pos_of_ne_empty dir, String.isEmpty_iff, joined]

/-- Inlined from `src/a.c:5`, with no file name or directory of its own. -/
theorem getDebugLoc_fallback_unjoined_inlined :
    let i : Instruction := ⟨.other "add", some ⟨7, "", "", some ⟨5, "src/a.c", "/build", none⟩⟩⟩
    (∀ f path, (fun _ => none : String → Option String) f = some path → path ≠ "") ∧
      getDebugLoc (fun _ => none) i "" 0 = ("src/a.c", 5) ∧
      getDebugLoc (fun _ => none) i "" 0 =
        if "" = "" ∧ (none : Option String) = none ∧ "" = "" then ("src/a.c", 5)
        else (resolvePath (fun _ => none) "" "", 7) :=
  ⟨(fun _ _ found => by cases found), rfl,
    getDebugLoc_fallback_unjoined (fun _ => none) (fun _ _ found => by cases found) rfl "" 0⟩

end Abstraktor.Pass
