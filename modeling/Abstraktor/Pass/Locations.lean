import Abstraktor.Pass.RunOnModule

/-!
# The locations the instruction loop leaves and classifies
-/

namespace Abstraktor.Pass
open Ir

section
variable (realpath : String → Option String)

/-- The location `get_debug_loc` leaves after each instruction, from `loc` on. An instruction
without a debug location repeats the one before it. -/
def locationsFrom : String × UInt32 → List Instruction → List (String × UInt32)
  | _, [] => []
  | loc, i :: rest =>
    getDebugLoc realpath i loc.1 loc.2 :: locationsFrom (getDebugLoc realpath i loc.1 loc.2) rest

def lastLocation (loc : String × UInt32) (insts : List Instruction) : String × UInt32 :=
  insts.foldl (fun loc i => getDebugLoc realpath i loc.1 loc.2) loc

/-- The locations the instruction loop passes to `is_target_loc`: those it does not skip. -/
def classifiedLocations (loc : String × UInt32) (insts : List Instruction) :
    List (String × UInt32) :=
  (locationsFrom realpath loc insts).filter fun l => !skipsLocation l.1 l.2

@[simp] theorem classifiedLocations_nil (loc : String × UInt32) :
    classifiedLocations realpath loc [] = [] := rfl

theorem classifiedLocations_cons (loc : String × UInt32) (i : Instruction)
    (rest : List Instruction) :
    classifiedLocations realpath loc (i :: rest) =
      let next := getDebugLoc realpath i loc.1 loc.2
      if skipsLocation next.1 next.2 then classifiedLocations realpath next rest
      else next :: classifiedLocations realpath next rest := by
  simp only [classifiedLocations, locationsFrom, List.filter_cons]
  split_ifs <;> simp_all

@[simp] theorem lastLocation_cons (loc : String × UInt32) (i : Instruction)
    (rest : List Instruction) :
    lastLocation realpath loc (i :: rest) =
      lastLocation realpath (getDebugLoc realpath i loc.1 loc.2) rest := rfl

/-- The locations the instructions themselves resolve to, except the skipped ones: those of the
instructions that carry a debug location. -/
def ownLocations (insts : List Instruction) : List (String × UInt32) :=
  (insts.filterMap fun i => i.debugLoc.map (locationOf realpath)).filter
    fun l => !skipsLocation l.1 l.2

theorem ownLocations_cons_none {i : Instruction} (unlocated : i.debugLoc = none)
    (rest : List Instruction) : ownLocations realpath (i :: rest) = ownLocations realpath rest := by
  simp [ownLocations, unlocated]

theorem ownLocations_cons_some {i : Instruction} {d : DILocation} (located : i.debugLoc = some d)
    (rest : List Instruction) :
    ownLocations realpath (i :: rest) =
      if skipsLocation (locationOf realpath d).1 (locationOf realpath d).2 then
        ownLocations realpath rest
      else locationOf realpath d :: ownLocations realpath rest := by
  simp only [ownLocations, List.filterMap_cons, located, Option.map_some', List.filter_cons]
  split_ifs <;> simp_all

theorem classifiedLocations_located (insts : List Instruction) (loc : String × UInt32) :
    classifiedLocations realpath loc (insts.filter (·.debugLoc.isSome)) =
      ownLocations realpath insts := by
  induction insts generalizing loc with
  | nil => rfl
  | cons i rest ih =>
    cases located : i.debugLoc with
    | none => simp [located, ih, ownLocations_cons_none realpath located]
    | some d =>
      simp only [List.filter_cons, located, Option.isSome_some, ↓reduceIte, classifiedLocations_cons,
        getDebugLoc_some realpath located, ownLocations_cons_some realpath located, ih]

/-- An instruction without a debug location is classified at the location before it, so the
classified locations consume what the own ones do. -/
theorem sdiff_classifiedLocations (insts : List Instruction) (loc : String × UInt32)
    {B : Finset (String × UInt32)} (stale : skipsLocation loc.1 loc.2 = false → loc ∉ B) :
    B \ (classifiedLocations realpath loc insts).toFinset = B \ (ownLocations realpath insts).toFinset ∧
      (skipsLocation (lastLocation realpath loc insts).1 (lastLocation realpath loc insts).2 = false →
        lastLocation realpath loc insts ∉ B \ (ownLocations realpath insts).toFinset) := by
  induction insts generalizing loc B with
  | nil => exact ⟨rfl, fun kept => by simpa [ownLocations] using stale kept⟩
  | cons i rest ih =>
    rw [classifiedLocations_cons, lastLocation_cons]
    cases located : i.debugLoc with
    | none =>
      rw [getDebugLoc_none realpath located, ownLocations_cons_none realpath located]
      dsimp only
      split_ifs with skipped
      · exact ih loc stale
      · have absent : loc ∉ B := stale (by simpa using skipped)
        rw [List.toFinset_cons, Finset.sdiff_insert,
          Finset.erase_eq_of_not_mem fun mem => absent (Finset.mem_sdiff.mp mem).1]
        exact ih loc stale
    | some d =>
      rw [getDebugLoc_some realpath located, ownLocations_cons_some realpath located]
      dsimp only
      split_ifs with skipped
      · exact ih _ fun kept => absurd (skipped.symm.trans kept) (by decide)
      · simp only [List.toFinset_cons, Finset.sdiff_insert, ← Finset.erase_sdiff_comm]
        exact ih _ fun _ => Finset.not_mem_erase _ _

end

/-! ### One iteration of the instruction loop -/

section
variable {realpath : String → Option String} {s : Scan}

@[simp] theorem classify_filename (s : Scan) (k : UInt8) : (s.classify k).filename = s.filename := by
  unfold Scan.classify; split_ifs <;> rfl

@[simp] theorem classify_line (s : Scan) (k : UInt8) : (s.classify k).line = s.line := by
  unfold Scan.classify; split_ifs <;> rfl

@[simp] theorem classify_targets (s : Scan) (k : UInt8) : (s.classify k).targets = s.targets := by
  unfold Scan.classify; split_ifs <;> rfl

theorem scanInstruction_location (realpath : String → Option String) (s : Scan) (i : Instruction) :
    ((scanInstruction realpath s i).filename, (scanInstruction realpath s i).line) =
      getDebugLoc realpath i s.filename s.line := by
  unfold scanInstruction; dsimp only; split_ifs <;> simp

theorem scanInstruction_of_loaded (loaded : Loaded s.targets) (i : Instruction) :
    scanInstruction realpath s i =
      let loc := getDebugLoc realpath i s.filename s.line
      if skipsLocation loc.1 loc.2 then { s with filename := loc.1, line := loc.2 }
      else if loc ∈ s.targets.blockTargets then
        { s with filename := loc.1, line := loc.2, isTargetBlockEvent := true,
                 targets := { s.targets with blockTargets := s.targets.blockTargets.erase loc } }
      else if (s.targets.constTargets loc.1 loc.2).isSome then
        { s with filename := loc.1, line := loc.2, isTargetConstEvent := true, constLine := loc.2 }
      else { s with filename := loc.1, line := loc.2 } := by
  unfold scanInstruction
  simp only [isTargetLoc_of_loaded loaded]
  split_ifs <;> simp [Scan.classify]

theorem scanInstruction_loaded (loaded : Loaded s.targets) (i : Instruction) :
    Loaded (scanInstruction realpath s i).targets := by
  rw [scanInstruction_of_loaded loaded]; dsimp only; split_ifs <;> exact loaded

theorem scanInstruction_constTargets (i : Instruction) :
    (scanInstruction realpath s i).targets.constTargets = s.targets.constTargets := by
  unfold scanInstruction; dsimp only; split_ifs <;> simp

theorem scanInstruction_targets (loaded : Loaded s.targets) (i : Instruction) :
    (scanInstruction realpath s i).targets =
      let loc := getDebugLoc realpath i s.filename s.line
      if skipsLocation loc.1 loc.2 then s.targets
      else { s.targets with blockTargets := s.targets.blockTargets.erase loc } := by
  rw [scanInstruction_of_loaded loaded]; dsimp only
  split_ifs with skipped member <;> simp [Finset.erase_eq_of_not_mem, *]

theorem scanInstruction_isTargetFunc (loaded : Loaded s.targets) (i : Instruction) :
    (scanInstruction realpath s i).isTargetFunc = s.isTargetFunc := by
  rw [scanInstruction_of_loaded loaded]; dsimp only; split_ifs <;> rfl

theorem scanInstruction_isTargetBlockEvent (loaded : Loaded s.targets) (i : Instruction) :
    (scanInstruction realpath s i).isTargetBlockEvent =
      let loc := getDebugLoc realpath i s.filename s.line
      (s.isTargetBlockEvent || (!skipsLocation loc.1 loc.2 && decide (loc ∈ s.targets.blockTargets))) := by
  rw [scanInstruction_of_loaded loaded]; dsimp only; split_ifs <;> simp_all

end

/-! ### The instruction loop over a block -/

section
variable {realpath : String → Option String}

theorem scan_location (insts : List Instruction) (s : Scan) :
    ((insts.foldl (scanInstruction realpath) s).filename, (insts.foldl (scanInstruction realpath) s).line) =
      lastLocation realpath (s.filename, s.line) insts := by
  induction insts generalizing s with
  | nil => rfl
  | cons i rest ih => rw [List.foldl_cons, ih, lastLocation_cons, scanInstruction_location]

theorem scan_loaded (insts : List Instruction) {s : Scan} (loaded : Loaded s.targets) :
    Loaded (insts.foldl (scanInstruction realpath) s).targets := by
  induction insts generalizing s with
  | nil => exact loaded
  | cons i rest ih => exact ih (scanInstruction_loaded loaded i)

theorem scan_isTargetFunc (insts : List Instruction) {s : Scan} (loaded : Loaded s.targets) :
    (insts.foldl (scanInstruction realpath) s).isTargetFunc = s.isTargetFunc := by
  induction insts generalizing s with
  | nil => rfl
  | cons i rest ih =>
    rw [List.foldl_cons, ih (scanInstruction_loaded loaded i), scanInstruction_isTargetFunc loaded]

theorem scan_targets (insts : List Instruction) {s : Scan} (loaded : Loaded s.targets) :
    (insts.foldl (scanInstruction realpath) s).targets =
      { s.targets with blockTargets := s.targets.blockTargets \
          (classifiedLocations realpath (s.filename, s.line) insts).toFinset } := by
  induction insts generalizing s with
  | nil => simp
  | cons i rest ih =>
    have location := scanInstruction_location realpath s i
    rw [List.foldl_cons, ih (scanInstruction_loaded loaded i), scanInstruction_targets loaded,
      classifiedLocations_cons, ← location]
    dsimp only
    split_ifs <;> simp [Finset.sdiff_insert, Finset.erase_sdiff_comm]

theorem scan_isTargetBlockEvent (insts : List Instruction) {s : Scan} (loaded : Loaded s.targets) :
    (insts.foldl (scanInstruction realpath) s).isTargetBlockEvent = true ↔
      s.isTargetBlockEvent = true ∨
        ∃ loc ∈ classifiedLocations realpath (s.filename, s.line) insts, loc ∈ s.targets.blockTargets := by
  induction insts generalizing s with
  | nil => simp
  | cons i rest ih =>
    have location := scanInstruction_location realpath s i
    rw [List.foldl_cons, ih (scanInstruction_loaded loaded i), scanInstruction_isTargetBlockEvent loaded,
      scanInstruction_targets loaded, classifiedLocations_cons, ← location]
    dsimp only
    by_cases skipped : skipsLocation (scanInstruction realpath s i).filename (scanInstruction realpath s i).line
    · simp [skipped]
    · by_cases member : ((scanInstruction realpath s i).filename, (scanInstruction realpath s i).line) ∈
          s.targets.blockTargets
      · simp [skipped, member]
      · simp [skipped, member, Finset.erase_eq_of_not_mem]

/-- The instruction loop over a block on loaded targets. -/
theorem scanBlock_of_loaded (realpath : String → Option String) {targets : TargetState} (loaded : Loaded targets) (l : Locals)
    (bb : BasicBlock) :
    let scan := scanBlock realpath targets l bb
    let classified := classifiedLocations realpath (l.filename, l.line) bb.instructions
    scan.targets = { targets with blockTargets := targets.blockTargets \ classified.toFinset } ∧
      (scan.isTargetBlockEvent = true ↔ ∃ loc ∈ classified, loc ∈ targets.blockTargets) ∧
      (scan.filename, scan.line) = lastLocation realpath (l.filename, l.line) bb.instructions ∧
      scan.isTargetFunc = l.isTargetFunc :=
  ⟨scan_targets _ loaded, (scan_isTargetBlockEvent _ loaded).trans (by simp [Scan.start]),
    scan_location _ _, scan_isTargetFunc _ loaded⟩

end

end Abstraktor.Pass
