import Mathlib.Data.Finset.Basic

/-!
# Target collections and `is_target_loc`
-/

namespace Abstraktor.Pass

/-- `TARGETS_TYPE` as the (file, line) pairs it holds, a line as its 32-bit pattern, which both
`*ep == line` and `erase(line)` keep. -/
abbrev Targets := Finset (String × UInt32)

/-- `CONST_TARGETS_TYPE` (`unordered_map<string, unordered_map<int, string>>`): the constant's
name at each (file, line), `none` where the line is not a key. -/
abbrev ConstTargets := String → UInt32 → Option String

/-- The four collections `runOnModule` passes to `is_target_loc` by reference. -/
structure TargetState where
  bbTargets : Targets
  funcTargets : Targets
  blockTargets : Targets
  constTargets : ConstTargets

/-- `is_target_loc`: a match of one of the first three collections is removed from it. -/
def isTargetLoc (codefile : String) (line : UInt32) (t : TargetState) : UInt8 × TargetState :=
  if (codefile, line) ∈ t.bbTargets then
    (1, { t with bbTargets := t.bbTargets.erase (codefile, line) })
  else if (codefile, line) ∈ t.funcTargets then
    (2, { t with funcTargets := t.funcTargets.erase (codefile, line) })
  else if (codefile, line) ∈ t.blockTargets then
    (3, { t with blockTargets := t.blockTargets.erase (codefile, line) })
  else if (t.constTargets codefile line).isSome then (4, t)
  else (0, t)

/-- What `load_instr_targets` leaves: it fills only `block_targets` and `const_targets`. -/
def Loaded (t : TargetState) : Prop := t.bbTargets = ∅ ∧ t.funcTargets = ∅

@[simp] theorem isTargetLoc_constTargets (codefile : String) (line : UInt32) (t : TargetState) :
    (isTargetLoc codefile line t).2.constTargets = t.constTargets := by
  unfold isTargetLoc; split_ifs <;> rfl

/-- `is_target_loc` returns the code of the first collection holding the location and removes
it from that one only. -/
theorem isTargetLoc_first_match (codefile : String) (line : UInt32) (t : TargetState) :
    let r := isTargetLoc codefile line t
    (r.1 = 1 ↔ (codefile, line) ∈ t.bbTargets) ∧
    (r.1 = 2 ↔ (codefile, line) ∉ t.bbTargets ∧ (codefile, line) ∈ t.funcTargets) ∧
    (r.1 = 3 ↔ (codefile, line) ∉ t.bbTargets ∧ (codefile, line) ∉ t.funcTargets ∧
      (codefile, line) ∈ t.blockTargets) ∧
    (r.1 = 4 ↔ (codefile, line) ∉ t.bbTargets ∧ (codefile, line) ∉ t.funcTargets ∧
      (codefile, line) ∉ t.blockTargets ∧ (t.constTargets codefile line).isSome) ∧
    (r.1 = 0 ↔ (codefile, line) ∉ t.bbTargets ∧ (codefile, line) ∉ t.funcTargets ∧
      (codefile, line) ∉ t.blockTargets ∧ ¬(t.constTargets codefile line).isSome) ∧
    (∀ f l, (f, l) ∈ r.2.bbTargets ↔ (f, l) ∈ t.bbTargets ∧ ¬(r.1 = 1 ∧ f = codefile ∧ l = line)) ∧
    (∀ f l, (f, l) ∈ r.2.funcTargets ↔
      (f, l) ∈ t.funcTargets ∧ ¬(r.1 = 2 ∧ f = codefile ∧ l = line)) ∧
    (∀ f l, (f, l) ∈ r.2.blockTargets ↔
      (f, l) ∈ t.blockTargets ∧ ¬(r.1 = 3 ∧ f = codefile ∧ l = line)) ∧
    r.2.constTargets = t.constTargets := by
  unfold isTargetLoc
  split_ifs with bb func block const <;> simp_all [Finset.mem_erase, and_comm]

theorem isTargetLoc_of_loaded {t : TargetState} (loaded : Loaded t) (codefile : String)
    (line : UInt32) :
    isTargetLoc codefile line t =
      if (codefile, line) ∈ t.blockTargets then
        (3, { t with blockTargets := t.blockTargets.erase (codefile, line) })
      else if (t.constTargets codefile line).isSome then (4, t)
      else (0, t) := by
  simp [isTargetLoc, loaded.1, loaded.2]

theorem isTargetLoc_loaded {t : TargetState} (loaded : Loaded t) (codefile : String)
    (line : UInt32) : Loaded (isTargetLoc codefile line t).2 := by
  rw [isTargetLoc_of_loaded loaded]; split_ifs <;> exact loaded

end Abstraktor.Pass
