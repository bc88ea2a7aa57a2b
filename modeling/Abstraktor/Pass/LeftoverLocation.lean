import Abstraktor.Pass.BlockTargets

/-!
# The location the instruction loop leaves behind

`get_debug_loc` overwrites `filename` and `line` only for an instruction with a debug location,
and the block's record reads them after the loop.
-/

namespace Abstraktor.Pass
open Ir

/-- A block target at line 10 and a following instruction at line 11: the block event is
logged at line 11, which no target names. -/
theorem instrumentModule_logs_leftover_line :
    let env : Env := ⟨fun _ => none, fun _ => 0, false, 0, 65536, fun _ => none, fun _ => none⟩
    let targets : TargetState := ⟨∅, ∅, {("/src/a.c", 10)}, fun _ _ => none⟩
    let M : Module := ⟨[⟨"main", [], [⟨[⟨.other "add", some ⟨10, "/src/a.c", "", none⟩⟩,
      ⟨.other "ret", some ⟨11, "/src/a.c", "", none⟩⟩]⟩]⟩]⟩
    (instrumentModule env targets M 0).events.bbToID = [.block 0 "/src/a.c" 11] := by
  decide

/-! ### Instructions without a location -/

/-- The instruction loop as the spec words it: instructions without a debug location are
ignored, the others classified in order. -/
def scanBlockOwn (realpath : String → Option String) (targets : TargetState) (l : Locals)
    (bb : BasicBlock) : Scan :=
  (bb.instructions.filter (·.debugLoc.isSome)).foldl (scanInstruction realpath) (Scan.start targets l)

theorem scanBlock_targets_eq_own (realpath : String → Option String) {targets : TargetState}
    (loaded : Loaded targets) (l : Locals) (bb : BasicBlock)
    (settled : skipsLocation l.filename l.line = false →
      (l.filename, l.line) ∉ targets.blockTargets) :
    (scanBlock realpath targets l bb).targets = (scanBlockOwn realpath targets l bb).targets := by
  rw [(scanBlock_of_loaded realpath loaded l bb).1, scanBlockOwn, scan_targets _ loaded]
  simp only [Scan.start, classifiedLocations_located,
    (sdiff_classifiedLocations realpath bb.instructions (l.filename, l.line) settled).1]

/-- A second block without a location is classified at the first block's line, by then only a
constant target, and gets a constant event. -/
theorem scanBlock_classifies_leftover_location :
    let env : Env := ⟨fun _ => none, fun _ => 0, false, 0, 65536, fun _ => none, fun _ => none⟩
    let targets : TargetState := ⟨∅, ∅, {("/src/a.c", 20)},
      fun f l => if f = "/src/a.c" ∧ l = 20 then some "MAX_RETRIES" else none⟩
    let B₁ : BasicBlock := ⟨[⟨.other "add", some ⟨20, "/src/a.c", "", none⟩⟩]⟩
    let B₂ : BasicBlock := ⟨[⟨.other "ret", none⟩]⟩
    let F : Function := ⟨"main", [], [B₁, B₂]⟩
    let entry := runBlock env F 0 (PassState.init targets 0, Locals.init) 0 B₁
    (scanBlock env.realpath entry.1.events.targets entry.2 B₂).isTargetConstEvent = true ∧
      (scanBlockOwn env.realpath entry.1.events.targets entry.2 B₂).isTargetConstEvent = false ∧
      (instrumentModule env targets ⟨[F]⟩ 0).events.probes =
        [⟨0, 0, .block 0⟩, ⟨0, 1, .const 1 "MAX_RETRIES"⟩] := by
  decide

end Abstraktor.Pass
