import Abstraktor.Pass.Execution
import Abstraktor.Pass.Rewrite

/-!
# Instructions inserted where LLVM allows them
-/

namespace Abstraktor.Ir

/-- The instructions LLVM requires at the top of a block. -/
def Opcode.isLeading : Opcode → Bool
  | .phi | .ehPad => true
  | _ => false

theorem Opcode.not_leading_of_projection {op : Opcode} (projection : op.isProjection) :
    op.isLeading = false := by
  unfold Opcode.isProjection at projection
  split at projection <;> first | rfl | cases projection

theorem Opcode.ne_of_not_leading {op : Opcode} (trailing : op.isLeading = false) :
    op ≠ .phi ∧ op ≠ .ehPad := by
  constructor <;> rintro rfl <;> exact absurd trailing (by decide)

/-- LLVM's placement rules for a block: PHI nodes only in a run at its top, and an
exception-handling pad only as the first instruction after them. -/
def BasicBlock.WellPlaced (bb : BasicBlock) : Prop :=
  ∃ phis rest, bb.instructions = phis ++ rest ∧ (∀ i ∈ phis, i.opcode = .phi) ∧
    (∀ i ∈ rest, i.opcode ≠ .phi) ∧ ∀ i ∈ rest.drop 1, i.opcode ≠ .ehPad

theorem findIdx?_after_phis {phis : List Instruction} (allPhi : ∀ i ∈ phis, i.opcode = .phi)
    {r : Instruction} (notPhi : r.opcode ≠ .phi) (rest : List Instruction) (start : Nat) :
    (phis ++ r :: rest).findIdx? (fun i => i.opcode != .phi) start = some (start + phis.length) := by
  induction phis generalizing start with
  | nil => simp [notPhi]
  | cons i phis ih =>
    rw [List.cons_append, List.findIdx?_cons, allPhi i (List.mem_cons_self _ _),
      ih (fun i mem => allPhi i (List.mem_cons_of_mem _ mem))]
    simp only [bne_self_eq_false, Bool.false_eq_true, ↓reduceIte, List.length_cons,
      Option.some.injEq]
    omega

/-- Where a well-placed block's first insertion point lies: right after its PHI nodes, and one
further when an exception-handling pad follows them. -/
theorem firstInsertionPt_of_wellPlaced {bb : BasicBlock} (placed : bb.WellPlaced) {ip : Nat}
    (first : bb.firstInsertionPt = some ip) :
    ∃ phis r rest, bb.instructions = phis ++ r :: rest ∧ (∀ i ∈ phis, i.opcode = .phi) ∧
      r.opcode ≠ .phi ∧ (∀ i ∈ rest, i.opcode ≠ .phi ∧ i.opcode ≠ .ehPad) ∧
      ip = if r.opcode = .ehPad then phis.length + 1 else phis.length := by
  obtain ⟨phis, rest, split, allPhi, noPhi, noPad⟩ := placed
  unfold BasicBlock.firstInsertionPt at first
  rw [split] at first
  cases rest with
  | nil =>
    rw [List.append_nil, List.findIdx?_eq_none_iff.mpr (by simpa using allPhi)] at first
    cases first
  | cons r rest =>
    have notPhi := noPhi r (List.mem_cons_self _ _)
    rw [findIdx?_after_phis allPhi notPhi rest 0, Nat.zero_add] at first
    have atPhis : (phis ++ r :: rest).get? phis.length = some r := by
      rw [List.get?_eq_getElem?, List.getElem?_append_right (Nat.le_refl _), Nat.sub_self,
        List.getElem?_cons_zero]
    simp only [atPhis, Option.map_some', Option.some.injEq] at first
    refine ⟨phis, r, rest, split, allPhi, notPhi,
      fun i mem => ⟨noPhi i (List.mem_cons_of_mem _ mem), noPad i mem⟩, ?_⟩
    split_ifs at first <;> simp_all

theorem BasicBlock.firstInsertionPt_leading {bb : BasicBlock} {ip : Nat}
    (first : bb.firstInsertionPt = some ip) : ∀ i ∈ bb.instructions.take ip, i.opcode.isLeading := by
  unfold BasicBlock.firstInsertionPt at first
  split at first
  · cases first
  · rename_i k found
    obtain ⟨_, _, phis⟩ := List.findIdx?_eq_some_iff_getElem.mp found
    have phi : ∀ j (before : j < k) (within : j < bb.instructions.length),
        bb.instructions[j].opcode.isLeading := fun j before _ => by
      have isPhi : bb.instructions[j].opcode = .phi := by simpa using phis j before
      rw [isPhi]; rfl
    intro i mem
    obtain ⟨j, bound, rfl⟩ := List.mem_take_iff_getElem.mp mem
    have within : j < bb.instructions.length := Nat.lt_of_lt_of_le bound (Nat.min_le_right _ _)
    simp only [] at first
    split_ifs at first with pad <;> cases first
    · rcases Nat.lt_or_ge j k with before | atPad
      · exact phi j before within
      · obtain rfl : j = k := by have := Nat.min_le_left (k + 1) bb.instructions.length; omega
        rw [List.get?_eq_getElem?, List.getElem?_eq_getElem within] at pad
        simp only [Option.map_some', Option.some.injEq] at pad
        rw [pad]; rfl
    · exact phi j (Nat.lt_of_lt_of_le bound (Nat.min_le_left _ _)) within

end Abstraktor.Ir

namespace Abstraktor.Pass
open Ir

theorem insertAt_wellPlaced {bb : BasicBlock} (placed : bb.WellPlaced) {ip : Nat}
    (first : bb.firstInsertionPt = some ip) {created : List Opcode}
    (trailing : ∀ op ∈ created, op.isLeading = false) : (insertAt ip created bb).WellPlaced := by
  obtain ⟨phis, r, rest, split, allPhi, notPhi, later, rfl⟩ := firstInsertionPt_of_wellPlaced placed first
  obtain ⟨loc, instructions⟩ := insertAt_instructions
    (if r.opcode = .ehPad then phis.length + 1 else phis.length) created bb
  have inserted : ∀ i ∈ created.map (fun op => (⟨op, loc⟩ : Instruction)),
      i.opcode ≠ .phi ∧ i.opcode ≠ .ehPad := by
    intro i mem
    obtain ⟨op, created, rfl⟩ := List.mem_map.mp mem
    exact Opcode.ne_of_not_leading (trailing op created)
  unfold BasicBlock.WellPlaced
  rw [instructions, split]
  split_ifs with pad
  · refine ⟨phis, r :: (created.map (fun op => ⟨op, loc⟩) ++ rest), ?_, allPhi, ?_, ?_⟩
    · rw [show phis ++ r :: rest = (phis ++ [r]) ++ rest by simp, List.take_left' (by simp),
        List.drop_left' (by simp)]
      simp
    · simp only [List.forall_mem_cons, List.forall_mem_append]
      exact ⟨notPhi, fun i mem => (inserted i mem).1, fun i mem => (later i mem).1⟩
    · simp only [List.drop_succ_cons, List.drop_zero, List.forall_mem_append]
      exact ⟨fun i mem => (inserted i mem).2, fun i mem => (later i mem).2⟩
  · refine ⟨phis, created.map (fun op => ⟨op, loc⟩) ++ r :: rest, ?_, allPhi, ?_, ?_⟩
    · rw [List.take_left, List.drop_left, List.append_assoc]
    · simp only [List.forall_mem_append, List.forall_mem_cons]
      exact ⟨fun i mem => (inserted i mem).1, notPhi, fun i mem => (later i mem).1⟩
    · intro i mem
      rcases List.mem_append.mp (List.mem_of_mem_drop mem) with new | old
      · exact (inserted i new).2
      · rcases List.mem_cons.mp old with rfl | old
        exacts [pad, (later i old).2]

/-! ### What the pass creates -/

theorem opcode_trailing (call : ProbeCall) : call.opcode.isLeading = false := by
  cases call <;> rfl

theorem edgeCoverage_trailing (n curLoc : Nat) :
    ∀ op ∈ edgeCoverage n curLoc, op.isLeading = false := by
  simp [edgeCoverage, Opcode.isLeading]

theorem blockStep_wellPlaced (env : Env) (F : Function) {bb bb' : BasicBlock}
    (step : BlockStep env F bb bb') (placed : bb.WellPlaced) : bb'.WellPlaced := by
  rcases step with ⟨rfl, -⟩ | ⟨ip, projection, calls, tail, first, projected, called, edge, rfl⟩
  · exact placed
  · refine insertAt_wellPlaced placed first fun op mem => ?_
    rcases List.mem_append.mp mem with mem | edged
    · rcases List.mem_append.mp mem with emitted | probe
      · exact Opcode.not_leading_of_projection (getValues_projection projected op emitted)
      · obtain ⟨call, rfl⟩ := called op probe
        exact opcode_trailing call
    · split_ifs at edge
      · obtain ⟨_, rfl⟩ := edge
        exact edgeCoverage_trailing _ _ op edged
      · rw [edge] at edged; cases edged

/-- A complete run keeps every well-placed block of the module well placed. -/
theorem runOnModule_wellPlaced (env : Env) (file : TargetsFile) (M : Module) (c : UInt16)
    (complete : (runOnModule env file M c).fault = none) :
    List.Forall₂ (fun F F' => RewritesFunction (fun bb bb' => bb.WellPlaced → bb'.WellPlaced) F F')
      M.functions (runOnModule env file M c).functions :=
  (runOnModule_blockSteps env file M c complete).imp fun {F _} rewrites =>
    rewrites.imp fun _ _ step => blockStep_wellPlaced env F step

/-- A block that opens with a PHI node, instrumented with no targets file. -/
theorem runOnModule_wellPlaced_phi_block :
    let env : Env := ⟨fun _ => none, fun _ => 0, false, 100, 65536, fun _ => none, fun _ => none⟩
    let M : Module := ⟨[⟨"main", [], [⟨[⟨.phi, none⟩, ⟨.other "ret", none⟩]⟩]⟩]⟩
    (runOnModule env .unset M 0).fault = none ∧
      List.Forall₂ (fun F F' => RewritesFunction (fun bb bb' => bb.WellPlaced → bb'.WellPlaced) F F')
        M.functions (runOnModule env .unset M 0).functions :=
  have complete : (runOnModule ⟨fun _ => none, fun _ => 0, false, 100, 65536, fun _ => none,
      fun _ => none⟩ .unset ⟨[⟨"main", [], [⟨[⟨.phi, none⟩, ⟨.other "ret", none⟩]⟩]⟩]⟩ 0).fault =
      none := by
    decide
  ⟨complete, runOnModule_wellPlaced _ _ _ 0 complete⟩

end Abstraktor.Pass
