import Mathlib.Logic.Relation
import Abstraktor.Pass.InsertedCode

/-!
# `__afl_prev_loc` along the runs of the instrumented program

A thread is, as far as `__afl_prev_loc` and the map go, a sequence of block entries (`Enters`),
each running the code the pass inserted into the block entered.
-/

namespace Abstraktor.Pass
open Ir

/-! ### The code the pass inserted into a block -/

theorem insertAt_nil (ip : Nat) (bb : BasicBlock) : insertAt ip [] bb = bb := by
  simp [insertAt]

theorem insertAt_injective {ip : Nat} {bb : BasicBlock} {created created' : List Opcode}
    (same : insertAt ip created bb = insertAt ip created' bb) : created = created' := by
  simp only [insertAt, BasicBlock.mk.injEq, List.append_cancel_left_eq,
    List.append_cancel_right_eq] at same
  exact List.map_injective_iff.mpr (fun _ _ made => (Instruction.mk.inj made).1) same

/-- `created` is the code inserted into `bb` to make `bb'`: at its first insertion point, and
none for a block without one. -/
def InsertedAt (bb bb' : BasicBlock) (created : List Opcode) : Prop :=
  match bb.firstInsertionPt with
  | some ip => bb' = insertAt ip created bb
  | none => bb' = bb ∧ created = []

theorem insertedAt_self {bb : BasicBlock} {created : List Opcode}
    (inserted : InsertedAt bb bb created) : created = [] := by
  unfold InsertedAt at inserted
  split at inserted
  · exact insertAt_injective (inserted.symm.trans (insertAt_nil _ bb).symm)
  · exact inserted.2

theorem insertedAt_insertAt {bb : BasicBlock} {ip : Nat} (located : bb.firstInsertionPt = some ip)
    {created created' : List Opcode} (inserted : InsertedAt bb (insertAt ip created bb) created') :
    created' = created := by
  simp only [InsertedAt, located] at inserted
  exact (insertAt_injective inserted).symm

/-- Block `j` of function `fn` of the instrumented module `out` holds `created`, the code the
pass inserted into that block of `M`. -/
def BlockCode (M out : Module) (fn j : Nat) (created : List Opcode) : Prop :=
  ∃ F F' bb bb', M.functions[fn]? = some F ∧ out.functions[fn]? = some F' ∧
    F.blocks[j]? = some bb ∧ F'.blocks[j]? = some bb' ∧ InsertedAt bb bb' created

/-- `curLoc` is the location of an instrumented block of `out`: the code inserted there ends in
the edge update at `curLoc`. -/
def InstrumentedLoc (M out : Module) (curLoc : Nat) : Prop :=
  ∃ fn j pre, BlockCode M out fn j (pre ++ edgeCoverage pre.length curLoc)

/-- One step of a thread of `out`: entering a block runs the code the pass inserted there. -/
def Enters (M out : Module) (s s' : Machine) : Prop :=
  ∃ fn j created mem args values, BlockCode M out fn j created ∧
    execOps mem args (s, []) created = some (s', values)

/-- A two-block `main` with `random()` drawing 12345, 13122, 13899 and 14676: both blocks get
edge updates, at 13122 and 14676. -/
theorem enters_two_blocks :
    let env : Env := ⟨fun _ => none, fun n => (12345 + 777 * n) % 2 ^ 31, true, 100, 65536,
      fun _ => none, fun _ => none⟩
    let M : Module := ⟨[⟨"main", [], [⟨[⟨.other "br", none⟩]⟩, ⟨[⟨.other "ret", none⟩]⟩]⟩]⟩
    (runOnModule env .unset M 0).fault = none ∧ ∃ s, Relation.ReflTransGen (Enters M ⟨(runOnModule env .unset M 0).functions⟩)
      ⟨⟨0, fun _ => 0⟩, []⟩ s ∧ s.coverage = [13122, 14676].foldl edgeUpdate ⟨0, fun _ => 0⟩ := by
  let mem : Memory := ⟨fun _ _ _ => 0, fun _ => none⟩
  obtain ⟨⟨s₁, _⟩, ran₁, entered₁⟩ := Option.map_eq_some'.mp
    (execOps_edgeCoverage mem [] ⟨⟨0, fun _ => 0⟩, []⟩ [] 13122)
  obtain ⟨⟨s₂, _⟩, ran₂, entered₂⟩ := Option.map_eq_some'.mp (execOps_edgeCoverage mem [] s₁ [] 14676)
  refine ⟨by decide, s₂, .tail (.single ⟨0, 0, _, _, _, _, ⟨_, _, _, _, rfl, rfl, rfl, rfl, rfl⟩, ran₁⟩)
    ⟨0, 1, _, _, _, _, ⟨_, _, _, _, rfl, rfl, rfl, rfl, rfl⟩, ran₂⟩, ?_⟩
  subst entered₁ entered₂
  rfl

/-! ### What the pass inserts under `USE_TRADITIONAL_BRANCH` -/

/-- The code inserted into `bb` to make `bb'` under `USE_TRADITIONAL_BRANCH`: none, or
`getValues`' loads, then probe calls, then the edge update at a location `AFL_R(MAP_SIZE)` drew. -/
def EdgeCode (env : Env) (bb bb' : BasicBlock) : Prop :=
  ∀ created, InsertedAt bb bb' created → created = [] ∨
    ∃ (projection : List Opcode) (calls : List ProbeCall) (draws : Nat),
      (∀ op ∈ projection, op.isProjection) ∧ created = projection ++ calls.map (·.opcode) ++
        edgeCoverage (projection ++ calls.map (·.opcode)).length (env.random draws % env.mapSize)

section
variable (env : Env) (traditional : env.useTraditionalBranch = true)
include traditional

theorem runBlock_edgeCode (F : Function) (fn : Nat) (p : PassState × Locals) (j : Nat)
    (bb : BasicBlock) (live : (runBlock env F fn p j bb).1.fault = none) :
    ∃ bb' new, (runBlock env F fn p j bb).2.blocks = p.2.blocks ++ [bb'] ∧
      (runBlock env F fn p j bb).1.events.probes = p.1.events.probes ++ new ∧
      (∀ probe ∈ new, probe.function = fn ∧ probe.block = j) ∧ EdgeCode env bb bb' := by
  obtain ⟨bb', new, appended, probes, tagged, step⟩ := runBlock_cases env F fn j bb live
  refine ⟨bb', new, appended, probes, tagged, ?_⟩
  intro created inserted
  rcases step with ⟨-, rfl, -⟩ | ⟨ip, projection, tail, located, projected, edge, rfl⟩
  · exact .inl (insertedAt_self inserted)
  · rw [if_pos traditional] at edge
    obtain ⟨draws, rfl⟩ := edge
    refine .inr ⟨projection.emitted, new.map (·.call), draws, getValues_projection projected,
      ?_⟩
    rw [insertedAt_insertAt located inserted, List.map_map]
    rfl

variable (file : TargetsFile) (M : Module) (c : UInt16)
  (complete : (runOnModule env file M c).fault = none)
include complete

theorem blockCode_edgeCode {fn j : Nat} {created : List Opcode}
    (code : BlockCode M ⟨(runOnModule env file M c).functions⟩ fn j created) :
    created = [] ∨ ∃ (projection : List Opcode) (calls : List ProbeCall) (draws : Nat),
      (∀ op ∈ projection, op.isProjection) ∧ created = projection ++ calls.map (·.opcode) ++
        edgeCoverage (projection ++ calls.map (·.opcode)).length
          (env.random draws % env.mapSize) := by
  obtain ⟨F, F', bb, bb', original, rewritten, block, block', inserted⟩ := code
  obtain ⟨-, -, related⟩ := runOnModule_related env (fun _ bb bb' _ => EdgeCode env bb bb')
    (runBlock_edgeCode env traditional) file M c complete
  have edge : EdgeCode env bb bb' :=
    (related fn F F' original rewritten).2.2.2 j bb bb' block block'
  exact edge created inserted

/-- Entering a block of the instrumented module leaves the coverage state as it was, or performs
the edge update at the location of an instrumented block, one `AFL_R(MAP_SIZE)` drew. -/
theorem enters_edgeUpdate {s s' : Machine}
    (step : Enters M ⟨(runOnModule env file M c).functions⟩ s s') :
    s'.coverage = s.coverage ∨ ∃ draws, InstrumentedLoc M ⟨(runOnModule env file M c).functions⟩
        (env.random draws % env.mapSize) ∧
      s'.coverage = edgeUpdate s.coverage (env.random draws % env.mapSize) := by
  obtain ⟨fn, j, created, mem, args, values, code, ran⟩ := step
  rcases blockCode_edgeCode env traditional file M c complete code with
    rfl | ⟨projection, calls, draws, reads, rfl⟩
  · cases ran
    exact .inl rfl
  · exact .inr ⟨draws, ⟨fn, j, _, code⟩, (runsAs_edgeCoverage reads calls _).coverage ran⟩

end

/-! ### Runs as AFL's edge updates -/

/-- A thread reaches AFL's edge update folded over locations of instrumented blocks. -/
theorem runOnModule_runs_edgeUpdates (env : Env) (file : TargetsFile) (M : Module) (c : UInt16)
    (traditional : env.useTraditionalBranch = true) (nonempty : 0 < env.mapSize)
    (complete : (runOnModule env file M c).fault = none) {s₀ s : Machine}
    (run : Relation.ReflTransGen (Enters M ⟨(runOnModule env file M c).functions⟩) s₀ s) :
    ∃ path : List Nat, (∀ curLoc ∈ path, curLoc < env.mapSize ∧
        InstrumentedLoc M ⟨(runOnModule env file M c).functions⟩ curLoc) ∧
      s.coverage = path.foldl edgeUpdate s₀.coverage := by
  induction run with
  | refl => exact ⟨[], fun _ mem => (List.not_mem_nil _ mem).elim, rfl⟩
  | tail _ step reached =>
    obtain ⟨path, located, coverage⟩ := reached
    rcases enters_edgeUpdate env traditional file M c complete step with
      same | ⟨draws, instrumented, update⟩
    · exact ⟨path, located, same.trans coverage⟩
    · refine ⟨path ++ [env.random draws % env.mapSize], fun curLoc mem => ?_, ?_⟩
      · rcases List.mem_append.mp mem with earlier | here
        · exact located curLoc earlier
        · rw [List.mem_singleton.mp here]
          exact ⟨Nat.mod_lt _ nonempty, instrumented⟩
      · rw [update, coverage, List.foldl_concat]

/-- Entering the two blocks of `enters_two_blocks` in order: the map counts both edges. -/
theorem runOnModule_runs_edgeUpdates_two_blocks :
    let env : Env := ⟨fun _ => none, fun n => (12345 + 777 * n) % 2 ^ 31, true, 100, 65536,
      fun _ => none, fun _ => none⟩
    let M : Module := ⟨[⟨"main", [], [⟨[⟨.other "br", none⟩]⟩, ⟨[⟨.other "ret", none⟩]⟩]⟩]⟩
    let out : Module := ⟨(runOnModule env .unset M 0).functions⟩
    let s₀ : Machine := ⟨⟨0, fun _ => 0⟩, []⟩
    env.useTraditionalBranch = true ∧ 0 < env.mapSize ∧ (runOnModule env .unset M 0).fault = none ∧
      ∃ s, Relation.ReflTransGen (Enters M out) s₀ s ∧ s.coverage.area 13122 = 1 ∧
        s.coverage.area 8437 = 1 ∧
        ∃ path : List Nat, (∀ curLoc ∈ path, curLoc < env.mapSize ∧ InstrumentedLoc M out curLoc) ∧
          s.coverage = path.foldl edgeUpdate s₀.coverage := by
  intro env M out s₀
  obtain ⟨complete, s, run, coverage⟩ := enters_two_blocks
  exact ⟨rfl, by decide, complete, s, run, by rw [coverage]; decide, by rw [coverage]; decide,
    runOnModule_runs_edgeUpdates env .unset M 0 rfl (by decide) complete run⟩

/-! ### The `prev_loc` invariant -/

/-- `__afl_prev_loc` holds 0, or `cur_loc >> 1` for the location of an instrumented block, one
`AFL_R(MAP_SIZE)` drew. -/
def PrevLocDrawn (env : Env) (M out : Module) (σ : Coverage) : Prop :=
  σ.prevLoc = 0 ∨ ∃ draws, InstrumentedLoc M out (env.random draws % env.mapSize) ∧
    σ.prevLoc.toNat = env.random draws % env.mapSize / 2

section
variable (env : Env) (traditional : env.useTraditionalBranch = true) (file : TargetsFile)
  (M : Module) (c : UInt16) (complete : (runOnModule env file M c).fault = none)
  (posix : ∀ n, env.random n < 2 ^ 31)
include traditional complete posix

theorem enters_prevLocDrawn {s s' : Machine}
    (step : Enters M ⟨(runOnModule env file M c).functions⟩ s s')
    (drawn : PrevLocDrawn env M ⟨(runOnModule env file M c).functions⟩ s.coverage) :
    PrevLocDrawn env M ⟨(runOnModule env file M c).functions⟩ s'.coverage := by
  rcases enters_edgeUpdate env traditional file M c complete step with
    same | ⟨draws, located, update⟩
  · rwa [same]
  · have small : env.random draws % env.mapSize ≤ env.random draws := Nat.mod_le _ _
    have fits := posix draws
    refine .inr ⟨draws, located, ?_⟩
    rw [update, edgeUpdate_prevLoc, UInt32.toNat_ofNat_of_lt (by show _ < 4294967296; omega)]

theorem runs_prevLocDrawn {s₀ s : Machine}
    (run : Relation.ReflTransGen (Enters M ⟨(runOnModule env file M c).functions⟩) s₀ s)
    (start : PrevLocDrawn env M ⟨(runOnModule env file M c).functions⟩ s₀.coverage) :
    PrevLocDrawn env M ⟨(runOnModule env file M c).functions⟩ s.coverage := by
  induction run with
  | refl => exact start
  | tail _ step reached =>
    exact enters_prevLocDrawn env traditional file M c complete posix step reached

end

theorem lt_two_pow_min {a k : Nat} (below : a < 2 ^ k) (fits : a < 2 ^ 31) : a < 2 ^ min k 31 := by
  rcases Nat.le_total k 31 with small | large
  · rwa [Nat.min_eq_left small]
  · rwa [Nat.min_eq_right large]

/-- From a `prev_loc` of 0, with a power-of-two `MAP_SIZE` and `random()` below `2 ^ 31`, every
edge update a thread performs lies in the map. -/
theorem runOnModule_prevLoc_in_map (env : Env) (file : TargetsFile) (M : Module) (c : UInt16)
    (k : Nat) (traditional : env.useTraditionalBranch = true) (pow : env.mapSize = 2 ^ k)
    (posix : ∀ n, env.random n < 2 ^ 31) (complete : (runOnModule env file M c).fault = none)
    {s₀ s : Machine} (start : s₀.coverage.prevLoc = 0)
    (run : Relation.ReflTransGen (Enters M ⟨(runOnModule env file M c).functions⟩) s₀ s) :
    let out : Module := ⟨(runOnModule env file M c).functions⟩
    (s.coverage.prevLoc = 0 ∨ ∃ curLoc < env.mapSize, InstrumentedLoc M out curLoc ∧
      s.coverage.prevLoc.toNat = curLoc / 2) ∧
    ∀ s', Enters M out s s' → s'.coverage = s.coverage ∨
      ∃ curLoc < env.mapSize, InstrumentedLoc M out curLoc ∧
        s'.coverage = edgeUpdate s.coverage curLoc ∧
        edgeIndex s.coverage.prevLoc curLoc = ((s.coverage.prevLoc.toNat ^^^ curLoc : Nat) : Int) ∧
        s.coverage.prevLoc.toNat ^^^ curLoc < env.mapSize := by
  intro out
  have nonempty : 0 < env.mapSize := pow ▸ Nat.two_pow_pos k
  have drawn := runs_prevLocDrawn env traditional file M c complete posix run (.inl start)
  have located : ∀ draws, env.random draws % env.mapSize < 2 ^ min k 31 := fun draws =>
    lt_two_pow_min (pow ▸ Nat.mod_lt _ nonempty)
      (Nat.lt_of_le_of_lt (Nat.mod_le _ _) (posix draws))
  have prev : s.coverage.prevLoc.toNat < 2 ^ min k 31 := by
    rcases drawn with zero | ⟨draws, -, half⟩
    · rw [zero]; exact Nat.two_pow_pos _
    · rw [half]; exact Nat.lt_of_le_of_lt (Nat.div_le_self _ _) (located draws)
  have inside : 2 ^ min k 31 ≤ env.mapSize :=
    pow ▸ Nat.pow_le_pow_right (by decide) (Nat.min_le_left _ _)
  refine ⟨drawn.imp_right fun ⟨draws, instrumented, half⟩ =>
    ⟨_, Nat.mod_lt _ nonempty, instrumented, half⟩, fun s' step => ?_⟩
  refine (enters_edgeUpdate env traditional file M c complete step).imp_right
    fun ⟨draws, instrumented, update⟩ => ?_
  obtain ⟨xor, hashed⟩ := edgeIndex_eq_xor (Nat.min_le_right k 31) prev (located draws)
  exact ⟨_, Nat.mod_lt _ nonempty, instrumented, update, xor, Nat.lt_of_lt_of_le hashed inside⟩

/-- The two blocks of `enters_two_blocks`: after both, `prev_loc` holds 14676 >> 1. -/
theorem runOnModule_prevLoc_in_map_two_blocks :
    let env : Env := ⟨fun _ => none, fun n => (12345 + 777 * n) % 2 ^ 31, true, 100, 65536,
      fun _ => none, fun _ => none⟩
    let M : Module := ⟨[⟨"main", [], [⟨[⟨.other "br", none⟩]⟩, ⟨[⟨.other "ret", none⟩]⟩]⟩]⟩
    let out : Module := ⟨(runOnModule env .unset M 0).functions⟩
    let s₀ : Machine := ⟨⟨0, fun _ => 0⟩, []⟩
    env.useTraditionalBranch = true ∧ env.mapSize = 2 ^ 16 ∧ (∀ n, env.random n < 2 ^ 31) ∧
      (runOnModule env .unset M 0).fault = none ∧ s₀.coverage.prevLoc = 0 ∧
      ∃ s, Relation.ReflTransGen (Enters M out) s₀ s ∧ s.coverage.prevLoc = 7338 ∧
        (s.coverage.prevLoc = 0 ∨ ∃ curLoc < env.mapSize, InstrumentedLoc M out curLoc ∧
          s.coverage.prevLoc.toNat = curLoc / 2) ∧
        ∀ s', Enters M out s s' → s'.coverage = s.coverage ∨
          ∃ curLoc < env.mapSize, InstrumentedLoc M out curLoc ∧
            s'.coverage = edgeUpdate s.coverage curLoc ∧
            edgeIndex s.coverage.prevLoc curLoc =
              ((s.coverage.prevLoc.toNat ^^^ curLoc : Nat) : Int) ∧
            s.coverage.prevLoc.toNat ^^^ curLoc < env.mapSize := by
  intro env M out s₀
  have posix : ∀ n, env.random n < 2 ^ 31 := fun _ => Nat.mod_lt _ (Nat.two_pow_pos 31)
  obtain ⟨complete, s, run, coverage⟩ := enters_two_blocks
  exact ⟨rfl, rfl, posix, complete, rfl, s, run, by rw [coverage]; decide,
    runOnModule_prevLoc_in_map env .unset M 0 16 rfl rfl posix complete rfl run⟩

end Abstraktor.Pass
