import Abstraktor.Pass.EdgeCoverage
import Abstraktor.Pass.ProbeSites

/-!
# The inserted code at run time: `getValues`' loads, the probe calls, the edge update
-/

namespace Abstraktor.Ir

/-- The kinds of instruction the pass creates; the input module's own are `phi`, `ehPad` and
`other`. -/
def Opcode.isCreated : Opcode → Bool
  | .phi | .ehPad | .other _ => false
  | _ => true

theorem Opcode.isCreated_of_isProjection {op : Opcode} (projection : op.isProjection) :
    op.isCreated := by
  cases op <;> first | rfl | simp [isProjection] at projection

end Abstraktor.Ir

namespace Abstraktor.Pass
open Ir

theorem ProbeCall.opcode_isCreated (call : ProbeCall) : call.opcode.isCreated := by
  cases call <;> rfl

theorem edgeCoverage_isCreated (n curLoc : Nat) : ∀ op ∈ edgeCoverage n curLoc, op.isCreated := by
  simp [edgeCoverage, Opcode.isCreated]

theorem projection_calls_isCreated {projection : List Opcode}
    (reads : ∀ op ∈ projection, op.isProjection) (calls : List ProbeCall) :
    ∀ op ∈ projection ++ calls.map (·.opcode), op.isCreated :=
  List.forall_mem_append.mpr ⟨fun op mem => Opcode.isCreated_of_isProjection (reads op mem),
    fun _ mem => let ⟨call, _, made⟩ := List.mem_map.mp mem; made ▸ call.opcode_isCreated⟩

/-- `created` stops exactly where `projection` does, and otherwise makes the calls `calls` and
applies `update`, changing nothing else. -/
def RunsAs (projection created : List Opcode) (calls : List ProbeCall)
    (update : Coverage → Coverage) : Prop :=
  ∀ mem args s, (execOps mem args (s, []) created).map Prod.fst =
    (execOps mem args (s, []) projection).map fun _ =>
      ⟨update s.coverage, s.received ++ calls.map ProbeCall.report⟩

section
variable {projection created : List Opcode} {calls : List ProbeCall}
  {update : Coverage → Coverage} (runs : RunsAs projection created calls update) {mem : Memory}
  {args : List Value} {s : Machine}
include runs

theorem RunsAs.machine {r : Machine × List Value} (ran : execOps mem args (s, []) created = some r) :
    r.1 = ⟨update s.coverage, s.received ++ calls.map ProbeCall.report⟩ := by
  have same := runs mem args s
  rw [ran, Option.map_some'] at same
  obtain ⟨_, -, machine⟩ := Option.map_eq_some'.mp same.symm
  exact machine.symm

theorem RunsAs.coverage {r : Machine × List Value} (ran : execOps mem args (s, []) created = some r) :
    r.1.coverage = update s.coverage := by
  rw [runs.machine ran]

end

theorem RunsAs.isSome {projection created : List Opcode} {calls : List ProbeCall}
    {update : Coverage → Coverage} (runs : RunsAs projection created calls update) (mem : Memory)
    (args : List Value) (s : Machine) :
    (execOps mem args (s, []) created).isSome = (execOps mem args (s, []) projection).isSome := by
  simpa using congrArg Option.isSome (runs mem args s)

section
variable {projection : List Opcode} (reads : ∀ op ∈ projection, op.isProjection)
  (calls : List ProbeCall)
include reads

theorem execOps_projection_some (mem : Memory) (args : List Value) (s : Machine)
    {r : Machine × List Value} (ran : execOps mem args (s, []) projection = some r) :
    r.1 = s ∧ r.2.length = projection.length := by
  refine ⟨execOps_projection mem args reads _ r ran, ?_⟩
  simpa using execOps_length mem args projection _ r ran

theorem runsAs_probeCalls : RunsAs projection (projection ++ calls.map (·.opcode)) calls id := by
  intro mem args s
  rw [execOps_append]
  cases ran : execOps mem args (s, []) projection with
  | none => rfl
  | some r =>
    obtain ⟨same, -⟩ := execOps_projection_some reads mem args s ran
    obtain ⟨s', values⟩ := r
    cases same
    rw [Option.some_bind, execOps_probeCalls]
    rfl

theorem runsAs_edgeCoverage (curLoc : Nat) :
    RunsAs projection (projection ++ calls.map (·.opcode) ++
      edgeCoverage (projection ++ calls.map (·.opcode)).length curLoc) calls (edgeUpdate · curLoc) := by
  intro mem args s
  rw [execOps_append, execOps_append]
  cases ran : execOps mem args (s, []) projection with
  | none => rfl
  | some r =>
    obtain ⟨same, length⟩ := execOps_projection_some reads mem args s ran
    obtain ⟨s', values⟩ := r
    cases same
    have created : (projection ++ calls.map (·.opcode)).length =
        (values ++ calls.map fun _ => Value.unit).length := by
      simp only [List.length_append, List.length_map, length]
    rw [Option.some_bind, execOps_probeCalls, Option.some_bind, created, execOps_edgeCoverage]
    rfl

end

/-- Block `bb` rewritten as `bb'`, making the calls `calls` when it runs. -/
def InsertsCode (env : Env) (F : Function) (bb bb' : BasicBlock) (calls : List ProbeCall) : Prop :=
  (bb' = bb ∧ calls = [] ∧ env.instRatio < 100) ∨
    ∃ ip projection created update, bb.firstInsertionPt = some ip ∧
      getValues instrumentedParameters F.args selectedFields = .ok projection ∧
      bb' = insertAt ip created bb ∧ (∀ op ∈ created, op.isCreated) ∧
      RunsAs projection.emitted created calls update ∧
      if env.useTraditionalBranch then
        ∃ draws, update = (edgeUpdate · (env.random draws % env.mapSize))
      else update = id

/-- A live block step appends a block whose inserted code, when it runs, makes exactly the calls
the step recorded. -/
theorem runBlock_insertsCode (env : Env) (F : Function) (fn : Nat) (p : PassState × Locals)
    (j : Nat) (bb : BasicBlock) (live : (runBlock env F fn p j bb).1.fault = none) :
    ∃ bb' new, (runBlock env F fn p j bb).2.blocks = p.2.blocks ++ [bb'] ∧
      (runBlock env F fn p j bb).1.events.probes = p.1.events.probes ++ new ∧
      (∀ probe ∈ new, probe.function = fn ∧ probe.block = j) ∧
      InsertsCode env F bb bb' (new.map (·.call)) := by
  obtain ⟨bb', new, appended, probes, tagged, step⟩ := runBlock_cases env F fn j bb live
  refine ⟨bb', new, appended, probes, tagged, ?_⟩
  rcases step with ⟨unselected, rfl, rfl⟩ | ⟨ip, projection, tail, located, projected, edge, rfl⟩
  · exact .inl ⟨rfl, rfl, instRatio_of_unselected env unselected⟩
  · have reads := getValues_projection projected
    have made := projection_calls_isCreated reads (new.map (·.call))
    have opcodes : new.map (·.call.opcode) = (new.map (·.call)).map (·.opcode) := by
      rw [List.map_map]; rfl
    rw [opcodes] at edge ⊢
    split_ifs at edge with traditional
    · obtain ⟨draws, rfl⟩ := edge
      exact .inr ⟨ip, projection, _, _, located, projected, rfl,
        List.forall_mem_append.mpr ⟨made, edgeCoverage_isCreated _ _⟩,
        runsAs_edgeCoverage reads _ _, by rw [if_pos traditional]; exact ⟨draws, rfl⟩⟩
    · subst edge
      exact .inr ⟨ip, projection, _, id, located, projected, by rw [List.append_nil], made,
        runsAs_probeCalls reads _, by rw [if_neg traditional]⟩

/-- `InsertsCode` with the drawn location only known to lie below `MAP_SIZE`. -/
def RunsWith (env : Env) (F : Function) (bb bb' : BasicBlock) (calls : List ProbeCall) : Prop :=
  (bb' = bb ∧ calls = [] ∧ env.instRatio < 100) ∨
    ∃ ip projection created update, bb.firstInsertionPt = some ip ∧
      getValues instrumentedParameters F.args selectedFields = .ok projection ∧
      bb' = insertAt ip created bb ∧ RunsAs projection.emitted created calls update ∧
      if env.useTraditionalBranch then ∃ curLoc < env.mapSize, update = (edgeUpdate · curLoc)
      else update = id

theorem runBlock_runsWith (env : Env) (nonempty : 0 < env.mapSize) (F : Function) (fn : Nat)
    (p : PassState × Locals) (j : Nat) (bb : BasicBlock)
    (live : (runBlock env F fn p j bb).1.fault = none) :
    ∃ bb' new, (runBlock env F fn p j bb).2.blocks = p.2.blocks ++ [bb'] ∧
      (runBlock env F fn p j bb).1.events.probes = p.1.events.probes ++ new ∧
      (∀ probe ∈ new, probe.function = fn ∧ probe.block = j) ∧
      RunsWith env F bb bb' (new.map (·.call)) := by
  obtain ⟨bb', new, appended, probes, tagged, step⟩ := runBlock_insertsCode env F fn p j bb live
  refine ⟨bb', new, appended, probes, tagged, ?_⟩
  rcases step with unselected | ⟨ip, projection, created, update, located, projected, rfl, -, runs, edge⟩
  · exact .inl unselected
  · refine .inr ⟨ip, projection, created, update, located, projected, rfl, runs, ?_⟩
    split_ifs at edge ⊢
    · obtain ⟨draws, rfl⟩ := edge
      exact ⟨_, Nat.mod_lt _ nonempty, rfl⟩
    · exact edge

/-- What a complete run makes of the module, block by block, with the calls it recorded for
each block. -/
theorem runOnModule_block_calls (env : Env) (file : TargetsFile) (M : Module) (c : UInt16)
    (nonempty : 0 < env.mapSize) (complete : (runOnModule env file M c).fault = none) :
    let out := runOnModule env file M c
    out.functions.length = M.functions.length ∧
      ∀ fn F F', M.functions[fn]? = some F → out.functions[fn]? = some F' →
        F'.name = F.name ∧ F'.args = F.args ∧ F'.blocks.length = F.blocks.length ∧
        ∀ j bb bb', F.blocks[j]? = some bb → F'.blocks[j]? = some bb' →
          RunsWith env F bb bb' ((probesAt out.events.probes fn j).map (·.call)) :=
  let ⟨length, _, related⟩ := runOnModule_related env
    (fun F bb bb' new => RunsWith env F bb bb' (new.map Probe.call)) (runBlock_runsWith env nonempty)
    file M c complete
  ⟨length, related⟩

/-- A block target at line 10 of `/src/a.c` under `USE_TRADITIONAL_BRANCH`. -/
theorem runOnModule_block_calls_block_target :
    let env : Env := ⟨fun _ => none, fun _ => 0, true, 100, 65536, fun _ => none, fun _ => none⟩
    let file : TargetsFile := .parsed "targets.json" (.array [.object [("path", .string "/src/a.c"),
      ("targets_block", .array [.numberInteger 10]), ("targets_const", .object [])]])
    let M : Module := ⟨[⟨"main", [], [⟨[⟨.other "add", some ⟨10, "/src/a.c", "", none⟩⟩]⟩]⟩]⟩
    let out := runOnModule env file M 0
    0 < env.mapSize ∧ out.fault = none ∧ out.events.probes = [⟨0, 0, .block 0⟩] ∧
      out.functions.length = M.functions.length ∧
      ∀ fn F F', M.functions[fn]? = some F → out.functions[fn]? = some F' →
        F'.name = F.name ∧ F'.args = F.args ∧ F'.blocks.length = F.blocks.length ∧
        ∀ j bb bb', F.blocks[j]? = some bb → F'.blocks[j]? = some bb' →
          RunsWith env F bb bb' ((probesAt out.events.probes fn j).map (·.call)) :=
  have complete : (runOnModule ⟨fun _ => none, fun _ => 0, true, 100, 65536, fun _ => none,
      fun _ => none⟩ (.parsed "targets.json" (.array [.object [("path", .string "/src/a.c"),
      ("targets_block", .array [.numberInteger 10]), ("targets_const", .object [])]]))
      ⟨[⟨"main", [], [⟨[⟨.other "add", some ⟨10, "/src/a.c", "", none⟩⟩]⟩]⟩]⟩ 0).fault = none := by
    decide
  ⟨by decide, complete, by decide, runOnModule_block_calls _ _ _ 0 (by decide) complete⟩

end Abstraktor.Pass
