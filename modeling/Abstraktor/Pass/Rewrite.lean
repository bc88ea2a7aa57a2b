import Abstraktor.Pass.BlockTargets

/-!
# What the pass changes in the module, block by block (`BlockStep`)
-/

namespace Abstraktor.Pass
open Ir

/-- `bb'` holds the instructions of `bb`, in order, with maybe others between them. -/
def KeepsInstructions (bb bb' : BasicBlock) : Prop := bb.instructions.Sublist bb'.instructions

/-- `F'` is `F` rewritten: the same name and arguments, and blocks related block by block. -/
def RewritesFunction (R : BasicBlock → BasicBlock → Prop) (F F' : Function) : Prop :=
  F'.name = F.name ∧ F'.args = F.args ∧ List.Forall₂ R F.blocks F'.blocks

theorem insertAt_instructions (ip : Nat) (created : List Opcode) (bb : BasicBlock) :
    ∃ loc, (insertAt ip created bb).instructions =
      bb.instructions.take ip ++ created.map (fun op => ⟨op, loc⟩) ++ bb.instructions.drop ip :=
  ⟨_, rfl⟩

theorem insertAt_keeps (ip : Nat) (created : List Opcode) (bb : BasicBlock) :
    KeepsInstructions bb (insertAt ip created bb) := by
  unfold KeepsInstructions insertAt
  conv_lhs => rw [← List.take_append_drop ip bb.instructions]
  exact (List.sublist_append_left _ _).append (List.Sublist.refl _)

/-- What the block loop puts in place of a block it instruments. -/
def Instruments (env : Env) (F : Function) (bb bb' : BasicBlock) : Prop :=
  ∃ ip projection calls tail, bb.firstInsertionPt = some ip ∧
    getValues instrumentedParameters F.args selectedFields = .ok projection ∧
    (∀ op ∈ calls, ∃ call : ProbeCall, op = call.opcode) ∧
    (if env.useTraditionalBranch then
      ∃ draws, tail = edgeCoverage (projection.emitted ++ calls).length (env.random draws % env.mapSize)
    else tail = []) ∧
    bb' = insertAt ip (projection.emitted ++ calls ++ tail) bb

/-- What the block loop appends for a block: the block itself, which only a ratio below 100
allows, or the block instrumented. -/
def BlockStep (env : Env) (F : Function) (bb bb' : BasicBlock) : Prop :=
  (bb' = bb ∧ env.instRatio < 100) ∨ Instruments env F bb bb'

theorem instRatio_of_unselected (env : Env) {scan : Scan} {draws : Nat}
    (unselected : (selectBlock env scan draws).1 = false) : env.instRatio < 100 := by
  unfold selectBlock at unselected
  split_ifs at unselected
  have drawn := Nat.mod_lt (env.random draws) (show 100 > 0 by decide)
  simp only [decide_eq_false_iff_not, Nat.not_lt] at unselected
  omega

theorem probeCall_of_mem_map {probes : List Probe} (op : Opcode)
    (mem : op ∈ probes.map (·.call.opcode)) : ∃ call : ProbeCall, op = call.opcode :=
  let ⟨probe, _, called⟩ := List.mem_map.mp mem
  ⟨probe.call, called.symm⟩

section
variable (env : Env) (F : Function) (fn : Nat)

theorem runBlock_step {p : PassState × Locals} (j : Nat) (bb : BasicBlock)
    (live : (runBlock env F fn p j bb).1.fault = none) :
    ∃ bb', (runBlock env F fn p j bb).2.blocks = p.2.blocks ++ [bb'] ∧ BlockStep env F bb bb' := by
  obtain ⟨bb', new, appended, -, -, step⟩ := runBlock_cases env F fn j bb live
  refine ⟨bb', appended, ?_⟩
  rcases step with ⟨unselected, rfl, -⟩ | ⟨ip, projection, tail, located, projected, edge, rfl⟩
  · exact .inl ⟨rfl, instRatio_of_unselected env unselected⟩
  · exact .inr ⟨ip, projection, _, tail, located, projected, probeCall_of_mem_map, edge, rfl⟩

theorem blockStep_keeps {bb bb' : BasicBlock} (step : BlockStep env F bb bb') :
    KeepsInstructions bb bb' := by
  rcases step with ⟨rfl, -⟩ | ⟨ip, _, _, _, -, -, -, -, rfl⟩
  · exact List.Sublist.refl _
  · exact insertAt_keeps _ _ _

theorem runBlock_blocks {p : PassState × Locals} (j : Nat) (bb : BasicBlock)
    (live : (runBlock env F fn p j bb).1.fault = none) :
    ∃ bb', (runBlock env F fn p j bb).2.blocks = p.2.blocks ++ [bb'] ∧ KeepsInstructions bb bb' :=
  let ⟨bb', appended, step⟩ := runBlock_step env F fn j bb live
  ⟨bb', appended, blockStep_keeps env F step⟩

theorem runBlock_functions {p : PassState × Locals} (j : Nat) (bb : BasicBlock) :
    (runBlock env F fn p j bb).1.functions = p.1.functions := by
  unfold runBlock instrumentBlock
  split
  · rfl
  · dsimp only
    split
    · split
      · rfl
      · split
        · rfl
        · split <;> rfl
    · rfl

theorem runBlocks_functions (blocks : List BasicBlock) (j : Nat) (p : PassState × Locals) :
    (runBlocks env F fn j blocks p).1.functions = p.1.functions := by
  induction blocks generalizing j p with
  | nil => rfl
  | cons bb rest ih => exact (ih (j + 1) _).trans (runBlock_functions env F fn j bb)

/-- A relation that every live block step sets between a block and the block it appends holds,
block by block, over the block loop. -/
theorem runBlocks_forall₂ (R : BasicBlock → BasicBlock → Prop)
    (step : ∀ (p : PassState × Locals) j bb, (runBlock env F fn p j bb).1.fault = none →
      ∃ bb', (runBlock env F fn p j bb).2.blocks = p.2.blocks ++ [bb'] ∧ R bb bb')
    (blocks : List BasicBlock) (j : Nat) {p : PassState × Locals}
    (live : (runBlocks env F fn j blocks p).1.fault = none) :
    ∃ rewritten, (runBlocks env F fn j blocks p).2.blocks = p.2.blocks ++ rewritten ∧
      List.Forall₂ R blocks rewritten := by
  induction blocks generalizing j p with
  | nil => exact ⟨[], (List.append_nil _).symm, .nil⟩
  | cons bb rest ih =>
    obtain ⟨bb', appended, related⟩ := step p j bb (runBlocks_live env F fn rest (j + 1) live)
    obtain ⟨rewritten, later, relatedLater⟩ := ih (j + 1) live
    refine ⟨bb' :: rewritten, ?_, .cons related relatedLater⟩
    rw [runBlocks, later, appended, List.append_assoc, List.singleton_append]

theorem functionEvent_blocks {p : PassState × Locals} {blocks : List BasicBlock}
    (kept : List.Forall₂ KeepsInstructions blocks p.2.blocks) :
    (functionEvent env F fn p).1.functions = p.1.functions ∧
      List.Forall₂ KeepsInstructions blocks (functionEvent env F fn p).2.blocks := by
  unfold functionEvent
  split
  · exact ⟨rfl, kept⟩
  · split
    · rename_i rewritten others _ rewrittenBlocks
      split
      · exact ⟨rfl, kept⟩
      · rw [rewrittenBlocks] at kept
        obtain _ | ⟨entryKept, othersKept⟩ := kept
        exact ⟨rfl, .cons (entryKept.trans (insertAt_keeps _ _ _)) othersKept⟩
    · exact ⟨rfl, kept⟩

theorem runFunction_functions (s : PassState) (live : (runFunction env s fn F).fault = none) :
    ∃ F', (runFunction env s fn F).functions = s.functions ++ [F'] ∧
      RewritesFunction KeepsInstructions F F' := by
  have blocksLive := functionEvent_live env F fn (runFunction_live env F fn live)
  obtain ⟨rewritten, appended, kept⟩ :=
    runBlocks_forall₂ env F fn KeepsInstructions (fun _ j bb => runBlock_blocks env F fn j bb)
      F.blocks 0 blocksLive
  obtain ⟨functions', kept'⟩ := functionEvent_blocks env F fn (by rw [appended]; exact kept)
  set p := functionEvent env F fn (runBlocks env F fn 0 F.blocks (s, Locals.init))
  unfold runFunction
  simp only [runFunction_live env F fn live, Option.isSome_none, Bool.false_eq_true, ↓reduceIte]
  exact ⟨{ F with blocks := p.2.blocks }, by rw [functions', runBlocks_functions], rfl, rfl, kept'⟩

end

/-- A relation every live function step sets holds function by function over the loop. -/
theorem runFunctions_forall₂ (env : Env) (I : PassState → Prop) (R : Function → Function → Prop)
    (keeps : ∀ s fn F, I s → I (runFunction env s fn F))
    (step : ∀ s fn F, I s → (runFunction env s fn F).fault = none →
      ∃ F', (runFunction env s fn F).functions = s.functions ++ [F'] ∧ R F F') :
    ∀ (functions : List Function) (fn : Nat) {s : PassState}, I s →
      (runFunctions env fn functions s).fault = none →
      ∃ rewritten, (runFunctions env fn functions s).functions = s.functions ++ rewritten ∧
        List.Forall₂ R functions rewritten
  | [], _, _, _, _ => ⟨[], (List.append_nil _).symm, .nil⟩
  | F :: rest, fn, s, holds, live => by
    obtain ⟨F', appended, related⟩ := step s fn F holds (runFunctions_live env rest (fn + 1) live)
    obtain ⟨rewritten, later, relatedLater⟩ :=
      runFunctions_forall₂ env I R keeps step rest (fn + 1) (keeps s fn F holds) live
    refine ⟨F' :: rewritten, ?_, .cons related relatedLater⟩
    rw [runFunctions, later, appended, List.append_assoc, List.singleton_append]

/-- A complete run rewrites the module's functions in order: each keeps its name, its arguments
and its blocks, and each block its instructions in order. -/
theorem instrumentModule_rewrites (env : Env) (targets : TargetState) (M : Module) (c : UInt16)
    (complete : (instrumentModule env targets M c).fault = none) :
    List.Forall₂ (RewritesFunction KeepsInstructions) M.functions
      (instrumentModule env targets M c).functions := by
  obtain ⟨rewritten, appended, rewrites⟩ :=
    runFunctions_forall₂ env (fun _ => True) _ (fun _ _ _ _ => trivial)
      (fun s fn F _ => runFunction_functions env F fn s) M.functions 0 trivial complete
  rwa [instrumentModule, appended]

/-! ### No function events -/

def NoFunctionEvents (e : EventState) : Prop := ∀ probe ∈ e.probes, ∀ evtID, probe.call ≠ .func evtID

theorem NoFunctionEvents.recordEvent {e : EventState} (none : NoFunctionEvents e) (fn block : Nat)
    {call : UInt16 → ProbeCall} (notFunc : ∀ evtID evtID', call evtID ≠ .func evtID')
    (record : UInt16 → LogRecord) : NoFunctionEvents (e.recordEvent fn block call record) := by
  intro probe mem evtID
  rcases List.mem_append.mp mem with earlier | new
  · exact none probe earlier evtID
  · rw [List.mem_singleton.mp new]; exact notFunc _ _

theorem noFunctionEvents_blockEvents (fn j : Nat) (scan : Scan) (l : Locals) {e : EventState}
    (none : NoFunctionEvents e) : NoFunctionEvents (blockEvents fn j scan l e) :=
  blockEvents_rel fn j l (fun e e' => NoFunctionEvents e → NoFunctionEvents e') (fun _ => id)
    (fun first second => second ∘ first)
    (fun _ none => none.recordEvent fn j (fun _ _ => by exact ProbeCall.noConfusion) _)
    (fun _ none => by
      unfold constEvent; split
      · exact none
      · dsimp only
        refine NoFunctionEvents.recordEvent ?_ fn j (fun _ _ => by exact ProbeCall.noConfusion) _
        exact none)
    scan e none

section
variable (env : Env) (F : Function) (fn : Nat)

theorem runBlock_untargeted {p : PassState × Locals} (j : Nat) (bb : BasicBlock)
    (loaded : Loaded p.1.events.targets) (untargeted : p.2.isTargetFunc = false) :
    Loaded (runBlock env F fn p j bb).1.events.targets ∧
      (runBlock env F fn p j bb).2.isTargetFunc = false := by
  cases started : p.1.fault with
  | some _ => rw [runBlock_of_fault env F fn j bb (by simp [started])]; exact ⟨loaded, untargeted⟩
  | none =>
    obtain ⟨targets, -, -, scanned⟩ := scanBlock_of_loaded env.realpath loaded p.2 bb
    obtain ⟨blocks, locals⟩ := runBlock_locals env F fn j bb started
    set scan := scanBlock env.realpath p.1.events.targets p.2 bb
    refine ⟨?_, by rw [locals]; exact scanned.trans untargeted⟩
    rcases runBlock_events env F fn j bb started with step | ⟨-, step⟩ <;> rw [step]
    · obtain ⟨⟨_, frame⟩, -⟩ :=
        blockEvents_frame fn j { p.1.events with targets := scan.targets } scan (scan.locals p.2)
      rw [frame, targets]; exact loaded
    · show Loaded scan.targets
      rw [targets]; exact loaded

theorem runBlocks_untargeted (blocks : List BasicBlock) (j : Nat) (p : PassState × Locals)
    (loaded : Loaded p.1.events.targets) (untargeted : p.2.isTargetFunc = false) :
    Loaded (runBlocks env F fn j blocks p).1.events.targets ∧
      (runBlocks env F fn j blocks p).2.isTargetFunc = false := by
  induction blocks generalizing j p with
  | nil => exact ⟨loaded, untargeted⟩
  | cons bb rest ih =>
    obtain ⟨loaded', untargeted'⟩ := runBlock_untargeted env F fn j bb loaded untargeted
    exact ih (j + 1) _ loaded' untargeted'

theorem runFunction_of_loaded (s : PassState) (loaded : Loaded s.events.targets) :
    runFunction env s fn F =
      let p := runBlocks env F fn 0 F.blocks (s, Locals.init)
      if p.1.fault.isSome then p.1
      else { p.1 with functions := p.1.functions ++ [{ F with blocks := p.2.blocks }] } := by
  rw [runFunction, functionEvent_of_not_target env F fn
    (runBlocks_untargeted env F fn F.blocks 0 _ loaded rfl).2]

theorem runFunction_events_of_loaded (s : PassState) (loaded : Loaded s.events.targets) :
    (runFunction env s fn F).events = (runBlocks env F fn 0 F.blocks (s, Locals.init)).1.events := by
  rw [runFunction_of_loaded env F fn s loaded]; dsimp only; split <;> rfl

theorem runFunction_loaded (s : PassState) (loaded : Loaded s.events.targets) :
    Loaded (runFunction env s fn F).events.targets := by
  rw [runFunction_events_of_loaded env F fn s loaded]
  exact (runBlocks_untargeted env F fn F.blocks 0 _ loaded rfl).1

theorem runFunction_forall₂_of_loaded (R : BasicBlock → BasicBlock → Prop)
    (step : ∀ (p : PassState × Locals) j bb, (runBlock env F fn p j bb).1.fault = none →
      ∃ bb', (runBlock env F fn p j bb).2.blocks = p.2.blocks ++ [bb'] ∧ R bb bb')
    (s : PassState) (loaded : Loaded s.events.targets) (live : (runFunction env s fn F).fault = none) :
    ∃ F', (runFunction env s fn F).functions = s.functions ++ [F'] ∧ RewritesFunction R F F' := by
  rw [runFunction_of_loaded env F fn s loaded] at live ⊢
  have blocksLive : (runBlocks env F fn 0 F.blocks (s, Locals.init)).1.fault = none := by
    dsimp only at live; split at live <;> exact live
  obtain ⟨rewritten, appended, related⟩ := runBlocks_forall₂ env F fn R step F.blocks 0 blocksLive
  simp only [blocksLive, Option.isSome_none, Bool.false_eq_true, ↓reduceIte]
  exact ⟨{ F with blocks := (runBlocks env F fn 0 F.blocks (s, Locals.init)).2.blocks },
    by rw [runBlocks_functions], rfl, rfl, by rw [appended]; exact related⟩

end

theorem runOnModule_forall₂ (env : Env) (R : Function → BasicBlock → BasicBlock → Prop)
    (step : ∀ F fn (p : PassState × Locals) j bb, (runBlock env F fn p j bb).1.fault = none →
      ∃ bb', (runBlock env F fn p j bb).2.blocks = p.2.blocks ++ [bb'] ∧ R F bb bb')
    (file : TargetsFile) (M : Module) (c : UInt16) (complete : (runOnModule env file M c).fault = none) :
    List.Forall₂ (fun F F' => RewritesFunction (R F) F F') M.functions
      (runOnModule env file M c).functions := by
  cases loading : loadInstrTargets file with
  | error e => simp [runOnModule, loading, PassState.init] at complete
  | ok loaded =>
    simp only [runOnModule, loading] at complete ⊢
    obtain ⟨rewritten, appended, related⟩ :=
      runFunctions_forall₂ env (fun s => Loaded s.events.targets) _
        (fun s fn F => runFunction_loaded env F fn s)
        (fun s fn F => runFunction_forall₂_of_loaded env F fn (R F) (step F fn) s) M.functions 0
        (loadInstrTargets_loaded loading) complete
    rwa [instrumentModule, appended]

/-- What a complete run does to the module: each function keeps its name and arguments, and
each block becomes, in order, what `BlockStep` allows. -/
theorem runOnModule_blockSteps (env : Env) (file : TargetsFile) (M : Module) (c : UInt16)
    (complete : (runOnModule env file M c).fault = none) :
    List.Forall₂ (fun F F' => RewritesFunction (BlockStep env F) F F') M.functions
      (runOnModule env file M c).functions :=
  runOnModule_forall₂ env (BlockStep env) (fun F fn _ j bb => runBlock_step env F fn j bb)
    file M c complete

theorem RewritesFunction.imp {R S : BasicBlock → BasicBlock → Prop}
    (weaker : ∀ bb bb', R bb bb' → S bb bb') {F F' : Function} :
    RewritesFunction R F F' → RewritesFunction S F F' :=
  fun ⟨named, typed, related⟩ => ⟨named, typed, related.imp weaker⟩

/-- No run of the pass inserts a `track_functions` call: the loader fills no function targets,
so the instruction loop never sets `isTargetFunc`. -/
theorem runOnModule_no_function_events (env : Env) (file : TargetsFile) (M : Module) (c : UInt16) :
    NoFunctionEvents (runOnModule env file M c).events := by
  have run : ∀ functions fn (s : PassState), Loaded s.events.targets → NoFunctionEvents s.events →
      NoFunctionEvents (runFunctions env fn functions s).events := by
    intro functions
    induction functions with
    | nil => exact fun _ _ _ none => none
    | cons F rest ih =>
      intro fn s loaded none
      refine ih (fn + 1) _ (runFunction_loaded env F fn s loaded) ?_
      rw [runFunction_events_of_loaded env F fn s loaded]
      exact runBlocks_preserves env NoFunctionEvents (fun _ _ none => none)
        (fun _ _ _ _ _ => noFunctionEvents_blockEvents _ _ _ _) F fn F.blocks 0 _ none
  unfold runOnModule
  split
  · exact run _ _ _ (loadInstrTargets_loaded ‹_›) (by simp [NoFunctionEvents, PassState.init])
  · simp [NoFunctionEvents, PassState.init]

end Abstraktor.Pass
