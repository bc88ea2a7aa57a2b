import Abstraktor.Pass.DebugLoc
import Abstraktor.Pass.Events
import Abstraktor.Pass.LoadTargets

/-!
# `AFLCoverage::runOnModule`

The loops are folds of explicit steps: `scanInstruction`, `runBlock` and `runFunction`.
-/

namespace Abstraktor.Pass
open Ir

/-- The process the pass runs in. `instRatio` is indeterminate when `USE_TRADITIONAL_BRANCH` is
unset. -/
structure Env where
  realpath : String → Option String
  random : Nat → Nat
  useTraditionalBranch : Bool
  instRatio : Nat
  mapSize : Nat
  cxaDemangle : String → Option String
  rustcDemangle : String → Option String

/-- The locals of one iteration of the function loop, and the blocks already rewritten. -/
structure Locals where
  isTargetFunc : Bool
  filename : String
  line : UInt32
  constLine : UInt32
  blocks : List BasicBlock

/-- `bool isTargetFunc = false; std::string filename; unsigned line = 0; unsigned const_line = 0;` -/
def Locals.init : Locals := ⟨false, "", 0, 0, []⟩

/-- The state of the instruction loop of one block: the targets, the function's locals it writes
and the block's two flags. -/
structure Scan where
  targets : TargetState
  isTargetFunc : Bool
  filename : String
  line : UInt32
  constLine : UInt32
  isTargetBlockEvent : Bool
  isTargetConstEvent : Bool

def Scan.start (targets : TargetState) (l : Locals) : Scan :=
  ⟨targets, l.isTargetFunc, l.filename, l.line, l.constLine, false, false⟩

def Scan.locals (scan : Scan) (l : Locals) : Locals :=
  { l with isTargetFunc := scan.isTargetFunc, filename := scan.filename, line := scan.line,
           constLine := scan.constLine }

/-- The branches on the value `is_target_loc` returned. -/
def Scan.classify (s : Scan) (isTarget : UInt8) : Scan :=
  if isTarget = 2 then { s with isTargetFunc := true }
  else if isTarget = 3 then { s with isTargetBlockEvent := true }
  else if isTarget = 4 then { s with isTargetConstEvent := true, constLine := s.line }
  else s

/-- One iteration of the instruction loop: `get_debug_loc`, the `continue` on a skipped
location, `is_target_loc` and the flags. -/
def scanInstruction (realpath : String → Option String) (s : Scan) (i : Instruction) : Scan :=
  let loc := getDebugLoc realpath i s.filename s.line
  if skipsLocation loc.1 loc.2 then { s with filename := loc.1, line := loc.2 }
  else
    let result := isTargetLoc loc.1 loc.2 s.targets
    Scan.classify { s with filename := loc.1, line := loc.2, targets := result.2 } result.1

/-- The instruction loop over a block, from the targets and the function's locals on entry. -/
def scanBlock (realpath : String → Option String) (targets : TargetState) (l : Locals)
    (bb : BasicBlock) : Scan :=
  bb.instructions.foldl (scanInstruction realpath) (Scan.start targets l)

/-- `!isTargetBlockEvent && !isTargetConstEvent && AFL_R(100) >= inst_ratio` negated, with the
number of `random()` calls after it: `AFL_R(100)` is evaluated only when neither flag is set. -/
def selectBlock (env : Env) (scan : Scan) (draws : Nat) : Bool × Nat :=
  if !scan.isTargetBlockEvent && !scan.isTargetConstEvent then
    (decide (env.random draws % 100 < env.instRatio), draws + 1)
  else (true, draws)

/-- `const_targets[filename][line]`: the name stored there, or `""` stored under that key. -/
def constTargetsAt (constTargets : ConstTargets) (filename : String) (line : UInt32) :
    String × ConstTargets :=
  match constTargets filename line with
  | some name => (name, constTargets)
  | none => ("", fun f l => if f = filename ∧ l = line then some "" else constTargets f l)

/-- The block event: `trigger_block_event` and `printBlockLog(filename, line, evtID)`. -/
def blockEvent (fn j : Nat) (filename : String) (line : UInt32) (e : EventState) : EventState :=
  e.recordEvent fn j .block fun evtID => .block evtID filename line

/-- The constant event, keyed by `(filename, const_line)` in `instrumented_const_targets`. -/
def constEvent (fn j : Nat) (filename : String) (constLine : UInt32) (e : EventState) :
    EventState :=
  if (filename, constLine) ∈ e.instrumentedConstTargets then e
  else
    let lookup := constTargetsAt e.targets.constTargets filename constLine
    let e := { e with
      instrumentedConstTargets := insert (filename, constLine) e.instrumentedConstTargets
      targets := { e.targets with constTargets := lookup.2 } }
    e.recordEvent fn j (.const · lookup.1) fun evtID => .const evtID filename constLine lookup.1

/-- `if (isTargetBlockEvent)` and `if (isTargetConstEvent)` of an instrumented block, with the
function's `filename`, `line` and `const_line` as the instruction loop left them. -/
def blockEvents (fn j : Nat) (scan : Scan) (l : Locals) (e : EventState) : EventState :=
  let e₁ := if scan.isTargetBlockEvent then blockEvent fn j l.filename l.line e else e
  if scan.isTargetConstEvent then constEvent fn j l.filename l.constLine e₁ else e₁

/-- The edge-coverage update of `USE_TRADITIONAL_BRANCH`, created after `n` other instructions of
the block. `CreateZExt` of the `i32` it loads to `i32` creates nothing. -/
def edgeCoverage (n curLoc : Nat) : List Opcode :=
  [.load (.global "__afl_prev_loc"),
   .load (.global "__afl_area_ptr"),
   .xor (.created n) (.int 32 curLoc),
   .gep (.int 8) (.created (n + 1)) [.created (n + 2)],
   .load (.created (n + 3)),
   .add (.created (n + 4)) (.int 8 1),
   .store (.created (n + 5)) (.created (n + 3)),
   .store (.int 32 (curLoc / 2)) (.global "__afl_prev_loc")]

/-- Instructions created by an `IRBuilder` placed at position `ip`: they go before it and carry
its debug location. -/
def insertAt (ip : Nat) (created : List Opcode) (bb : BasicBlock) : BasicBlock :=
  let loc := (bb.instructions.get? ip).bind (·.debugLoc)
  ⟨bb.instructions.take ip ++ created.map (fun op => ⟨op, loc⟩) ++ bb.instructions.drop ip⟩

/-- An instrumented block from `IRBuilder<> IRB(&(*IP))` on. -/
def instrumentBlock (env : Env) (F : Function) (fn j : Nat) (bb : BasicBlock) (scan : Scan)
    (s : PassState) (l : Locals) : PassState × Locals :=
  match bb.firstInsertionPt with
  | none => ({ s with fault := some .endDereference }, l)
  | some ip =>
    match getValues instrumentedParameters F.args selectedFields with
    | .error e => ({ s with fault := some e }, l)
    | .ok projection =>
      let events := blockEvents fn j scan l s.events
      let calls := (events.probes.drop s.events.probes.length).map (·.call.opcode)
      let created := projection.emitted ++ calls
      let s := { s with events, mipass := s.mipass ++ [⟨F.name, projection.res.map (·.2)⟩] }
      if env.useTraditionalBranch then
        let curLoc := env.random s.draws % env.mapSize
        ({ s with draws := s.draws + 1 },
         { l with blocks := l.blocks ++
            [insertAt ip (created ++ edgeCoverage created.length curLoc) bb] })
      else (s, { l with blocks := l.blocks ++ [insertAt ip created bb] })

/-- One iteration of the block loop of function `fn`, on its `j`-th block. -/
def runBlock (env : Env) (F : Function) (fn : Nat) (p : PassState × Locals) (j : Nat)
    (bb : BasicBlock) : PassState × Locals :=
  if p.1.fault.isSome then p
  else
    let scan := scanBlock env.realpath p.1.events.targets p.2 bb
    let selected := selectBlock env scan p.1.draws
    let s := { p.1 with events := { p.1.events with targets := scan.targets }, draws := selected.2 }
    let l := scan.locals p.2
    if selected.1 then instrumentBlock env F fn j bb scan s l
    else (s, { l with blocks := l.blocks ++ [bb] })

def runBlocks (env : Env) (F : Function) (fn : Nat) :
    Nat → List BasicBlock → PassState × Locals → PassState × Locals
  | _, [], p => p
  | j, bb :: rest, p => runBlocks env F fn (j + 1) rest (runBlock env F fn p j bb)

/-- `check_code_language`: 1 (Rust) when `.rs` occurs anywhere in the path, 2 (C/C++)
otherwise. -/
def checkCodeLanguage (codefile : String) : UInt8 :=
  if occursIn ".rs".toList codefile.toList then 1 else 2
where
  /-- `std::string::find(needle) != npos`. -/
  occursIn (needle : List Char) : List Char → Bool
    | [] => needle.isEmpty
    | c :: cs => needle.isPrefixOf (c :: cs) || occursIn needle cs

/-- The function's name as logged: `__cxa_demangle` for C/C++, `rustc_demangle` for Rust, the
raw name when demangling fails. -/
def demangle (env : Env) (codeLang : UInt8) (name : String) : String :=
  ((if codeLang = 2 then env.cxaDemangle name else env.rustcDemangle name)).getD name

/-- The function event after the block loop. -/
def functionEvent (env : Env) (F : Function) (fn : Nat) (p : PassState × Locals) :
    PassState × Locals :=
  if p.1.fault.isSome || !p.2.isTargetFunc then p
  else
    match F.blocks, p.2.blocks with
    | entry :: _, rewritten :: others =>
      match entry.firstInsertionPt with
      | none => ({ p.1 with fault := some .endDereference }, p.2)
      | some ip =>
        let loc := match entry.instructions.get? ip with
          | some i => getDebugLoc env.realpath i p.2.filename p.2.line
          | none => (p.2.filename, p.2.line)
        let codeLang := if p.1.codeLang = 0 then checkCodeLanguage loc.1 else p.1.codeLang
        let funcName := demangle env codeLang F.name
        let events := p.1.events.recordEvent fn 0 .func fun evtID =>
          .func evtID loc.1 loc.2 funcName
        ({ p.1 with codeLang, events },
         { p.2 with filename := loc.1, line := loc.2,
                    blocks := insertAt ip [(ProbeCall.func p.1.events.idCounter).opcode] rewritten ::
                      others })
    | _, _ => p

/-- One iteration of the function loop: the blocks, the function event, and the rewritten
function. -/
def runFunction (env : Env) (s : PassState) (fn : Nat) (F : Function) : PassState :=
  let p := functionEvent env F fn (runBlocks env F fn 0 F.blocks (s, Locals.init))
  if p.1.fault.isSome then p.1
  else { p.1 with functions := p.1.functions ++ [{ F with blocks := p.2.blocks }] }

def runFunctions (env : Env) : Nat → List Function → PassState → PassState
  | _, [], s => s
  | fn, F :: rest, s => runFunctions env (fn + 1) rest (runFunction env s fn F)

/-- `runOnModule` after `load_instr_targets`: the traversal of `M` from the loaded targets and
the counter's current value. -/
def instrumentModule (env : Env) (targets : TargetState) (M : Module) (idCounter : UInt16) :
    PassState :=
  runFunctions env 0 M.functions (PassState.init targets idCounter)

/-- `runOnModule`: `load_instr_targets`, then the traversal from the counter's current value.
An exception or a failed assertion while loading ends the process before the first probe. -/
def runOnModule (env : Env) (file : TargetsFile) (M : Module) (idCounter : UInt16) : PassState :=
  match loadInstrTargets file with
  | .ok loaded => instrumentModule env loaded.1 M idCounter
  | .error e => { PassState.init .empty idCounter with fault := some e }

end Abstraktor.Pass
