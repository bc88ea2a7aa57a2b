import Abstraktor.Pass.Targets
import Abstraktor.Pass.Arguments

/-!
# Probe calls, `BB2ID.txt`, `mipass.log` and the state of one run of the pass
-/

namespace Abstraktor.Pass
open Ir

/-- A call to one of the runtime probes. -/
inductive ProbeCall where
  /-- `trigger_block_event(evtID)`. -/
  | block (evtID : UInt16)
  /-- `trigger_const_event(evtID, const_name)`. -/
  | const (evtID : UInt16) (constName : String)
  /-- `track_functions(evtID)`. -/
  | func (evtID : UInt16)
  deriving Repr, DecidableEq

def ProbeCall.evtID : ProbeCall → UInt16
  | .block evtID | .const evtID _ | .func evtID => evtID

/-- The call instruction the IR builder creates for a probe call. -/
def ProbeCall.opcode : ProbeCall → Opcode
  | .block evtID => .call "trigger_block_event" [.int 16 evtID.toNat]
  | .const evtID constName => .call "trigger_const_event" [.int 16 evtID.toNat, .string constName]
  | .func evtID => .call "track_functions" [.int 16 evtID.toNat]

/-- A probe call and the block it is inserted in: the function's and the block's positions in
the module. -/
structure Probe where
  function : Nat
  block : Nat
  call : ProbeCall
  deriving Repr, DecidableEq

/-- A line of `BB2ID.txt`, from `printFuncLog`, `printBlockLog` or `printConstLog`. -/
inductive LogRecord where
  | func (evtID : UInt16) (filename : String) (line : UInt32) (funcName : String)
  | block (evtID : UInt16) (filename : String) (line : UInt32)
  | const (evtID : UInt16) (filename : String) (line : UInt32) (constName : String)
  deriving Repr, DecidableEq

def LogRecord.evtID : LogRecord → UInt16
  | .func evtID .. | .block evtID .. | .const evtID .. => evtID

/-- The text each record appends to `BB2ID.txt`. -/
def LogRecord.render : LogRecord → String
  | .func evtID filename line funcName =>
    toString evtID ++ ": at " ++ filename ++ " ; at line " ++ toString line ++ " for function " ++
      funcName ++ "\n"
  | .block evtID filename line =>
    toString evtID ++ ": at " ++ filename ++ " ; at line " ++ toString line ++ " for block\n"
  | .const evtID filename line constName =>
    toString evtID ++ ": at " ++ filename ++ " ; at line " ++ toString line ++ " for const " ++
      constName ++ "\n"

/-- What one instrumented block adds to `mipass.log`: the function's name and the types of the
values `getValues` returned. -/
structure MipassRecord where
  function : String
  params : List LType
  deriving Repr

/-- The targets, `instrumented_const_targets`, the `u16` in the `SHM_ID_KEY` segment, and the
probe calls and `BB2ID.txt` lines so far. -/
structure EventState where
  targets : TargetState
  instrumentedConstTargets : Finset (String × UInt32)
  idCounter : UInt16
  probes : List Probe
  bbToID : List LogRecord

/-- `u16 evtID = *evtIDPtr`, the probe call with `evtID`, its line in `BB2ID.txt`, and
`*evtIDPtr = ++evtID`. -/
def EventState.recordEvent (e : EventState) (fn block : Nat) (call : UInt16 → ProbeCall)
    (record : UInt16 → LogRecord) : EventState :=
  { e with
    probes := e.probes ++ [⟨fn, block, call e.idCounter⟩]
    bbToID := e.bbToID ++ [record e.idCounter]
    idCounter := e.idCounter + 1 }

section recordEvent
variable (e : EventState) (fn block : Nat) (call : UInt16 → ProbeCall)
  (record : UInt16 → LogRecord)

@[simp] theorem recordEvent_probes : (e.recordEvent fn block call record).probes =
    e.probes ++ [⟨fn, block, call e.idCounter⟩] := rfl
@[simp] theorem recordEvent_bbToID : (e.recordEvent fn block call record).bbToID =
    e.bbToID ++ [record e.idCounter] := rfl
@[simp] theorem recordEvent_idCounter :
    (e.recordEvent fn block call record).idCounter = e.idCounter + 1 := rfl
@[simp] theorem recordEvent_targets :
    (e.recordEvent fn block call record).targets = e.targets := rfl
@[simp] theorem recordEvent_instrumentedConstTargets :
    (e.recordEvent fn block call record).instrumentedConstTargets = e.instrumentedConstTargets :=
  rfl

end recordEvent

/-- The state one run threads through its loops; `fault` is set when the run stops early, and
nothing changes after it. -/
structure PassState where
  events : EventState
  draws : Nat
  codeLang : UInt8
  mipass : List MipassRecord
  functions : List Function
  fault : Option Fault

/-- A run's state before its first function: the loaded targets and the counter as the
previous runs left it. -/
def PassState.init (targets : TargetState) (idCounter : UInt16) : PassState where
  events := ⟨targets, ∅, idCounter, [], []⟩
  draws := 0
  codeLang := 0
  mipass := []
  functions := []
  fault := none

end Abstraktor.Pass
