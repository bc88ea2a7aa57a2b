import Mathlib.Data.Finset.Basic

/-!
# The program representation the pass reads and writes

Modules, functions, blocks and instructions as the pass sees them through the LLVM API, with the
typed pointers of the LLVM it is built against.
-/

namespace Abstraktor.Ir

mutual
/-- An LLVM type. Floating point, function and label types are `other`. -/
inductive LType where
  | void
  | int (bits : Nat)
  | ptr (pointee : LType)
  | struct (fields : LTypes)
  | array (size : Nat) (element : LType)
  | vector (size : Nat) (element : LType)
  | other (name : String)
  deriving Repr, DecidableEq

inductive LTypes where
  | nil
  | cons (head : LType) (tail : LTypes)
  deriving Repr, DecidableEq
end

def LTypes.get? : LTypes → Nat → Option LType
  | .nil, _ => none
  | .cons t _, 0 => some t
  | .cons _ ts, n + 1 => ts.get? n

/-- `GetElementPtrInst::getTypeAtIndex`: the type one constant index steps into. -/
def LType.typeAtIndex : LType → Nat → Option LType
  | .struct fields, i => fields.get? i
  | .array _ element, _ | .vector _ element, _ => some element
  | _, _ => none

/-- A `DILocation`: line, file and directory, and the location this one was inlined at. -/
structure DILocation where
  line : UInt32
  filename : String
  directory : String
  inlinedAt : Option DILocation
  deriving Repr

/-- `created k` is the `k`-th instruction inserted into the block; `string text` is the global
`IRB.CreateGlobalString(text, "const_name")` creates. -/
inductive Operand where
  | arg (index : Nat)
  | created (index : Nat)
  | int (bits value : Nat)
  | global (name : String)
  | string (text : String)
  deriving Repr, DecidableEq

/-- Instruction kinds. The input module's instructions are `phi`, `ehPad` (landingpad, catchpad,
cleanuppad, catchswitch) or `other`; the pass creates the rest. -/
inductive Opcode where
  | phi
  | ehPad
  | other (name : String)
  | gep (sourceType : LType) (base : Operand) (indices : List Operand)
  | load (ptr : Operand)
  | store (value ptr : Operand)
  | zext (value : Operand) (bits : Nat)
  | xor (lhs rhs : Operand)
  | add (lhs rhs : Operand)
  | call (callee : String) (args : List Operand)
  deriving Repr, DecidableEq

structure Instruction where
  opcode : Opcode
  debugLoc : Option DILocation
  deriving Repr

structure BasicBlock where
  instructions : List Instruction
  deriving Repr

structure Argument where
  name : String
  type : LType
  deriving Repr, DecidableEq

structure Function where
  name : String
  args : List Argument
  blocks : List BasicBlock
  deriving Repr

structure Module where
  functions : List Function
  deriving Repr

/-- How a run of the pass stops early: an exception it does not catch, a failed assertion in a
library it calls, or undefined behaviour the source reaches. -/
inductive Fault where
  /-- `nlohmann::json::parse_error` from `file >> json`. -/
  | parseError
  /-- `nlohmann::json::type_error` from a conversion of a JSON value of the wrong type. -/
  | typeError
  /-- `std::invalid_argument` from `std::stoul`. -/
  | invalidArgument
  /-- `std::out_of_range` from `std::stoul`. -/
  | outOfRange
  /-- A failed `assert` in nlohmann (`JSON_ASSERT`). -/
  | assertion
  /-- A GEP index that does not step into its source element type: `getIndexedType` returns no
  type and `GetElementPtrInst` dereferences it. -/
  | gepIndex
  /-- `static_cast<int>` of a `double` outside the range of `int`. -/
  | floatConversion
  /-- `std::vector::operator[]` past the end. -/
  | outOfBounds
  /-- Dereferencing a block's `end()` iterator. -/
  | endDereference
  deriving Repr, DecidableEq

/-- `BasicBlock::getFirstInsertionPt`: the first instruction that is not a PHI node, stepped
past when it is an exception-handling pad; `none` is the block's `end()`. -/
def BasicBlock.firstInsertionPt (bb : BasicBlock) : Option Nat :=
  match bb.instructions.findIdx? (fun i => i.opcode != .phi) with
  | none => none
  | some k =>
    let k := if (bb.instructions.get? k).map (·.opcode) = some .ehPad then k + 1 else k
    if k < bb.instructions.length then some k else none

end Abstraktor.Ir
