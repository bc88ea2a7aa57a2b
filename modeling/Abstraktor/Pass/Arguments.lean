import Abstraktor.Ir.Types

/-!
# `getArgument` and `getValues`, with the IR builder as far as it can stop the pass
-/

namespace Abstraktor.Pass
open Ir

/-- `ValueInfo`: the type recorded for an argument and the field path to follow from it. -/
structure ValueInfo where
  type : LType
  indexes : List Nat
  deriving Repr, DecidableEq

/-- The `unordered_map<Value*, ValueInfo>` of `getArgument`, keyed by argument position. Its
iteration order is unspecified in C++; the model iterates in the order the keys were added. -/
abbrev ValueMap := List (Nat × ValueInfo)

/-- `valueMap[&Arg] = info`: replace the entry of the argument at `position`, or add one. -/
def ValueMap.assign (valueMap : ValueMap) (position : Nat) (info : ValueInfo) : ValueMap :=
  if valueMap.any (·.1 == position) then
    valueMap.map fun entry => if entry.1 = position then (position, info) else entry
  else valueMap ++ [(position, info)]

/-- One iteration of `getArgument`'s outer loop: the argument at position `idx` is compared with
every instrumented parameter, and each match reads `default_indices[idx]`. -/
def getArgumentAt (instrumentedParameters : List String) (defaultIndices : List (List Nat))
    (valueMap : ValueMap) (idx : Nat) (arg : Argument) : Except Fault ValueMap :=
  List.foldlM (fun valueMap param =>
    if param = arg.name then
      match defaultIndices.get? idx with
      | some indexes => pure (valueMap.assign idx ⟨arg.type, indexes⟩)
      | none => throw .outOfBounds
    else pure valueMap) valueMap instrumentedParameters

/-- `getArgument`: `idx` counts the arguments, and it is the index into `default_indices`. -/
def getArgument (instrumentedParameters : List String) (args : List Argument)
    (defaultIndices : List (List Nat)) : Except Fault ValueMap :=
  List.foldlM (fun valueMap entry =>
    getArgumentAt instrumentedParameters defaultIndices valueMap entry.1 entry.2) [] args.enum

/-- `changeStructPointersToStructTypes`: a pointer to a struct is recorded as the struct. -/
def changeStructPointersToStructTypes (valueTypeMap : ValueMap) : ValueMap :=
  valueTypeMap.map fun entry =>
    match entry.2.type with
    | .ptr (.struct fields) => (entry.1, { entry.2 with type := .struct fields })
    | _ => entry

/-- `IRB.CreateGEP(Ty, Ptr, {0, field})`, as the type it points to. An index that does not step
into `Ty` leaves `getIndexedType` without a type, which the builder dereferences; a release
build checks nothing else. -/
def createGEP (sourceType : LType) (field : Nat) : Except Fault LType :=
  match sourceType.typeAtIndex field with
  | some fieldType => pure fieldType
  | none => throw .gepIndex

/-- The instructions `getValues` has created so far and the values in `res`, with the types
of those values. -/
structure Projection where
  emitted : List Opcode
  res : List (Operand × LType)
  deriving Repr

/-- The inner loop of `getValues` over one field path: a GEP and a load per field, `target_type`
becoming the loaded value's type. -/
def projectFields (p : Projection) (targetValue : Operand) (targetType : LType) :
    List Nat → Except Fault Projection
  | [] => pure p
  | field :: rest => do
    let loadedType ← createGEP targetType field
    let loaded := Operand.created (p.emitted.length + 1)
    let p : Projection :=
      { emitted := p.emitted ++
          [.gep targetType targetValue [.int 32 0, .int 32 field], .load (.created p.emitted.length)]
        res := p.res ++ [(loaded, loadedType)] }
    projectFields p loaded loadedType rest

/-- `getValues`: one projection per entry of the argument map, from the argument itself with
the recorded, possibly normalised, type. -/
def getValues (vec : List String) (args : List Argument) (vecSelectedFields : List (List Nat)) :
    Except Fault Projection := do
  let argumentMap ← getArgument vec args vecSelectedFields
  List.foldlM (fun p entry => projectFields p (.arg entry.1) entry.2.type entry.2.indexes)
    ⟨[], []⟩ (changeStructPointersToStructTypes argumentMap)

/-- `vec` in `runOnModule`: the one instrumented parameter, `r`. -/
def instrumentedParameters : List String := ["r"]

/-- `vec_selected_fields` in `runOnModule`: the one path, field 0 then field 1. -/
def selectedFields : List (List Nat) := [[0, 1]]

end Abstraktor.Pass
