import Abstraktor.Pass.RunOnModule

/-!
# What the instructions the pass creates do when the instrumented program runs
-/

namespace Abstraktor.Ir

/-- The instructions `getValues` creates: a GEP to a field of the value at an address, and a
load of a created address. -/
def Opcode.isProjection : Opcode → Bool
  | .gep _ _ [.int 32 0, .int 32 _] | .load (.created _) => true
  | _ => false

end Abstraktor.Ir

namespace Abstraktor.Pass
open Ir

/-- The values the created instructions compute. -/
inductive Value where
  | int (bits v : Nat)
  | ptr (address : Nat)
  | mapPtr (offset : Int)
  | unit
  deriving Repr, DecidableEq

/-- What the edge-coverage update reads and writes: `__afl_prev_loc`, and the bytes of the map
by their offset from `__afl_area_ptr`. -/
structure Coverage where
  prevLoc : UInt32
  area : Int → UInt8

/-- The program's memory, which created instructions only read: the data layout, and `none`
where a load is undefined behaviour. -/
structure Memory where
  fieldAddress : LType → Nat → Nat → Nat
  read : Nat → Option Value

/-- What running created instructions changes: the coverage state, and the calls the probes'
runtime received, each as the probe called and the event ID passed. -/
structure Machine where
  coverage : Coverage
  received : List (String × Nat)

/-- The `i32` GEP index, sign-extended to the pointer width. -/
def signExtend32 (x : Nat) : Int := if x < 2 ^ 31 then x else x - ((2 ^ 32 : Nat) : Int)

/-- An operand of a created instruction: an argument of the function, an earlier created value,
or a constant truncated to its width. -/
def operandValue (args values : List Value) : Operand → Option Value
  | .arg k => args[k]?
  | .created k => values[k]?
  | .int bits v => some (.int bits (v % 2 ^ bits))
  | .global _ | .string _ => none

section
variable (mem : Memory) (args : List Value)

/-- A load: of `__afl_prev_loc`, of `__afl_area_ptr`, or through a created pointer into the
program's memory or into the coverage map. -/
def execLoad (s : Machine) (values : List Value) : Operand → Option (Machine × Value)
  | .global "__afl_prev_loc" => some (s, .int 32 s.coverage.prevLoc.toNat)
  | .global "__afl_area_ptr" => some (s, .mapPtr 0)
  | ptr =>
    match operandValue args values ptr with
    | some (.ptr address) => (mem.read address).map (s, ·)
    | some (.mapPtr offset) => some (s, .int 8 (s.coverage.area offset).toNat)
    | _ => none

/-- A store: of an `i32` to `__afl_prev_loc`, or of a byte into the coverage map. -/
def execStore (s : Machine) (values : List Value) (value : Operand) :
    Operand → Option (Machine × Value)
  | .global "__afl_prev_loc" =>
    match operandValue args values value with
    | some (.int 32 x) => some ({ s with coverage.prevLoc := UInt32.ofNat x }, .unit)
    | _ => none
  | ptr =>
    match operandValue args values value, operandValue args values ptr with
    | some (.int 8 x), some (.mapPtr offset) =>
      some ({ s with coverage.area := Function.update s.coverage.area offset (UInt8.ofNat x) },
        .unit)
    | _, _ => none

/-- A GEP: to field `field` of the value of type `sourceType` at an address, or by a
sign-extended `i32` index into the coverage map. -/
def execGep (s : Machine) (values : List Value) (sourceType : LType) (base : Operand) :
    List Operand → Option (Machine × Value)
  | [.int 32 0, .int 32 field] =>
    match operandValue args values base with
    | some (.ptr address) => some (s, .ptr (mem.fieldAddress sourceType address field))
    | _ => none
  | [index] =>
    match sourceType, operandValue args values base, operandValue args values index with
    | .int 8, some (.mapPtr offset), some (.int 32 x) => some (s, .mapPtr (offset + signExtend32 x))
    | _, _, _ => none
  | _ => none

/-- One created instruction, run on the machine with the values created before it: its effect
and its value, or `none` where running it is undefined. -/
def execCreated (s : Machine) (values : List Value) : Opcode → Option (Machine × Value)
  | .load ptr => execLoad mem args s values ptr
  | .store value ptr => execStore args s values value ptr
  | .gep sourceType base indices => execGep mem args s values sourceType base indices
  | .xor lhs rhs =>
    match operandValue args values lhs, operandValue args values rhs with
    | some (.int 32 x), some (.int 32 y) => some (s, .int 32 (x ^^^ y))
    | _, _ => none
  | .add lhs rhs =>
    match operandValue args values lhs, operandValue args values rhs with
    | some (.int 8 x), some (.int 8 y) => some (s, .int 8 ((x + y) % 2 ^ 8))
    | _, _ => none
  | .call callee (evtID :: _) =>
    match operandValue args values evtID with
    | some (.int 16 id) => some ({ s with received := s.received ++ [(callee, id)] }, .unit)
    | _ => none
  | _ => none

def execOps : Machine × List Value → List Opcode → Option (Machine × List Value)
  | r, [] => some r
  | (s, values), op :: ops =>
    match execCreated mem args s values op with
    | some (s', v) => execOps (s', values ++ [v]) ops
    | none => none

theorem execOps_cons (s : Machine) (values : List Value) (op : Opcode) (ops : List Opcode) :
    execOps mem args (s, values) (op :: ops) =
      (execCreated mem args s values op).bind fun r => execOps mem args (r.1, values ++ [r.2]) ops := by
  simp only [execOps]
  split <;> simp_all

theorem execOps_append (ops more : List Opcode) (r : Machine × List Value) :
    execOps mem args r (ops ++ more) = (execOps mem args r ops).bind (execOps mem args · more) := by
  induction ops generalizing r with
  | nil => rfl
  | cons op ops ih =>
    rw [List.cons_append, execOps_cons, execOps_cons, Option.bind_assoc]
    simp only [ih]

theorem execOps_length (ops : List Opcode) (r : Machine × List Value) :
    ∀ r' ∈ execOps mem args r ops, r'.2.length = r.2.length + ops.length := by
  induction ops generalizing r with
  | nil => intro r' ran; cases ran; rfl
  | cons op ops ih =>
    intro r' ran
    rw [execOps_cons] at ran
    obtain ⟨step, -, rest⟩ := Option.bind_eq_some.mp ran
    rw [ih _ r' rest, List.length_append, List.length_singleton, List.length_cons]
    omega

/-! ### `getValues` only reads -/

theorem execCreated_projection {op : Opcode} (projection : op.isProjection) (s : Machine)
    (values : List Value) : ∀ r ∈ execCreated mem args s values op, r.1 = s := by
  unfold Opcode.isProjection at projection
  split at projection
  · simp only [execCreated, execGep]
    split <;> simp_all
  · simp only [execCreated, execLoad]
    split <;> simp_all [Option.mem_def]
  · cases projection

theorem execOps_projection {ops : List Opcode} (projection : ∀ op ∈ ops, op.isProjection)
    (r : Machine × List Value) : ∀ r' ∈ execOps mem args r ops, r'.1 = r.1 := by
  induction ops generalizing r with
  | nil => intro r' ran; cases ran; rfl
  | cons op ops ih =>
    intro r' ran
    rw [execOps_cons] at ran
    obtain ⟨step, stepped, rest⟩ := Option.bind_eq_some.mp ran
    rw [ih (fun op mem => projection op (List.mem_cons_of_mem _ mem)) _ r' rest]
    exact execCreated_projection mem args (projection op (List.mem_cons_self _ _)) _ _ step stepped

def Value.shape : Value → Value
  | .int bits _ => .int bits 0
  | v => v

theorem operandValue_shape {values values' : List Value}
    (same : values.map Value.shape = values'.map Value.shape) (o : Operand) :
    (operandValue args values o).map Value.shape = (operandValue args values' o).map Value.shape := by
  cases o with
  | created k => simp only [operandValue, ← List.getElem?_map, same]
  | _ => rfl

theorem execCreated_shape {op : Opcode} (projection : op.isProjection) (s s' : Machine)
    {values values' : List Value} (same : values.map Value.shape = values'.map Value.shape) :
    (execCreated mem args s values op).map (·.2.shape) =
      (execCreated mem args s' values' op).map (·.2.shape) := by
  unfold Opcode.isProjection at projection
  split at projection
  · rename_i base _
    have shaped := operandValue_shape args same base
    simp only [execCreated, execGep]
    generalize operandValue args values base = o at shaped ⊢
    generalize operandValue args values' base = o' at shaped ⊢
    rcases o with _ | ⟨_ | _ | _ | _⟩ <;> rcases o' with _ | ⟨_ | _ | _ | _⟩ <;>
      simp_all [Value.shape]
  · rename_i k
    have shaped := operandValue_shape args same (.created k)
    simp only [execCreated, execLoad]
    generalize operandValue args values (.created k) = o at shaped ⊢
    generalize operandValue args values' (.created k) = o' at shaped ⊢
    rcases o with _ | ⟨_ | _ | _ | _⟩ <;> rcases o' with _ | ⟨_ | _ | _ | _⟩ <;>
      simp_all [Value.shape]
    rfl
  · cases projection

theorem execOps_projection_isSome {ops : List Opcode} (projection : ∀ op ∈ ops, op.isProjection) :
    ∀ (s s' : Machine) {values values' : List Value},
      values.map Value.shape = values'.map Value.shape →
      (execOps mem args (s, values) ops).isSome = (execOps mem args (s', values') ops).isSome := by
  induction ops with
  | nil => intros; rfl
  | cons op ops ih =>
    intro s s' values values' same
    have shaped := execCreated_shape mem args (projection op (List.mem_cons_self _ _)) s s' same
    rw [execOps_cons, execOps_cons]
    rcases first : execCreated mem args s values op with _ | ⟨t, v⟩ <;>
      rcases first' : execCreated mem args s' values' op with _ | ⟨t', v'⟩ <;>
      rw [first, first'] at shaped <;> simp only [Option.map_none', Option.map_some',
        Option.some.injEq, reduceCtorEq] at shaped
    · rfl
    · refine ih (fun op mem => projection op (List.mem_cons_of_mem _ mem)) t t' ?_
      simp only [List.map_append, List.map_singleton, same, shaped]

theorem execOps_projection_none {ops : List Opcode} (projection : ∀ op ∈ ops, op.isProjection)
    {s : Machine} (stops : execOps mem args (s, []) ops = none) (s' : Machine) :
    execOps mem args (s', []) ops = none := by
  have same := @execOps_projection_isSome mem args _ projection s s' [] [] rfl
  rw [stops, Option.isSome_none] at same
  exact Option.not_isSome_iff_eq_none.mp (Bool.eq_false_iff.mp same.symm)

end

theorem projectFields_projection :
    ∀ (fields : List Nat) (p : Projection) (targetValue : Operand) (targetType : LType)
      {p' : Projection}, projectFields p targetValue targetType fields = .ok p' →
      (∀ op ∈ p.emitted, op.isProjection) → ∀ op ∈ p'.emitted, op.isProjection
  | [], _, _, _, _, ok, projection => by cases ok; exact projection
  | field :: rest, p, targetValue, targetType, _, ok, projection => by
    unfold projectFields at ok
    cases typed : createGEP targetType field with
    | error e => simp [typed, bind, Except.bind] at ok
    | ok loadedType =>
      simp only [typed, bind, Except.bind] at ok
      refine projectFields_projection rest _ _ _ ok fun op mem => ?_
      rcases List.mem_append.mp mem with old | new
      · exact projection op old
      · simp only [List.mem_cons, List.mem_singleton, List.not_mem_nil, or_false] at new
        rcases new with rfl | rfl <;> rfl

theorem getValues_projection {vec : List String} {args : List Argument}
    {selected : List (List Nat)} {projection : Projection}
    (ok : getValues vec args selected = .ok projection) :
    ∀ op ∈ projection.emitted, op.isProjection := by
  unfold getValues at ok
  cases arguments : getArgument vec args selected with
  | error e => simp [arguments, bind, Except.bind] at ok
  | ok argumentMap =>
    simp only [arguments, bind, Except.bind] at ok
    exact foldlM_ok_of_step (fun p : Projection => ∀ op ∈ p.emitted, op.isProjection)
      (fun _ _ _ projection stepped => projectFields_projection _ _ _ _ stepped projection) _
      (fun _ mem => by cases mem) ok

/-! ### Probe calls -/

def ProbeCall.callee : ProbeCall → String
  | .block _ => "trigger_block_event"
  | .const .. => "trigger_const_event"
  | .func _ => "track_functions"

def ProbeCall.report (call : ProbeCall) : String × Nat := (call.callee, call.evtID.toNat)

section
variable (mem : Memory) (args : List Value)

theorem execCreated_opcode (call : ProbeCall) (s : Machine) (values : List Value) :
    execCreated mem args s values call.opcode =
      some ({ s with received := s.received ++ [call.report] }, .unit) := by
  cases call <;>
    simp [ProbeCall.opcode, execCreated, operandValue, ProbeCall.report, ProbeCall.callee,
      ProbeCall.evtID] <;>
    exact UInt16.toNat_lt_size _

theorem execOps_probeCalls (calls : List ProbeCall) (s : Machine) (values : List Value) :
    execOps mem args (s, values) (calls.map (·.opcode)) =
      some ({ s with received := s.received ++ calls.map ProbeCall.report },
        values ++ calls.map fun _ => .unit) := by
  induction calls generalizing s values with
  | nil => simp [execOps]
  | cons call calls ih =>
    rw [List.map_cons, execOps_cons, execCreated_opcode, Option.some_bind, ih]
    simp

end

end Abstraktor.Pass
