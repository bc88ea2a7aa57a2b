import Abstraktor.Pass.InsertedCode
import Abstraktor.Pass.LoadedTargets

/-!
# LLVM's typing rules for the created instructions, with typed pointers
-/

namespace Abstraktor.Ir

/-- The type of an operand; `CreateGlobalString` makes an `[n x i8]` of the string and its NUL
byte. -/
def Operand.type? (argTypes types : List LType) : Operand → Option LType
  | .arg k => argTypes[k]?
  | .created k => types[k]?
  | .int bits _ => some (.int bits)
  | .global "__afl_prev_loc" => some (.ptr (.int 32))
  | .global "__afl_area_ptr" => some (.ptr (.ptr (.int 8)))
  | .global _ => none
  | .string text => some (.ptr (.array (text.utf8ByteSize + 1) (.int 8)))

/-- The parameters `FunctionType::get` gives the probes: `helperTy_const` takes an `i16` and an
`i8*`, the others an `i16`. -/
def helperParams : String → Option (List LType)
  | "trigger_block_event" | "track_functions" => some [.int 16]
  | "trigger_const_event" => some [.int 16, .ptr (.int 8)]
  | _ => none

/-- The type of a created instruction's value, or `none` when its operands break LLVM's rules.
A call passes each of the callee's parameters a value of its type and gives `void`. -/
def Opcode.type? (argTypes types : List LType) : Opcode → Option LType
  | .gep sourceType base [.int 32 0, .int 32 field] =>
    if base.type? argTypes types = some (.ptr sourceType) then
      (sourceType.typeAtIndex field).map .ptr
    else none
  | .gep sourceType base [index] =>
    if base.type? argTypes types = some (.ptr sourceType) ∧
        index.type? argTypes types = some (.int 32) then some (.ptr sourceType)
    else none
  | .load ptr =>
    match ptr.type? argTypes types with
    | some (.ptr t) => some t
    | _ => none
  | .store value ptr =>
    match value.type? argTypes types, ptr.type? argTypes types with
    | some t, some (.ptr t') => if t = t' then some .void else none
    | _, _ => none
  | .xor lhs rhs | .add lhs rhs =>
    match lhs.type? argTypes types, rhs.type? argTypes types with
    | some (.int bits), some (.int bits') => if bits = bits' then some (.int bits) else none
    | _, _ => none
  | .call callee args =>
    match helperParams callee with
    | some params => if args.map (·.type? argTypes types) = params.map some then some .void else none
    | none => none
  | _ => none

theorem LType.ne_ptr_self (t : LType) : t ≠ .ptr t := fun same => by
  have := congrArg sizeOf same
  simp at this

end Abstraktor.Ir

namespace Abstraktor.Pass
open Ir

/-- The types of created instructions' values in order, after those of `types`, or `none` at the
first ill-typed one. -/
def typeCreated (argTypes : List LType) : List LType → List Opcode → Option (List LType)
  | types, [] => some types
  | types, op :: ops => (op.type? argTypes types).bind fun t => typeCreated argTypes (types ++ [t]) ops

theorem typeCreated_append (argTypes types : List LType) (ops ops' : List Opcode) :
    typeCreated argTypes types (ops ++ ops') =
      (typeCreated argTypes types ops).bind fun types' => typeCreated argTypes types' ops' := by
  induction ops generalizing types with
  | nil => rfl
  | cons op ops ih =>
    simp only [List.cons_append, typeCreated, List.append_eq, ih, Option.bind_assoc]

/-! ### `getArgument` with `runOnModule`'s parameter and path -/

theorem ValueMap.assign_ne_nil (valueMap : ValueMap) (position : Nat) (info : ValueInfo) :
    valueMap.assign position info ≠ [] := by
  unfold ValueMap.assign
  split_ifs with present
  · obtain ⟨entry, mem, -⟩ := List.any_eq_true.mp present
    exact List.ne_nil_of_mem (List.mem_map_of_mem _ mem)
  · exact List.append_ne_nil_of_right_ne_nil _ (List.cons_ne_nil _ _)

theorem ValueMap.mem_assign {valueMap : ValueMap} {position : Nat} {info : ValueInfo}
    {entry : Nat × ValueInfo} (mem : entry ∈ valueMap.assign position info) :
    entry ∈ valueMap ∨ entry = (position, info) := by
  unfold ValueMap.assign at mem
  split_ifs at mem
  · obtain ⟨old, kept, rfl⟩ := List.mem_map.mp mem
    split_ifs
    · exact .inr rfl
    · exact .inl kept
  · simpa using mem

theorem getArgumentAt_r {valueMap next : ValueMap} {idx : Nat} {arg : Argument}
    (ok : getArgumentAt instrumentedParameters selectedFields valueMap idx arg = .ok next) :
    if arg.name = "r" then idx = 0 ∧ next = valueMap.assign 0 ⟨arg.type, [0, 1]⟩
    else next = valueMap := by
  simp only [getArgumentAt, instrumentedParameters, List.foldlM_cons, List.foldlM_nil,
    @eq_comm _ "r"] at ok
  split_ifs at ok ⊢
  · cases idx with
    | zero => exact ⟨rfl, by cases ok; rfl⟩
    | succ idx => cases ok
  · cases ok; rfl

theorem getArgument_indexes {args : List Argument} {valueMap : ValueMap}
    (ok : getArgument instrumentedParameters args selectedFields = .ok valueMap) :
    ∀ entry ∈ valueMap, entry.2.indexes = [0, 1] :=
  foldlM_ok_of_step (fun valueMap => ∀ entry ∈ valueMap, entry.2.indexes = [0, 1])
    (fun _ _ _ before stepped entry mem => by
      have step := getArgumentAt_r stepped
      split_ifs at step
      · obtain ⟨-, rfl⟩ := step
        rcases ValueMap.mem_assign mem with old | rfl
        · exact before entry old
        · rfl
      · subst step; exact before entry mem) _ (fun _ mem => (List.not_mem_nil _ mem).elim) ok

theorem getArgument_ne_nil {args : List Argument} {valueMap : ValueMap}
    (ok : getArgument instrumentedParameters args selectedFields = .ok valueMap)
    (named : ∃ arg ∈ args, arg.name = "r") : valueMap ≠ [] := by
  have grows := foldlM_ok_mem_iff (fun valueMap : ValueMap => valueMap ≠ [])
    (fun entry : Nat × Argument => entry.2.name = "r") ok fun _ _ _ stepped => by
      have step := getArgumentAt_r stepped
      split_ifs at step with r
      · exact iff_of_true (step.2 ▸ ValueMap.assign_ne_nil _ _ _) (.inr r)
      · rw [step, or_iff_left r]
  obtain ⟨arg, mem, r⟩ := named
  obtain ⟨k, at_k⟩ := List.mem_iff_getElem?.mp mem
  exact grows.mpr (.inr ⟨(k, arg), List.mem_enum_iff_getElem?.mpr at_k, r⟩)

/-! ### What `getValues` emits -/

theorem projectFields_emitted {p p' : Projection} {value : Operand} {type : LType} {path : List Nat}
    (ok : projectFields p value type path = .ok p') : ∃ more, p'.emitted = p.emitted ++ more := by
  induction path generalizing p value type with
  | nil => cases ok; exact ⟨[], (List.append_nil _).symm⟩
  | cons field rest ih =>
    obtain ⟨loadedType, -, ok⟩ := bind_eq_ok ok
    obtain ⟨more, grows⟩ := ih ok
    exact ⟨_, grows.trans (List.append_assoc _ _ _)⟩

/-- The path `{0, 1}` from an argument: the second GEP's base is the first load's value, of the
GEP's source element type rather than a pointer to it. -/
theorem projectFields_ill_typed (argTypes : List LType) (k : Nat) (type : LType) {p : Projection}
    (ok : projectFields ⟨[], []⟩ (.arg k) type [0, 1] = .ok p) :
    typeCreated argTypes [] p.emitted = none := by
  simp only [projectFields, createGEP] at ok
  cases first : type.typeAtIndex 0 with
  | none => simp [first, bind, Except.bind, pure, Except.pure] at ok
  | some loaded =>
    cases second : loaded.typeAtIndex 1 with
    | none => simp [first, second, bind, Except.bind, pure, Except.pure] at ok
    | some field =>
      simp only [first, second, pure, Except.pure, bind, Except.bind] at ok
      cases ok
      simp only [typeCreated, Opcode.type?, Operand.type?, first]
      split_ifs
      · simp [typeCreated, Opcode.type?, Operand.type?, LType.ne_ptr_self loaded]
      · rfl

/-- With `runOnModule`'s parameter and path, `getValues` on a function with an argument named
`r` emits code that LLVM's typing rules reject. -/
theorem getValues_ill_typed {args : List Argument} {projection : Projection}
    (ok : getValues instrumentedParameters args selectedFields = .ok projection)
    (named : ∃ arg ∈ args, arg.name = "r") :
    typeCreated (args.map (·.type)) [] projection.emitted = none := by
  obtain ⟨valueMap, mapped, folded⟩ := bind_eq_ok ok
  obtain ⟨entry, rest, rfl⟩ := List.exists_cons_of_ne_nil (getArgument_ne_nil mapped named)
  have path := getArgument_indexes mapped entry (List.mem_cons_self _ _)
  simp only [changeStructPointersToStructTypes, List.map_cons] at folded
  obtain ⟨p₁, chain, later⟩ := foldlM_cons_ok folded
  obtain ⟨more, grows⟩ : ∃ more, projection.emitted = p₁.emitted ++ more :=
    foldlM_ok_of_step (fun p => ∃ more, p.emitted = p₁.emitted ++ more)
      (fun _ _ _ ⟨more, before⟩ stepped => by
        obtain ⟨more', grows⟩ := projectFields_emitted stepped
        exact ⟨more ++ more', by rw [grows, before, List.append_assoc]⟩) _ ⟨[], by simp⟩ later
  have typed : typeCreated (args.map (·.type)) [] p₁.emitted = none := by
    revert chain
    split <;> intro chain <;> rw [path] at chain <;>
      exact projectFields_ill_typed _ _ _ chain
  rw [grows, typeCreated_append, typed]
  rfl

/-! ### In the instrumented module -/

theorem runBlock_loads_first (env : Env) (F : Function) (fn : Nat) (p : PassState × Locals)
    (j : Nat) (bb : BasicBlock) (live : (runBlock env F fn p j bb).1.fault = none) :
    ∃ bb' new, (runBlock env F fn p j bb).2.blocks = p.2.blocks ++ [bb'] ∧
      (runBlock env F fn p j bb).1.events.probes = p.1.events.probes ++ new ∧
      (∀ probe ∈ new, probe.function = fn ∧ probe.block = j) ∧
      (bb' = bb ∨ ∃ ip projection rest, bb.firstInsertionPt = some ip ∧
        getValues instrumentedParameters F.args selectedFields = .ok projection ∧
        bb' = insertAt ip (projection.emitted ++ rest) bb) := by
  obtain ⟨bb', new, appended, probes, tagged, step⟩ := runBlock_cases env F fn j bb live
  refine ⟨bb', new, appended, probes, tagged, ?_⟩
  rcases step with ⟨-, rfl, -⟩ | ⟨ip, projection, tail, located, projected, -, rfl⟩
  · exact .inl rfl
  · exact .inr ⟨ip, projection, _, located, projected, by rw [List.append_assoc]⟩

/-- Every instrumented block of a function with an argument `r` gets ill-typed `getValues`
code. -/
theorem runOnModule_getValues_ill_typed (env : Env) (file : TargetsFile) (M : Module) (c : UInt16)
    (complete : (runOnModule env file M c).fault = none) {fn : Nat} {F F' : Function}
    (original : M.functions[fn]? = some F)
    (rewritten : (runOnModule env file M c).functions[fn]? = some F')
    (named : ∃ arg ∈ F.args, arg.name = "r") {j : Nat} {bb bb' : BasicBlock}
    (block : F.blocks[j]? = some bb) (block' : F'.blocks[j]? = some bb') :
    bb' = bb ∨ ∃ ip loads rest, bb.firstInsertionPt = some ip ∧ bb' = insertAt ip (loads ++ rest) bb ∧
      typeCreated (F.args.map (·.type)) [] loads = none := by
  obtain ⟨-, -, related⟩ := runOnModule_related env
    (fun F bb bb' _ => bb' = bb ∨ ∃ ip projection rest, bb.firstInsertionPt = some ip ∧
      getValues instrumentedParameters F.args selectedFields = .ok projection ∧
      bb' = insertAt ip (projection.emitted ++ rest) bb) (runBlock_loads_first env) file M c complete
  obtain ⟨-, -, -, inserts⟩ := related fn F F' original rewritten
  rcases inserts j bb bb' block block' with same | ⟨ip, projection, rest, located, projected, rfl⟩
  · exact .inl same
  · exact .inr ⟨ip, projection.emitted, rest, located, rfl, getValues_ill_typed projected named⟩

/-- `f(struct S *r)` with `struct S { struct T t; }`: the pass gets through, ill-typed. -/
theorem runOnModule_getValues_ill_typed_nested_struct :
    let env : Env := ⟨fun _ => none, fun _ => 0, false, 100, 65536, fun _ => none, fun _ => none⟩
    let file : TargetsFile := .parsed "targets.json" (.array [.object [("path", .string "/src/f.c"),
      ("targets_block", .array [.numberInteger 3]), ("targets_const", .object [])]])
    let r : Argument := ⟨"r", .ptr (.struct (.cons (.struct (.cons (.int 32) (.cons (.int 32) .nil))) .nil))⟩
    let bb : BasicBlock := ⟨[⟨.other "ret", some ⟨3, "/src/f.c", "", none⟩⟩]⟩
    let F : Function := ⟨"f", [r], [bb]⟩
    let M : Module := ⟨[F]⟩
    let out := runOnModule env file M 0
    out.fault = none ∧ (∃ arg ∈ F.args, arg.name = "r") ∧
      ∃ F' bb', out.functions[0]? = some F' ∧ F'.blocks[0]? = some bb' ∧
        bb'.instructions.length = 6 ∧
        (bb' = bb ∨ ∃ ip loads rest, bb.firstInsertionPt = some ip ∧
          bb' = insertAt ip (loads ++ rest) bb ∧ typeCreated (F.args.map (·.type)) [] loads = none) := by
  intro env file r bb F M out
  have complete : out.fault = none := by decide
  have named : ∃ arg ∈ F.args, arg.name = "r" := ⟨r, List.mem_singleton_self _, rfl⟩
  have computed : (out.functions[0]?.bind fun F' => F'.blocks[0]?).map (·.instructions.length) =
      some 6 := by decide
  cases rewritten : out.functions[0]? with
  | none => simp [rewritten] at computed
  | some F' =>
    cases block' : F'.blocks[0]? with
    | none => simp [rewritten, block'] at computed
    | some bb' =>
      simp only [rewritten, block', Option.some_bind, Option.map_some', Option.some.injEq] at computed
      exact ⟨complete, named, F', bb', rfl, block', computed,
        runOnModule_getValues_ill_typed env file M 0 complete rfl rewritten named rfl block'⟩

/-! ### The constant event's call -/

/-- `trigger_const_event` is declared with an `i8*` parameter, and the pass passes it the
`[n x i8]*` `CreateGlobalString` returns. -/
theorem const_opcode_ill_typed (argTypes types : List LType) (evtID : UInt16) (name : String) :
    (ProbeCall.const evtID name).opcode.type? argTypes types = none := by
  simp [ProbeCall.opcode, Opcode.type?, helperParams, Operand.type?]

theorem typeCreated_of_mem {argTypes : List LType} {op : Opcode}
    (illTyped : ∀ types, op.type? argTypes types = none) :
    ∀ {ops : List Opcode} (types : List LType), op ∈ ops → typeCreated argTypes types ops = none
  | [], _, mem => absurd mem (List.not_mem_nil _)
  | op' :: rest, types, mem => by
    rcases List.mem_cons.mp mem with rfl | later
    · simp [typeCreated, illTyped]
    · simp only [typeCreated]
      cases op'.type? argTypes types with
      | none => rfl
      | some t => exact typeCreated_of_mem illTyped _ later

theorem runBlock_const_ill_typed (env : Env) (F : Function) (fn : Nat) (p : PassState × Locals)
    (j : Nat) (bb : BasicBlock) (live : (runBlock env F fn p j bb).1.fault = none) :
    ∃ bb' new, (runBlock env F fn p j bb).2.blocks = p.2.blocks ++ [bb'] ∧
      (runBlock env F fn p j bb).1.events.probes = p.1.events.probes ++ new ∧
      (∀ probe ∈ new, probe.function = fn ∧ probe.block = j) ∧
      ((∃ evtID name, ProbeCall.const evtID name ∈ new.map (·.call)) →
        ∃ ip created, bb.firstInsertionPt = some ip ∧ bb' = insertAt ip created bb ∧
          typeCreated (F.args.map (·.type)) [] created = none) := by
  obtain ⟨bb', new, appended, probes, tagged, step⟩ := runBlock_cases env F fn j bb live
  refine ⟨bb', new, appended, probes, tagged, fun ⟨evtID, name, const⟩ => ?_⟩
  rcases step with ⟨-, -, rfl⟩ | ⟨ip, projection, tail, located, -, -, rfl⟩
  · cases const
  · refine ⟨ip, _, located, rfl, ?_⟩
    have called : (ProbeCall.const evtID name).opcode ∈ new.map (·.call.opcode) ++ tail := by
      have mapped := List.mem_map_of_mem ProbeCall.opcode const
      rw [List.map_map] at mapped
      exact List.mem_append_left _ mapped
    rw [List.append_assoc, typeCreated_append]
    cases typeCreated (F.args.map (·.type)) [] projection.emitted with
    | none => rfl
    | some types => exact typeCreated_of_mem (const_opcode_ill_typed _ · _ _) types called

end Abstraktor.Pass
