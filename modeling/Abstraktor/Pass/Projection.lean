import Abstraktor.Pass.RunOnModule

/-!
# What `getArgument` and `getValues` read, and where they stop the pass
-/

namespace Abstraktor.Pass
open Ir

theorem foldlM_ok_mem {α β ε : Type} {f : β → α → Except ε β} {l : List α} {init result : β}
    (ok : List.foldlM f init l = .ok result) : ∀ x ∈ l, ∃ acc next, f acc x = .ok next := by
  induction l generalizing init with
  | nil => simp
  | cons y rest ih =>
    simp only [List.foldlM_cons] at ok
    cases step : f init y with
    | error e => simp [step, bind, Except.bind] at ok
    | ok next =>
      simp only [step, bind, Except.bind] at ok
      intro x mem
      rcases List.mem_cons.mp mem with rfl | mem
      · exact ⟨init, next, step⟩
      · exact ih ok x mem

theorem foldlM_error_mem {α β ε : Type} {f : β → α → Except ε β} {l : List α} {init : β} {e : ε}
    (failed : List.foldlM f init l = .error e) : ∃ acc, ∃ x ∈ l, f acc x = .error e := by
  induction l generalizing init with
  | nil => cases failed
  | cons y rest ih =>
    simp only [List.foldlM_cons] at failed
    cases step : f init y with
    | error e' =>
      simp only [step, bind, Except.bind, Except.error.injEq] at failed
      exact ⟨init, y, List.mem_cons_self _ _, failed ▸ step⟩
    | ok next =>
      simp only [step, bind, Except.bind] at failed
      obtain ⟨acc, x, mem, stepped⟩ := ih failed
      exact ⟨acc, x, List.mem_cons_of_mem _ mem, stepped⟩

/-! ### `getArgument` -/

theorem getArgument_positions_in_range {params : List String} {args : List Argument}
    {defaultIndices : List (List Nat)} {valueMap : ValueMap}
    (ok : getArgument params args defaultIndices = .ok valueMap) {k : Nat} {arg : Argument}
    (at_k : args.get? k = some arg) (named : arg.name ∈ params) : k < defaultIndices.length := by
  obtain ⟨acc, next, step⟩ := foldlM_ok_mem ok (k, arg)
    (List.mk_mem_enum_iff_getElem?.mpr (by rwa [← List.get?_eq_getElem?]))
  obtain ⟨acc', next', inner⟩ := foldlM_ok_mem step arg.name named
  by_contra beyond
  dsimp only at inner
  rw [if_pos rfl, List.get?_eq_none.mpr (Nat.le_of_not_lt beyond)] at inner
  cases inner

theorem getArgument_error {params : List String} {args : List Argument}
    {defaultIndices : List (List Nat)} {e : Fault}
    (failed : getArgument params args defaultIndices = .error e) : e = .outOfBounds := by
  obtain ⟨acc, entry, -, outer⟩ := foldlM_error_mem failed
  obtain ⟨acc', param, -, inner⟩ := foldlM_error_mem outer
  split_ifs at inner
  · split at inner
    · cases inner
    · cases inner; rfl
  · cases inner

/-- A named argument at a position past the end of `default_indices` makes `getArgument` throw
`std::out_of_range`. -/
theorem getArgument_past_default_indices {params : List String} {args : List Argument}
    {defaultIndices : List (List Nat)} {k : Nat} {arg : Argument} (at_k : args.get? k = some arg)
    (named : arg.name ∈ params) (beyond : defaultIndices.length ≤ k) :
    getArgument params args defaultIndices = .error .outOfBounds := by
  cases mapped : getArgument params args defaultIndices with
  | error e => rw [getArgument_error mapped]
  | ok _ => exact absurd (getArgument_positions_in_range mapped at_k named) (Nat.not_lt.mpr beyond)

/-- `r` second in the argument list, with one path in `vec_selected_fields`: `getArgument`
reads `default_indices[1]`. -/
theorem getArgument_reads_past_default_indices :
    getArgument instrumentedParameters
        [⟨"a", .int 32⟩, ⟨"r", .ptr (.struct (.cons (.int 32) (.cons (.int 32) .nil)))⟩]
        selectedFields = .error .outOfBounds :=
  @getArgument_past_default_indices _ _ _ 1 _ rfl (List.mem_singleton_self _) (Nat.le_refl 1)

/-! ### `getValues` -/

/-- After a step through a pointer field the next GEP's source element type is that pointer
type, which no index steps into. -/
theorem projectFields_through_pointer (p : Projection) (value : Operand) {fields : LTypes}
    {first : Nat} {pointee : LType} (pointer : fields.get? first = some (.ptr pointee))
    (second : Nat) (rest : List Nat) :
    projectFields p value (.struct fields) (first :: second :: rest) = .error .gepIndex := by
  simp [projectFields, createGEP, LType.typeAtIndex, pointer, bind, Except.bind, pure,
    Except.pure, throw, throwThe, MonadExceptOf.throw]

theorem projectFields_error {p : Projection} {value : Operand} {type : LType} {path : List Nat}
    {e : Fault} (failed : projectFields p value type path = .error e) : e = .gepIndex := by
  induction path generalizing p value type with
  | nil => cases failed
  | cons field rest ih =>
    simp only [projectFields, createGEP] at failed
    cases indexed : type.typeAtIndex field with
    | none =>
      simp only [indexed, throw, throwThe, MonadExceptOf.throw, bind, Except.bind,
        Except.error.injEq] at failed
      exact failed.symm
    | some _ =>
      simp only [indexed, pure, Except.pure, bind, Except.bind] at failed
      exact ih failed

/-- An argument matched as a pointer to a struct, with a path whose first field is a pointer:
`getValues` stops the pass, whatever the path goes on to. -/
theorem getValues_stops_on_pointer_field {vec : List String} {args : List Argument}
    {vecSelectedFields : List (List Nat)} {valueMap : ValueMap}
    (mapped : getArgument vec args vecSelectedFields = .ok valueMap) {k : Nat} {fields : LTypes}
    {first second : Nat} {rest : List Nat} {pointee : LType}
    (entry : (k, ⟨.ptr (.struct fields), first :: second :: rest⟩) ∈ valueMap)
    (pointer : fields.get? first = some (.ptr pointee)) :
    getValues vec args vecSelectedFields = .error .gepIndex := by
  simp only [getValues, mapped, bind, Except.bind]
  cases folded : List.foldlM (fun p entry => projectFields p (.arg entry.1) entry.2.type entry.2.indexes)
      ⟨[], []⟩ (changeStructPointersToStructTypes valueMap) with
  | error e =>
    obtain ⟨_, _, -, failed⟩ := foldlM_error_mem folded
    rw [projectFields_error failed]
  | ok _ =>
    have normalised : (k, (⟨.struct fields, first :: second :: rest⟩ : ValueInfo)) ∈
        changeStructPointersToStructTypes valueMap :=
      List.mem_map.mpr ⟨_, entry, rfl⟩
    obtain ⟨acc, next, step⟩ := foldlM_ok_mem folded _ normalised
    rw [projectFields_through_pointer acc _ pointer] at step
    cases step

/-- `r` a pointer to a struct whose first field points to another struct: the second step of
`vec_selected_fields`'s path `{0, 1}` has no type to step into. -/
theorem getValues_stops_at_second_field :
    getValues instrumentedParameters
        [⟨"r", .ptr (.struct (.cons (.ptr (.struct (.cons (.int 32) (.cons (.int 32) .nil)))) .nil))⟩]
        selectedFields = .error .gepIndex :=
  getValues_stops_on_pointer_field rfl (List.mem_singleton_self _) rfl

/-! ### In the block loop -/

/-- `getValues` runs in every instrumented block, before its events: when it fails for the
function, the first block the loop instruments stops the run with its fault. -/
theorem runBlock_stops_on_getValues (env : Env) (F : Function) (fn j : Nat) (bb : BasicBlock)
    {p : PassState × Locals} (live : p.1.fault = none)
    (selected : (selectBlock env (scanBlock env.realpath p.1.events.targets p.2 bb) p.1.draws).1)
    {ip : Nat} (insertion : bb.firstInsertionPt = some ip) {e : Fault}
    (fails : getValues instrumentedParameters F.args selectedFields = .error e) :
    (runBlock env F fn p j bb).1.fault = some e := by
  simp [runBlock, live, selected, instrumentBlock, insertion, fails]

theorem runBlocks_of_fault (env : Env) (F : Function) (fn : Nat) {p : PassState × Locals}
    (stopped : p.1.fault.isSome) : ∀ (blocks : List BasicBlock) (j : Nat),
      runBlocks env F fn j blocks p = p
  | [], _ => rfl
  | bb :: rest, j => by
    rw [runBlocks, show runBlock env F fn p j bb = p by simp [runBlock, stopped]]
    exact runBlocks_of_fault env F fn stopped rest (j + 1)

theorem runFunction_stops_on_getValues (env : Env) {s : PassState} (fn : Nat) {F : Function}
    {bb : BasicBlock} {rest : List BasicBlock} (blocks : F.blocks = bb :: rest) (live : s.fault = none)
    (selected : (selectBlock env (scanBlock env.realpath s.events.targets Locals.init bb) s.draws).1)
    {ip : Nat} (insertion : bb.firstInsertionPt = some ip) {e : Fault}
    (fails : getValues instrumentedParameters F.args selectedFields = .error e) :
    (runFunction env s fn F).fault = some e := by
  have first := @runBlock_stops_on_getValues env F fn 0 bb (s, Locals.init) live selected _
    insertion _ fails
  have stopped : (runBlock env F fn (s, Locals.init) 0 bb).1.fault.isSome := by simp [first]
  simp [runFunction, blocks, runBlocks, runBlocks_of_fault env F fn stopped, functionEvent, stopped,
    first]

/-- `f(struct S *r)` with `struct S { struct T *p; }` and a block target at its one instruction:
`runOnModule` stops in `getValues` and produces no module. -/
theorem runOnModule_stops_at_second_field :
    let env : Env := ⟨fun _ => none, fun _ => 0, false, 0, 65536, fun _ => none, fun _ => none⟩
    let targets : Json := .array [.object [("path", .string "/src/f.c"),
      ("targets_block", .array [.numberInteger 3]), ("targets_const", .object [])]]
    let r : Argument :=
      ⟨"r", .ptr (.struct (.cons (.ptr (.struct (.cons (.int 32) (.cons (.int 32) .nil)))) .nil))⟩
    let M : Module := ⟨[⟨"f", [r], [⟨[⟨.other "ret", some ⟨3, "/src/f.c", "", none⟩⟩]⟩]⟩]⟩
    (runOnModule env (.parsed "targets.json" targets) M 0).fault = some .gepIndex := by
  intro env targets r M
  obtain ⟨loaded, ok, selected⟩ : ∃ loaded, loadInstrTargets (.parsed "targets.json" targets) = .ok loaded ∧
      (selectBlock env (scanBlock env.realpath loaded.1 Locals.init
        ⟨[⟨.other "ret", some ⟨3, "/src/f.c", "", none⟩⟩]⟩) 0).1 := ⟨_, rfl, by decide⟩
  have fails : getValues instrumentedParameters [r] selectedFields = .error .gepIndex :=
    getValues_stops_on_pointer_field rfl (List.mem_singleton_self _) rfl
  simp only [runOnModule, ok]
  exact @runFunction_stops_on_getValues env (PassState.init loaded.1 0) 0 M.functions[0] _ [] rfl rfl
    selected 0 rfl _ fails

end Abstraktor.Pass
