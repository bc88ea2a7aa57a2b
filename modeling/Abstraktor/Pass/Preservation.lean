import Abstraktor.Pass.Paths
import Abstraktor.Pass.Placement

/-!
# What the instrumented program computes

One interpreter runs the module before and after the pass, the meaning of the program's own
instructions, calls included, a parameter `sem`; every run records the blocks it enters.
-/

namespace Abstraktor.Ir

/-- A module as the compiler hands it to the pass: none of its instructions is of a kind the
pass creates. -/
def Module.OwnInstructions (M : Module) : Prop :=
  ∀ F ∈ M.functions, ∀ bb ∈ F.blocks, ∀ i ∈ bb.instructions, i.opcode.isCreated = false

instance : DecidablePred Module.OwnInstructions := fun M =>
  inferInstanceAs (Decidable (∀ F ∈ M.functions, ∀ bb ∈ F.blocks, ∀ i ∈ bb.instructions,
    i.opcode.isCreated = false))

theorem Opcode.isCreated_of_isLeading {op : Opcode} (leading : op.isLeading) :
    op.isCreated = false := by
  cases op <;> first | rfl | cases leading

end Abstraktor.Ir

namespace Abstraktor.Pass
open Ir

theorem getElem?_of_length {α β : Type} {xs : List α} {ys : List β} (length : ys.length = xs.length)
    {j : Nat} {y : β} (found : ys[j]? = some y) : ∃ x, xs[j]? = some x :=
  let ⟨bound, _⟩ := List.getElem?_eq_some_iff.mp found
  ⟨_, List.getElem?_eq_getElem (length ▸ bound)⟩

/-! ### One interpreter for both programs -/

/-- An own instruction moves the program to state `p`, or calls function `fn` in state `p`
along `path` and goes on in the state the call ends in. -/
inductive Effect (P : Type) where
  | next (p : P)
  | call (fn : Nat) (args : List Value) (path : List Nat) (p : P)

def Effect.next? {P : Type} : Effect P → Option P
  | .next p => some p
  | .call .. => none

/-- What the program's own instructions do (`none` where the program stops) and the memory
the created loads read; PHI nodes and pads call nothing. -/
structure Semantics (P : Type) where
  step : Opcode → P → Option (Effect P)
  memory : P → Memory
  leading_next : ∀ {op p e}, op.isLeading → step op p = some e → ∃ p', e = .next p'

/-- A block a run entered: the function, the block, the function's arguments and the program's
state on entry. -/
structure Entry (P : Type) where
  function : Nat
  block : Nat
  args : List Value
  state : P
  deriving DecidableEq

/-- A run so far: the program's state, the machine the created instructions act on, and the
blocks entered, in order. -/
structure Run (P : Type) where
  state : P
  machine : Machine
  entries : List (Entry P)

section
variable {P : Type} (sem : Semantics P)
  (call : Nat → List Value → List Nat → Run P → Option (Run P)) (args : List Value)

/-- A block's instructions in order: own ones by `sem` and `call`, created ones by
`execCreated`. -/
def execInstrs : Run P × List Value → List Instruction → Option (Run P × List Value)
  | x, [] => some x
  | (r, values), i :: rest =>
    if i.opcode.isCreated then
      (execCreated (sem.memory r.state) args r.machine values i.opcode).bind fun y =>
        execInstrs ({ r with machine := y.1 }, values ++ [y.2]) rest
    else (sem.step i.opcode r.state).bind fun
      | .next p => execInstrs ({ r with state := p }, values) rest
      | .call fn args' path p =>
        (call fn args' path { r with state := p }).bind fun r' => execInstrs (r', values) rest

/-- The blocks of function `fn` at the positions `path`, each recorded on entry. -/
def execPath (fn : Nat) (blocks : List BasicBlock) : Run P → List Nat → Option (Run P)
  | r, [] => some r
  | r, j :: path => blocks[j]?.bind fun bb =>
    (execInstrs sem call args ({ r with entries := r.entries ++ [⟨fn, j, args, r.state⟩] }, [])
      bb.instructions).bind fun x => execPath fn blocks x.1 path

def runLeading (p : P) (instrs : List Instruction) : Option P :=
  instrs.foldlM (fun p i => (sem.step i.opcode p).bind Effect.next?) p

end

/-- A call of function `fn` of `functions` with `args` along `path`, nested calls at most
`fuel` deep. -/
def execCall {P : Type} (sem : Semantics P) (functions : List Function) :
    Nat → Nat → List Value → List Nat → Run P → Option (Run P)
  | 0, _, _, _, _ => none
  | fuel + 1, fn, args, path, r => functions[fn]?.bind fun F =>
    execPath sem (execCall sem functions fuel) args fn F.blocks r path

section
variable {P : Type} (sem : Semantics P)
  (call : Nat → List Value → List Nat → Run P → Option (Run P)) (args : List Value)

theorem execInstrs_append (xs ys : List Instruction) (x : Run P × List Value) :
    execInstrs sem call args x (xs ++ ys) =
      (execInstrs sem call args x xs).bind (execInstrs sem call args · ys) := by
  induction xs generalizing x with
  | nil => rfl
  | cons i xs ih =>
    obtain ⟨r, values⟩ := x
    simp only [List.cons_append, execInstrs]
    split
    · simp only [List.append_eq, ih, Option.bind_assoc]
    · cases sem.step i.opcode r.state with
      | none => rfl
      | some e => cases e <;> simp only [Option.some_bind, List.append_eq, ih, Option.bind_assoc]

theorem execInstrs_created {created : List Opcode} (creates : ∀ op ∈ created, op.isCreated)
    (loc : Option DILocation) (r : Run P) (values : List Value) :
    execInstrs sem call args (r, values) (created.map fun op => ⟨op, loc⟩) =
      (execOps (sem.memory r.state) args (r.machine, values) created).map
        fun y => ({ r with machine := y.1 }, y.2) := by
  induction created generalizing r values with
  | nil => rfl
  | cons op rest ih =>
    simp only [List.map_cons, execInstrs, creates op (List.mem_cons_self _ _), ↓reduceIte,
      execOps_cons]
    cases execCreated (sem.memory r.state) args r.machine values op with
    | none => rfl
    | some y => exact ih (fun op mem => creates op (List.mem_cons_of_mem _ mem)) _ _

theorem execInstrs_leading {instrs : List Instruction}
    (leading : ∀ i ∈ instrs, i.opcode.isLeading) (r : Run P) (values : List Value) :
    execInstrs sem call args (r, values) instrs =
      (runLeading sem r.state instrs).map fun p => ({ r with state := p }, values) := by
  induction instrs generalizing r with
  | nil => rfl
  | cons i rest ih =>
    have first := leading i (List.mem_cons_self _ _)
    simp only [execInstrs, runLeading, List.foldlM_cons, Opcode.isCreated_of_isLeading first,
      Bool.false_eq_true, ↓reduceIte]
    cases stepped : sem.step i.opcode r.state with
    | none => rfl
    | some e =>
      obtain ⟨p, rfl⟩ := sem.leading_next first stepped
      exact ih (fun i mem => leading i (List.mem_cons_of_mem _ mem)) _

theorem execInstrs_take_drop {instrs : List Instruction} {ip : Nat}
    (leading : ∀ i ∈ instrs.take ip, i.opcode.isLeading) (r : Run P) (values : List Value) :
    execInstrs sem call args (r, values) instrs = (runLeading sem r.state (instrs.take ip)).bind
      fun p₁ => execInstrs sem call args ({ r with state := p₁ }, values) (instrs.drop ip) := by
  conv_lhs => rw [← List.take_append_drop ip instrs]
  rw [execInstrs_append, execInstrs_leading sem call args leading]
  cases runLeading sem r.state (instrs.take ip) <;> rfl

/-- A block with code inserted at its first insertion point runs the PHI nodes and pad before
it, the inserted code, then the rest of the block. -/
theorem execInstrs_insertAt {bb : BasicBlock} {ip : Nat} (located : bb.firstInsertionPt = some ip)
    {created : List Opcode} (creates : ∀ op ∈ created, op.isCreated) (r : Run P) :
    execInstrs sem call args (r, []) (insertAt ip created bb).instructions =
      (runLeading sem r.state (bb.instructions.take ip)).bind fun p₁ =>
        (execOps (sem.memory p₁) args (r.machine, []) created).bind fun y =>
          execInstrs sem call args ({ r with state := p₁, machine := y.1 }, y.2)
            (bb.instructions.drop ip) := by
  obtain ⟨loc, instructions⟩ := insertAt_instructions ip created bb
  rw [instructions, execInstrs_append, execInstrs_append,
    execInstrs_leading sem call args (BasicBlock.firstInsertionPt_leading located)]
  cases runLeading sem r.state (bb.instructions.take ip) with
  | none => rfl
  | some p₁ =>
    simp only [Option.map_some', Option.some_bind, execInstrs_created sem call args creates]
    cases execOps (sem.memory p₁) args (r.machine, []) created <;> rfl

/-! ### Entries -/

def Grows : Prop := ∀ fn args path (r r' : Run P), call fn args path r = some r' →
  r.entries <+: r'.entries

theorem execInstrs_grows (grows : Grows call) {instrs : List Instruction} :
    ∀ {x x' : Run P × List Value}, execInstrs sem call args x instrs = some x' →
      x.1.entries <+: x'.1.entries := by
  induction instrs with
  | nil => intro x x' ran; cases ran; exact List.prefix_refl _
  | cons i rest ih =>
    intro ⟨r, values⟩ x' ran
    simp only [execInstrs] at ran
    split at ran
    · obtain ⟨y, -, ran⟩ := Option.bind_eq_some.mp ran
      exact (ih ran :)
    · obtain ⟨e, -, ran⟩ := Option.bind_eq_some.mp ran
      cases e with
      | next p => exact (ih ran :)
      | call fn args' path p =>
        obtain ⟨r₁, called, ran⟩ := Option.bind_eq_some.mp ran
        exact (grows _ _ _ _ _ called).trans (ih ran)

theorem execPath_grows (grows : Grows call) (fn : Nat) (blocks : List BasicBlock)
    (path : List Nat) : ∀ {r r' : Run P}, execPath sem call args fn blocks r path = some r' →
      r.entries <+: r'.entries := by
  induction path with
  | nil => intro r r' ran; cases ran; exact List.prefix_refl _
  | cons j path ih =>
    intro r r' ran
    obtain ⟨bb, -, ran⟩ := Option.bind_eq_some.mp ran
    obtain ⟨x, block, rest⟩ := Option.bind_eq_some.mp ran
    exact (List.prefix_append _ _).trans ((execInstrs_grows sem call args grows block).trans (ih rest))

end

theorem execCall_grows {P : Type} (sem : Semantics P) (functions : List Function) (fuel : Nat) :
    Grows (execCall sem functions fuel) := by
  induction fuel with
  | zero => intro _ _ _ _ _ ran; cases ran
  | succ fuel ih =>
    intro fn args path r r' ran
    obtain ⟨F, -, ran⟩ := Option.bind_eq_some.mp ran
    exact execPath_grows sem _ args ih fn F.blocks path ran

/-! ### The instrumented program runs as the original -/

section
variable {P : Type} (sem : Semantics P) (args : List Value) (calls : Nat → Nat → List ProbeCall)

/-- `r'` is `r` after more blocks were entered, `new`, the runtime having received the calls
recorded for them, in order. -/
def Tracks (r r' : Run P) : Prop :=
  ∃ new, r'.entries = r.entries ++ new ∧ r'.machine.received = r.machine.received ++
    (new.flatMap fun e => calls e.function e.block).map ProbeCall.report

theorem Tracks.refl (r : Run P) : Tracks calls r r := ⟨[], by simp, by simp⟩

theorem Tracks.trans {r₁ r₂ r₃ : Run P} : Tracks calls r₁ r₂ → Tracks calls r₂ r₃ →
    Tracks calls r₁ r₃
  | ⟨new, entries, received⟩, ⟨new', entries', received'⟩ =>
    ⟨new ++ new', by rw [entries', entries, List.append_assoc], by
      rw [received', received, List.flatMap_append, List.map_append, List.append_assoc]⟩

/-- Each call `call'` runs, `call` runs from any machine to the same program state through the
same blocks, and the runtime of `call'` receives their calls. -/
def Simulates (call' call : Nat → List Value → List Nat → Run P → Option (Run P)) : Prop :=
  ∀ fn args path r r', call' fn args path r = some r' →
    Tracks calls r r' ∧ ∀ t, call fn args path { r with machine := t } = some { r' with machine := t }

variable {call' call : Nat → List Value → List Nat → Run P → Option (Run P)}
  (simulates : Simulates calls call' call)
include simulates

theorem execInstrs_own_forward {instrs : List Instruction}
    (own : ∀ i ∈ instrs, i.opcode.isCreated = false) {r r' : Run P} {values values' : List Value}
    (ran : execInstrs sem call' args (r, values) instrs = some (r', values')) :
    values' = values ∧ Tracks calls r r' ∧ ∀ t vs, execInstrs sem call args
      ({ r with machine := t }, vs) instrs = some ({ r' with machine := t }, vs) := by
  induction instrs generalizing r with
  | nil => cases ran; exact ⟨rfl, .refl calls _, fun _ _ => rfl⟩
  | cons i rest ih =>
    have others := fun i mem => own i (List.mem_cons_of_mem _ mem)
    simp only [execInstrs, own i (List.mem_cons_self _ _), Bool.false_eq_true, ↓reduceIte] at ran ⊢
    obtain ⟨e, stepped, ran⟩ := Option.bind_eq_some.mp ran
    cases e with
    | next p =>
      obtain ⟨same, tracks, later⟩ := ih others ran
      exact ⟨same, tracks, fun t vs => by rw [stepped]; exact later t vs⟩
    | call fn args' path p =>
      obtain ⟨r₁, called, ran⟩ := Option.bind_eq_some.mp ran
      obtain ⟨tracks, original⟩ := simulates fn args' path _ _ called
      obtain ⟨same, tracks', later⟩ := ih others ran
      refine ⟨same, tracks.trans calls tracks', fun t vs => ?_⟩
      rw [stepped, Option.some_bind]
      exact Option.bind_eq_some.mpr ⟨_, original t, later t vs⟩

/-- What the rewritten block runs to, the original runs to from any machine, and the runtime
receives the block's calls before those of the blocks entered on the way. -/
theorem execInstrs_forward {env : Env} {F : Function} {bb bb' : BasicBlock} {cs : List ProbeCall}
    (own : ∀ i ∈ bb.instructions, i.opcode.isCreated = false) (inserts : InsertsCode env F bb bb' cs)
    {r r' : Run P} {values : List Value}
    (ran : execInstrs sem call' args (r, []) bb'.instructions = some (r', values)) :
    ∃ new, r'.entries = r.entries ++ new ∧ r'.machine.received = r.machine.received ++
      cs.map ProbeCall.report ++ (new.flatMap fun e => calls e.function e.block).map ProbeCall.report ∧
      ∀ t, execInstrs sem call args ({ r with machine := t }, []) bb.instructions =
        some ({ r' with machine := t }, []) := by
  rcases inserts with ⟨rfl, rfl, -⟩ | ⟨ip, projection, created, update, located, -, rfl, creates, runs, -⟩
  · obtain ⟨rfl, ⟨new, entries, received⟩, original⟩ :=
      execInstrs_own_forward sem args calls simulates own ran
    exact ⟨new, entries, by rw [received, List.map_nil, List.append_nil], fun t => original t []⟩
  · rw [execInstrs_insertAt sem call' args located creates] at ran
    obtain ⟨p₁, before, ran⟩ := Option.bind_eq_some.mp ran
    obtain ⟨y, inserted, ran⟩ := Option.bind_eq_some.mp ran
    obtain ⟨-, ⟨new, entries, received⟩, original⟩ := execInstrs_own_forward sem args calls simulates
      (fun i mem => own i (List.mem_of_mem_drop mem)) ran
    refine ⟨new, entries, by rw [received, runs.machine inserted], fun t => ?_⟩
    rw [execInstrs_take_drop sem call args (BasicBlock.firstInsertionPt_leading located), before,
      Option.some_bind]
    exact original t []

variable {env : Env} {F F' : Function} {fn : Nat}
  (own : ∀ bb ∈ F.blocks, ∀ i ∈ bb.instructions, i.opcode.isCreated = false)
  (length : F'.blocks.length = F.blocks.length)
  (inserts : ∀ j bb bb', F.blocks[j]? = some bb → F'.blocks[j]? = some bb' →
    InsertsCode env F bb bb' (calls fn j))
include own length inserts

theorem execPath_forward (path : List Nat) {r r' : Run P}
    (ran : execPath sem call' args fn F'.blocks r path = some r') :
    Tracks calls r r' ∧ ∀ t, execPath sem call args fn F.blocks { r with machine := t } path =
      some { r' with machine := t } := by
  induction path generalizing r with
  | nil => cases ran; exact ⟨.refl calls _, fun _ => rfl⟩
  | cons j path ih =>
    obtain ⟨bb', rewritten, ran⟩ := Option.bind_eq_some.mp ran
    obtain ⟨x, block, rest⟩ := Option.bind_eq_some.mp ran
    obtain ⟨bb, original⟩ := getElem?_of_length length rewritten
    obtain ⟨new, entries, received, block₀⟩ := execInstrs_forward sem args calls simulates
      (own bb (List.getElem?_mem original)) (inserts j bb bb' original rewritten) block
    obtain ⟨tracks, rest₀⟩ := ih rest
    refine ⟨Tracks.trans calls ⟨⟨fn, j, args, r.state⟩ :: new, ?_, ?_⟩ tracks, fun t =>
      Option.bind_eq_some.mpr ⟨bb, original, Option.bind_eq_some.mpr ⟨_, block₀ t, rest₀ t⟩⟩⟩
    · rw [entries, List.append_assoc, List.singleton_append]
    · rw [received, List.flatMap_cons, List.map_append, List.append_assoc]

end

section
variable {P : Type} (sem : Semantics P) {env : Env} {M : Module} {functions' : List Function}
  {calls : Nat → Nat → List ProbeCall} (own : M.OwnInstructions)
  (length : functions'.length = M.functions.length)
  (related : ∀ fn F F', M.functions[fn]? = some F → functions'[fn]? = some F' →
    F'.blocks.length = F.blocks.length ∧ ∀ j bb bb', F.blocks[j]? = some bb →
      F'.blocks[j]? = some bb' → InsertsCode env F bb bb' (calls fn j))
include own length related

theorem execCall_forward (fuel : Nat) :
    Simulates calls (execCall sem functions' fuel) (execCall sem M.functions fuel) := by
  induction fuel with
  | zero => intro _ _ _ _ _ ran; cases ran
  | succ fuel ih =>
    intro fn args path r r' ran
    obtain ⟨F', rewritten, ran⟩ := Option.bind_eq_some.mp ran
    obtain ⟨F, original⟩ := getElem?_of_length length rewritten
    obtain ⟨blocks, inserts⟩ := related fn F F' original rewritten
    obtain ⟨tracks, orig⟩ := execPath_forward sem args calls ih (own F (List.getElem?_mem original))
      blocks inserts path ran
    exact ⟨tracks, fun t => Option.bind_eq_some.mpr ⟨F, original, orig t⟩⟩

end

/-! ### The original program runs as the instrumented one, or an inserted load is undefined -/

section
variable {P : Type} (sem : Semantics P) (args : List Value)

/-- Entering `bb` in state `p`, the loads `getValues` inserted for `F` are undefined. -/
def LoadsStop (F : Function) (bb : BasicBlock) (p : P) : Prop :=
  ∃ k p₁ projection, bb.firstInsertionPt = some k ∧ runLeading sem p (bb.instructions.take k) = some p₁ ∧
    getValues instrumentedParameters F.args selectedFields = .ok projection ∧
    ∀ s, execOps (sem.memory p₁) args (s, []) projection.emitted = none

/-- The block of `M` an entry records has undefined inserted loads in the state entered. -/
def StopsIn (M : Module) (e : Entry P) : Prop :=
  ∃ F bb, M.functions[e.function]? = some F ∧ F.blocks[e.block]? = some bb ∧
    LoadsStop sem e.args F bb e.state

/-- Each call `call` runs from some machine, `call'` runs from `r` to the same program state
through the same blocks, unless an entry on the way `stops`. -/
def Recovers (stops : Entry P → Prop) (call' call : Nat → List Value → List Nat → Run P → Option (Run P)) :
    Prop :=
  ∀ fn args path r t r₁, call fn args path { r with machine := t } = some r₁ →
    (∃ m, call' fn args path r = some { r₁ with machine := m }) ∨ ∃ e ∈ r₁.entries, stops e

variable {stops : Entry P → Prop} {call' call : Nat → List Value → List Nat → Run P → Option (Run P)}
  (recovers : Recovers stops call' call) (grows : Grows call)
include recovers grows

theorem execInstrs_own_backward {instrs : List Instruction}
    (own : ∀ i ∈ instrs, i.opcode.isCreated = false) (r : Run P) (t : Machine)
    {r₁ : Run P} {values values₁ : List Value}
    (ran : execInstrs sem call args ({ r with machine := t }, values) instrs = some (r₁, values₁))
    (vs : List Value) :
    (∃ m, execInstrs sem call' args (r, vs) instrs = some ({ r₁ with machine := m }, vs)) ∨
      ∃ e ∈ r₁.entries, stops e := by
  induction instrs generalizing r t with
  | nil => cases ran; exact .inl ⟨r.machine, rfl⟩
  | cons i rest ih =>
    have others := fun i mem => own i (List.mem_cons_of_mem _ mem)
    simp only [execInstrs, own i (List.mem_cons_self _ _), Bool.false_eq_true, ↓reduceIte] at ran ⊢
    obtain ⟨e, stepped, ran⟩ := Option.bind_eq_some.mp ran
    rw [stepped, Option.some_bind]
    cases e with
    | next p => exact ih others { r with state := p } t ran
    | call fn args' path p =>
      obtain ⟨r₂, called, ran⟩ := Option.bind_eq_some.mp ran
      rcases recovers fn args' path { r with state := p } t r₂ called with ⟨m, called'⟩ | ⟨e, mem, stop⟩
      · rcases ih others { r₂ with machine := m } r₂.machine ran with ⟨m', later⟩ | stop
        · exact .inl ⟨m', Option.bind_eq_some.mpr ⟨_, called', later⟩⟩
        · exact .inr stop
      · exact .inr ⟨e, (execInstrs_grows sem call args grows ran).subset mem, stop⟩

/-- What the original block runs to, the rewritten one runs to, unless the loads `getValues`
inserted are undefined or an entry on the way `stops`. -/
theorem execInstrs_backward {env : Env} {F : Function} {bb bb' : BasicBlock} {cs : List ProbeCall}
    (own : ∀ i ∈ bb.instructions, i.opcode.isCreated = false) (inserts : InsertsCode env F bb bb' cs)
    (r : Run P) (t : Machine) {r₁ : Run P} {values₁ : List Value}
    (ran : execInstrs sem call args ({ r with machine := t }, []) bb.instructions = some (r₁, values₁)) :
    (∃ m vs, execInstrs sem call' args (r, []) bb'.instructions = some ({ r₁ with machine := m }, vs)) ∨
      LoadsStop sem args F bb r.state ∨ ∃ e ∈ r₁.entries, stops e := by
  rcases inserts with ⟨rfl, -, -⟩ |
    ⟨ip, projection, created, update, located, projected, rfl, creates, runs, -⟩
  · rcases execInstrs_own_backward sem args recovers grows own r t ran [] with ⟨m, later⟩ | stop
    · exact .inl ⟨m, [], later⟩
    · exact .inr (.inr stop)
  · rw [execInstrs_take_drop sem call args (BasicBlock.firstInsertionPt_leading located)] at ran
    obtain ⟨p₁, before, ran⟩ := Option.bind_eq_some.mp ran
    rw [execInstrs_insertAt sem call' args located creates, before, Option.some_bind]
    cases loads : execOps (sem.memory p₁) args (r.machine, []) projection.emitted with
    | none =>
      exact .inr (.inl ⟨ip, p₁, projection, located, before, projected,
        execOps_projection_none _ args (getValues_projection projected) loads⟩)
    | some _ =>
      obtain ⟨y, inserted⟩ := Option.isSome_iff_exists.mp
        (by rw [runs.isSome, loads]; rfl :
          (execOps (sem.memory p₁) args (r.machine, []) created).isSome)
      rw [inserted, Option.some_bind]
      rcases execInstrs_own_backward sem args recovers grows
        (fun i mem => own i (List.mem_of_mem_drop mem)) { r with state := p₁, machine := y.1 } t ran
        y.2 with ⟨m, later⟩ | stop
      · exact .inl ⟨m, y.2, later⟩
      · exact .inr (.inr stop)

theorem execPath_backward {env : Env} {F F' : Function} {fn : Nat} {calls : Nat → List ProbeCall}
    (own : ∀ bb ∈ F.blocks, ∀ i ∈ bb.instructions, i.opcode.isCreated = false)
    (length : F'.blocks.length = F.blocks.length)
    (inserts : ∀ j bb bb', F.blocks[j]? = some bb → F'.blocks[j]? = some bb' →
      InsertsCode env F bb bb' (calls j))
    (blockStops : ∀ j bb p, F.blocks[j]? = some bb → LoadsStop sem args F bb p → stops ⟨fn, j, args, p⟩)
    (path : List Nat) (r : Run P) (t : Machine) {r₁ : Run P}
    (ran : execPath sem call args fn F.blocks { r with machine := t } path = some r₁) :
    (∃ m, execPath sem call' args fn F'.blocks r path = some { r₁ with machine := m }) ∨
      ∃ e ∈ r₁.entries, stops e := by
  induction path generalizing r t with
  | nil => cases ran; exact .inl ⟨r.machine, rfl⟩
  | cons j path ih =>
    obtain ⟨bb, original, ran⟩ := Option.bind_eq_some.mp ran
    obtain ⟨x, block, rest⟩ := Option.bind_eq_some.mp ran
    obtain ⟨bb', rewritten⟩ := getElem?_of_length length.symm original
    have later := execPath_grows sem call args grows fn F.blocks path rest
    have entered := execInstrs_grows sem call args grows block
    rcases execInstrs_backward sem args recovers grows (own bb (List.getElem?_mem original))
      (inserts j bb bb' original rewritten) { r with entries := r.entries ++ [⟨fn, j, args, r.state⟩] }
      t block with ⟨m, vs, block'⟩ | loads | ⟨e, mem, stop⟩
    · rcases ih { x.1 with machine := m } x.1.machine rest with ⟨m', rest'⟩ | stop
      · exact .inl ⟨m', Option.bind_eq_some.mpr ⟨bb', rewritten, Option.bind_eq_some.mpr
          ⟨_, block', rest'⟩⟩⟩
      · exact .inr stop
    · refine .inr ⟨_, later.subset (entered.subset ?_), blockStops j bb _ original loads⟩
      exact List.mem_append_right _ (List.mem_singleton_self _)
    · exact .inr ⟨e, later.subset mem, stop⟩

end

section
variable {P : Type} (sem : Semantics P) {env : Env} {M : Module} {functions' : List Function}
  {calls : Nat → Nat → List ProbeCall} (own : M.OwnInstructions)
  (length : functions'.length = M.functions.length)
  (related : ∀ fn F F', M.functions[fn]? = some F → functions'[fn]? = some F' →
    F'.blocks.length = F.blocks.length ∧ ∀ j bb bb', F.blocks[j]? = some bb →
      F'.blocks[j]? = some bb' → InsertsCode env F bb bb' (calls fn j))
include own length related

theorem execCall_backward (fuel : Nat) :
    Recovers (StopsIn sem M) (execCall sem functions' fuel) (execCall sem M.functions fuel) := by
  induction fuel with
  | zero => intro _ _ _ _ _ _ ran; cases ran
  | succ fuel ih =>
    intro fn args path r t r₁ ran
    obtain ⟨F, original, ran⟩ := Option.bind_eq_some.mp ran
    obtain ⟨F', rewritten⟩ := getElem?_of_length length.symm original
    obtain ⟨blocks, inserts⟩ := related fn F F' original rewritten
    rcases execPath_backward sem args ih (execCall_grows sem M.functions fuel)
      (own F (List.getElem?_mem original)) blocks inserts
      (fun j bb p found loads => ⟨F, bb, original, found, loads⟩) path r t ran with ⟨m, later⟩ | stop
    · exact .inl ⟨m, Option.bind_eq_some.mpr ⟨F', rewritten, later⟩⟩
    · exact .inr stop

end

/-! ### Runs of the instrumented program are block entries -/

section
variable {P : Type} (sem : Semantics P) (args : List Value) (M out : Module)

def EntersAlong (call : Nat → List Value → List Nat → Run P → Option (Run P)) : Prop :=
  ∀ fn args path (r r' : Run P), call fn args path r = some r' →
    Relation.ReflTransGen (Enters M out) r.machine r'.machine

variable {M out} {call : Nat → List Value → List Nat → Run P → Option (Run P)}
  (along : EntersAlong M out call)
include along

theorem execInstrs_own_enters {instrs : List Instruction}
    (own : ∀ i ∈ instrs, i.opcode.isCreated = false) :
    ∀ {x x' : Run P × List Value}, execInstrs sem call args x instrs = some x' →
      Relation.ReflTransGen (Enters M out) x.1.machine x'.1.machine := by
  induction instrs with
  | nil => intro x x' ran; cases ran; exact .refl
  | cons i rest ih =>
    have others := fun i mem => own i (List.mem_cons_of_mem _ mem)
    intro ⟨r, values⟩ x' ran
    simp only [execInstrs, own i (List.mem_cons_self _ _), Bool.false_eq_true, ↓reduceIte] at ran
    obtain ⟨e, -, ran⟩ := Option.bind_eq_some.mp ran
    cases e with
    | next p => exact (ih others ran :)
    | call fn args' path p =>
      obtain ⟨r₁, called, ran⟩ := Option.bind_eq_some.mp ran
      exact (along _ _ _ _ _ called).trans (ih others ran)

theorem execInstrs_enters {env : Env} {F F' : Function} {bb bb' : BasicBlock} {cs : List ProbeCall}
    {fn j : Nat} (original : M.functions[fn]? = some F) (rewritten : out.functions[fn]? = some F')
    (found : F.blocks[j]? = some bb) (found' : F'.blocks[j]? = some bb')
    (own : ∀ i ∈ bb.instructions, i.opcode.isCreated = false) (inserts : InsertsCode env F bb bb' cs)
    {r : Run P} {x' : Run P × List Value}
    (ran : execInstrs sem call args (r, []) bb'.instructions = some x') :
    Relation.ReflTransGen (Enters M out) r.machine x'.1.machine := by
  rcases inserts with ⟨rfl, -, -⟩ | ⟨ip, projection, created, update, located, -, rfl, creates, -, -⟩
  · exact execInstrs_own_enters sem args along own ran
  · rw [execInstrs_insertAt sem call args located creates] at ran
    obtain ⟨p₁, -, ran⟩ := Option.bind_eq_some.mp ran
    obtain ⟨y, inserted, ran⟩ := Option.bind_eq_some.mp ran
    exact .head ⟨fn, j, created, sem.memory p₁, args, y.2,
        ⟨F, F', bb, _, original, rewritten, found, found', by simp only [InsertedAt, located]⟩,
        inserted⟩
      (execInstrs_own_enters sem args along (fun i mem => own i (List.mem_of_mem_drop mem)) ran)

theorem execPath_enters {env : Env} {F F' : Function} {fn : Nat} {calls : Nat → List ProbeCall}
    (original : M.functions[fn]? = some F) (rewritten : out.functions[fn]? = some F')
    (own : ∀ bb ∈ F.blocks, ∀ i ∈ bb.instructions, i.opcode.isCreated = false)
    (length : F'.blocks.length = F.blocks.length)
    (inserts : ∀ j bb bb', F.blocks[j]? = some bb → F'.blocks[j]? = some bb' →
      InsertsCode env F bb bb' (calls j)) (path : List Nat) :
    ∀ {r r' : Run P}, execPath sem call args fn F'.blocks r path = some r' →
      Relation.ReflTransGen (Enters M out) r.machine r'.machine := by
  induction path with
  | nil => intro r r' ran; cases ran; exact .refl
  | cons j path ih =>
    intro r r' ran
    obtain ⟨bb', found', ran⟩ := Option.bind_eq_some.mp ran
    obtain ⟨x, block, rest⟩ := Option.bind_eq_some.mp ran
    obtain ⟨bb, found⟩ := getElem?_of_length length found'
    exact (execInstrs_enters sem args along original rewritten found found'
      (own bb (List.getElem?_mem found)) (inserts j bb bb' found found') block).trans (ih rest)

end

theorem execCall_enters {P : Type} (sem : Semantics P) {env : Env} {M : Module}
    {functions' : List Function} {calls : Nat → Nat → List ProbeCall} (own : M.OwnInstructions)
    (length : functions'.length = M.functions.length)
    (related : ∀ fn F F', M.functions[fn]? = some F → functions'[fn]? = some F' →
      F'.blocks.length = F.blocks.length ∧ ∀ j bb bb', F.blocks[j]? = some bb →
        F'.blocks[j]? = some bb' → InsertsCode env F bb bb' (calls fn j)) (fuel : Nat) :
    EntersAlong M ⟨functions'⟩ (execCall sem functions' fuel) := by
  induction fuel with
  | zero => intro _ _ _ _ _ ran; cases ran
  | succ fuel ih =>
    intro fn args path r r' ran
    obtain ⟨F', rewritten, ran⟩ := Option.bind_eq_some.mp ran
    obtain ⟨F, original⟩ := getElem?_of_length length rewritten
    obtain ⟨blocks, inserts⟩ := related fn F F' original rewritten
    exact execPath_enters sem args ih original rewritten (own F (List.getElem?_mem original)) blocks
      inserts path ran

/-! ### The module after a run of the pass -/

/-- After a complete run, the module has as many functions as before, each with as many blocks,
each with the code the run recorded for it inserted as `InsertsCode` says. -/
theorem runOnModule_insertsCode (env : Env) (file : TargetsFile) (M : Module) (c : UInt16)
    (complete : (runOnModule env file M c).fault = none) :
    (runOnModule env file M c).functions.length = M.functions.length ∧
    ∀ fn F F', M.functions[fn]? = some F → (runOnModule env file M c).functions[fn]? = some F' →
      F'.blocks.length = F.blocks.length ∧ ∀ j bb bb', F.blocks[j]? = some bb →
        F'.blocks[j]? = some bb' → InsertsCode env F bb bb'
          ((probesAt (runOnModule env file M c).events.probes fn j).map (·.call)) :=
  let ⟨length, _, related⟩ := runOnModule_related env
    (fun F bb bb' new => InsertsCode env F bb bb' (new.map Probe.call)) (runBlock_insertsCode env)
    file M c complete
  ⟨length, fun fn F F' original rewritten => (related fn F F' original rewritten).2.2⟩

/-- Each own instruction counts one step, and `call` calls block 0 of function 1. -/
def callCounter : Semantics Nat where
  step op n := some (if op = .other "call" then .call 1 [] [0] (n + 1) else .next (n + 1))
  memory _ := ⟨fun _ _ _ => 0, fun _ => none⟩
  leading_next {op p e} leading stepped := ⟨p + 1, by
    have notCall : op ≠ .other "call" := by rintro rfl; cases leading
    simp only [notCall, ↓reduceIte, Option.some.injEq] at stepped
    exact stepped.symm⟩

/-- `main` calls `f`, whose one block holds a block target: the call runs `f`'s inserted
code. -/
theorem callCounter_calls_instrumented :
    let env : Env := ⟨fun _ => none, fun _ => 0, false, 100, 65536, fun _ => none, fun _ => none⟩
    let file : TargetsFile := .parsed "targets.json" (.array [.object [("path", .string "/src/a.c"),
      ("targets_block", .array [.numberInteger 10]), ("targets_const", .object [])]])
    let M : Module := ⟨[⟨"main", [], [⟨[⟨.other "call", none⟩]⟩]⟩,
      ⟨"f", [], [⟨[⟨.other "add", some ⟨10, "/src/a.c", "", none⟩⟩]⟩]⟩]⟩
    let out := runOnModule env file M 0
    M.OwnInstructions ∧ out.fault = none ∧ ∃ s', execCall callCounter out.functions 2 0 [] [0]
      ⟨0, ⟨⟨0, fun _ => 0⟩, []⟩, []⟩ = some ⟨2, s', [⟨0, 0, [], 0⟩, ⟨1, 0, [], 1⟩]⟩ ∧
      s'.received = [("trigger_block_event", 0)] := by
  intro env file M out
  obtain ⟨own, complete, computed⟩ : M.OwnInstructions ∧ out.fault = none ∧
      (execCall callCounter out.functions 2 0 [] [0] ⟨0, ⟨⟨0, fun _ => 0⟩, []⟩, []⟩).map
        (fun r => (r.state, r.machine.received, r.entries)) =
        some (2, [("trigger_block_event", 0)], [⟨0, 0, [], 0⟩, ⟨1, 0, [], 1⟩]) := by decide
  obtain ⟨⟨n, s', entries⟩, ran, ends⟩ := Option.map_eq_some'.mp computed
  simp only [Prod.mk.injEq] at ends
  obtain ⟨rfl, received, rfl⟩ := ends
  exact ⟨own, complete, s', ran, received⟩

end Abstraktor.Pass
