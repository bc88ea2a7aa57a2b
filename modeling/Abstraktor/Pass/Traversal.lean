import Abstraktor.Pass.Locations

/-!
# The loops of `runOnModule`, one step at a time
-/

namespace Abstraktor.Pass
open Ir

section
variable (env : Env) (F : Function) (fn j : Nat) (bb : BasicBlock) {p : PassState × Locals}

theorem constEvent_of_mem {e : EventState} {filename : String} {constLine : UInt32}
    (seen : (filename, constLine) ∈ e.instrumentedConstTargets) :
    constEvent fn j filename constLine e = e := by
  simp [constEvent, seen]

theorem constEvent_of_not_mem {e : EventState} {filename : String} {constLine : UInt32}
    (unseen : (filename, constLine) ∉ e.instrumentedConstTargets) :
    constEvent fn j filename constLine e =
      let lookup := constTargetsAt e.targets.constTargets filename constLine
      EventState.recordEvent
        { e with instrumentedConstTargets := insert (filename, constLine) e.instrumentedConstTargets
                 targets := { e.targets with constTargets := lookup.2 } }
        fn j (.const · lookup.1) fun evtID => .const evtID filename constLine lookup.1 := by
  simp [constEvent, unseen]

theorem runBlock_of_fault (stopped : p.1.fault.isSome) :
    runBlock env F fn p j bb = p := by
  simp [runBlock, stopped]

theorem blockEvents_of_unflagged {scan : Scan} (block : scan.isTargetBlockEvent = false)
    (const : scan.isTargetConstEvent = false) (l : Locals) (e : EventState) :
    blockEvents fn j scan l e = e := by
  simp [blockEvents, block, const]

/-- A relation between event states that is reflexive, composes, and holds across a block event
and across a constant event holds across `blockEvents`. -/
theorem blockEvents_rel (l : Locals) (R : EventState → EventState → Prop) (refl : ∀ e, R e e)
    (trans : ∀ {e₁ e₂ e₃}, R e₁ e₂ → R e₂ e₃ → R e₁ e₃)
    (block : ∀ e, R e (blockEvent fn j l.filename l.line e))
    (const : ∀ e, R e (constEvent fn j l.filename l.constLine e)) (scan : Scan) (e : EventState) :
    R e (blockEvents fn j scan l e) := by
  have first : R e (if scan.isTargetBlockEvent then blockEvent fn j l.filename l.line e else e) := by
    split
    · exact block e
    · exact refl e
  unfold blockEvents; dsimp only
  split
  · exact trans first (const _)
  · exact first

theorem selectBlock_of_unselected {scan : Scan} {draws : Nat}
    (unselected : (selectBlock env scan draws).1 = false) :
    scan.isTargetBlockEvent = false ∧ scan.isTargetConstEvent = false := by
  unfold selectBlock at unselected
  split_ifs at unselected with flags
  simp_all

theorem runBlock_events (live : p.1.fault = none) :
    let scan := scanBlock env.realpath p.1.events.targets p.2 bb
    (runBlock env F fn p j bb).1.events =
        blockEvents fn j scan (scan.locals p.2) { p.1.events with targets := scan.targets } ∨
      ((runBlock env F fn p j bb).1.fault.isSome ∧
        (runBlock env F fn p j bb).1.events = { p.1.events with targets := scan.targets }) := by
  intro scan
  simp only [runBlock, live, Option.isSome_none, Bool.false_eq_true, ↓reduceIte]
  cases selected : (selectBlock env scan p.1.draws).1
  · obtain ⟨block, const⟩ := selectBlock_of_unselected env selected
    simp [scan, blockEvents_of_unflagged fn j block const]
  · simp only [↓reduceIte, instrumentBlock, scan]
    split
    · simp
    · split
      · simp
      · split <;> simp

theorem runBlock_locals (live : p.1.fault = none) :
    let scan := scanBlock env.realpath p.1.events.targets p.2 bb
    ∃ blocks, (runBlock env F fn p j bb).2 = { scan.locals p.2 with blocks } := by
  intro scan
  simp only [runBlock, live, Option.isSome_none, Bool.false_eq_true, ↓reduceIte]
  split
  · simp only [instrumentBlock]
    split
    · exact ⟨_, rfl⟩
    · split
      · exact ⟨_, rfl⟩
      · split <;> exact ⟨_, rfl⟩
  · exact ⟨_, rfl⟩

theorem runBlock_live (live : (runBlock env F fn p j bb).1.fault = none) : p.1.fault = none := by
  cases h : p.1.fault with
  | none => rfl
  | some _ => simp [runBlock_of_fault env F fn j bb (show p.1.fault.isSome by simp [h]), h] at live

theorem runBlock_events_of_live (live : (runBlock env F fn p j bb).1.fault = none) :
    let scan := scanBlock env.realpath p.1.events.targets p.2 bb
    (runBlock env F fn p j bb).1.events =
      blockEvents fn j scan (scan.locals p.2) { p.1.events with targets := scan.targets } := by
  rcases runBlock_events env F fn j bb (runBlock_live env F fn j bb live) with step | ⟨stopped, -⟩
  · exact step
  · simp [live] at stopped

/-! ### The calls a block step records -/

/-- `e'` extends the probe calls of `e` with calls for block `j` of function `fn` only. -/
def AddsProbesAt (fn j : Nat) (e e' : EventState) : Prop :=
  ∃ new, e'.probes = e.probes ++ new ∧ ∀ probe ∈ new, probe.function = fn ∧ probe.block = j

theorem AddsProbesAt.refl (fn j : Nat) (e : EventState) : AddsProbesAt fn j e e :=
  ⟨[], (List.append_nil _).symm, fun _ mem => by cases mem⟩

theorem AddsProbesAt.trans {fn j : Nat} {e e' e'' : EventState} (first : AddsProbesAt fn j e e')
    (second : AddsProbesAt fn j e' e'') : AddsProbesAt fn j e e'' := by
  obtain ⟨new, probes, tagged⟩ := first
  obtain ⟨new', probes', tagged'⟩ := second
  refine ⟨new ++ new', by rw [probes', probes, List.append_assoc], fun probe mem => ?_⟩
  rcases List.mem_append.mp mem with earlier | later
  exacts [tagged probe earlier, tagged' probe later]

theorem addsProbesAt_recordEvent (fn j : Nat) (e : EventState) (call : UInt16 → ProbeCall)
    (record : UInt16 → LogRecord) (e' : EventState) (base : AddsProbesAt fn j e' e) :
    AddsProbesAt fn j e' (e.recordEvent fn j call record) :=
  base.trans ⟨_, rfl, fun _ mem => by rw [List.mem_singleton.mp mem]; exact ⟨rfl, rfl⟩⟩

theorem constEvent_adds (filename : String) (constLine : UInt32) (e : EventState) :
    AddsProbesAt fn j e (constEvent fn j filename constLine e) := by
  unfold constEvent
  split
  · exact .refl fn j e
  · exact addsProbesAt_recordEvent fn j _ _ _ e ⟨[], (List.append_nil _).symm, fun _ mem => by cases mem⟩

theorem blockEvents_adds (scan : Scan) (l : Locals) (e : EventState) :
    AddsProbesAt fn j e (blockEvents fn j scan l e) :=
  blockEvents_rel fn j l (AddsProbesAt fn j) (.refl fn j) .trans
    (fun e => addsProbesAt_recordEvent fn j e _ _ e (.refl fn j e)) (constEvent_adds fn j _ _) scan e

/-- Everything a block step that leaves the run live does to the block list and the calls. -/
theorem runBlock_cases (live : (runBlock env F fn p j bb).1.fault = none) :
    let scan := scanBlock env.realpath p.1.events.targets p.2 bb
    let q := runBlock env F fn p j bb
    ∃ bb' new, q.2.blocks = p.2.blocks ++ [bb'] ∧ q.1.events.probes = p.1.events.probes ++ new ∧
      (∀ probe ∈ new, probe.function = fn ∧ probe.block = j) ∧
      (((selectBlock env scan p.1.draws).1 = false ∧ bb' = bb ∧ new = []) ∨
        ∃ ip projection tail, bb.firstInsertionPt = some ip ∧
          getValues instrumentedParameters F.args selectedFields = .ok projection ∧
          (if env.useTraditionalBranch then ∃ draws, tail = edgeCoverage
              (projection.emitted ++ new.map (·.call.opcode)).length (env.random draws % env.mapSize)
            else tail = []) ∧
          bb' = insertAt ip (projection.emitted ++ new.map (·.call.opcode) ++ tail) bb) := by
  intro scan q
  have stops : q.1.fault.isSome ∨ ((selectBlock env scan p.1.draws).1 = false ∧
        q.2.blocks = p.2.blocks ++ [bb]) ∨
      ∃ ip projection, bb.firstInsertionPt = some ip ∧
        getValues instrumentedParameters F.args selectedFields = .ok projection ∧
        let created := projection.emitted ++
          (q.1.events.probes.drop p.1.events.probes.length).map (·.call.opcode)
        ∃ tail, (if env.useTraditionalBranch then
            ∃ draws, tail = edgeCoverage created.length (env.random draws % env.mapSize)
          else tail = []) ∧ q.2.blocks = p.2.blocks ++ [insertAt ip (created ++ tail) bb] := by
    simp only [q, runBlock, runBlock_live env F fn j bb live, Option.isSome_none, Bool.false_eq_true,
      ↓reduceIte]
    split
    · unfold instrumentBlock
      split
      · exact .inl rfl
      · rename_i ip located
        split
        · exact .inl rfl
        · rename_i projection projected
          split
          · exact .inr (.inr ⟨ip, projection, located, projected, _, ⟨_, rfl⟩, rfl⟩)
          · exact .inr (.inr ⟨ip, projection, located, projected, [], rfl, by rw [List.append_nil]; rfl⟩)
    · rename_i unselected
      exact .inr (.inl ⟨by simpa using unselected, rfl⟩)
  have events : q.1.events = blockEvents fn j scan (scan.locals p.2)
      { p.1.events with targets := scan.targets } := runBlock_events_of_live env F fn j bb live
  obtain ⟨new, probes, tagged⟩ := blockEvents_adds fn j scan (scan.locals p.2)
    { p.1.events with targets := scan.targets }
  rw [← events] at probes
  rcases stops with stopped | ⟨unselected, appended⟩ | ⟨ip, projection, located, projected, tail, edge, appended⟩
  · simp [q, live] at stopped
  · obtain ⟨block, const⟩ := selectBlock_of_unselected env unselected
    have unchanged : q.1.events.probes = p.1.events.probes := by
      rw [events, blockEvents_of_unflagged fn j block const]
    exact ⟨bb, new, appended, probes, tagged,
      .inl ⟨unselected, rfl, List.append_right_eq_self.mp (probes.symm.trans unchanged)⟩⟩
  · simp only [probes, List.drop_left] at edge appended
    exact ⟨_, new, appended, probes, tagged, .inr ⟨ip, projection, tail, located, projected, edge, rfl⟩⟩

theorem runBlocks_live (blocks : List BasicBlock) (j : Nat) {p : PassState × Locals}
    (live : (runBlocks env F fn j blocks p).1.fault = none) : p.1.fault = none := by
  induction blocks generalizing j p with
  | nil => exact live
  | cons bb rest ih => exact runBlock_live env F fn j bb (ih (j + 1) live)

theorem functionEvent_of_not_target (untargeted : p.2.isTargetFunc = false) :
    functionEvent env F fn p = p := by
  simp [functionEvent, untargeted]

theorem functionEvent_live (live : (functionEvent env F fn p).1.fault = none) :
    p.1.fault = none := by
  unfold functionEvent at live
  split at live
  · exact live
  · split at live
    · split at live
      · simp at live
      · simp_all
    · exact live

theorem runFunction_events (s : PassState) :
    (runFunction env s fn F).events =
      (functionEvent env F fn (runBlocks env F fn 0 F.blocks (s, Locals.init))).1.events := by
  unfold runFunction; dsimp only; split <;> rfl

theorem runFunction_live {s : PassState} (live : (runFunction env s fn F).fault = none) :
    (functionEvent env F fn (runBlocks env F fn 0 F.blocks (s, Locals.init))).1.fault = none := by
  unfold runFunction at live; dsimp only at live; split at live
  · exact live
  · simpa using live

end

theorem runFunctions_live (env : Env) (functions : List Function) (fn : Nat) {s : PassState}
    (live : (runFunctions env fn functions s).fault = none) : s.fault = none := by
  induction functions generalizing fn s with
  | nil => exact live
  | cons F rest ih =>
    exact runBlocks_live env F fn _ 0 (functionEvent_live env F fn (runFunction_live env F fn (ih _ live)))

/-! ### Invariants of the event state -/

section
variable (env : Env) (P : EventState → Prop)

theorem runBlock_preserves (targets : ∀ (e : EventState) (t : TargetState), P e → P { e with targets := t })
    (events : ∀ fn j scan l e, P e → P (blockEvents fn j scan l e)) (F : Function) (fn j : Nat)
    (bb : BasicBlock) (p : PassState × Locals) (holds : P p.1.events) :
    P (runBlock env F fn p j bb).1.events := by
  cases live : p.1.fault with
  | some _ => rw [runBlock_of_fault env F fn j bb (by simp [live])]; exact holds
  | none =>
    rcases runBlock_events env F fn j bb live with step | ⟨-, step⟩ <;> rw [step]
    · exact events _ _ _ _ _ (targets _ _ holds)
    · exact targets _ _ holds

theorem functionEvent_preserves
    (func : ∀ (e : EventState) fn (record : UInt16 → LogRecord),
      (∀ evtID, (record evtID).evtID = evtID) → P e → P (e.recordEvent fn 0 .func record))
    (F : Function) (fn : Nat) (p : PassState × Locals) (holds : P p.1.events) :
    P (functionEvent env F fn p).1.events := by
  unfold functionEvent
  split
  · exact holds
  · split
    · split
      · exact holds
      · dsimp only
        exact func _ _ _ (fun _ => rfl) holds
    · exact holds

theorem runBlocks_preserves (targets : ∀ (e : EventState) (t : TargetState), P e → P { e with targets := t })
    (events : ∀ fn j scan l e, P e → P (blockEvents fn j scan l e)) (F : Function) (fn : Nat)
    (blocks : List BasicBlock) (j : Nat) (p : PassState × Locals) (holds : P p.1.events) :
    P (runBlocks env F fn j blocks p).1.events := by
  induction blocks generalizing j p with
  | nil => exact holds
  | cons bb rest ih => exact ih (j + 1) _ (runBlock_preserves env P targets events F fn j bb p holds)

/-- A property of the event state kept by a change of the targets, by `blockEvents` and by a
function event holds over the traversal of any functions. -/
theorem runFunctions_preserves (targets : ∀ (e : EventState) (t : TargetState), P e → P { e with targets := t })
    (events : ∀ fn j scan l e, P e → P (blockEvents fn j scan l e))
    (func : ∀ (e : EventState) fn (record : UInt16 → LogRecord),
      (∀ evtID, (record evtID).evtID = evtID) → P e → P (e.recordEvent fn 0 .func record))
    (functions : List Function) (fn : Nat) {s : PassState} (holds : P s.events) :
    P (runFunctions env fn functions s).events := by
  induction functions generalizing fn s with
  | nil => exact holds
  | cons F rest ih =>
    exact ih (fn + 1) (by
      rw [runFunction_events]
      exact functionEvent_preserves env P func F fn _
        (runBlocks_preserves env P targets events F fn F.blocks 0 _ holds))

end

end Abstraktor.Pass
