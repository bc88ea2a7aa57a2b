import Mathlib.Data.Finset.Card
import Abstraktor.Pass.Traversal

/-!
# Each block target is consumed once

`specBlockEvents` gives the block events over the module's blocks; a complete run refines it
(`Consumes`, kept by every step of the traversal).
-/

namespace Abstraktor.Pass
open Ir

/-- A block as the block-target logic sees it: its function's and its own position, and the
locations its instructions resolve to, except the skipped ones. -/
structure BlockSites where
  function : Nat
  block : Nat
  locations : List (String × UInt32)

def BlockSites.tag (b : BlockSites) : Nat × Nat := (b.function, b.block)

section
variable (realpath : String → Option String)

def blockSites (fn : Nat) : Nat → List BasicBlock → List BlockSites
  | _, [] => []
  | j, bb :: rest => ⟨fn, j, ownLocations realpath bb.instructions⟩ :: blockSites fn (j + 1) rest

def functionSites : Nat → List Function → List BlockSites
  | _, [] => []
  | fn, F :: rest => blockSites realpath fn 0 F.blocks ++ functionSites (fn + 1) rest

/-- The module's blocks in traversal order. -/
def moduleSites (M : Module) : List BlockSites := functionSites realpath 0 M.functions

theorem blockSites_tags (fn : Nat) (blocks : List BasicBlock) (j : Nat) :
    (blockSites realpath fn j blocks).map BlockSites.tag =
      (List.range' j blocks.length).map (fn, ·) := by
  induction blocks generalizing j with
  | nil => rfl
  | cons bb rest ih => simp [blockSites, BlockSites.tag, ih, List.range'_succ]

theorem functionSites_function_ge (functions : List Function) (fn : Nat) :
    ∀ b ∈ functionSites realpath fn functions, fn ≤ b.function := by
  induction functions generalizing fn with
  | nil => simp [functionSites]
  | cons F rest ih =>
    intro b mem
    rcases List.mem_append.mp mem with here | later
    · have tagged := List.mem_map_of_mem BlockSites.tag here
      rw [blockSites_tags] at tagged
      obtain ⟨_, -, same⟩ := List.mem_map.mp tagged
      exact (congrArg Prod.fst same).le
    · exact Nat.le_of_succ_le (ih (fn + 1) b later)

theorem moduleSites_tags_nodup (M : Module) : ((moduleSites realpath M).map BlockSites.tag).Nodup := by
  suffices distinct : ∀ fn, ((functionSites realpath fn M.functions).map BlockSites.tag).Nodup from
    distinct 0
  induction M.functions with
  | nil => simp [functionSites]
  | cons F rest ih =>
    intro fn
    rw [functionSites, List.map_append, List.nodup_append, blockSites_tags]
    refine ⟨(List.nodup_range' _ _).map (Prod.mk.inj_left fn), ih (fn + 1), ?_⟩
    intro tag here later
    obtain ⟨_, -, rfl⟩ := List.mem_map.mp here
    obtain ⟨b, mem, same⟩ := List.mem_map.mp later
    have := functionSites_function_ge realpath rest (fn + 1) b mem
    simp [BlockSites.tag] at same
    omega

end

/-! ### The specification -/

/-- The block holding the first location equal to `loc`, in traversal order. -/
def firstBlock (sites : List BlockSites) (loc : String × UInt32) : Option (Nat × Nat) :=
  (sites.find? fun b => loc ∈ b.locations).map BlockSites.tag

theorem firstBlock_cons (b : BlockSites) (rest : List BlockSites) (loc : String × UInt32) :
    firstBlock (b :: rest) loc = if loc ∈ b.locations then some b.tag else firstBlock rest loc := by
  by_cases mem : loc ∈ b.locations <;> simp [firstBlock, List.find?_cons, mem]

/-- The block events over blocks in traversal order: a block gets one when one of its locations
is a target no earlier block consumed, and consumes all its locations. -/
def specBlockEvents : Finset (String × UInt32) → List BlockSites → List (Nat × Nat)
  | _, [] => []
  | targets, b :: rest =>
    (if b.locations.any (· ∈ targets) then [b.tag] else []) ++
      specBlockEvents (targets \ b.locations.toFinset) rest

def siteLocations (sites : List BlockSites) : Finset (String × UInt32) :=
  (sites.flatMap (·.locations)).toFinset

@[simp] theorem siteLocations_append (sites sites' : List BlockSites) :
    siteLocations (sites ++ sites') = siteLocations sites ∪ siteLocations sites' := by
  simp [siteLocations, List.toFinset_append]

@[simp] theorem siteLocations_cons (b : BlockSites) (rest : List BlockSites) :
    siteLocations (b :: rest) = b.locations.toFinset ∪ siteLocations rest := by
  simp [siteLocations, List.toFinset_append]

theorem siteLocations_singleton (b : BlockSites) : siteLocations [b] = b.locations.toFinset := by
  simp [siteLocations]

theorem specBlockEvents_append (targets : Finset (String × UInt32)) (sites sites' : List BlockSites) :
    specBlockEvents targets (sites ++ sites') =
      specBlockEvents targets sites ++ specBlockEvents (targets \ siteLocations sites) sites' := by
  induction sites generalizing targets with
  | nil => simp [specBlockEvents, siteLocations]
  | cons b rest ih =>
    rw [List.cons_append, specBlockEvents, specBlockEvents, ih, List.append_assoc, siteLocations_cons,
      sdiff_sdiff_left, Finset.sup_eq_union]

theorem mem_specBlockEvents (targets : Finset (String × UInt32)) (sites : List BlockSites)
    (tag : Nat × Nat) :
    tag ∈ specBlockEvents targets sites ↔ ∃ loc ∈ targets, firstBlock sites loc = some tag := by
  induction sites generalizing targets with
  | nil => simp [specBlockEvents, firstBlock]
  | cons b rest ih =>
    simp only [specBlockEvents, List.mem_append, ih, firstBlock_cons, List.any_eq_true,
      decide_eq_true_eq, Finset.mem_sdiff, List.mem_toFinset, List.mem_ite_nil_right,
      List.mem_singleton]
    constructor
    · rintro (⟨⟨loc, here, target⟩, rfl⟩ | ⟨loc, ⟨target, absent⟩, first⟩)
      · exact ⟨loc, target, by simp [here]⟩
      · exact ⟨loc, target, by simp [absent, first]⟩
    · rintro ⟨loc, target, first⟩
      by_cases here : loc ∈ b.locations
      · simp only [here, ↓reduceIte, Option.some.injEq] at first
        exact .inl ⟨⟨loc, here, target⟩, by simp [first]⟩
      · simp only [here, ↓reduceIte] at first
        exact .inr ⟨loc, ⟨target, here⟩, first⟩

theorem specBlockEvents_sublist (targets : Finset (String × UInt32)) (sites : List BlockSites) :
    (specBlockEvents targets sites).Sublist (sites.map BlockSites.tag) := by
  induction sites generalizing targets with
  | nil => exact .slnil
  | cons b rest ih =>
    rw [specBlockEvents, List.map_cons]
    split
    · exact (ih _).cons₂ _
    · exact (ih _).cons _

theorem specBlockEvents_length_le (targets : Finset (String × UInt32)) (sites : List BlockSites) :
    (specBlockEvents targets sites).length ≤ targets.card := by
  induction sites generalizing targets with
  | nil => simp [specBlockEvents]
  | cons b rest ih =>
    rw [specBlockEvents, List.length_append]
    split
    · rename_i consumed
      obtain ⟨loc, here, target⟩ := List.any_eq_true.mp consumed
      have smaller : (targets \ b.locations.toFinset).card ≤ targets.card - 1 := by
        rw [← Finset.card_erase_of_mem (of_decide_eq_true target)]
        exact Finset.card_le_card fun x mem => Finset.mem_erase.mpr
          ⟨fun same => (Finset.mem_sdiff.mp mem).2 (by simpa [same] using here),
            (Finset.mem_sdiff.mp mem).1⟩
      have := Finset.card_pos.mpr ⟨loc, of_decide_eq_true target⟩
      have := ih (targets \ b.locations.toFinset)
      simp only [List.length_singleton]
      omega
    · rw [List.length_nil, Nat.zero_add]
      exact (ih _).trans (Finset.card_le_card Finset.sdiff_subset)

/-! ### The block events of a run -/

def blockProbes (probes : List Probe) : List (Nat × Nat) :=
  probes.filterMap fun p => match p.call with
    | .block _ => some (p.function, p.block)
    | _ => none

@[simp] theorem blockProbes_append (probes probes' : List Probe) :
    blockProbes (probes ++ probes') = blockProbes probes ++ blockProbes probes' :=
  List.filterMap_append _ _ _

theorem blockProbes_const (probes : List Probe) (fn j : Nat) (evtID : UInt16) (name : String) :
    blockProbes (probes ++ [⟨fn, j, .const evtID name⟩]) = blockProbes probes := by
  simp [blockProbes]

section
variable (fn j : Nat) (e : EventState)

theorem constEvent_frame (filename : String) (constLine : UInt32) :
    (∃ constTargets, (constEvent fn j filename constLine e).targets = { e.targets with constTargets }) ∧
      blockProbes (constEvent fn j filename constLine e).probes = blockProbes e.probes := by
  by_cases seen : (filename, constLine) ∈ e.instrumentedConstTargets
  · rw [constEvent_of_mem fn j seen]; exact ⟨⟨_, rfl⟩, rfl⟩
  · rw [constEvent_of_not_mem fn j seen]
    exact ⟨⟨_, rfl⟩, blockProbes_const ..⟩

theorem blockEvents_frame (scan : Scan) (l : Locals) :
    (∃ constTargets, (blockEvents fn j scan l e).targets = { e.targets with constTargets }) ∧
      blockProbes (blockEvents fn j scan l e).probes =
        blockProbes e.probes ++ if scan.isTargetBlockEvent then [(fn, j)] else [] := by
  have block : blockProbes (if scan.isTargetBlockEvent then blockEvent fn j l.filename l.line e else e).probes =
      blockProbes e.probes ++ if scan.isTargetBlockEvent then [(fn, j)] else [] := by
    split <;> simp [blockEvent, blockProbes]
  unfold blockEvents; dsimp only
  split
  · obtain ⟨⟨constTargets, frame⟩, probes⟩ := constEvent_frame fn j _ l.filename l.constLine
    refine ⟨⟨constTargets, ?_⟩, probes.trans block⟩
    rw [frame]; split <;> rfl
  · exact ⟨⟨e.targets.constTargets, by split <;> rfl⟩, block⟩

end

theorem exists_mem_iff_of_sdiff_eq {α : Type} [DecidableEq α] {B : Finset α} {a b : List α}
    (same : B \ a.toFinset = B \ b.toFinset) : (∃ x ∈ a, x ∈ B) ↔ (∃ x ∈ b, x ∈ B) := by
  have meets : ∀ l : List α, (∃ x ∈ l, x ∈ B) ↔ B \ l.toFinset ≠ B := fun l => by
    rw [Ne, Finset.sdiff_eq_self_iff_disjoint, Finset.disjoint_right]
    simp
  rw [meets, meets, same]

/-- What a stretch of the traversal over the blocks `sites` did to the block targets. -/
structure Consumes (e e' : EventState) (sites : List BlockSites) : Prop where
  loaded : Loaded e'.targets
  blockTargets : e'.targets.blockTargets = e.targets.blockTargets \ siteLocations sites
  probes : blockProbes e'.probes = blockProbes e.probes ++ specBlockEvents e.targets.blockTargets sites

theorem Consumes.refl {e : EventState} (loaded : Loaded e.targets) : Consumes e e [] :=
  ⟨loaded, by simp [siteLocations], by simp [specBlockEvents]⟩

theorem Consumes.trans {e₁ e₂ e₃ : EventState} {sites sites' : List BlockSites}
    (first : Consumes e₁ e₂ sites) (second : Consumes e₂ e₃ sites') :
    Consumes e₁ e₃ (sites ++ sites') where
  loaded := second.loaded
  blockTargets := by
    rw [second.blockTargets, first.blockTargets, sdiff_sdiff_left, siteLocations_append]; rfl
  probes := by
    rw [second.probes, first.probes, first.blockTargets, specBlockEvents_append, List.append_assoc]

/-! ### Every step of the traversal refines the specification -/

/-- The location the block loop carries into the next block: skipped, or no longer a block
target. -/
def Settled (p : PassState × Locals) : Prop :=
  skipsLocation p.2.filename p.2.line = false → (p.2.filename, p.2.line) ∉ p.1.events.targets.blockTargets

section
variable (env : Env) (F : Function) (fn : Nat)

/-- One live block step on loaded targets, entered with a settled location: the block consumes
its own locations, and leaves a settled location and the function flag unset. -/
theorem consumes_runBlock {p : PassState × Locals} (j : Nat) (bb : BasicBlock)
    (live : (runBlock env F fn p j bb).1.fault = none) (loaded : Loaded p.1.events.targets)
    (settled : Settled p) :
    Consumes p.1.events (runBlock env F fn p j bb).1.events
        [⟨fn, j, ownLocations env.realpath bb.instructions⟩] ∧
      Settled (runBlock env F fn p j bb) ∧
      (runBlock env F fn p j bb).2.isTargetFunc = p.2.isTargetFunc := by
  have started := runBlock_live env F fn j bb live
  obtain ⟨targets, flag, location, untargeted⟩ := scanBlock_of_loaded env.realpath loaded p.2 bb
  have own := sdiff_classifiedLocations env.realpath bb.instructions (p.2.filename, p.2.line) settled
  set scan := scanBlock env.realpath p.1.events.targets p.2 bb
  have events := runBlock_events_of_live env F fn j bb live
  obtain ⟨blocks, locals⟩ := runBlock_locals env F fn j bb started
  obtain ⟨⟨constTargets, frame⟩, probes⟩ :=
    blockEvents_frame fn j { p.1.events with targets := scan.targets } scan (scan.locals p.2)
  have consumed : (runBlock env F fn p j bb).1.events.targets.blockTargets =
      p.1.events.targets.blockTargets \ (ownLocations env.realpath bb.instructions).toFinset := by
    rw [events, frame]; exact (congrArg TargetState.blockTargets targets).trans own.1
  have flagged : scan.isTargetBlockEvent =
      (ownLocations env.realpath bb.instructions).any (· ∈ p.1.events.targets.blockTargets) := by
    rw [Bool.eq_iff_iff, flag, List.any_eq_true]
    simpa using exists_mem_iff_of_sdiff_eq own.1
  refine ⟨⟨?_, by rw [consumed, siteLocations_singleton], ?_⟩, ?_, ?_⟩
  · rw [events, frame, targets]; exact loaded
  · rw [events, probes, flagged]; simp [specBlockEvents, BlockSites.tag]
  · intro kept
    rw [consumed, locals]
    rw [locals] at kept
    exact location ▸ own.2 (location ▸ kept)
  · rw [locals]; exact untargeted

theorem consumes_runBlocks (blocks : List BasicBlock) (j : Nat) {p : PassState × Locals}
    (live : (runBlocks env F fn j blocks p).1.fault = none) (loaded : Loaded p.1.events.targets)
    (settled : Settled p) :
    Consumes p.1.events (runBlocks env F fn j blocks p).1.events
        (blockSites env.realpath fn j blocks) ∧
      (runBlocks env F fn j blocks p).2.isTargetFunc = p.2.isTargetFunc := by
  induction blocks generalizing j p with
  | nil => exact ⟨.refl loaded, rfl⟩
  | cons bb rest ih =>
    obtain ⟨first, settled', untargeted⟩ :=
      consumes_runBlock env F fn j bb (runBlocks_live env F fn rest (j + 1) live) loaded settled
    obtain ⟨later, untargeted'⟩ := ih (j + 1) live first.loaded settled'
    exact ⟨first.trans later, untargeted'.trans untargeted⟩

theorem consumes_runFunction {s : PassState} (live : (runFunction env s fn F).fault = none)
    (loaded : Loaded s.events.targets) :
    Consumes s.events (runFunction env s fn F).events (blockSites env.realpath fn 0 F.blocks) := by
  obtain ⟨consumes, untargeted⟩ := consumes_runBlocks env F fn F.blocks 0
    (functionEvent_live env F fn (runFunction_live env F fn live)) loaded
    fun kept => absurd kept (show skipsLocation "" 0 ≠ false by decide)
  rwa [runFunction_events, functionEvent_of_not_target env F fn untargeted]

end

theorem consumes_runFunctions (env : Env) (functions : List Function) (fn : Nat) {s : PassState}
    (live : (runFunctions env fn functions s).fault = none) (loaded : Loaded s.events.targets) :
    Consumes s.events (runFunctions env fn functions s).events
      (functionSites env.realpath fn functions) := by
  induction functions generalizing fn s with
  | nil => exact .refl loaded
  | cons F rest ih =>
    have first := consumes_runFunction env F fn (runFunctions_live env rest (fn + 1) live) loaded
    exact first.trans (ih (fn + 1) live first.loaded)

/-! ### A whole run -/

/-- Over a complete run on loaded targets: the block targets left are those no instruction of
the module resolves to; no block gets two block events, and a block gets one exactly when it is
the first, in traversal order, to hold an instruction that resolves to some target; and there
are at most as many block events as targets. -/
theorem block_targets_consumed_once (env : Env) {targets : TargetState} (loaded : Loaded targets)
    (M : Module) (c : UInt16) (complete : (instrumentModule env targets M c).fault = none) :
    let out := (instrumentModule env targets M c).events
    let sites := moduleSites env.realpath M
    out.targets.blockTargets = targets.blockTargets \ siteLocations sites ∧
      (blockProbes out.probes).Nodup ∧
      (∀ block, block ∈ blockProbes out.probes ↔
        ∃ loc ∈ targets.blockTargets, firstBlock sites loc = some block) ∧
      (blockProbes out.probes).length ≤ targets.blockTargets.card := by
  intro out sites
  have run := consumes_runFunctions env M.functions 0 complete loaded
  have probes : blockProbes out.probes = specBlockEvents targets.blockTargets sites := run.probes
  rw [probes]
  exact ⟨run.blockTargets, (specBlockEvents_sublist _ _).nodup (moduleSites_tags_nodup _ M),
    mem_specBlockEvents _ _, specBlockEvents_length_le _ _⟩

/-- Two blocks at the one block target `("/src/a.c", 10)`: only the first gets the event. -/
theorem block_targets_consumed_once_repeated_line :
    let env : Env := ⟨fun _ => none, fun _ => 0, false, 0, 65536, fun _ => none, fun _ => none⟩
    let targets : TargetState := ⟨∅, ∅, {("/src/a.c", 10)}, fun _ _ => none⟩
    let at10 : Instruction := ⟨.other "add", some ⟨10, "/src/a.c", "", none⟩⟩
    let M : Module := ⟨[⟨"main", [], [⟨[at10]⟩, ⟨[at10]⟩]⟩]⟩
    Loaded targets ∧ (instrumentModule env targets M 0).fault = none ∧
      let out := (instrumentModule env targets M 0).events
      let sites := moduleSites env.realpath M
      out.targets.blockTargets = targets.blockTargets \ siteLocations sites ∧
        (blockProbes out.probes).Nodup ∧
        (∀ block, block ∈ blockProbes out.probes ↔
          ∃ loc ∈ targets.blockTargets, firstBlock sites loc = some block) ∧
        (blockProbes out.probes).length ≤ targets.blockTargets.card :=
  have loaded : Loaded ⟨∅, ∅, {("/src/a.c", 10)}, fun _ _ => none⟩ := ⟨rfl, rfl⟩
  have complete : (instrumentModule ⟨fun _ => none, fun _ => 0, false, 0, 65536, fun _ => none,
      fun _ => none⟩ ⟨∅, ∅, {("/src/a.c", 10)}, fun _ _ => none⟩
      ⟨[⟨"main", [], [⟨[⟨.other "add", some ⟨10, "/src/a.c", "", none⟩⟩]⟩,
        ⟨[⟨.other "add", some ⟨10, "/src/a.c", "", none⟩⟩]⟩]⟩]⟩ 0).fault = none := by decide
  ⟨loaded, complete, block_targets_consumed_once _ loaded _ 0 complete⟩

/-- `f(struct S *r)`, `struct S { struct T *p; }`: the run stops before the block event. -/
theorem instrumentModule_stops_before_block_event :
    let env : Env := ⟨fun _ => none, fun _ => 0, false, 0, 65536, fun _ => none, fun _ => none⟩
    let targets : TargetState := ⟨∅, ∅, {("/src/f.c", 3)}, fun _ _ => none⟩
    let r : Argument :=
      ⟨"r", .ptr (.struct (.cons (.ptr (.struct (.cons (.int 32) (.cons (.int 32) .nil)))) .nil))⟩
    let M : Module := ⟨[⟨"f", [r], [⟨[⟨.other "ret", some ⟨3, "/src/f.c", "", none⟩⟩]⟩]⟩]⟩
    let out := instrumentModule env targets M 0
    Loaded targets ∧ firstBlock (moduleSites env.realpath M) ("/src/f.c", 3) = some (0, 0) ∧
      out.fault = some .gepIndex ∧ blockProbes out.events.probes = [] :=
  ⟨⟨rfl, rfl⟩, by decide, by decide, by decide⟩

end Abstraktor.Pass
