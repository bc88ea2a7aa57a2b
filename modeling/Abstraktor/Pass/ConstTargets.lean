import Abstraktor.Pass.BlockTargets

/-!
# Constant targets

A block's constant event is keyed by the function's `filename` after the block and `const_line`;
`constFold` is that flag and line as a fold over the block's classified locations.
-/

namespace Abstraktor.Pass
open Ir

/-! ### The flag and line of the instruction loop -/

/-- `isTargetConstEvent` and `const_line` after the classified locations. -/
def constFold (constTargets : ConstTargets) :
    Finset (String × UInt32) → Bool × UInt32 → List (String × UInt32) → Bool × UInt32
  | _, acc, [] => acc
  | blockTargets, acc, loc :: rest =>
    constFold constTargets (blockTargets.erase loc)
      (if loc ∉ blockTargets ∧ (constTargets loc.1 loc.2).isSome then (true, loc.2) else acc) rest

section
variable {realpath : String → Option String}

theorem scan_const (insts : List Instruction) {s : Scan} (loaded : Loaded s.targets) :
    ((insts.foldl (scanInstruction realpath) s).isTargetConstEvent,
        (insts.foldl (scanInstruction realpath) s).constLine) =
      constFold s.targets.constTargets s.targets.blockTargets (s.isTargetConstEvent, s.constLine)
        (classifiedLocations realpath (s.filename, s.line) insts) := by
  induction insts generalizing s with
  | nil => rfl
  | cons i rest ih =>
    have location := scanInstruction_location realpath s i
    rw [List.foldl_cons, ih (scanInstruction_loaded loaded i), classifiedLocations_cons, ← location,
      scanInstruction_of_loaded loaded i]
    dsimp only
    split_ifs with skipped member const <;>
      simp_all [constFold, Finset.erase_eq_of_not_mem]

end

section
variable (constTargets : ConstTargets)

theorem constFold_append (blockTargets : Finset (String × UInt32)) (acc : Bool × UInt32)
    (locs locs' : List (String × UInt32)) :
    constFold constTargets blockTargets acc (locs ++ locs') =
      constFold constTargets (blockTargets \ locs.toFinset)
        (constFold constTargets blockTargets acc locs) locs' := by
  induction locs generalizing blockTargets acc with
  | nil => simp [constFold]
  | cons loc rest ih =>
    rw [List.cons_append, constFold, ih, List.toFinset_cons, Finset.sdiff_insert,
      ← Finset.erase_sdiff_comm]
    rfl

theorem constFold_sound (blockTargets : Finset (String × UInt32)) (acc : Bool × UInt32)
    (locs : List (String × UInt32)) :
    constFold constTargets blockTargets acc locs = acc ∨
      ∃ loc ∈ locs, constFold constTargets blockTargets acc locs = (true, loc.2) ∧
        (constTargets loc.1 loc.2).isSome := by
  induction locs generalizing blockTargets acc with
  | nil => exact .inl rfl
  | cons loc rest ih =>
    rw [constFold]
    rcases ih (blockTargets.erase loc) (if loc ∉ blockTargets ∧ (constTargets loc.1 loc.2).isSome
        then (true, loc.2) else acc) with same | ⟨loc', mem, result, const⟩
    · rw [same]
      split_ifs with matched
      · exact .inr ⟨loc, List.mem_cons_self _ _, rfl, matched.2⟩
      · exact .inl rfl
    · exact .inr ⟨loc', List.mem_cons_of_mem _ mem, result, const⟩

/-- `loc` occurs among `locations`, and no location after it is another constant target. -/
def LastConst (locations : List (String × UInt32)) (loc : String × UInt32) : Prop :=
  ∃ pre post, locations = pre ++ loc :: post ∧ ∀ x ∈ post, x = loc ∨ constTargets x.1 x.2 = none

theorem constFold_of_lastConst {locs : List (String × UInt32)} {loc : String × UInt32}
    (last : LastConst constTargets locs loc) {blockTargets : Finset (String × UInt32)}
    (unblocked : loc ∉ blockTargets) (const : (constTargets loc.1 loc.2).isSome)
    (acc : Bool × UInt32) : constFold constTargets blockTargets acc locs = (true, loc.2) := by
  obtain ⟨pre, post, rfl, later⟩ := last
  have kept : ∀ (post : List (String × UInt32)) (blockTargets : Finset (String × UInt32)),
      (∀ x ∈ post, x = loc ∨ constTargets x.1 x.2 = none) →
        constFold constTargets blockTargets (true, loc.2) post = (true, loc.2) := by
    intro post
    induction post with
    | nil => exact fun _ _ => rfl
    | cons x rest ih =>
      intro blockTargets later
      rw [constFold]
      rcases later x (List.mem_cons_self _ _) with rfl | none
      · split_ifs <;> exact ih _ fun y mem => later y (List.mem_cons_of_mem _ mem)
      · rw [if_neg (by simp [none])]
        exact ih _ fun y mem => later y (List.mem_cons_of_mem _ mem)
  rw [constFold_append, constFold, if_pos ⟨fun mem => unblocked (Finset.mem_sdiff.mp mem).1, const⟩]
  exact kept post _ later

end

/-! ### The constant calls of a run -/

/-- A `trigger_const_event` call, with its block and the key and name its `BB2ID.txt` record
gives it. -/
structure ConstCall where
  function : Nat
  block : Nat
  filename : String
  line : UInt32
  name : String
  deriving DecidableEq

def ConstCall.key (call : ConstCall) : String × UInt32 := (call.filename, call.line)

def constCallOf (p : Probe) (r : LogRecord) : Option ConstCall :=
  match p.call, r with
  | .const _ name, .const _ filename line _ => some ⟨p.function, p.block, filename, line, name⟩
  | _, _ => none

def constCalls (e : EventState) : List ConstCall :=
  (e.probes.zip e.bbToID).filterMap fun entry => constCallOf entry.1 entry.2

theorem constCalls_recordEvent {e : EventState} (aligned : e.probes.length = e.bbToID.length)
    (fn j : Nat) (call : UInt16 → ProbeCall) (record : UInt16 → LogRecord) :
    constCalls (e.recordEvent fn j call record) =
      constCalls e ++ (constCallOf ⟨fn, j, call e.idCounter⟩ (record e.idCounter)).toList := by
  simp only [constCalls, recordEvent_probes, recordEvent_bbToID, List.zip_append aligned,
    List.filterMap_append, List.zip_cons_cons, List.zip_nil_left, List.filterMap_cons,
    List.filterMap_nil]
  cases constCallOf ⟨fn, j, call e.idCounter⟩ (record e.idCounter) <;> rfl

theorem constEvent_const (fn j : Nat) (filename : String) (constLine : UInt32) (e : EventState)
    (aligned : e.probes.length = e.bbToID.length) :
    let fresh := (filename, constLine) ∉ e.instrumentedConstTargets
    let lookup := constTargetsAt e.targets.constTargets filename constLine
    let e' := constEvent fn j filename constLine e
    e'.probes.length = e'.bbToID.length ∧
      e'.targets.constTargets = (if fresh then lookup.2 else e.targets.constTargets) ∧
      e'.instrumentedConstTargets = insert (filename, constLine) e.instrumentedConstTargets ∧
      constCalls e' = constCalls e ++ if fresh then [⟨fn, j, filename, constLine, lookup.1⟩] else [] := by
  intro fresh lookup e'
  by_cases seen : (filename, constLine) ∈ e.instrumentedConstTargets
  · simp only [e', fresh, constEvent_of_mem fn j seen]
    simp [aligned, seen]
  · simp only [e', fresh, lookup, constEvent_of_not_mem fn j seen]
    rw [constCalls_recordEvent]
    · refine ⟨by simp [aligned], by simp [seen], rfl, ?_⟩
      simp only [seen, not_false_eq_true, if_true, constCallOf, Option.toList_some]
      rfl
    · exact aligned

theorem blockEvents_const (fn j : Nat) (scan : Scan) (l : Locals) (e : EventState)
    (aligned : e.probes.length = e.bbToID.length) :
    let key := (l.filename, l.constLine)
    let fresh := scan.isTargetConstEvent ∧ key ∉ e.instrumentedConstTargets
    let lookup := constTargetsAt e.targets.constTargets key.1 key.2
    let e' := blockEvents fn j scan l e
    e'.probes.length = e'.bbToID.length ∧
      e'.targets.constTargets = (if fresh then lookup.2 else e.targets.constTargets) ∧
      e'.instrumentedConstTargets =
        (if scan.isTargetConstEvent then insert key e.instrumentedConstTargets
          else e.instrumentedConstTargets) ∧
      constCalls e' = constCalls e ++ if fresh then [⟨fn, j, key.1, key.2, lookup.1⟩] else [] := by
  intro key fresh lookup e'
  have block : let e₁ := if scan.isTargetBlockEvent then blockEvent fn j l.filename l.line e else e
      e₁.probes.length = e₁.bbToID.length ∧ e₁.targets = e.targets ∧
        e₁.instrumentedConstTargets = e.instrumentedConstTargets ∧ constCalls e₁ = constCalls e := by
    split
    · refine ⟨by simp [blockEvent, aligned], rfl, rfl, ?_⟩
      rw [blockEvent, constCalls_recordEvent aligned]; simp [constCallOf]
    · exact ⟨aligned, rfl, rfl, rfl⟩
  obtain ⟨aligned₁, targets₁, instrumented₁, calls₁⟩ := block
  simp only [e', fresh, blockEvents]
  split
  · rename_i flagged
    obtain ⟨aligned₂, targets₂, instrumented₂, calls₂⟩ := constEvent_const fn j l.filename l.constLine _ aligned₁
    simp only [targets₁, instrumented₁, calls₁] at targets₂ instrumented₂ calls₂
    exact ⟨aligned₂, by simpa [flagged] using targets₂, by simpa [flagged] using instrumented₂,
      by simpa [flagged] using calls₂⟩
  · rename_i unflagged
    simp [aligned₁, targets₁, instrumented₁, calls₁, unflagged]

/-! ### Blocks keyed in their own file -/

section
variable (realpath : String → Option String)

/-- The locations the loop classifies in `bb` lie in the file of its last located instruction,
the file its constant key is taken in. -/
def OneFile (bb : BasicBlock) : Prop :=
  ∀ loc ∈ ownLocations realpath bb.instructions,
    loc.1 = (lastLocation realpath ("", 0) bb.instructions).1

/-- Along a function's blocks, once an instruction with a debug location has been seen: no block
opens with one without, which the loop would classify at the location an earlier block left. -/
def locatedHeads : Bool → List BasicBlock → Bool
  | _, [] => true
  | seen, bb :: rest =>
    (!seen || bb.instructions.head?.all (·.debugLoc.isSome)) &&
      locatedHeads (seen || bb.instructions.any (·.debugLoc.isSome)) rest

/-- In every function of `M`, no block opens with an instruction without a debug location after
an instruction with one, and every block is `OneFile`. -/
def SingleFileBlocks (M : Module) : Prop :=
  ∀ F ∈ M.functions, locatedHeads false F.blocks = true ∧ ∀ bb ∈ F.blocks, OneFile realpath bb

instance : DecidablePred (SingleFileBlocks realpath) := fun M =>
  inferInstanceAs (Decidable (∀ F ∈ M.functions, locatedHeads false F.blocks = true ∧
    ∀ bb ∈ F.blocks, ∀ loc ∈ ownLocations realpath bb.instructions,
      loc.1 = (lastLocation realpath ("", 0) bb.instructions).1))

theorem locationsFrom_append (loc : String × UInt32) (insts insts' : List Instruction) :
    locationsFrom realpath loc (insts ++ insts') =
      locationsFrom realpath loc insts ++ locationsFrom realpath (lastLocation realpath loc insts) insts' := by
  induction insts generalizing loc with
  | nil => rfl
  | cons i rest ih => simp only [List.cons_append, locationsFrom, List.append_eq, ih, lastLocation_cons]

theorem classifiedLocations_append (loc : String × UInt32) (insts insts' : List Instruction) :
    classifiedLocations realpath loc (insts ++ insts') = classifiedLocations realpath loc insts ++
      classifiedLocations realpath (lastLocation realpath loc insts) insts' := by
  simp only [classifiedLocations, locationsFrom_append, List.filter_append]

theorem classifiedLocations_of_skipped {loc loc' : String × UInt32}
    (skipped : skipsLocation loc.1 loc.2 = true) (skipped' : skipsLocation loc'.1 loc'.2 = true)
    (insts : List Instruction) :
    classifiedLocations realpath loc insts = classifiedLocations realpath loc' insts := by
  induction insts with
  | nil => rfl
  | cons i rest ih =>
    cases located : i.debugLoc with
    | none => simp only [classifiedLocations_cons, getDebugLoc_none realpath located, skipped, skipped',
        ↓reduceIte, ih]
    | some d => simp only [classifiedLocations_cons, getDebugLoc_some realpath located]

theorem lastLocation_of_located {insts : List Instruction} (located : ∃ i ∈ insts, i.debugLoc.isSome)
    (loc loc' : String × UInt32) : lastLocation realpath loc insts = lastLocation realpath loc' insts := by
  induction insts generalizing loc loc' with
  | nil => obtain ⟨_, mem, -⟩ := located; cases mem
  | cons i rest ih =>
    cases here : i.debugLoc with
    | some d => simp only [lastLocation_cons, getDebugLoc_some realpath here]
    | none =>
      obtain ⟨i', mem, some⟩ := located
      rcases List.mem_cons.mp mem with rfl | later
      · simp [here] at some
      · simp only [lastLocation_cons, getDebugLoc_none realpath here]
        exact ih ⟨i', later, some⟩ _ _

theorem lastLocation_of_unlocated {insts : List Instruction}
    (unlocated : insts.any (·.debugLoc.isSome) = false) (loc : String × UInt32) :
    lastLocation realpath loc insts = loc := by
  induction insts with
  | nil => rfl
  | cons i rest ih =>
    simp only [List.any_cons, Bool.or_eq_false_iff] at unlocated
    rw [lastLocation_cons, getDebugLoc_none realpath (Option.not_isSome_iff_eq_none.mp (by simp [unlocated.1]))]
    exact ih unlocated.2

theorem classifiedLocations_subset {S : List (String × UInt32)} (insts : List Instruction)
    (loc : String × UInt32) (carried : skipsLocation loc.1 loc.2 = false → loc ∈ S)
    (own : ∀ x ∈ ownLocations realpath insts, x ∈ S) :
    ∀ x ∈ classifiedLocations realpath loc insts, x ∈ S := by
  induction insts generalizing loc with
  | nil => intro x mem; cases mem
  | cons i rest ih =>
    have next : skipsLocation (getDebugLoc realpath i loc.1 loc.2).1 (getDebugLoc realpath i loc.1 loc.2).2 =
        false → getDebugLoc realpath i loc.1 loc.2 ∈ S := by
      cases located : i.debugLoc with
      | none => rw [getDebugLoc_none realpath located]; exact carried
      | some d =>
        rw [getDebugLoc_some realpath located]
        intro kept
        refine own _ ?_
        rw [ownLocations_cons_some realpath located, if_neg (by simp [kept])]
        exact List.mem_cons_self _ _
    have later : ∀ x ∈ ownLocations realpath rest, x ∈ S := fun x mem =>
      own x ((((List.sublist_cons_self i rest).filterMap _).filter _).subset mem)
    rw [classifiedLocations_cons]
    dsimp only
    split_ifs with skipped
    · exact ih _ (fun kept => next kept) later
    · intro x mem
      rcases List.mem_cons.mp mem with rfl | mem
      · exact next (by simpa using skipped)
      · exact ih _ (fun kept => next kept) later x mem

theorem ownLocations_eq_append_cons {insts : List Instruction} {pre post : List (String × UInt32)}
    {loc : String × UInt32} (split : ownLocations realpath insts = pre ++ loc :: post) :
    ∃ before i after d, insts = before ++ i :: after ∧ i.debugLoc = some d ∧
      locationOf realpath d = loc ∧ skipsLocation loc.1 loc.2 = false ∧
      ownLocations realpath after = post := by
  induction insts generalizing pre with
  | nil => simp [ownLocations] at split
  | cons i rest ih =>
    cases located : i.debugLoc with
    | none =>
      rw [ownLocations_cons_none realpath located] at split
      obtain ⟨before, i', after, d, rfl, rest⟩ := ih split
      exact ⟨i :: before, i', after, d, rfl, rest⟩
    | some d =>
      rw [ownLocations_cons_some realpath located] at split
      split_ifs at split with skipped
      · obtain ⟨before, i', after, d', rfl, rest⟩ := ih split
        exact ⟨i :: before, i', after, d', rfl, rest⟩
      · cases pre with
        | nil =>
          obtain ⟨rfl, rfl⟩ := List.cons.inj split
          exact ⟨[], i, rest, d, rfl, located, rfl, by simpa using skipped, rfl⟩
        | cons x pre =>
          obtain ⟨before, i', after, d', rfl, rest⟩ := ih (List.cons.inj split).2
          exact ⟨i :: before, i', after, d', rfl, rest⟩

end

section
variable {realpath : String → Option String} {bb : BasicBlock}

theorem classifiedLocations_of_entered {loc : String × UInt32}
    (entered : ∀ i ∈ bb.instructions.head?, i.debugLoc = none → skipsLocation loc.1 loc.2 = true) :
    classifiedLocations realpath loc bb.instructions = classifiedLocations realpath ("", 0) bb.instructions := by
  obtain ⟨insts⟩ := bb
  cases insts with
  | nil => rfl
  | cons i rest =>
    cases located : i.debugLoc with
    | none => exact @classifiedLocations_of_skipped realpath _ ("", 0) (entered i rfl located) rfl _
    | some d => simp only [classifiedLocations_cons, getDebugLoc_some realpath located]

theorem classifiedLocations_lastConst (constTargets : ConstTargets) {loc : String × UInt32}
    (last : LastConst constTargets (ownLocations realpath bb.instructions) loc) :
    LastConst constTargets (classifiedLocations realpath ("", 0) bb.instructions) loc := by
  obtain ⟨pre, post, split, later⟩ := last
  obtain ⟨before, i, after, d, insts, located, resolved, kept, rest⟩ :=
    ownLocations_eq_append_cons realpath split
  have atLoc : classifiedLocations realpath (lastLocation realpath ("", 0) before) (i :: after) =
      loc :: classifiedLocations realpath loc after := by
    rw [classifiedLocations_cons, getDebugLoc_some realpath located, resolved, if_neg (by simp [kept])]
  refine ⟨classifiedLocations realpath ("", 0) before, classifiedLocations realpath loc after,
    by rw [insts, classifiedLocations_append, atLoc], fun x mem => ?_⟩
  have within := @classifiedLocations_subset realpath (loc :: post) after loc
    (fun _ => List.mem_cons_self _ _) (fun x mem => rest ▸ List.mem_cons_of_mem _ mem) x mem
  rcases List.mem_cons.mp within with rfl | later'
  · exact .inl rfl
  · exact later x later'

/-- The constant key a block step takes, in a `OneFile` block entered at a location the block
does not classify. -/
theorem scanBlock_constKey {targets : TargetState} (loaded : Loaded targets) (l : Locals)
    (oneFile : OneFile realpath bb)
    (entered : ∀ i ∈ bb.instructions.head?, i.debugLoc = none → skipsLocation l.filename l.line = true) :
    let scan := scanBlock realpath targets l bb
    let own := ownLocations realpath bb.instructions
    (scan.isTargetConstEvent = true →
      (scan.filename, scan.constLine) ∈ own ∧ (targets.constTargets scan.filename scan.constLine).isSome) ∧
    ∀ loc, LastConst targets.constTargets own loc → loc ∉ targets.blockTargets →
      (targets.constTargets loc.1 loc.2).isSome →
        scan.isTargetConstEvent = true ∧ (scan.filename, scan.constLine) = loc := by
  intro scan own
  have folded : (scan.isTargetConstEvent, scan.constLine) =
      constFold targets.constTargets targets.blockTargets (false, l.constLine)
        (classifiedLocations realpath ("", 0) bb.instructions) := by
    rw [← @classifiedLocations_of_entered realpath bb (l.filename, l.line) entered]
    exact scan_const bb.instructions loaded
  have infile : ∀ loc ∈ own, scan.filename = loc.1 := fun loc mem => by
    obtain ⟨i, mem', resolved⟩ := List.mem_filterMap.mp (List.mem_filter.mp mem).1
    have located : ∃ i ∈ bb.instructions, i.debugLoc.isSome :=
      ⟨i, mem', by cases h : i.debugLoc <;> simp_all⟩
    rw [oneFile loc mem, ← lastLocation_of_located realpath located (l.filename, l.line)]
    exact congrArg Prod.fst (scan_location bb.instructions (Scan.start targets l))
  constructor
  · intro flagged
    rcases constFold_sound targets.constTargets targets.blockTargets (false, l.constLine)
        (classifiedLocations realpath ("", 0) bb.instructions) with unset | ⟨loc, mem, result, const⟩
    · rw [← folded] at unset; simp [flagged] at unset
    · rw [← folded, Prod.mk.injEq] at result
      have mine := classifiedLocations_subset realpath bb.instructions ("", 0)
        (fun kept => absurd kept (by decide)) (fun _ => id) loc mem
      rw [infile loc mine, result.2]
      exact ⟨mine, const⟩
  · intro loc last unblocked const
    have result := folded.trans (constFold_of_lastConst _ (classifiedLocations_lastConst _ last)
      unblocked const _)
    rw [Prod.mk.injEq] at result
    obtain ⟨pre, post, split, -⟩ := last
    rw [result.2, infile loc (split ▸ List.mem_append_right _ (List.mem_cons_self _ _))]
    exact ⟨result.1, rfl⟩

end

/-! ### Each key is instrumented once -/

/-- The constant calls of a run carry distinct keys, exactly the keys marked instrumented. -/
structure ConstKeys (e : EventState) : Prop where
  aligned : e.probes.length = e.bbToID.length
  nodup : ((constCalls e).map ConstCall.key).Nodup
  instrumented : ∀ key, key ∈ (constCalls e).map ConstCall.key ↔ key ∈ e.instrumentedConstTargets

theorem constKeys_init (targets : TargetState) (c : UInt16) :
    ConstKeys (PassState.init targets c).events :=
  ⟨rfl, List.nodup_nil, by simp [constCalls, PassState.init]⟩

theorem ConstKeys.frame {e e' : EventState} (keys : ConstKeys e) (probes : e'.probes = e.probes)
    (records : e'.bbToID = e.bbToID)
    (instrumented : e'.instrumentedConstTargets = e.instrumentedConstTargets) : ConstKeys e' := by
  have calls : constCalls e' = constCalls e := by simp only [constCalls, probes, records]
  exact ⟨by rw [probes, records]; exact keys.aligned, calls ▸ keys.nodup,
    fun key => by rw [calls, instrumented]; exact keys.instrumented key⟩

theorem ConstKeys.recordEvent {e : EventState} (keys : ConstKeys e) (fn j : Nat)
    {call : UInt16 → ProbeCall} {record : UInt16 → LogRecord}
    (other : constCallOf ⟨fn, j, call e.idCounter⟩ (record e.idCounter) = none) :
    ConstKeys (e.recordEvent fn j call record) := by
  have calls := constCalls_recordEvent keys.aligned fn j call record
  rw [other, Option.toList_none, List.append_nil] at calls
  exact ⟨by simp [keys.aligned], calls ▸ keys.nodup,
    fun key => by rw [calls]; exact keys.instrumented key⟩

theorem constKeys_blockEvents (fn j : Nat) (scan : Scan) (l : Locals) {e : EventState}
    (keys : ConstKeys e) : ConstKeys (blockEvents fn j scan l e) := by
  obtain ⟨aligned, -, instrumented, calls⟩ := blockEvents_const fn j scan l e keys.aligned
  by_cases fresh : scan.isTargetConstEvent = true ∧ (l.filename, l.constLine) ∉ e.instrumentedConstTargets
  · rw [if_pos fresh] at calls
    rw [if_pos fresh.1] at instrumented
    have unseen : (l.filename, l.constLine) ∉ (constCalls e).map ConstCall.key :=
      fun mem => fresh.2 ((keys.instrumented _).mp mem)
    refine ⟨aligned, ?_, fun key => ?_⟩
    · rw [calls, List.map_append]
      exact keys.nodup.append (List.nodup_singleton _) (List.disjoint_singleton.mpr unseen)
    · rw [calls, instrumented, List.map_append, List.mem_append, keys.instrumented, Finset.mem_insert]
      simp [ConstCall.key, or_comm]
  · rw [if_neg fresh, List.append_nil] at calls
    have same : (blockEvents fn j scan l e).instrumentedConstTargets = e.instrumentedConstTargets := by
      rw [instrumented]
      split_ifs with flagged
      · exact Finset.insert_eq_of_mem (by_contra fun unseen => fresh ⟨flagged, unseen⟩)
      · rfl
    exact ⟨aligned, calls ▸ keys.nodup, fun key => by rw [calls, same]; exact keys.instrumented key⟩

theorem constKeys_runBlock (env : Env) (F : Function) (fn j : Nat) (bb : BasicBlock)
    (p : PassState × Locals) (keys : ConstKeys p.1.events) :
    ConstKeys (runBlock env F fn p j bb).1.events :=
  runBlock_preserves env ConstKeys (fun _ _ keys => keys.frame rfl rfl rfl)
    (fun _ _ _ _ _ => constKeys_blockEvents _ _ _ _) F fn j bb p keys

theorem constKeys_runFunctions (env : Env) (functions : List Function) (fn : Nat) {s : PassState}
    (keys : ConstKeys s.events) : ConstKeys (runFunctions env fn functions s).events :=
  runFunctions_preserves env ConstKeys (fun _ _ keys => keys.frame rfl rfl rfl)
    (fun _ _ _ _ _ => constKeys_blockEvents _ _ _ _) (fun _ fn _ _ keys => keys.recordEvent fn 0 rfl)
    functions fn keys

/-! ### Single-file blocks -/

theorem constTargetsAt_of_some {constTargets : ConstTargets} {filename : String} {line : UInt32}
    {name : String} (found : constTargets filename line = some name) :
    constTargetsAt constTargets filename line = (name, constTargets) := by
  simp [constTargetsAt, found]

/-- What a stretch of a run over the blocks `sites` did to the constant targets loaded as `t₀`. -/
structure ConstTracks (t₀ : TargetState) (sites : List BlockSites) (e : EventState) : Prop where
  loaded : Loaded e.targets
  blockTargets : e.targets.blockTargets ⊆ t₀.blockTargets
  constTargets : e.targets.constTargets = t₀.constTargets
  calls : ∀ call ∈ constCalls e, t₀.constTargets call.filename call.line = some call.name ∧
    ∃ b ∈ sites, b.tag = (call.function, call.block) ∧ call.key ∈ b.locations
  complete : ∀ loc, loc ∉ t₀.blockTargets → (t₀.constTargets loc.1 loc.2).isSome →
    (∃ b ∈ sites, LastConst t₀.constTargets b.locations loc) → loc ∈ e.instrumentedConstTargets

section
variable (env : Env) (F : Function) (fn : Nat) {t₀ : TargetState}

theorem runBlock_location {p : PassState × Locals} (j : Nat) (bb : BasicBlock)
    (live : p.1.fault = none) :
    ((runBlock env F fn p j bb).2.filename, (runBlock env F fn p j bb).2.line) =
      lastLocation env.realpath (p.2.filename, p.2.line) bb.instructions := by
  obtain ⟨blocks, locals⟩ := runBlock_locals env F fn j bb live
  rw [locals]
  exact scan_location _ _

theorem constTracks_runBlock {p : PassState × Locals} (j : Nat) (bb : BasicBlock)
    (live : (runBlock env F fn p j bb).1.fault = none) (keys : ConstKeys p.1.events)
    (settled : Settled p) {sites : List BlockSites} (tracks : ConstTracks t₀ sites p.1.events)
    (oneFile : OneFile env.realpath bb)
    (entered : ∀ i ∈ bb.instructions.head?, i.debugLoc = none →
      skipsLocation p.2.filename p.2.line = true) :
    ConstTracks t₀ (sites ++ [⟨fn, j, ownLocations env.realpath bb.instructions⟩])
      (runBlock env F fn p j bb).1.events := by
  obtain ⟨consumes, -, -⟩ := consumes_runBlock env F fn j bb live tracks.loaded settled
  have events := runBlock_events_of_live env F fn j bb live
  set scan := scanBlock env.realpath p.1.events.targets p.2 bb
  obtain ⟨flagged, last⟩ := scanBlock_constKey tracks.loaded p.2 oneFile entered
  rw [tracks.constTargets] at flagged last
  have scanned : scan.targets.constTargets = t₀.constTargets :=
    (congrArg TargetState.constTargets (scanBlock_of_loaded env.realpath tracks.loaded p.2 bb).1).trans
      tracks.constTargets
  obtain ⟨-, constTargets, instrumented, calls⟩ :=
    blockEvents_const fn j scan (scan.locals p.2) { p.1.events with targets := scan.targets } keys.aligned
  have grown : p.1.events.instrumentedConstTargets ⊆ (runBlock env F fn p j bb).1.events.instrumentedConstTargets := by
    rw [events, instrumented]; split_ifs
    · exact Finset.subset_insert _ _
    · exact subset_rfl
  refine ⟨consumes.loaded, ?_, ?_, ?_, ?_⟩
  · rw [consumes.blockTargets]; exact Finset.sdiff_subset.trans tracks.blockTargets
  · rw [events, constTargets]
    split_ifs with fresh
    · obtain ⟨name, found⟩ := Option.isSome_iff_exists.mp (flagged fresh.1).2
      simp only [Scan.locals, scanned, constTargetsAt_of_some found]
    · exact scanned
  · rw [events, calls]
    intro call mem
    rcases List.mem_append.mp mem with earlier | new
    · obtain ⟨named, b, site, tagged, at_key⟩ := tracks.calls call earlier
      exact ⟨named, b, List.mem_append_left _ site, tagged, at_key⟩
    · split_ifs at new with fresh
      · obtain ⟨own, const⟩ := flagged fresh.1
        obtain ⟨name, found⟩ := Option.isSome_iff_exists.mp const
        rw [List.mem_singleton.mp new]
        simp only [Scan.locals, scanned, constTargetsAt_of_some found]
        exact ⟨found, _, List.mem_append_right _ (List.mem_singleton_self _), rfl, own⟩
      · cases new
  · intro loc unblocked const ⟨b, site, ends⟩
    rcases List.mem_append.mp site with earlier | here
    · exact grown (tracks.complete loc unblocked const ⟨b, earlier, ends⟩)
    · rw [List.mem_singleton.mp here] at ends
      obtain ⟨flag, key⟩ := last loc ends (fun mem => unblocked (tracks.blockTargets mem)) const
      rw [events, instrumented, if_pos flag]
      exact key ▸ Finset.mem_insert_self _ _

/-- Over the block loop of a function whose blocks are `OneFile` and open with a located
instruction once one has been seen; until then the loop carries `("", 0)`. -/
theorem constTracks_runBlocks (blocks : List BasicBlock) (j : Nat) {p : PassState × Locals}
    (live : (runBlocks env F fn j blocks p).1.fault = none) (keys : ConstKeys p.1.events)
    (settled : Settled p) {sites : List BlockSites} (tracks : ConstTracks t₀ sites p.1.events)
    {seen : Bool} (heads : locatedHeads seen blocks = true)
    (fresh : seen = false → (p.2.filename, p.2.line) = ("", 0))
    (oneFile : ∀ bb ∈ blocks, OneFile env.realpath bb) :
    ConstTracks t₀ (sites ++ blockSites env.realpath fn j blocks) (runBlocks env F fn j blocks p).1.events := by
  induction blocks generalizing j p sites seen with
  | nil => simpa [blockSites] using tracks
  | cons bb rest ih =>
    have stepLive := runBlocks_live env F fn rest (j + 1) live
    rw [locatedHeads, Bool.and_eq_true] at heads
    have entered : ∀ i ∈ bb.instructions.head?, i.debugLoc = none →
        skipsLocation p.2.filename p.2.line = true := fun i first unlocated => by
      have unseen : seen = false := by
        rw [Option.mem_def] at first
        cases seen
        · rfl
        · simp [first, unlocated] at heads
      obtain ⟨filename, line⟩ := Prod.mk.inj (fresh unseen)
      rw [filename, line]
      rfl
    have step := constTracks_runBlock env F fn j bb stepLive keys settled tracks
      (oneFile bb (List.mem_cons_self _ _)) entered
    have settled' := (consumes_runBlock env F fn j bb stepLive tracks.loaded settled).2.1
    have fresh' : (seen || bb.instructions.any (·.debugLoc.isSome)) = false →
        ((runBlock env F fn p j bb).2.filename, (runBlock env F fn p j bb).2.line) = ("", 0) :=
      fun unseen => by
        rw [Bool.or_eq_false_iff] at unseen
        rw [runBlock_location env F fn j bb (runBlock_live env F fn j bb stepLive),
          lastLocation_of_unlocated env.realpath unseen.2]
        exact fresh unseen.1
    have := ih (j + 1) live (constKeys_runBlock env F fn j bb p keys) settled' step heads.2 fresh'
      fun bb mem => oneFile bb (List.mem_cons_of_mem _ mem)
    rwa [List.append_assoc] at this

end

theorem constTracks_runFunctions (env : Env) {t₀ : TargetState} (functions : List Function)
    (fn : Nat) {s : PassState} (live : (runFunctions env fn functions s).fault = none)
    (keys : ConstKeys s.events) {sites : List BlockSites} (tracks : ConstTracks t₀ sites s.events)
    (single : ∀ F ∈ functions, locatedHeads false F.blocks = true ∧
      ∀ bb ∈ F.blocks, OneFile env.realpath bb) :
    ConstTracks t₀ (sites ++ functionSites env.realpath fn functions)
      (runFunctions env fn functions s).events := by
  induction functions generalizing fn s sites with
  | nil => simpa [functionSites] using tracks
  | cons F rest ih =>
    have functionLive := runFunctions_live env rest (fn + 1) live
    have blocksLive := functionEvent_live env F fn (runFunction_live env F fn functionLive)
    have settled : Settled (s, Locals.init) :=
      fun kept => absurd kept (show skipsLocation "" 0 ≠ false by decide)
    obtain ⟨-, untargeted⟩ := consumes_runBlocks env F fn F.blocks 0 blocksLive tracks.loaded settled
    obtain ⟨heads, oneFile⟩ := single F (List.mem_cons_self _ _)
    have first := constTracks_runBlocks env F fn F.blocks 0 blocksLive keys settled tracks heads
      (fun _ => rfl) oneFile
    rw [← functionEvent_of_not_target env F fn untargeted, ← runFunction_events] at first
    have := ih (fn + 1) live
      (constKeys_runFunctions env [F] fn keys) first fun F mem => single F (List.mem_cons_of_mem _ mem)
    rwa [functionSites, ← List.append_assoc]

/-! ### A whole run -/

/-- A constant line followed in its block by an instruction inlined from a header: the key
takes the header's name, and the lookup adds it to the constant targets with the name `""`. -/
theorem instrumentModule_adds_const_key :
    let env : Env := ⟨fun _ => none, fun _ => 0, false, 0, 65536, fun _ => none, fun _ => none⟩
    let targets : TargetState := ⟨∅, ∅, ∅,
      fun f l => if f = "/src/a.c" ∧ l = 20 then some "MAX_RETRIES" else none⟩
    let M : Module := ⟨[⟨"main", [], [⟨[⟨.other "add", some ⟨20, "/src/a.c", "", none⟩⟩,
      ⟨.other "ret", some ⟨3, "/src/a.h", "", none⟩⟩]⟩]⟩]⟩
    let out := instrumentModule env targets M 0
    targets.constTargets "/src/a.h" 20 = none ∧
      out.events.targets.constTargets "/src/a.h" 20 = some "" ∧
      constCalls out.events = [⟨0, 0, "/src/a.h", 20, ""⟩] := by
  decide

end Abstraktor.Pass
