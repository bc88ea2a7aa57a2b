import Mathlib.Data.UInt
import Abstraktor.Pass.Traversal

/-!
# Event IDs from the shared counter: consecutive over a run, modulo 2^16 (`CountsFrom`)
-/

namespace Abstraktor.Pass
open Ir

def idsFrom (c : UInt16) (n : Nat) : List UInt16 :=
  (List.range n).map fun k => c + UInt16.ofNat k

theorem ofNat_add (a b : Nat) : UInt16.ofNat a + UInt16.ofNat b = UInt16.ofNat (a + b) := by
  apply UInt16.toNat.inj
  simp [UInt16.toNat, UInt16.ofNat, UInt16.add_def, BitVec.toNat_add]

theorem ofNat_succ (c : UInt16) (n : Nat) :
    c + UInt16.ofNat (n + 1) = c + UInt16.ofNat n + 1 := by
  rw [← ofNat_add, add_assoc]; rfl

theorem idsFrom_succ (c : UInt16) (n : Nat) :
    idsFrom c (n + 1) = idsFrom c n ++ [c + UInt16.ofNat n] := by
  simp [idsFrom, List.range_succ]

theorem idsFrom_add (c : UInt16) (n m : Nat) :
    idsFrom c (n + m) = idsFrom c n ++ idsFrom (c + UInt16.ofNat n) m := by
  induction m with
  | zero => simp [idsFrom]
  | succ m ih =>
    rw [← Nat.add_assoc, idsFrom_succ, ih, idsFrom_succ, add_assoc, ofNat_add, List.append_assoc]

theorem idsFrom_nodup (c : UInt16) {n : Nat} (fits : n ≤ 2 ^ 16) : (idsFrom c n).Nodup := by
  refine List.Nodup.map_on (fun i hi k hk same => ?_) (List.nodup_range n)
  have := congrArg UInt16.toNat (add_left_cancel same)
  simp only [UInt16.toNat, UInt16.ofNat, BitVec.toNat_ofNat] at this
  simp only [List.mem_range] at hi hk
  omega

/-- The counter's invariant over a run started at `c`. -/
structure CountsFrom (c : UInt16) (e : EventState) : Prop where
  probes : e.probes.map (·.call.evtID) = idsFrom c e.probes.length
  counter : e.idCounter = c + UInt16.ofNat e.probes.length
  records : e.bbToID.map (·.evtID) = e.probes.map (·.call.evtID)

theorem countsFrom_init (c : UInt16) (targets : TargetState) :
    CountsFrom c (PassState.init targets c).events :=
  ⟨rfl, UInt16.toNat.inj (by simp [PassState.init, UInt16.toNat, UInt16.ofNat]), rfl⟩

section
variable {c : UInt16} {e : EventState}

theorem CountsFrom.frame (counts : CountsFrom c e) {e' : EventState} (probes : e'.probes = e.probes)
    (counter : e'.idCounter = e.idCounter) (records : e'.bbToID = e.bbToID) : CountsFrom c e' :=
  ⟨by rw [probes]; exact counts.1, by rw [probes, counter]; exact counts.2,
    by rw [records, probes]; exact counts.3⟩

theorem countsFrom_recordEvent (counts : CountsFrom c e) (fn block : Nat)
    {call : UInt16 → ProbeCall} {record : UInt16 → LogRecord}
    (called : ∀ evtID, (call evtID).evtID = evtID) (recorded : ∀ evtID, (record evtID).evtID = evtID) :
    CountsFrom c (e.recordEvent fn block call record) where
  probes := by
    simp [counts.probes, idsFrom_succ, called, counts.counter]
  counter := by simp [counts.counter, ofNat_succ]
  records := by simp [counts.records, called, recorded]

theorem countsFrom_constEvent (counts : CountsFrom c e) (fn j : Nat) (filename : String)
    (constLine : UInt32) : CountsFrom c (constEvent fn j filename constLine e) := by
  by_cases seen : (filename, constLine) ∈ e.instrumentedConstTargets
  · rw [constEvent_of_mem fn j seen]; exact counts
  · rw [constEvent_of_not_mem fn j seen]; dsimp only
    apply countsFrom_recordEvent
    · exact counts.frame rfl rfl rfl
    all_goals intro; rfl

theorem countsFrom_blockEvents (counts : CountsFrom c e) (fn j : Nat) (scan : Scan) (l : Locals) :
    CountsFrom c (blockEvents fn j scan l e) :=
  blockEvents_rel fn j l (fun e e' => CountsFrom c e → CountsFrom c e') (fun _ => id)
    (fun first second => second ∘ first)
    (fun _ counts => countsFrom_recordEvent counts fn j (fun _ => rfl) (fun _ => rfl))
    (fun _ counts => countsFrom_constEvent counts fn j _ _) scan e counts

end

/-! ### The whole traversal keeps the invariant -/

theorem countsFrom_instrumentModule (env : Env) (targets : TargetState) (M : Module) (c : UInt16) :
    CountsFrom c (instrumentModule env targets M c).events :=
  runFunctions_preserves env (CountsFrom c) (fun _ _ counts => counts.frame rfl rfl rfl)
    (fun fn j scan l _ counts => countsFrom_blockEvents counts fn j scan l)
    (fun _ fn _ recorded counts => countsFrom_recordEvent counts fn 0 (fun _ => rfl) recorded)
    _ _ (countsFrom_init c targets)

theorem countsFrom_runOnModule (env : Env) (file : TargetsFile) (M : Module) (c : UInt16) :
    CountsFrom c (runOnModule env file M c).events := by
  unfold runOnModule
  split
  · exact countsFrom_instrumentModule env _ _ c
  · exact countsFrom_init c _

/-! ### Runs one after another -/

/-- Runs of the pass one after another over the same counter: the probe calls and `BB2ID.txt`
lines of all of them in order, and the counter after the last. -/
def runSequence : UInt16 → List (Env × TargetsFile × Module) → List Probe × List LogRecord × UInt16
  | c, [] => ([], [], c)
  | c, run :: rest =>
    let e := (runOnModule run.1 run.2.1 run.2.2 c).events
    let later := runSequence e.idCounter rest
    (e.probes ++ later.1, e.bbToID ++ later.2.1, later.2.2)

/-- Over runs sharing the counter from `c`, the `k`-th probe call and its record carry
`c + k` modulo 2^16. -/
theorem runSequence_event_ids (runs : List (Env × TargetsFile × Module)) (c : UInt16) :
    let result := runSequence c runs
    result.1.map (·.call.evtID) = idsFrom c result.1.length ∧
      result.2.2 = c + UInt16.ofNat result.1.length ∧
      result.2.1.map (·.evtID) = result.1.map (·.call.evtID) ∧
      (result.1.length ≤ 2 ^ 16 → (result.1.map (·.call.evtID)).Nodup) := by
  suffices consecutive : ∀ c, (runSequence c runs).1.map (·.call.evtID) =
      idsFrom c (runSequence c runs).1.length ∧
      (runSequence c runs).2.2 = c + UInt16.ofNat (runSequence c runs).1.length ∧
      (runSequence c runs).2.1.map (·.evtID) = (runSequence c runs).1.map (·.call.evtID) by
    obtain ⟨ids, counter, records⟩ := consecutive c
    exact ⟨ids, counter, records, fun fits => ids ▸ idsFrom_nodup c fits⟩
  induction runs with
  | nil => intro c; simp [runSequence, idsFrom, UInt16.ofNat]
  | cons run rest ih =>
    intro c
    have counts := countsFrom_runOnModule run.1 run.2.1 run.2.2 c
    obtain ⟨ids, counter, records⟩ := ih (runOnModule run.1 run.2.1 run.2.2 c).events.idCounter
    rw [counts.counter] at ids counter records
    simp only [runSequence, counts.counter]
    refine ⟨?_, ?_, ?_⟩
    · rw [List.map_append, List.length_append, idsFrom_add, counts.probes, ids]
    · rw [List.length_append, counter, add_assoc, ofNat_add]
    · rw [List.map_append, List.map_append, counts.records, records]

end Abstraktor.Pass
