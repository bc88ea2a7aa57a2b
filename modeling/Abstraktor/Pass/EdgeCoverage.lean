import Abstraktor.Pass.Execution
import Abstraktor.Pass.Rewrite

/-!
# The edge-coverage update of `USE_TRADITIONAL_BRANCH` at run time
-/

namespace Abstraktor.Pass
open Ir

/-! ### The update -/

/-- The map offset of the edge into the block at `curLoc`. -/
def edgeIndex (prevLoc : UInt32) (curLoc : Nat) : Int :=
  signExtend32 (prevLoc.toNat ^^^ curLoc % 2 ^ 32)

/-- AFL's edge update: `shared_mem[cur_location ^ prev_location]++;
prev_location = cur_location >> 1;`. -/
def edgeUpdate (σ : Coverage) (curLoc : Nat) : Coverage :=
  let i := edgeIndex σ.prevLoc curLoc
  ⟨UInt32.ofNat (curLoc / 2), Function.update σ.area i (σ.area i + 1)⟩

@[simp] theorem edgeUpdate_prevLoc (σ : Coverage) (curLoc : Nat) :
    (edgeUpdate σ curLoc).prevLoc = UInt32.ofNat (curLoc / 2) := rfl

@[simp] theorem edgeUpdate_area (σ : Coverage) (curLoc : Nat) :
    (edgeUpdate σ curLoc).area = Function.update σ.area (edgeIndex σ.prevLoc curLoc)
      (σ.area (edgeIndex σ.prevLoc curLoc) + 1) := rfl

theorem uint8_ofNat_succ (a : UInt8) : UInt8.ofNat ((a.toNat + 1) % 2 ^ 8) = a + 1 := by
  apply UInt8.eq_of_toBitVec_eq
  apply BitVec.eq_of_toNat_eq
  show (a.toNat + 1) % 2 ^ 8 % 2 ^ 8 = (a.toBitVec.toNat + 1 % 2 ^ 8) % 2 ^ 8
  simp [UInt8.toNat]

theorem uint32_ofNat_mod (n : Nat) : UInt32.ofNat (n % 2 ^ 32) = UInt32.ofNat n := by
  apply UInt32.eq_of_toBitVec_eq
  apply BitVec.eq_of_toNat_eq
  show n % 2 ^ 32 % 2 ^ 32 = n % 2 ^ 32
  exact Nat.mod_mod _ _

theorem getElem?_append_length (values extra : List Value) (i : Nat) :
    (values ++ extra)[values.length + i]? = extra[i]? := by
  simp [List.getElem?_append_right]

theorem getElem?_append_length_zero (values extra : List Value) :
    (values ++ extra)[values.length]? = extra[0]? := by
  simpa using getElem?_append_length values extra 0

/-- The eight instructions `edgeCoverage` creates, after any others, perform AFL's edge update
and change nothing else. -/
theorem execOps_edgeCoverage (mem : Memory) (args : List Value) (s : Machine) (values : List Value)
    (curLoc : Nat) :
    (execOps mem args (s, values) (edgeCoverage values.length curLoc)).map Prod.fst =
      some { s with coverage := edgeUpdate s.coverage curLoc } := by
  simp only [edgeCoverage, execOps, execCreated, execLoad, execStore, execGep, operandValue, List.append_assoc,
    List.singleton_append, List.cons_append, getElem?_append_length, getElem?_append_length_zero,
    List.nil_append, List.getElem?_cons_succ, List.getElem?_cons_zero, Option.map_some',
    Int.zero_add, show 1 % 2 ^ 8 = 1 from rfl, uint8_ofNat_succ, uint32_ofNat_mod]
  rfl

example : (execOps ⟨fun _ _ _ => 0, fun _ => none⟩ [] (⟨⟨0, fun _ => 0⟩, []⟩, [])
    (edgeCoverage 0 5)).map (fun r => (r.1.coverage.prevLoc, r.1.coverage.area 5,
      r.1.coverage.area 4)) = some (2, 1, 0) := by decide

/-! ### Paths through instrumented blocks -/

def edgeIndices (prevLoc : UInt32) : List Nat → List Int
  | [] => []
  | curLoc :: path => edgeIndex prevLoc curLoc :: edgeIndices (UInt32.ofNat (curLoc / 2)) path

theorem uint8_toNat_add_one (a : UInt8) : (a + 1).toNat = (a.toNat + 1) % 2 ^ 8 := rfl

/-- Each byte of the map counts, modulo 256, the edges of the path that hash to it. -/
theorem foldl_edgeUpdate_area (path : List Nat) (σ : Coverage) (offset : Int) :
    ((path.foldl edgeUpdate σ).area offset).toNat =
      ((σ.area offset).toNat + (edgeIndices σ.prevLoc path).count offset) % 2 ^ 8 := by
  induction path generalizing σ with
  | nil => exact (Nat.mod_eq_of_lt (UInt8.toNat_lt_size _)).symm
  | cons curLoc path ih =>
    rw [List.foldl_cons, ih, edgeUpdate_prevLoc, edgeUpdate_area, edgeIndices, List.count_cons]
    by_cases hit : offset = edgeIndex σ.prevLoc curLoc
    · subst hit
      simp only [Function.update_same, uint8_toNat_add_one, beq_self_eq_true, ↓reduceIte]
      omega
    · simp only [Function.update_noteq hit, beq_iff_eq, Ne.symm hit, ↓reduceIte, Nat.add_zero]

section
variable {k : Nat} (small : k ≤ 31)
include small

/-- Below `2 ^ k`, the offset is `prev_loc ^ cur_loc` itself, neither truncated nor made
negative by the sign extension, and it stays below `2 ^ k`. -/
theorem edgeIndex_eq_xor {prevLoc : UInt32} {curLoc : Nat} (prev : prevLoc.toNat < 2 ^ k)
    (cur : curLoc < 2 ^ k) :
    edgeIndex prevLoc curLoc = ((prevLoc.toNat ^^^ curLoc : Nat) : Int) ∧
      prevLoc.toNat ^^^ curLoc < 2 ^ k := by
  have bound : 2 ^ k ≤ 2 ^ 31 := Nat.pow_le_pow_right (by decide) small
  have hashed : prevLoc.toNat ^^^ curLoc < 2 ^ k := Nat.xor_lt_two_pow prev cur
  unfold edgeIndex signExtend32
  rw [Nat.mod_eq_of_lt (by omega : curLoc < 2 ^ 32), if_pos (by omega)]
  exact ⟨rfl, hashed⟩

theorem edgeIndex_lt {prevLoc : UInt32} {curLoc : Nat} (prev : prevLoc.toNat < 2 ^ k)
    (cur : curLoc < 2 ^ k) : 0 ≤ edgeIndex prevLoc curLoc ∧ edgeIndex prevLoc curLoc < 2 ^ k := by
  obtain ⟨xor, hashed⟩ := edgeIndex_eq_xor small prev cur
  rw [xor]
  exact ⟨Int.ofNat_nonneg _, by exact_mod_cast hashed⟩

theorem prevLoc_lt {curLoc : Nat} (cur : curLoc < 2 ^ k) : (UInt32.ofNat (curLoc / 2)).toNat < 2 ^ k := by
  have bound : 2 ^ k ≤ 2 ^ 31 := Nat.pow_le_pow_right (by decide) small
  rw [UInt32.toNat_ofNat_of_lt (by show curLoc / 2 < 4294967296; omega)]
  omega

/-- Along a path of locations below `2 ^ k`, from a `prev_loc` below it, the bytes outside the
map are never written. -/
theorem foldl_edgeUpdate_outside {σ : Coverage} (prev : σ.prevLoc.toNat < 2 ^ k) {path : List Nat}
    (located : ∀ curLoc ∈ path, curLoc < 2 ^ k) {offset : Int}
    (outside : offset < 0 ∨ 2 ^ k ≤ offset) :
    (path.foldl edgeUpdate σ).area offset = σ.area offset := by
  induction path generalizing σ with
  | nil => rfl
  | cons curLoc path ih =>
    have cur := located curLoc (List.mem_cons_self _ _)
    have hit := edgeIndex_lt small prev cur
    rw [List.foldl_cons, ih (prevLoc_lt small cur) fun c mem => located c (List.mem_cons_of_mem _ mem),
      edgeUpdate_area, Function.update_noteq (by omega)]

end

/-- Two blocks at locations 5 and 7 under a 2^16-byte map leave the byte before the map alone. -/
theorem foldl_edgeUpdate_outside_two_blocks :
    (0 : UInt32).toNat < 2 ^ 16 ∧ (∀ curLoc ∈ [5, 7], curLoc < 2 ^ 16) ∧
      (([5, 7] : List Nat).foldl edgeUpdate ⟨0, fun _ => 0⟩).area (-1) = 0 :=
  have located : ∀ curLoc ∈ [5, 7], curLoc < 2 ^ 16 := by decide
  ⟨by decide, located,
    foldl_edgeUpdate_outside (show 16 ≤ 31 by decide) (by decide) located (by decide)⟩

/-! ### What the pass inserts -/

/-- `bb'` is `bb` with created instructions inserted at its first insertion point, the last of
them the edge-coverage update of the location `AFL_R(MAP_SIZE)` drew, below `MAP_SIZE`. -/
def EdgeInstrumented (env : Env) (bb bb' : BasicBlock) : Prop :=
  ∃ ip created draws, bb.firstInsertionPt = some ip ∧ env.random draws % env.mapSize < env.mapSize ∧
    bb' = insertAt ip (created ++ edgeCoverage created.length (env.random draws % env.mapSize)) bb

/-- What the block loop makes of a block with `USE_TRADITIONAL_BRANCH` set: an edge-instrumented
block, or the block itself, which only a ratio below 100 allows. -/
def EdgeRewrite (env : Env) (bb bb' : BasicBlock) : Prop :=
  EdgeInstrumented env bb bb' ∨ (bb' = bb ∧ env.instRatio < 100)

section
variable (env : Env) (F : Function) (traditional : env.useTraditionalBranch = true)
  (nonempty : 0 < env.mapSize)
include traditional nonempty

theorem blockStep_edge {bb bb' : BasicBlock} (step : BlockStep env F bb bb') : EdgeRewrite env bb bb' := by
  rcases step with unselected | ⟨ip, projection, calls, tail, first, -, -, edge, rfl⟩
  · exact .inr unselected
  · rw [if_pos traditional] at edge
    obtain ⟨draws, rfl⟩ := edge
    exact .inl ⟨ip, _, draws, first, Nat.mod_lt _ nonempty, rfl⟩

end

end Abstraktor.Pass
