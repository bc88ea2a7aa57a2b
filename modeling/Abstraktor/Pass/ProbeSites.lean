import Abstraktor.Pass.Rewrite

/-!
# Where the logged probe calls sit in the rewritten module
-/

namespace Abstraktor.Pass
open Ir

theorem opcode_mem_insertAt {op : Opcode} {created : List Opcode} (mem : op ∈ created) (ip : Nat)
    (bb : BasicBlock) : op ∈ (insertAt ip created bb).instructions.map (·.opcode) := by
  obtain ⟨loc, instructions⟩ := insertAt_instructions ip created bb
  rw [instructions, List.map_append, List.map_append, List.map_map]
  exact List.mem_append_left _ (List.mem_append_right _ (by simpa using mem))

theorem getElem?_append_of_some {α : Type} {l : List α} {i : Nat} {a : α} (found : l[i]? = some a)
    (more : List α) : (l ++ more)[i]? = some a := by
  rw [List.getElem?_append_left (List.getElem?_eq_some_iff.mp found).1, found]

theorem getElem?_concat_some {α : Type} {l : List α} {a b : α} {i : Nat}
    (found : (l ++ [a])[i]? = some b) : (i < l.length ∧ l[i]? = some b) ∨ (i = l.length ∧ b = a) := by
  rcases Nat.lt_or_ge i l.length with before | after
  · exact .inl ⟨before, by rwa [List.getElem?_append_left before] at found⟩
  · have bound := (List.getElem?_eq_some_iff.mp found).1
    rw [List.length_append, List.length_singleton] at bound
    obtain rfl : i = l.length := by omega
    rw [List.getElem?_concat_length, Option.some_inj] at found
    exact .inr ⟨rfl, found.symm⟩

theorem drop_eq_cons {α : Type} {l rest : List α} {i : Nat} {a : α} (suffix : l.drop i = a :: rest) :
    l[i]? = some a ∧ l.drop (i + 1) = rest := by
  constructor
  · rw [← Nat.add_zero i, ← List.getElem?_drop, suffix, List.getElem?_cons_zero]
  · rw [← List.drop_drop 1 i, suffix]; rfl

/-! ### The calls recorded for one block -/

/-- The probe calls recorded for block `j` of function `fn`, in order. -/
def probesAt (probes : List Probe) (fn j : Nat) : List Probe :=
  probes.filter fun probe => probe.function == fn && probe.block == j

theorem probesAt_append (probes more : List Probe) (fn j : Nat) :
    probesAt (probes ++ more) fn j = probesAt probes fn j ++ probesAt more fn j :=
  List.filter_append _ _

theorem probesAt_of_tagged {probes : List Probe} {fn j : Nat}
    (tagged : ∀ probe ∈ probes, probe.function = fn ∧ probe.block = j) :
    probesAt probes fn j = probes :=
  List.filter_eq_self.mpr fun probe mem => by simp [tagged probe mem]

theorem probesAt_of_untagged {probes : List Probe} {fn j : Nat}
    (other : ∀ probe ∈ probes, probe.function ≠ fn ∨ probe.block ≠ j) : probesAt probes fn j = [] :=
  List.filter_eq_nil_iff.mpr fun probe mem => by rcases other probe mem with other | other <;> simp [other]

theorem probesAt_append_of_other {probes more : List Probe} {fn : Nat}
    (other : ∀ probe ∈ more, probe.function ≠ fn) : probesAt (probes ++ more) fn = probesAt probes fn :=
  funext fun j => by
    rw [probesAt_append, probesAt_of_untagged fun probe mem => .inl (other probe mem), List.append_nil]

theorem probesAt_of_other_append {probes more : List Probe} {fn : Nat}
    (other : ∀ probe ∈ probes, probe.function ≠ fn) : probesAt (probes ++ more) fn = probesAt more fn :=
  funext fun j => by
    rw [probesAt_append, probesAt_of_untagged fun probe mem => .inl (other probe mem), List.nil_append]

/-- `F'` rewrites `F` position by position: the same name, arguments and number of blocks, and
each block related to the original by `R` with the calls `calls j` of its position. -/
def RelatedAt (R : BasicBlock → BasicBlock → List Probe → Prop) (F F' : Function)
    (calls : Nat → List Probe) : Prop :=
  F'.name = F.name ∧ F'.args = F.args ∧ F'.blocks.length = F.blocks.length ∧
    ∀ j bb bb', F.blocks[j]? = some bb → F'.blocks[j]? = some bb' → R bb bb' (calls j)

/-- The block loop of `fn` after its first `j` blocks, from the calls `base`. -/
def BlocksRelated (R : BasicBlock → BasicBlock → List Probe → Prop) (F : Function) (fn j : Nat)
    (base : List Probe) (p : PassState × Locals) : Prop :=
  p.2.blocks.length = j ∧ ∃ more, p.1.events.probes = base ++ more ∧
    (∀ probe ∈ more, probe.function = fn ∧ probe.block < j) ∧
    ∀ k bb bb', F.blocks[k]? = some bb → p.2.blocks[k]? = some bb' → R bb bb' (probesAt more fn k)

/-- The function loop before function `fn`. -/
def FunctionsRelated (R : Function → BasicBlock → BasicBlock → List Probe → Prop)
    (functions : List Function) (fn : Nat) (s : PassState) : Prop :=
  s.functions.length = fn ∧
    (∀ probe ∈ s.events.probes, ∃ F' ∈ s.functions[probe.function]?, probe.block < F'.blocks.length) ∧
    ∀ i F F', functions[i]? = some F → s.functions[i]? = some F' →
      RelatedAt (R F) F F' (probesAt s.events.probes i)

section
variable (env : Env) (R : Function → BasicBlock → BasicBlock → List Probe → Prop)
  (step : ∀ F fn (p : PassState × Locals) j bb, (runBlock env F fn p j bb).1.fault = none →
    ∃ bb' new, (runBlock env F fn p j bb).2.blocks = p.2.blocks ++ [bb'] ∧
      (runBlock env F fn p j bb).1.events.probes = p.1.events.probes ++ new ∧
      (∀ probe ∈ new, probe.function = fn ∧ probe.block = j) ∧ R F bb bb' new)
include step

theorem runBlock_related {F : Function} {fn j : Nat} {base : List Probe} {p : PassState × Locals}
    {bb : BasicBlock} (current : F.blocks[j]? = some bb) (related : BlocksRelated (R F) F fn j base p)
    (live : (runBlock env F fn p j bb).1.fault = none) :
    BlocksRelated (R F) F fn (j + 1) base (runBlock env F fn p j bb) := by
  obtain ⟨length, more, probes, tags, rel⟩ := related
  obtain ⟨bb', new, appended, probes', tagged, stepped⟩ := step F fn p j bb live
  refine ⟨by rw [appended, List.length_append, length]; rfl, more ++ new,
    by rw [probes', probes, List.append_assoc], fun probe mem => ?_,
    fun k bbk bbk' original rewritten => ?_⟩
  · rcases List.mem_append.mp mem with old | fresh
    · exact ⟨(tags probe old).1, Nat.lt_succ_of_lt (tags probe old).2⟩
    · exact ⟨(tagged probe fresh).1, by rw [(tagged probe fresh).2]; exact Nat.lt_succ_self j⟩
  · rw [appended] at rewritten
    rw [probesAt_append]
    rcases getElem?_concat_some rewritten with ⟨before, rewritten⟩ | ⟨rfl, rfl⟩
    · rw [@probesAt_of_untagged new fn k fun probe mem => .inr (by rw [(tagged probe mem).2]; omega),
        List.append_nil]
      exact rel k bbk bbk' original rewritten
    · rw [length] at original ⊢
      rw [current, Option.some_inj] at original
      rw [@probesAt_of_untagged more fn j fun probe mem => .inr (Nat.ne_of_lt (tags probe mem).2),
        probesAt_of_tagged tagged, List.nil_append, ← original]
      exact stepped

theorem runBlocks_related (F : Function) (fn : Nat) (base : List Probe) :
    ∀ (blocks : List BasicBlock) (j : Nat) (p : PassState × Locals), F.blocks.drop j = blocks →
      BlocksRelated (R F) F fn j base p → (runBlocks env F fn j blocks p).1.fault = none →
      BlocksRelated (R F) F fn (j + blocks.length) base (runBlocks env F fn j blocks p)
  | [], _, _, _, related, _ => related
  | bb :: rest, j, p, suffix, related, live => by
    obtain ⟨current, later⟩ := drop_eq_cons suffix
    have := runBlocks_related F fn base rest (j + 1) _ later
      (runBlock_related env R step current related (runBlocks_live env F fn rest (j + 1) live)) live
    rwa [show j + (bb :: rest).length = j + 1 + rest.length by simp only [List.length_cons]; omega]

theorem runFunction_related {functions : List Function} {fn : Nat} {F : Function} {s : PassState}
    (current : functions[fn]? = some F) (loaded : Loaded s.events.targets)
    (related : FunctionsRelated R functions fn s) (live : (runFunction env s fn F).fault = none) :
    FunctionsRelated R functions (fn + 1) (runFunction env s fn F) := by
  obtain ⟨length, placed, rel⟩ := related
  rw [runFunction_of_loaded env F fn s loaded] at live ⊢
  set p := runBlocks env F fn 0 F.blocks (s, Locals.init)
  have blocksLive : p.1.fault = none := by dsimp only at live; split at live <;> exact live
  obtain ⟨blockCount, more, probes, tags, blocksRel⟩ :=
    runBlocks_related env R step F fn s.events.probes F.blocks 0 (s, Locals.init) rfl
      ⟨rfl, [], (List.append_nil _).symm, fun _ mem => (List.not_mem_nil _ mem).elim,
        fun _ _ _ _ empty => by simp [Locals.init] at empty⟩ blocksLive
  have functions : p.1.functions = s.functions := runBlocks_functions env F fn F.blocks 0 _
  have earlier : ∀ probe ∈ s.events.probes, probe.function < fn := fun probe mem =>
    let ⟨_, found, _⟩ := placed probe mem
    length ▸ (List.getElem?_eq_some_iff.mp found).1
  simp only [blocksLive, Option.isSome_none, Bool.false_eq_true, ↓reduceIte]
  refine ⟨by rw [List.length_append, functions, length]; rfl, fun probe mem => ?_,
    fun i G G' original rewritten => ?_⟩
  · rw [probes] at mem
    rw [functions]
    rcases List.mem_append.mp mem with old | fresh
    · obtain ⟨F', found, within⟩ := placed probe old
      exact ⟨F', getElem?_append_of_some found _, within⟩
    · refine ⟨{ F with blocks := p.2.blocks },
        by rw [(tags probe fresh).1, ← length]; exact List.getElem?_concat_length _ _, ?_⟩
      show probe.block < p.2.blocks.length
      rw [blockCount]; exact Nat.zero_add _ ▸ (tags probe fresh).2
  · show RelatedAt (R G) G G' (probesAt p.1.events.probes i)
    rw [functions] at rewritten
    rw [probes]
    rcases getElem?_concat_some rewritten with ⟨before, rewritten⟩ | ⟨rfl, rfl⟩
    · rw [probesAt_append_of_other fun probe mem => by rw [(tags probe mem).1]; omega]
      exact rel i G G' original rewritten
    · rw [length, current, Option.some_inj] at original
      subst original
      rw [length, probesAt_of_other_append fun probe mem => Nat.ne_of_lt (earlier probe mem)]
      exact ⟨rfl, rfl, blockCount.trans (Nat.zero_add _), blocksRel⟩

theorem runFunctions_related (functions : List Function) :
    ∀ (rest : List Function) (fn : Nat) (s : PassState), functions.drop fn = rest →
      Loaded s.events.targets → FunctionsRelated R functions fn s →
      (runFunctions env fn rest s).fault = none →
      FunctionsRelated R functions (fn + rest.length) (runFunctions env fn rest s)
  | [], _, _, _, _, related, _ => related
  | F :: rest, fn, s, suffix, loaded, related, live => by
    obtain ⟨current, later⟩ := drop_eq_cons suffix
    have := runFunctions_related functions rest (fn + 1) _ later (runFunction_loaded env F fn s loaded)
      (runFunction_related env R step current loaded related (runFunctions_live env rest (fn + 1) live))
      live
    rwa [show fn + (F :: rest).length = fn + 1 + rest.length by simp only [List.length_cons]; omega]

/-- A relation every live block step sets holds over a complete run between each block and
its rewritten block, with the calls recorded for that position. -/
theorem runOnModule_related (file : TargetsFile) (M : Module) (c : UInt16)
    (complete : (runOnModule env file M c).fault = none) :
    FunctionsRelated R M.functions M.functions.length (runOnModule env file M c) := by
  cases loading : loadInstrTargets file with
  | error e => simp [runOnModule, loading, PassState.init] at complete
  | ok loaded =>
    simp only [runOnModule, loading] at complete ⊢
    simpa using runFunctions_related env R step M.functions M.functions 0
      (PassState.init loaded.1 c) rfl (loadInstrTargets_loaded loading)
      ⟨rfl, fun _ mem => (List.not_mem_nil _ mem).elim,
        fun _ _ _ _ empty => by simp [PassState.init] at empty⟩ complete

end

/-! ### Every recorded call sits where its record says -/

theorem runBlock_placed (env : Env) (F : Function) (fn : Nat) (p : PassState × Locals) (j : Nat)
    (bb : BasicBlock) (live : (runBlock env F fn p j bb).1.fault = none) :
    ∃ bb' new, (runBlock env F fn p j bb).2.blocks = p.2.blocks ++ [bb'] ∧
      (runBlock env F fn p j bb).1.events.probes = p.1.events.probes ++ new ∧
      (∀ probe ∈ new, probe.function = fn ∧ probe.block = j) ∧
      ∀ probe ∈ new, probe.call.opcode ∈ bb'.instructions.map (·.opcode) := by
  obtain ⟨bb', new, appended, probes, tagged, step⟩ := runBlock_cases env F fn j bb live
  refine ⟨bb', new, appended, probes, tagged, fun probe mem => ?_⟩
  rcases step with ⟨-, -, rfl⟩ | ⟨ip, projection, tail, -, -, -, rfl⟩
  · cases mem
  · exact opcode_mem_insertAt
      (List.mem_append_left _ (List.mem_append_right _ (List.mem_map_of_mem _ mem))) _ _

def CallIn (blocks : List BasicBlock) (probe : Probe) : Prop :=
  ∃ bb ∈ blocks[probe.block]?, probe.call.opcode ∈ bb.instructions.map (·.opcode)

def CallPlaced (functions : List Function) (probe : Probe) : Prop :=
  ∃ F ∈ functions[probe.function]?, CallIn F.blocks probe

/-- Every probe call a complete run records sits in the rewritten module, in the function and
the block its record names. -/
theorem runOnModule_probe_sites (env : Env) (file : TargetsFile) (M : Module) (c : UInt16)
    (complete : (runOnModule env file M c).fault = none) :
    ∀ probe ∈ (runOnModule env file M c).events.probes,
      CallPlaced (runOnModule env file M c).functions probe := by
  intro probe mem
  obtain ⟨length, placed, related⟩ := runOnModule_related env _ (runBlock_placed env) file M c complete
  obtain ⟨F', found, within⟩ := placed probe mem
  have inModule : probe.function < M.functions.length := length ▸ (List.getElem?_eq_some_iff.mp found).1
  obtain ⟨-, -, blockCount, blocks⟩ :=
    related probe.function _ F' (List.getElem?_eq_getElem inModule) found
  refine ⟨F', found, _, List.getElem?_eq_getElem within, blocks probe.block _ _
    (List.getElem?_eq_getElem (blockCount ▸ within)) (List.getElem?_eq_getElem within) probe ?_⟩
  exact List.mem_filter.mpr ⟨mem, by simp⟩

end Abstraktor.Pass
