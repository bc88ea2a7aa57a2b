import Abstraktor.Pass.RunOnModule

/-!
# The targets file format, and loading a file written in it
-/

namespace Abstraktor.Pass
open Ir

/-! ### Decimal line numbers -/

theorem toDigitsCore_succ (fuel n : Nat) (ds : List Char) :
    Nat.toDigitsCore 10 (fuel + 1) n ds =
      if n / 10 = 0 then Nat.digitChar (n % 10) :: ds
      else Nat.toDigitsCore 10 fuel (n / 10) (Nat.digitChar (n % 10) :: ds) := rfl

theorem toDigitsCore_append (fuel n : Nat) (ds : List Char) :
    Nat.toDigitsCore 10 fuel n ds = Nat.toDigitsCore 10 fuel n [] ++ ds := by
  induction fuel generalizing n ds with
  | zero => rfl
  | succ fuel ih =>
    rw [toDigitsCore_succ, toDigitsCore_succ]
    split_ifs
    · rfl
    · rw [ih _ (_ :: ds), ih _ [_], List.append_assoc, List.singleton_append]

theorem decimalValue_append_digit (digits : List Char) (d : Char) :
    decimalValue (digits ++ [d]) = 10 * decimalValue digits + (d.toNat - '0'.toNat) := by
  simp [decimalValue, List.foldl_append]

theorem toDigitsCore_decimal (fuel n : Nat) (fits : n < fuel) :
    Nat.toDigitsCore 10 fuel n [] ≠ [] ∧ (∀ c ∈ Nat.toDigitsCore 10 fuel n [], c.isDigit = true) ∧
      decimalValue (Nat.toDigitsCore 10 fuel n []) = n := by
  have digit : ∀ d, d < 10 → (Nat.digitChar d).isDigit = true := by decide
  have value : ∀ d, d < 10 → (Nat.digitChar d).toNat - '0'.toNat = d := by decide
  induction fuel generalizing n with
  | zero => omega
  | succ fuel ih =>
    rw [toDigitsCore_succ]
    split_ifs with small
    · refine ⟨List.cons_ne_nil _ _, by simpa using digit _ (Nat.mod_lt _ (by decide)), ?_⟩
      have := value (n % 10) (Nat.mod_lt _ (by decide))
      simp only [decimalValue, List.foldl_cons, List.foldl_nil, this]
      omega
    · obtain ⟨nonempty, digits, decimal⟩ := ih (n / 10) (by omega)
      rw [toDigitsCore_append, decimalValue_append_digit, decimal, value _ (Nat.mod_lt _ (by decide))]
      refine ⟨by simp, fun c mem => ?_, by omega⟩
      rcases List.mem_append.mp mem with earlier | last
      · exact digits c earlier
      · rw [List.mem_singleton.mp last]; exact digit _ (Nat.mod_lt _ (by decide))

theorem isSpace_of_isDigit {c : Char} (digit : c.isDigit = true) : isSpace c = false := by
  simp only [Char.isDigit, Bool.and_eq_true, decide_eq_true_eq] at digit
  simp only [isSpace, Bool.or_eq_false_iff, decide_eq_false_iff_not]
  refine ⟨⟨⟨⟨⟨?_, ?_⟩, ?_⟩, ?_⟩, ?_⟩, ?_⟩ <;> rintro rfl <;> exact absurd digit (by decide)

theorem splitSign_of_isDigit {c : Char} (digit : c.isDigit = true) (rest : List Char) :
    splitSign (c :: rest) = (false, c :: rest) := by
  unfold splitSign; split
  · rename_i minus; cases minus; exact absurd digit (by decide)
  · rename_i plus; cases plus; exact absurd digit (by decide)
  · rfl

theorem stoul_toString (n : Nat) (fits : n < 2 ^ 64) : stoul (toString n) = .ok n := by
  obtain ⟨nonempty, digits, decimal⟩ := toDigitsCore_decimal (n + 1) n (Nat.lt_succ_self n)
  obtain ⟨c, rest, split⟩ := List.exists_cons_of_ne_nil nonempty
  have repr : (toString n).toList = c :: rest := split
  have digit : c.isDigit = true := digits c (split ▸ List.mem_cons_self _ _)
  have kept : (c :: rest).takeWhile Char.isDigit = c :: rest :=
    List.takeWhile_eq_self_iff.mpr (split ▸ digits)
  have unspaced : (c :: rest).dropWhile isSpace = c :: rest :=
    List.dropWhile_cons_of_neg (by simp [isSpace_of_isDigit digit])
  rw [split] at decimal
  unfold stoul
  simp only [repr, unspaced, splitSign_of_isDigit digit, kept, decimal, List.isEmpty_cons,
    Bool.false_eq_true, ↓reduceIte, not_le.mpr fits]
  rfl

theorem uint32_ofNat_toNat (n : UInt32) : UInt32.ofNat n.toNat = n :=
  UInt32.toNat.inj (UInt32.toNat_ofNat_of_lt n.toNat_lt_size)

/-! ### Entries -/

/-- One entry of a targets file: a source file, the lines of its block targets, and its constant
targets with their names. -/
structure TargetEntry where
  path : String
  blocks : List UInt32
  consts : List (UInt32 × String)
  deriving Repr

/-- The entry as a targets file holds it once parsed: lines are unsigned numbers, and the keys of
`targets_const` their decimal text. -/
def TargetEntry.toJson (e : TargetEntry) : Json :=
  .object [("path", .string e.path),
    ("targets_block", .array (e.blocks.map fun line => .numberUnsigned line.toNat)),
    ("targets_const", .object (e.consts.map fun c => (toString c.1.toNat, .string c.2)))]

def blockLocations (entries : List TargetEntry) : List (String × UInt32) :=
  entries.flatMap fun e => e.blocks.map (e.path, ·)

def constBindings (entries : List TargetEntry) : List ((String × UInt32) × String) :=
  entries.flatMap fun e => e.consts.map fun c => ((e.path, c.1), c.2)

def lastName (bindings : List ((String × UInt32) × String)) (file : String) (line : UInt32) :
    Option String :=
  (bindings.reverse.find? fun b => b.1 = (file, line)).map Prod.snd

/-- What a targets file listing `entries` holds: its block targets, and each constant target under
the name listed last for it. -/
def specTargets (entries : List TargetEntry) : TargetState :=
  ⟨∅, ∅, (blockLocations entries).toFinset, lastName (constBindings entries)⟩

theorem specTargets_loaded (entries : List TargetEntry) : Loaded (specTargets entries) := ⟨rfl, rfl⟩

@[simp] theorem mem_specTargets_blockTargets (entries : List TargetEntry) (file : String)
    (line : UInt32) :
    (file, line) ∈ (specTargets entries).blockTargets ↔ ∃ e ∈ entries, e.path = file ∧ line ∈ e.blocks := by
  simp only [specTargets, blockLocations, List.mem_toFinset, List.mem_flatMap, List.mem_map,
    Prod.mk.injEq]
  constructor
  · rintro ⟨e, mem, _, kept, rfl, rfl⟩; exact ⟨e, mem, rfl, kept⟩
  · rintro ⟨e, mem, rfl, kept⟩; exact ⟨e, mem, _, kept, rfl, rfl⟩

theorem specTargets_constTargets_isSome (entries : List TargetEntry) (file : String)
    (line : UInt32) :
    ((specTargets entries).constTargets file line).isSome ↔
      ∃ e ∈ entries, e.path = file ∧ ∃ name, (line, name) ∈ e.consts := by
  simp only [specTargets, lastName, Option.isSome_map', List.find?_isSome, List.mem_reverse,
    constBindings, List.mem_flatMap, List.mem_map, decide_eq_true_eq]
  constructor
  · rintro ⟨_, ⟨e, mem, c, bound, rfl⟩, same⟩
    obtain ⟨rfl, rfl⟩ := Prod.mk.inj same
    exact ⟨e, mem, rfl, c.2, bound⟩
  · rintro ⟨e, mem, rfl, name, bound⟩; exact ⟨_, ⟨e, mem, _, bound, rfl⟩, rfl⟩

example : (specTargets [⟨"/src/a.c", [10], [(12, "MAX")]⟩, ⟨"/src/a.c", [], [(12, "MIN")]⟩]).constTargets
    "/src/a.c" 12 = some "MIN" := by decide

theorem lastName_append (bindings later : List ((String × UInt32) × String)) (file : String)
    (line : UInt32) :
    lastName (bindings ++ later) file line = (lastName later file line).or (lastName bindings file line) := by
  simp only [lastName, List.reverse_append, List.find?_append, Option.map_or']

theorem lastName_singleton (b : (String × UInt32) × String) (file : String) (line : UInt32) :
    lastName [b] file line = if b.1 = (file, line) then some b.2 else none := by
  unfold lastName; split <;> simp [*]

/-! ### Loading an entry -/

section
variable (codefile : String)

theorem insertBlockTargets_lines (lines : List UInt32) (t : TargetState) :
    insertBlockTargets codefile t (.array (lines.map fun line => .numberUnsigned line.toNat)) =
      .ok { t with blockTargets := t.blockTargets ∪ (lines.map (codefile, ·)).toFinset } := by
  induction lines generalizing t with
  | nil => simp [insertBlockTargets, Json.elements, pure, Except.pure]
  | cons line rest ih =>
    have step := ih { t with blockTargets := insert (codefile, line) t.blockTargets }
    simp only [insertBlockTargets, Json.elements, List.map_cons, List.foldlM_cons, Json.isNumber,
      ↓reduceIte, Json.getInt, uint32_ofNat_toNat, pure, Except.pure, bind, Except.bind,
      List.toFinset_cons, Finset.insert_union, Finset.union_insert] at step ⊢
    exact step

theorem insertConstTargets_fields (consts : List (UInt32 × String)) (t : TargetState) :
    insertConstTargets codefile t (consts.map fun c => (toString c.1.toNat, .string c.2)) =
      .ok { t with constTargets := fun file line =>
        (lastName (consts.map fun c => ((codefile, c.1), c.2)) file line).or (t.constTargets file line) } := by
  induction consts generalizing t with
  | nil => rfl
  | cons c rest ih =>
    have read : stoul (toString c.1.toNat) = .ok c.1.toNat :=
      stoul_toString _ (c.1.toNat_lt_size.trans (by decide))
    have step := ih { t with constTargets := fun file line =>
      if file = codefile ∧ line = c.1 then some c.2 else t.constTargets file line }
    simp only [insertConstTargets, List.map_cons, List.foldlM_cons, read, Json.getString,
      uint32_ofNat_toNat, pure, Except.pure, bind, Except.bind] at step ⊢
    rw [step]
    congr 2
    funext file line
    rw [← List.singleton_append, lastName_append, Option.or_assoc, lastName_singleton]
    congr 1
    by_cases here : file = codefile ∧ line = c.1
    · obtain ⟨rfl, rfl⟩ := here; simp
    · rw [if_neg here, if_neg fun same => here ⟨(Prod.mk.inj same).1.symm, (Prod.mk.inj same).2.symm⟩]
      rfl

end

/-- An entry written in the format loads its block targets and binds its constant targets over
those loaded so far, printing nothing. -/
theorem loadTarget_toJson (t : TargetState) (messages : List String) (e : TargetEntry) :
    loadTarget (t, messages) e.toJson =
      .ok ({ t with
        blockTargets := t.blockTargets ∪ (e.blocks.map (e.path, ·)).toFinset,
        constTargets := fun file line =>
          (lastName (e.consts.map fun c => ((e.path, c.1), c.2)) file line).or (t.constTargets file line) },
        messages) := by
  have path : e.toJson.find? "path" = some (.string e.path) := rfl
  have block : e.toJson.find? "targets_block" =
      some (.array (e.blocks.map fun line => .numberUnsigned line.toNat)) := rfl
  have const : e.toJson.find? "targets_const" =
      some (.object (e.consts.map fun c => (toString c.1.toNat, .string c.2))) := rfl
  simp only [loadTarget, path, block, const, Json.getString, insertBlockTargets_lines,
    insertConstTargets_fields, bind, Except.bind, pure, Except.pure]

/-! ### Loading a file -/

theorem foldlM_loadTarget_toJson (entries : List TargetEntry) (t : TargetState)
    (messages : List String) :
    List.foldlM loadTarget (t, messages) (entries.map TargetEntry.toJson) =
      .ok ({ t with
        blockTargets := t.blockTargets ∪ (blockLocations entries).toFinset,
        constTargets := fun file line =>
          (lastName (constBindings entries) file line).or (t.constTargets file line) },
        messages) := by
  induction entries generalizing t with
  | nil => simp [blockLocations, constBindings, lastName, pure, Except.pure]
  | cons e rest ih =>
    simp only [List.map_cons, List.foldlM_cons, loadTarget_toJson, bind, Except.bind, ih,
      blockLocations, constBindings, List.flatMap_cons, List.toFinset_append, Finset.union_assoc,
      lastName_append, Option.or_assoc]

/-- A targets file written in the format loads exactly what it lists, and prints nothing. -/
theorem loadInstrTargets_toJson (path : String) (entries : List TargetEntry) :
    loadInstrTargets (.parsed path (.array (entries.map TargetEntry.toJson))) =
      .ok (specTargets entries, []) := by
  simp only [loadInstrTargets, foldlM_loadTarget_toJson, TargetState.empty, Finset.empty_union,
    Option.or_none, specTargets]

end Abstraktor.Pass
