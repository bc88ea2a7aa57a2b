import Mathlib.Data.Rat.Defs
import Abstraktor.Pass.Targets
import Abstraktor.Ir.Types

/-!
# `load_instr_targets`, over the nlohmann::json operations it calls
-/

namespace Abstraktor.Pass
open Ir

/-- A value of nlohmann::json as its parser builds it. A floating-point number is kept as the
exact value of its `double`. -/
inductive Json where
  | null
  | boolean (b : Bool)
  | numberInteger (n : Int)
  | numberUnsigned (n : Nat)
  | numberFloat (x : Rat)
  | string (s : String)
  | array (items : List Json)
  | object (fields : List (String × Json))
  deriving Repr

namespace Json

/-- `find(key)`: the value under `key` of an object; `end()` for anything else. -/
def find? (key : String) : Json → Option Json
  | .object fields => fields.lookup key
  | _ => none

def isNumber : Json → Bool
  | .numberInteger _ | .numberUnsigned _ | .numberFloat _ => true
  | _ => false

/-- The values a range-`for` visits: an array's items, an object's values, nothing for `null`,
and a primitive value itself. -/
def elements : Json → List Json
  | .null => []
  | .array items => items
  | .object fields => fields.map (·.2)
  | v => [v]

/-- `get<std::string>()`. -/
def getString : Json → Except Fault String
  | .string s => pure s
  | _ => throw .typeError

/-- `get<int>()`, as the 32-bit pattern of the `int`: integers wrap; a `double` is truncated
toward zero, and outside `int`'s range the conversion is undefined. -/
def getInt : Json → Except Fault UInt32
  | .numberInteger n => pure (UInt32.ofNat (n % 4294967296).toNat)
  | .numberUnsigned n => pure (UInt32.ofNat n)
  | .numberFloat x =>
    let t := x.num.tdiv x.den
    if -2147483648 ≤ t ∧ t < 2147483648 then pure (UInt32.ofNat (t % 4294967296).toNat)
    else throw .floatConversion
  | .boolean b => pure (if b then 1 else 0)
  | _ => throw .typeError

end Json

/-- `isspace` in the C locale. -/
def isSpace (c : Char) : Bool :=
  c = ' ' || c = '\t' || c = '\n' || c = '\x0b' || c = '\x0c' || c = '\r'

def decimalValue (digits : List Char) : Nat :=
  digits.foldl (fun n d => 10 * n + (d.toNat - '0'.toNat)) 0

/-- The optional sign `strtoul` reads, and whether it is a minus. -/
def splitSign : List Char → Bool × List Char
  | '-' :: r => (true, r)
  | '+' :: r => (false, r)
  | r => (false, r)

/-- `std::stoul(str)`, after `strtoul` in base 10. -/
def stoul (str : String) : Except Fault Nat :=
  let signed := splitSign (str.toList.dropWhile isSpace)
  let digits := signed.2.takeWhile Char.isDigit
  if digits.isEmpty then throw .invalidArgument
  else if 2 ^ 64 ≤ decimalValue digits then throw .outOfRange
  else pure (if signed.1 then (2 ^ 64 - decimalValue digits) % 2 ^ 64 else decimalValue digits)

/-- What `load_instr_targets` reads: `TARGETS_FILE` unset, a path it cannot open, a file the
parser rejects, or the parsed value. -/
inductive TargetsFile where
  | unset
  | unreadable (path : String)
  | malformed (path : String)
  | parsed (path : String) (json : Json)

def TargetState.empty : TargetState := ⟨∅, ∅, ∅, fun _ _ => none⟩

/-- `block_targets[codefile].insert(block.get<int>())` for each number in `targets_block`. -/
def insertBlockTargets (codefile : String) (t : TargetState) (targetsBlock : Json) :
    Except Fault TargetState :=
  List.foldlM (fun t block =>
    if block.isNumber then do
      let line ← block.getInt
      pure { t with blockTargets := insert (codefile, line) t.blockTargets }
    else pure t) t targetsBlock.elements

/-- `const_targets[codefile][line_num] = const_name` for each key and value of `targets_const`,
with `unsigned line_num = std::stoul(it.key())`. -/
def insertConstTargets (codefile : String) (t : TargetState) (fields : List (String × Json)) :
    Except Fault TargetState :=
  List.foldlM (fun t field => do
    let lineNum := UInt32.ofNat (← stoul field.1)
    let constName ← field.2.getString
    pure { t with constTargets := fun f l =>
      if f = codefile ∧ l = lineNum then some constName else t.constTargets f l }) t fields

/-- One iteration of the loop over the array's entries, with the messages printed so far. -/
def loadTarget (acc : TargetState × List String) (target : Json) :
    Except Fault (TargetState × List String) :=
  match target.find? "path", target.find? "targets_block" with
  | some path, some targetsBlock => do
    let codefile ← path.getString
    let t ← insertBlockTargets codefile acc.1 targetsBlock
    match target.find? "targets_const" with
    | none => throw .assertion
    | some (.object fields) => pure (← insertConstTargets codefile t fields, acc.2)
    | some _ => pure (t, acc.2)
  | _, _ => pure (acc.1, acc.2 ++ ["[!!] Missing required JSON fields in target object\n"])

/-- `load_instr_targets`: the loaded collections and the messages printed, or the exception or
failed assertion that ends the process. -/
def loadInstrTargets : TargetsFile → Except Fault (TargetState × List String)
  | .unset => pure (.empty, ["[!!] TARGETS_FILE environment variable not set\n"])
  | .unreadable path => pure (.empty, ["[!!] Could not open " ++ path ++ "\n"])
  | .malformed _ => throw .parseError
  | .parsed _ (.array entries) => List.foldlM loadTarget (.empty, []) entries
  | .parsed _ _ => pure (.empty, ["[!!] JSON must be an array\n"])

/-! ### What a successful load gives -/

theorem foldlM_ok_of_step {α β ε : Type} {f : β → α → Except ε β} (P : β → Prop)
    (step : ∀ acc x next, P acc → f acc x = .ok next → P next) :
    ∀ (l : List α) {init result : β}, P init → List.foldlM f init l = .ok result → P result
  | [], _, _, holds, ok => by cases ok; exact holds
  | x :: rest, init, _, holds, ok => by
    rw [List.foldlM_cons] at ok
    cases stepped : f init x with
    | error e => rw [stepped] at ok; cases ok
    | ok next =>
      rw [stepped] at ok
      exact foldlM_ok_of_step P step rest (step _ _ _ holds stepped) ok

section
variable (codefile : String)

theorem insertBlockTargets_loaded {t t' : TargetState} (targetsBlock : Json) (loaded : Loaded t)
    (ok : insertBlockTargets codefile t targetsBlock = .ok t') : Loaded t' :=
  foldlM_ok_of_step Loaded (fun _ _ _ loaded stepped => by
    simp only [bind, Except.bind] at stepped
    repeat' split at stepped
    all_goals cases stepped
    all_goals exact loaded) _ loaded ok

theorem insertConstTargets_loaded {t t' : TargetState} (fields : List (String × Json))
    (loaded : Loaded t) (ok : insertConstTargets codefile t fields = .ok t') : Loaded t' :=
  foldlM_ok_of_step Loaded (fun _ _ _ loaded stepped => by
    simp only [bind, Except.bind] at stepped
    repeat' split at stepped
    all_goals cases stepped
    exact loaded) _ loaded ok

end

theorem loadTarget_loaded {acc next : TargetState × List String} (target : Json)
    (loaded : Loaded acc.1) (ok : loadTarget acc target = .ok next) : Loaded next.1 := by
  unfold loadTarget at ok
  simp only [bind, Except.bind] at ok
  repeat' split at ok
  all_goals cases ok
  · exact insertConstTargets_loaded _ _ (insertBlockTargets_loaded _ _ loaded ‹_›) ‹_›
  · exact insertBlockTargets_loaded _ _ loaded ‹_›
  · exact loaded

theorem loadInstrTargets_loaded {file : TargetsFile} {result : TargetState × List String}
    (ok : loadInstrTargets file = .ok result) : Loaded result.1 := by
  cases file with
  | parsed path json =>
    cases json <;> first
      | (cases ok; exact ⟨rfl, rfl⟩)
      | exact foldlM_ok_of_step (fun acc => Loaded acc.1) (fun _ target _ => loadTarget_loaded target)
          _ ⟨rfl, rfl⟩ ok
  | _ => cases ok <;> exact ⟨rfl, rfl⟩

/-- An entry with a file and its block targets but no `targets_const` ends the load in the
assertion of the `const` `operator[]`. -/
theorem loadTarget_without_targets_const (acc : TargetState × List String) {target : Json}
    {codefile : String} {targetsBlock : Json} {t : TargetState}
    (path : target.find? "path" = some (.string codefile))
    (block : target.find? "targets_block" = some targetsBlock)
    (inserted : insertBlockTargets codefile acc.1 targetsBlock = .ok t)
    (absent : target.find? "targets_const" = none) :
    loadTarget acc target = .error .assertion := by
  simp [loadTarget, path, block, Json.getString, inserted, absent, bind, Except.bind, pure,
    Except.pure, throw, throwThe, MonadExceptOf.throw]

/-- An entry with a file and a block target but no `targets_const`: the load stops. -/
theorem loadInstrTargets_entry_without_targets_const :
    loadInstrTargets (.parsed "targets.json"
        (.array [.object [("path", .string "/src/a.c"), ("targets_block", .array [.numberInteger 10])]])) =
      .error .assertion := by
  simp only [loadInstrTargets, List.foldlM_cons,
    @loadTarget_without_targets_const (.empty, [])
      (.object [("path", .string "/src/a.c"), ("targets_block", .array [.numberInteger 10])]) _ _ _
      rfl rfl rfl rfl]
  rfl

end Abstraktor.Pass
