import Abstraktor.Pass.LoadTargets

/-!
# What `load_instr_targets` loads from any array, and when it gets through
-/

namespace Abstraktor.Pass
open Ir

/-! ### Successful folds -/

section Fold
variable {α β ε : Type} {f : β → α → Except ε β}

theorem bind_eq_ok {γ : Type} {x : Except ε γ} {g : γ → Except ε β} {b : β}
    (ok : (x >>= g) = .ok b) : ∃ a, x = .ok a ∧ g a = .ok b := by
  cases x with
  | error e => cases ok
  | ok a => exact ⟨a, rfl, ok⟩

theorem foldlM_cons_ok {x : α} {l : List α} {init result : β}
    (ok : List.foldlM f init (x :: l) = .ok result) :
    ∃ next, f init x = .ok next ∧ List.foldlM f next l = .ok result := by
  rw [List.foldlM_cons] at ok
  cases stepped : f init x with
  | error e => rw [stepped] at ok; cases ok
  | ok next => rw [stepped] at ok; exact ⟨next, rfl, ok⟩

theorem foldlM_ok_iff_forall (P : α → Prop) (step : ∀ acc x, (∃ next, f acc x = .ok next) ↔ P x) :
    ∀ (l : List α) (init : β), (∃ result, List.foldlM f init l = .ok result) ↔ ∀ x ∈ l, P x
  | [], init => by simp [pure, Except.pure]
  | x :: l, init => by
    rw [List.foldlM_cons, List.forall_mem_cons]
    cases stepped : f init x with
    | error e => simp [bind, Except.bind, ← step init x, stepped]
    | ok next =>
      simp only [bind, Except.bind, foldlM_ok_iff_forall P step l next]
      exact ⟨fun rest => ⟨(step init x).mp ⟨next, stepped⟩, rest⟩, And.right⟩

theorem foldlM_ok_mem_iff (mem : β → Prop) (Q : α → Prop) :
    ∀ {l : List α} {init result : β}, List.foldlM f init l = .ok result →
      (∀ acc x next, f acc x = .ok next → (mem next ↔ mem acc ∨ Q x)) →
      (mem result ↔ mem init ∨ ∃ x ∈ l, Q x)
  | [], _, _, ok, _ => by cases ok; simp
  | _ :: _, _, _, ok, step => by
    obtain ⟨next, stepped, rest⟩ := foldlM_cons_ok ok
    rw [foldlM_ok_mem_iff mem Q rest step, step _ _ _ stepped]
    simp only [List.mem_cons, or_and_right, exists_or, exists_eq_left, or_assoc]

theorem foldlM_ok_source (mem : β → Prop) (Q : α → Prop) :
    ∀ {l : List α} {init result : β}, List.foldlM f init l = .ok result →
      (∀ acc x next, f acc x = .ok next → mem next → mem acc ∨ Q x) →
      mem result → mem init ∨ ∃ x ∈ l, Q x
  | [], _, _, ok, _, holds => by cases ok; exact .inl holds
  | x :: _, _, _, ok, step, holds => by
    obtain ⟨next, stepped, rest⟩ := foldlM_cons_ok ok
    rcases foldlM_ok_source mem Q rest step holds with early | ⟨y, later, made⟩
    · exact (step _ _ _ stepped early).imp_right fun made => ⟨x, List.mem_cons_self _ _, made⟩
    · exact .inr ⟨y, List.mem_cons_of_mem _ later, made⟩

theorem foldlM_ok_append {γ : Type} (out : β → List γ) (emits : α → List γ) :
    ∀ {l : List α} {init result : β}, List.foldlM f init l = .ok result →
      (∀ acc x next, f acc x = .ok next → out next = out acc ++ emits x) →
      out result = out init ++ l.flatMap emits
  | [], _, _, ok, _ => by cases ok; simp
  | _ :: _, _, _, ok, step => by
    obtain ⟨next, stepped, rest⟩ := foldlM_cons_ok ok
    rw [foldlM_ok_append out emits rest step, step _ _ _ stepped, List.flatMap_cons,
      List.append_assoc]

end Fold

/-! ### The loops over `targets_block` and `targets_const` -/

section Loops
variable (codefile : String)

theorem insertBlockTargets_step {acc next : TargetState} {block : Json}
    (stepped : (if block.isNumber then do
        let line ← block.getInt
        pure { acc with blockTargets := insert (codefile, line) acc.blockTargets }
      else pure acc : Except Fault TargetState) = .ok next) :
    (block.isNumber = false ∧ next = acc) ∨ ∃ line, block.isNumber ∧ block.getInt = .ok line ∧
      next = { acc with blockTargets := insert (codefile, line) acc.blockTargets } := by
  split_ifs at stepped with number
  · cases read : block.getInt <;> simp only [read] at stepped <;> cases stepped
    exact .inr ⟨_, number, rfl, rfl⟩
  · cases stepped
    exact .inl ⟨by simpa using number, rfl⟩

theorem insertConstTargets_step {acc next : TargetState} {field : String × Json}
    (stepped : (do
        let lineNum := UInt32.ofNat (← stoul field.1)
        let constName ← field.2.getString
        pure { acc with constTargets := fun f l =>
          if f = codefile ∧ l = lineNum then some constName else acc.constTargets f l } :
        Except Fault TargetState) = .ok next) :
    ∃ n name, stoul field.1 = .ok n ∧ field.2 = .string name ∧
      next = { acc with constTargets := fun f l =>
        if f = codefile ∧ l = UInt32.ofNat n then some name else acc.constTargets f l } := by
  obtain ⟨key, value⟩ := field
  cases read : stoul key <;> simp only [read] at stepped <;> cases value <;> cases stepped
  exact ⟨_, _, rfl, rfl, rfl⟩

theorem insertBlockTargets_ok_iff (t : TargetState) (targetsBlock : Json) :
    (∃ t', insertBlockTargets codefile t targetsBlock = .ok t') ↔
      ∀ block ∈ targetsBlock.elements, block.isNumber → ∃ line, block.getInt = .ok line :=
  foldlM_ok_iff_forall _ (fun acc block => by
    constructor
    · rintro ⟨next, stepped⟩
      rcases insertBlockTargets_step codefile stepped with ⟨other, -⟩ | ⟨line, -, read, -⟩
      · simp [other]
      · exact fun _ => ⟨line, read⟩
    · intro converts
      by_cases number : block.isNumber
      · obtain ⟨line, read⟩ := converts number
        exact ⟨_, by simp only [number, if_true, read, bind, Except.bind]; rfl⟩
      · exact ⟨acc, by simp only [number]; rfl⟩) _ _

theorem insertConstTargets_ok_iff (t : TargetState) (fields : List (String × Json)) :
    (∃ t', insertConstTargets codefile t fields = .ok t') ↔
      ∀ field ∈ fields, (∃ n, stoul field.1 = .ok n) ∧ ∃ name, field.2 = .string name :=
  foldlM_ok_iff_forall _ (fun acc field => by
    constructor
    · rintro ⟨next, stepped⟩
      obtain ⟨n, name, read, named, -⟩ := insertConstTargets_step codefile stepped
      exact ⟨⟨n, read⟩, name, named⟩
    · rintro ⟨⟨n, read⟩, name, named⟩
      exact ⟨_, by simp only [read, named, bind, Except.bind, Json.getString]; rfl⟩) _ _

variable {codefile}

theorem insertBlockTargets_constTargets {t t' : TargetState} {targetsBlock : Json}
    (ok : insertBlockTargets codefile t targetsBlock = .ok t') : t'.constTargets = t.constTargets :=
  foldlM_ok_of_step (fun t' => t'.constTargets = t.constTargets) (fun _ _ _ same stepped => by
    rcases insertBlockTargets_step codefile stepped with ⟨-, rfl⟩ | ⟨_, -, -, rfl⟩ <;> exact same)
    _ rfl ok

theorem insertConstTargets_blockTargets {t t' : TargetState} {fields : List (String × Json)}
    (ok : insertConstTargets codefile t fields = .ok t') : t'.blockTargets = t.blockTargets :=
  foldlM_ok_of_step (fun t' => t'.blockTargets = t.blockTargets) (fun _ _ _ same stepped => by
    obtain ⟨_, _, -, -, rfl⟩ := insertConstTargets_step codefile stepped
    exact same) _ rfl ok

theorem insertBlockTargets_mem {t t' : TargetState} {targetsBlock : Json}
    (ok : insertBlockTargets codefile t targetsBlock = .ok t') (f : String) (l : UInt32) :
    (f, l) ∈ t'.blockTargets ↔ (f, l) ∈ t.blockTargets ∨
      ∃ block ∈ targetsBlock.elements, f = codefile ∧ block.isNumber ∧ block.getInt = .ok l :=
  foldlM_ok_mem_iff (fun t => (f, l) ∈ t.blockTargets) _ ok fun _ _ _ stepped => by
    rcases insertBlockTargets_step codefile stepped with ⟨other, rfl⟩ | ⟨line, number, read, rfl⟩
    · simp [other]
    · simp only [Finset.mem_insert, Prod.mk.injEq, number, read, Except.ok.injEq, true_and]
      tauto

theorem insertConstTargets_isSome {t t' : TargetState} {fields : List (String × Json)}
    (ok : insertConstTargets codefile t fields = .ok t') (f : String) (l : UInt32) :
    (t'.constTargets f l).isSome ↔ (t.constTargets f l).isSome ∨
      ∃ field ∈ fields, f = codefile ∧ ∃ n, stoul field.1 = .ok n ∧ UInt32.ofNat n = l :=
  foldlM_ok_mem_iff (fun t => (t.constTargets f l).isSome) _ ok fun _ _ _ stepped => by
    obtain ⟨n, name, read, -, rfl⟩ := insertConstTargets_step codefile stepped
    simp only [read, Except.ok.injEq, exists_eq_left']
    split_ifs with here
    · exact iff_of_true rfl (.inr ⟨here.1, here.2.symm⟩)
    · exact ⟨.inl, fun h => h.resolve_right fun ⟨same, line⟩ => here ⟨same, line.symm⟩⟩

theorem insertConstTargets_name {t t' : TargetState} {fields : List (String × Json)}
    (ok : insertConstTargets codefile t fields = .ok t') {f : String} {l : UInt32} {name : String}
    (bound : t'.constTargets f l = some name) : t.constTargets f l = some name ∨
      ∃ field ∈ fields, f = codefile ∧ (∃ n, stoul field.1 = .ok n ∧ UInt32.ofNat n = l) ∧
        field.2 = .string name :=
  foldlM_ok_source (fun t => t.constTargets f l = some name) _ ok (fun _ _ _ stepped bound => by
    obtain ⟨n, name', read, named, rfl⟩ := insertConstTargets_step codefile stepped
    dsimp only at bound
    split_ifs at bound with here
    · cases bound
      exact .inr ⟨here.1, ⟨n, read, here.2.symm⟩, named⟩
    · exact .inl bound) bound

end Loops

/-! ### One entry -/

namespace Json

@[simp] theorem getString_eq_ok {v : Json} {s : String} : v.getString = .ok s ↔ v = .string s := by
  cases v <;> simp [getString, pure, Except.pure, throw, throwThe, MonadExceptOf.throw]

/-- The test of the loop over the entries that skips one with a message:
`target.find("path") == target.end() || target.find("targets_block") == target.end()`. -/
def missesFields (target : Json) : Bool :=
  (target.find? "path").isNone || (target.find? "targets_block").isNone

/-- An entry the loop gets through without an exception. -/
def Loadable (target : Json) : Prop :=
  ∀ path targetsBlock, target.find? "path" = some path → target.find? "targets_block" = some targetsBlock →
    (∃ codefile, path = .string codefile) ∧
    (∀ block ∈ targetsBlock.elements, block.isNumber → ∃ line, block.getInt = .ok line) ∧
    ∃ targetsConst, target.find? "targets_const" = some targetsConst ∧
      ∀ fields, targetsConst = .object fields →
        ∀ field ∈ fields, (∃ n, stoul field.1 = .ok n) ∧ ∃ name, field.2 = .string name

/-- The entry lists `line` of `codefile` as a block target. -/
def ListsBlockTarget (target : Json) (codefile : String) (line : UInt32) : Prop :=
  ∃ targetsBlock, target.find? "path" = some (.string codefile) ∧
    target.find? "targets_block" = some targetsBlock ∧
    ∃ block ∈ targetsBlock.elements, block.isNumber ∧ block.getInt = .ok line

/-- The entry, which has both required fields, lists `name` as the constant at `line` of
`codefile`. -/
def ListsConstTarget (target : Json) (codefile : String) (line : UInt32) (name : String) : Prop :=
  ∃ fields, target.find? "path" = some (.string codefile) ∧
    (target.find? "targets_block").isSome ∧ target.find? "targets_const" = some (.object fields) ∧
    ∃ field ∈ fields, (∃ n, stoul field.1 = .ok n ∧ UInt32.ofNat n = line) ∧ field.2 = .string name

end Json

/-- One iteration of the loop over the entries, case by case. -/
theorem loadTarget_cases {acc next : TargetState × List String} {target : Json}
    (ok : loadTarget acc target = .ok next) :
    (target.missesFields ∧ next = (acc.1, acc.2 ++ ["[!!] Missing required JSON fields in target object\n"])) ∨
    ∃ codefile targetsBlock t, target.find? "path" = some (.string codefile) ∧
      target.find? "targets_block" = some targetsBlock ∧
      insertBlockTargets codefile acc.1 targetsBlock = .ok t ∧
      ((∃ fields t', target.find? "targets_const" = some (.object fields) ∧
          insertConstTargets codefile t fields = .ok t' ∧ next = (t', acc.2)) ∨
        (∃ targetsConst, target.find? "targets_const" = some targetsConst ∧
          (∀ fields, targetsConst ≠ .object fields) ∧ next = (t, acc.2))) := by
  unfold loadTarget at ok
  split at ok
  · rename_i path targetsBlock found block
    obtain ⟨codefile, named, rest⟩ := bind_eq_ok ok
    obtain ⟨t, inserted, rest⟩ := bind_eq_ok rest
    obtain rfl := Json.getString_eq_ok.mp named
    refine .inr ⟨codefile, targetsBlock, t, found, block, inserted, ?_⟩
    split at rest
    · cases rest
    · rename_i fields const
      obtain ⟨t', loaded, last⟩ := bind_eq_ok rest
      cases last
      exact .inl ⟨fields, t', const, loaded, rfl⟩
    · rename_i targetsConst other const
      cases rest
      exact .inr ⟨targetsConst, const, other, rfl⟩
  · rename_i absent
    cases ok
    refine .inl ⟨?_, rfl⟩
    cases path : target.find? "path" <;> cases block : target.find? "targets_block" <;>
      simp_all [Json.missesFields]

section Entry
variable {acc next : TargetState × List String} {target : Json}

theorem loadTarget_messages (ok : loadTarget acc target = .ok next) :
    next.2 = acc.2 ++
      if target.missesFields then ["[!!] Missing required JSON fields in target object\n"] else [] := by
  rcases loadTarget_cases ok with ⟨skipped, rfl⟩ | ⟨_, _, _, found, block, -, const⟩
  · simp [skipped]
  · have kept : target.missesFields = false := by simp [Json.missesFields, found, block]
    rcases const with ⟨-, -, -, -, rfl⟩ | ⟨-, -, -, rfl⟩ <;> simp [kept]

theorem loadTarget_blockTargets (ok : loadTarget acc target = .ok next) (f : String) (l : UInt32) :
    (f, l) ∈ next.1.blockTargets ↔ (f, l) ∈ acc.1.blockTargets ∨ target.ListsBlockTarget f l := by
  rcases loadTarget_cases ok with ⟨skipped, rfl⟩ | ⟨codefile, targetsBlock, t, found, block,
    inserted, const⟩
  · refine (or_iff_left fun ⟨_, found, block, _⟩ => ?_).symm
    simp [Json.missesFields, found, block] at skipped
  · have same : next.1.blockTargets = t.blockTargets := by
      rcases const with ⟨_, _, -, loaded, rfl⟩ | ⟨-, -, -, rfl⟩
      · exact insertConstTargets_blockTargets loaded
      · rfl
    rw [same, insertBlockTargets_mem inserted]
    refine or_congr_right ⟨fun ⟨b, mem, same, number, read⟩ => ?_, fun ⟨_, found', block', listed⟩ => ?_⟩
    · exact ⟨targetsBlock, same ▸ found, block, b, mem, number, read⟩
    · cases found.symm.trans found'
      cases block.symm.trans block'
      obtain ⟨b, mem, number, read⟩ := listed
      exact ⟨b, mem, rfl, number, read⟩

theorem loadTarget_constTargets (ok : loadTarget acc target = .ok next) (f : String) (l : UInt32) :
    (next.1.constTargets f l).isSome ↔
      (acc.1.constTargets f l).isSome ∨ ∃ name, target.ListsConstTarget f l name := by
  rcases loadTarget_cases ok with ⟨skipped, rfl⟩ | ⟨codefile, targetsBlock, t, found, block,
    inserted, const⟩
  · refine (or_iff_left fun ⟨_, _, found, block, _⟩ => ?_).symm
    simp [Json.missesFields, found, Option.isSome_iff_ne_none.mp block] at skipped
  · rw [← insertBlockTargets_constTargets inserted]
    rcases const with ⟨fields, t', present, loaded, rfl⟩ | ⟨targetsConst, present, other, rfl⟩
    · have strings := (insertConstTargets_ok_iff codefile t fields).mp ⟨t', loaded⟩
      rw [insertConstTargets_isSome loaded]
      refine or_congr_right ⟨fun ⟨field, mem, same, keyed⟩ => ?_,
        fun ⟨_, _, found', _, present', field, mem, keyed, _⟩ => ?_⟩
      · obtain ⟨name, named⟩ := (strings field mem).2
        exact ⟨name, fields, same ▸ found, by simp [block], present, field, mem, keyed, named⟩
      · cases found.symm.trans found'
        cases present.symm.trans present'
        exact ⟨field, mem, rfl, keyed⟩
    · exact (or_iff_left fun ⟨_, fields, _, _, present', _⟩ =>
        other fields (Option.some.inj (present.symm.trans present'))).symm

theorem loadTarget_constName (ok : loadTarget acc target = .ok next) {f : String} {l : UInt32}
    {name : String} (bound : next.1.constTargets f l = some name) :
    acc.1.constTargets f l = some name ∨ target.ListsConstTarget f l name := by
  rcases loadTarget_cases ok with ⟨-, rfl⟩ | ⟨codefile, targetsBlock, t, found, block, inserted,
    const⟩
  · exact .inl bound
  · rw [← insertBlockTargets_constTargets inserted]
    rcases const with ⟨fields, t', present, loaded, rfl⟩ | ⟨-, -, -, rfl⟩
    · exact (insertConstTargets_name loaded bound).imp_right fun ⟨field, mem, same, keyed, named⟩ =>
        ⟨fields, same ▸ found, by simp [block], present, field, mem, keyed, named⟩
    · exact .inl bound

end Entry

theorem loadTarget_ok_iff (acc : TargetState × List String) (target : Json) :
    (∃ next, loadTarget acc target = .ok next) ↔ target.Loadable := by
  constructor
  · rintro ⟨next, ok⟩ path targetsBlock found block
    rcases loadTarget_cases ok with ⟨skipped, -⟩ | ⟨codefile, targetsBlock', t, found', block',
      inserted, const⟩
    · simp [Json.missesFields, found, block] at skipped
    · obtain rfl := Option.some.inj (found.symm.trans found')
      obtain rfl := Option.some.inj (block.symm.trans block')
      refine ⟨⟨codefile, rfl⟩, (insertBlockTargets_ok_iff codefile _ _).mp ⟨t, inserted⟩, ?_⟩
      rcases const with ⟨fields, t', present, loaded, -⟩ | ⟨targetsConst, present, other, -⟩
      · exact ⟨_, present, fun _ same => by
          cases same; exact (insertConstTargets_ok_iff codefile _ _).mp ⟨t', loaded⟩⟩
      · exact ⟨_, present, fun fields same => (other fields same).elim⟩
  · intro loadable
    unfold loadTarget
    split
    · rename_i path targetsBlock found block
      obtain ⟨⟨codefile, rfl⟩, converts, targetsConst, present, keys⟩ :=
        loadable path targetsBlock found block
      obtain ⟨t, inserted⟩ := (insertBlockTargets_ok_iff codefile acc.1 targetsBlock).mpr converts
      simp only [Json.getString, pure_bind,
        show insertBlockTargets codefile acc.1 targetsBlock = pure t from inserted, present]
      cases targetsConst
      case object fields =>
        obtain ⟨t', loaded⟩ := (insertConstTargets_ok_iff codefile t fields).mpr (keys fields rfl)
        exact ⟨(t', acc.2), by simp only [Json.getString, pure_bind, loaded]; rfl⟩
      all_goals exact ⟨_, rfl⟩
    · exact ⟨_, rfl⟩

/-! ### The whole array -/

/-- `load_instr_targets` on an array ends without an exception exactly when every entry is one
the loop gets through. -/
theorem loadInstrTargets_array_ok_iff (file : String) (entries : List Json) :
    (∃ result, loadInstrTargets (.parsed file (.array entries)) = .ok result) ↔
      ∀ target ∈ entries, target.Loadable :=
  foldlM_ok_iff_forall _ (loadTarget_ok_iff) entries _

/-- What a load that succeeds on an array holds, and the messages it prints. -/
theorem loadInstrTargets_array {file : String} {entries : List Json} {t : TargetState}
    {messages : List String} (ok : loadInstrTargets (.parsed file (.array entries)) = .ok (t, messages)) :
    Loaded t ∧ (∀ f l, (f, l) ∈ t.blockTargets ↔ ∃ target ∈ entries, target.ListsBlockTarget f l) ∧
      (∀ f l, (t.constTargets f l).isSome ↔ ∃ target ∈ entries, ∃ name, target.ListsConstTarget f l name) ∧
      (∀ f l name, t.constTargets f l = some name → ∃ target ∈ entries, target.ListsConstTarget f l name) ∧
      messages = entries.flatMap fun target =>
        if target.missesFields then ["[!!] Missing required JSON fields in target object\n"] else [] := by
  refine ⟨loadInstrTargets_loaded ok, fun f l => ?_, fun f l => ?_, fun f l name bound => ?_, ?_⟩
  · simpa [TargetState.empty] using foldlM_ok_mem_iff (fun acc => (f, l) ∈ acc.1.blockTargets) _ ok
      fun _ _ _ stepped => loadTarget_blockTargets stepped f l
  · simpa [TargetState.empty] using foldlM_ok_mem_iff (fun acc => (acc.1.constTargets f l).isSome)
      _ ok fun _ _ _ stepped => loadTarget_constTargets stepped f l
  · simpa [TargetState.empty] using foldlM_ok_source (fun acc => acc.1.constTargets f l = some name)
      _ ok (fun _ _ _ stepped => loadTarget_constName stepped) bound
  · simpa using foldlM_ok_append (fun acc => acc.2) _ ok fun _ _ _ stepped => loadTarget_messages stepped

/-- A boolean block target, a key with leading white space, an entry without `targets_block`. -/
theorem loadInstrTargets_array_skipped_entry :
    let entries : List Json := [
      .object [("path", .string "/src/a.c"),
        ("targets_block", .array [.numberInteger 10, .boolean true, .numberUnsigned 12]),
        ("targets_const", .object [(" 7", .string "LIMIT")])],
      .object [("path", .string "/src/b.c"), ("targets_const", .object [("3", .string "N")])]]
    ∃ t messages, loadInstrTargets (.parsed "targets.json" (.array entries)) = .ok (t, messages) ∧
      Loaded t ∧ (∀ f l, (f, l) ∈ t.blockTargets ↔ ∃ target ∈ entries, target.ListsBlockTarget f l) ∧
      (∀ f l, (t.constTargets f l).isSome ↔ ∃ target ∈ entries, ∃ name, target.ListsConstTarget f l name) ∧
      (∀ f l name, t.constTargets f l = some name → ∃ target ∈ entries, target.ListsConstTarget f l name) ∧
      messages = entries.flatMap fun target =>
        if target.missesFields then ["[!!] Missing required JSON fields in target object\n"] else [] := by
  intro entries
  exact ⟨_, _, rfl, @loadInstrTargets_array "targets.json" entries _ _ rfl⟩

end Abstraktor.Pass
