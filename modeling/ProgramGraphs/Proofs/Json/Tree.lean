import ProgramGraphs.Proofs.Json.Scan

/-! # The trees of written values

The machine that builds trees reads the tokens of a value and hands on a tree that says the same
(`run_tokens`). So reading what is written of a value is reading its tree (`read_compact`). A value
that is read in full from its tree is the value again, if it is not nested too deep, and no value
that is read is nested deeper.
-/

namespace ProgramGraphs.Json

namespace Value

mutual

/-- A value as a tree without faults. -/
def tree : Value → Tree
  | .null => .null
  | .bool value => .bool value
  | .number value => .number (.ok value)
  | .string value => .string (.ok value)
  | .array items => .array (itemTrees items) .closed
  | .object members => .object (memberTrees members) .closed

def itemTrees : List Value → List Tree
  | [] => []
  | item :: rest => tree item :: itemTrees rest

def memberTrees : List (String × Value) → List (Except Fault String × Tree)
  | [] => []
  | (key, value) :: rest => (.ok key, tree value) :: memberTrees rest

end

mutual

/-- How deep arrays and objects stand inside each other. -/
def nesting : Value → Nat
  | .array items => itemNesting items + 1
  | .object members => memberNesting members + 1
  | _ => 0

def itemNesting : List Value → Nat
  | [] => 0
  | item :: rest => max (nesting item) (itemNesting rest)

def memberNesting : List (String × Value) → Nat
  | [] => 0
  | (_, value) :: rest => max (nesting value) (memberNesting rest)

end

@[simp]
theorem nesting_string (text : String) : (string text).nesting = 0 := by
  simp [nesting]

theorem itemTrees_eq_map (items : List Value) : itemTrees items = items.map tree := by
  induction items with
  | nil => rfl
  | cons item rest ih => rw [itemTrees, ih, List.map_cons]

theorem memberTrees_append (first second : List (String × Value)) :
    memberTrees (first ++ second) = memberTrees first ++ memberTrees second := by
  induction first with
  | nil => rfl
  | cons member rest ih => rw [List.cons_append, memberTrees, memberTrees, ih, List.cons_append]

theorem itemNesting_le_iff {items : List Value} {bound : Nat} :
    itemNesting items ≤ bound ↔ ∀ item ∈ items, item.nesting ≤ bound := by
  induction items with
  | nil => simp [itemNesting]
  | cons item rest ih => rw [itemNesting, Nat.max_le, ih, List.forall_mem_cons]

theorem memberNesting_le_iff {members : List (String × Value)} {bound : Nat} :
    memberNesting members ≤ bound ↔ ∀ member ∈ members, member.2.nesting ≤ bound := by
  induction members with
  | nil => simp [memberNesting]
  | cons member rest ih => rw [memberNesting, Nat.max_le, ih, List.forall_mem_cons]

theorem memberNesting_append (first second : List (String × Value)) :
    memberNesting (first ++ second) = max (memberNesting first) (memberNesting second) := by
  induction first with
  | nil => rw [List.nil_append, memberNesting, Nat.zero_max]
  | cons member rest ih =>
    rw [List.cons_append, memberNesting, memberNesting, ih, Nat.max_assoc]

/-- The first token of a value starts an item as it starts a value. -/
theorem exists_tokens_eq (value : Value) : ∃ token tail, value.tokens = token :: tail ∧
    ∀ frames before first, Progress.step frames (.item before first) token =
      Progress.step (.item before :: frames) .value token := by
  cases value with
  | null => exact ⟨_, _, rfl, fun _ _ first => by cases first <;> rfl⟩
  | bool => exact ⟨_, _, rfl, fun _ _ first => by cases first <;> rfl⟩
  | number => exact ⟨_, _, rfl, fun _ _ first => by cases first <;> rfl⟩
  | string => exact ⟨_, _, rfl, fun _ _ first => by cases first <;> rfl⟩
  | array => exact ⟨_, _, rfl, fun _ _ first => by cases first <;> rfl⟩
  | object => exact ⟨_, _, rfl, fun _ _ first => by cases first <;> rfl⟩

end Value

namespace Progress

open Value (itemTokens itemTrees memberTokens memberTrees)

theorem run_item_eq (value : Value) (frames : List Frame) (before : List Tree) (first : Bool)
    (rest : List Token) : (running frames (.item before first)).run (value.tokens ++ rest) =
      (running (.item before :: frames) .value).run (value.tokens ++ rest) := by
  obtain ⟨token, tail, tokens, starts⟩ := value.exists_tokens_eq
  rw [tokens, List.cons_append, run, run, starts]

mutual

/-- The machine makes the tree of a value of the tokens of the value. -/
theorem run_tokens (value : Value) (frames : List Frame) (rest : List Token) :
    (running frames .value).run (value.tokens ++ rest) = (deliver value.tree frames).run rest := by
  cases value with
  | null => rfl
  | bool => rfl
  | number => rfl
  | string => rfl
  | array items =>
    rw [Value.tokens, List.cons_append, run, List.append_assoc]
    exact run_itemTokens items [] true frames rest fun _ => ⟨rfl, rfl⟩
  | object members =>
    rw [Value.tokens, List.cons_append, run, List.append_assoc]
    exact run_memberTokens members [] true frames rest fun _ => ⟨rfl, rfl⟩

theorem run_itemTokens (items : List Value) (before : List Tree) (first : Bool)
    (frames : List Frame) (rest : List Token) (due : items = [] → before = [] ∧ first = true) :
    (running frames (.item before first)).run (itemTokens items ++ .closeArray :: rest) =
      (deliver (.array (before.reverse ++ itemTrees items) .closed) frames).run rest := by
  cases items with
  -- an item is due behind a comma, so only an empty array closes here
  | nil =>
    obtain ⟨rfl, rfl⟩ := due rfl
    rfl
  | cons item others =>
    cases others with
    | nil =>
      rw [itemTokens, run_item_eq, run_tokens, deliver, run, step]
      rw [itemTrees, itemTrees, List.reverse_cons]
    | cons second others =>
      have onward := run_itemTokens (second :: others) (item.tree :: before) false frames rest
        (by simp)
      rw [itemTokens, List.append_assoc, run_item_eq, run_tokens, deliver, List.cons_append, run,
        step, onward, List.reverse_cons, List.append_assoc, List.singleton_append]
      · rfl
      · simp

theorem run_memberTokens (members : List (String × Value))
    (before : List (Except Fault String × Tree)) (first : Bool) (frames : List Frame)
    (rest : List Token) (due : members = [] → before = [] ∧ first = true) :
    (running frames (.key before first)).run (memberTokens members ++ .closeObject :: rest) =
      (deliver (.object (before.reverse ++ memberTrees members) .closed) frames).run rest := by
  cases members with
  | nil =>
    obtain ⟨rfl, rfl⟩ := due rfl
    rfl
  | cons member others =>
    obtain ⟨key, value⟩ := member
    cases others with
    | nil =>
      rw [memberTokens, List.cons_append, run, step, List.cons_append, run, step, run_tokens,
        deliver, run, step]
      rw [memberTrees, memberTrees, List.reverse_cons]
    | cons second others =>
      have onward := run_memberTokens (second :: others) ((.ok key, value.tree) :: before) false
        frames rest (by simp)
      rw [memberTokens, List.cons_append, run, step, List.cons_append, run, step,
        List.append_assoc, run_tokens, deliver, List.cons_append, run, step, onward,
        List.reverse_cons, List.append_assoc, List.singleton_append]
      · rfl
      · simp

end

theorem ofTokens_tokens (value : Value) : Tree.ofTokens value.tokens = (value.tree, []) := by
  have done := run_tokens value [] []
  rw [List.append_nil] at done
  rw [Tree.ofTokens, done]
  rfl

end Progress

/-- Reading what is written of a value is reading its tree. -/
theorem Decoder.read_compact {α : Type} (decoder : Decoder α) (value : Value)
    (reads : ∀ f ∈ value.floats, (Number.float f).ReadsBack) :
    decoder.read (Text.ofString value.compact) = decoder 0 value.tree := by
  have scanned := Token.scan_compactChars value reads Text.endsNumber_nil
  rw [List.append_nil, Token.scan, List.append_nil] at scanned
  rw [read, Text.ofString, Value.compact, String.toList_ofList, scanned, Progress.ofTokens_tokens]
  exact bind_pure _

namespace Tree

mutual

/-- A value that is not nested too deep is read in full from its tree. -/
theorem value_tree (value : Value) (depth : Nat) (fits : depth + value.nesting ≤ depthLimit) :
    value.tree.value depth = .ok value := by
  cases value with
  | null => rw [Value.tree, Tree.value]
  | bool => rw [Value.tree, Tree.value]
  | number => rw [Value.tree, Tree.value]; rfl
  | string => rw [Value.tree, Tree.value]; rfl
  | array items =>
    rw [Value.nesting] at fits
    rw [Value.tree, Tree.value, if_neg (by omega), itemValues_itemTrees items _ (by omega)]
    rfl
  | object members =>
    rw [Value.nesting] at fits
    rw [Value.tree, Tree.value, if_neg (by omega), memberValues_memberTrees members _ (by omega)]
    rfl

theorem itemValues_itemTrees (items : List Value) (depth : Nat)
    (fits : depth + Value.itemNesting items ≤ depthLimit) :
    itemValues depth (Value.itemTrees items) = .ok items := by
  cases items with
  | nil => rw [Value.itemTrees, itemValues]
  | cons item others =>
    rw [Value.itemNesting] at fits
    rw [Value.itemTrees, itemValues, value_tree item depth (by omega),
      itemValues_itemTrees others depth (by omega)]
    rfl

theorem memberValues_memberTrees (members : List (String × Value)) (depth : Nat)
    (fits : depth + Value.memberNesting members ≤ depthLimit) :
    memberValues depth (Value.memberTrees members) = .ok members := by
  cases members with
  | nil => rw [Value.memberTrees, memberValues]
  | cons member others =>
    obtain ⟨key, value⟩ := member
    rw [Value.memberNesting] at fits
    rw [Value.memberTrees, memberValues, value_tree value depth (by omega),
      memberValues_memberTrees others depth (by omega)]
    rfl

end

mutual

/-- No value that is read is nested deeper than may be read. -/
theorem nesting_le_of_value (tree : Tree) (depth : Nat) (bound : depth ≤ depthLimit)
    {value : Value} (reads : tree.value depth = .ok value) :
    depth + value.nesting ≤ depthLimit := by
  cases tree with
  | null =>
    cases reads
    exact bound
  | bool =>
    cases reads
    exact bound
  | number outcome =>
    rw [Tree.value] at reads
    cases outcome with
    | error => cases reads
    | ok =>
      cases reads
      exact bound
  | string outcome =>
    rw [Tree.value] at reads
    cases outcome with
    | error => cases reads
    | ok =>
      cases reads
      exact bound
  | array items ending =>
    rw [Tree.value] at reads
    split at reads
    · cases reads
    · next room =>
      obtain ⟨values, inside, reads⟩ := bind_eq_ok_iff.mp reads
      obtain ⟨_, _, reads⟩ := bind_eq_ok_iff.mp reads
      cases reads
      have held := nesting_le_of_itemValues items (depth + 1) (by omega) inside
      rw [Value.nesting]
      omega
  | object members ending =>
    rw [Tree.value] at reads
    split at reads
    · cases reads
    · next room =>
      obtain ⟨values, inside, reads⟩ := bind_eq_ok_iff.mp reads
      obtain ⟨_, _, reads⟩ := bind_eq_ok_iff.mp reads
      cases reads
      have held := nesting_le_of_memberValues members (depth + 1) (by omega) inside
      rw [Value.nesting]
      omega
  | broken => cases reads

theorem nesting_le_of_itemValues (trees : List Tree) (depth : Nat) (bound : depth ≤ depthLimit)
    {items : List Value} (reads : itemValues depth trees = .ok items) :
    depth + Value.itemNesting items ≤ depthLimit := by
  cases trees with
  | nil =>
    cases reads
    rwa [Value.itemNesting]
  | cons tree others =>
    rw [itemValues] at reads
    obtain ⟨first, one, reads⟩ := bind_eq_ok_iff.mp reads
    obtain ⟨rest, several, reads⟩ := bind_eq_ok_iff.mp reads
    cases reads
    have here := nesting_le_of_value tree depth bound one
    have there := nesting_le_of_itemValues others depth bound several
    rw [Value.itemNesting]
    omega

theorem nesting_le_of_memberValues (trees : List (Except Fault String × Tree)) (depth : Nat)
    (bound : depth ≤ depthLimit) {members : List (String × Value)}
    (reads : memberValues depth trees = .ok members) :
    depth + Value.memberNesting members ≤ depthLimit := by
  cases trees with
  | nil =>
    cases reads
    rwa [Value.memberNesting]
  | cons entry others =>
    obtain ⟨key, tree⟩ := entry
    rw [memberValues] at reads
    obtain ⟨name, _, reads⟩ := bind_eq_ok_iff.mp reads
    obtain ⟨first, one, reads⟩ := bind_eq_ok_iff.mp reads
    obtain ⟨rest, several, reads⟩ := bind_eq_ok_iff.mp reads
    cases reads
    have here := nesting_le_of_value tree depth bound one
    have there := nesting_le_of_memberValues others depth bound several
    rw [Value.memberNesting]
    omega

end

/-- Only null is read as null. -/
theorem eq_null_of_value {tree : Tree} {depth : Nat} (reads : tree.value depth = .ok .null) :
    tree = .null := by
  cases tree with
  | null => rfl
  | bool => cases reads
  | number outcome =>
    rw [Tree.value] at reads
    cases outcome <;> cases reads
  | string outcome =>
    rw [Tree.value] at reads
    cases outcome <;> cases reads
  | array items ending =>
    rw [Tree.value] at reads
    split at reads
    · cases reads
    · obtain ⟨_, _, reads⟩ := bind_eq_ok_iff.mp reads
      obtain ⟨_, _, reads⟩ := bind_eq_ok_iff.mp reads
      cases reads
  | object members ending =>
    rw [Tree.value] at reads
    split at reads
    · cases reads
    · obtain ⟨_, _, reads⟩ := bind_eq_ok_iff.mp reads
      obtain ⟨_, _, reads⟩ := bind_eq_ok_iff.mp reads
      cases reads
  | broken => cases reads

end Tree

end ProgramGraphs.Json
