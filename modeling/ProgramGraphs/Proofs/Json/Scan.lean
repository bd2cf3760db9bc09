import ProgramGraphs.Proofs.Json.Number

/-! # The tokens of written values

The bytes of a text are decoded to its characters again. A value is written as its tokens one after
the other. Inside a string every character that is written, escaped or not, is scanned as one
character. What follows a value inside another is a comma or a closing bracket, so no number goes on
there.
-/

namespace ProgramGraphs.Json

namespace Text

/-- Encoded characters are decoded one after the other. -/
theorem ofBytesFrom_utf8Encode (before : ByteArray) (chars : List Char) :
    ofBytesFrom (before ++ chars.utf8Encode) before.size = chars.map some := by
  induction chars generalizing before with
  | nil =>
    rw [ofBytesFrom, if_neg (by simp)]
    rfl
  | cons c rest ih =>
    have decoded : (before ++ (c :: rest).utf8Encode).utf8DecodeChar? before.size = some c := by
      rw [ByteArray.utf8DecodeChar?_eq_utf8DecodeChar?_extract,
        ByteArray.extract_append_eq_right rfl ByteArray.size_append,
        List.utf8DecodeChar?_utf8Encode_cons]
    have onward := ih (before ++ [c].utf8Encode)
    have moved : (before ++ [c].utf8Encode).size = before.size + c.utf8Size := by
      simp [List.utf8Encode_singleton]
    rw [ByteArray.append_assoc, ← List.utf8Encode_cons, moved] at onward
    have inside : before.size < (before ++ (c :: rest).utf8Encode).size := by
      have := Char.utf8Size_pos c
      rw [List.utf8Encode_cons, ← ByteArray.append_assoc, ByteArray.size_append, moved]
      omega
    rw [ofBytesFrom, if_pos inside, decoded]
    exact congrArg (some c :: ·) onward

/-- The bytes of a string are decoded to its characters. -/
theorem ofBytes_toUTF8 (text : String) : ofBytes text.toUTF8 = ofString text := by
  have decoded := ofBytesFrom_utf8Encode ByteArray.empty text.toList
  rwa [ByteArray.empty_append, String.utf8Encode_toList] at decoded

end Text

namespace Value

mutual

/-- The tokens of a value. -/
def tokens : Value → List Token
  | .null => [.null]
  | .bool value => [.bool value]
  | .number value => [.number (.ok value)]
  | .string value => [.string (.ok value)]
  | .array items => .openArray :: (itemTokens items ++ [.closeArray])
  | .object members => .openObject :: (memberTokens members ++ [.closeObject])

def itemTokens : List Value → List Token
  | [] => []
  | [item] => tokens item
  | item :: rest => tokens item ++ .comma :: itemTokens rest

def memberTokens : List (String × Value) → List Token
  | [] => []
  | [(key, value)] => .string (.ok key) :: .colon :: tokens value
  | (key, value) :: rest =>
    .string (.ok key) :: .colon :: (tokens value ++ .comma :: memberTokens rest)

end

mutual

/-- The floating-point numbers in a value. -/
def floats : Value → List Binary64
  | .number (.float value) => [value]
  | .array items => itemFloats items
  | .object members => memberFloats members
  | _ => []

def itemFloats : List Value → List Binary64
  | [] => []
  | item :: rest => floats item ++ itemFloats rest

def memberFloats : List (String × Value) → List Binary64
  | [] => []
  | (_, value) :: rest => floats value ++ memberFloats rest

end

end Value

namespace Token

/-- The hexadecimal escape of a control character. -/
theorem hexValues?_escape : ∀ n < 32, hexValues? [some '0', some '0', some (hexDigit (n / 16)),
    some (hexDigit n)] = some n := by
  decide

/-- A character that is written in a string is scanned as that character. -/
theorem scanString_escapeChar (reversed : List Char) (c : Char) (rest : Text) :
    scanString { reversed } ((escapeChar c).map some ++ rest) =
      scanString { reversed := c :: reversed } rest := by
  unfold escapeChar
  iterate 7
    split
    · next same => subst same; rfl
  split
  · next control =>
    have plain : ¬ (0xD800 ≤ c.toNat ∧ c.toNat ≤ 0xDBFF) := by omega
    have single : ¬ (0xDC00 ≤ c.toNat ∧ c.toNat ≤ 0xDFFF) := by omega
    simp only [List.map_cons, List.map_nil, List.cons_append, List.nil_append, scanString,
      hexValues?_escape c.toNat control, Partial.pushUnit, if_neg plain, if_neg single,
      Char.ofNat_toNat]
  · next quote backslash _ _ _ _ _ visible =>
    rw [List.map_singleton, List.singleton_append, scanString.eq_8 _ _ _ quote
      (fun _ => backslash) (fun _ _ _ _ _ _ => backslash) (fun _ _ => backslash)
      (fun _ _ _ => backslash), if_neg visible]
    rfl

/-- What is written of a string is scanned as the string. -/
theorem scanString_escaped (characters reversed : List Char) (rest : Text) :
    scanString { reversed } ((characters.flatMap escapeChar ++ ['"']).map some ++ rest) =
      (.string (.ok (String.ofList (reversed.reverse ++ characters))), rest) := by
  induction characters generalizing reversed with
  | nil =>
    rw [List.append_nil]
    rfl
  | cons c characters ih =>
    rw [List.flatMap_cons, List.append_assoc, List.map_append, List.append_assoc,
      scanString_escapeChar, ih, List.reverse_cons, List.append_assoc, List.singleton_append]

theorem scan_quotedChars (text : String) (rest : Text) :
    scan ((quotedChars text).map some ++ rest) = .string (.ok text) :: scan rest := by
  have scanned := scanString_escaped text.toList [] rest
  rw [List.reverse_nil, List.nil_append, String.ofList_toList] at scanned
  have visible : isBlank (some '"') = false := by decide
  rw [quotedChars, List.map_cons, List.cons_append]
  exact scan_of_scanOne visible scanned

theorem scan_comma (rest : Text) : scan (some ',' :: rest) = .comma :: scan rest :=
  scan_of_scanOne (by decide) rfl

theorem scan_colon (rest : Text) : scan (some ':' :: rest) = .colon :: scan rest :=
  scan_of_scanOne (by decide) rfl

mutual

/-- What is written of a value is scanned as its tokens. -/
theorem scan_compactChars (value : Value) (reads : ∀ f ∈ value.floats, (Number.float f).ReadsBack)
    {rest : Text} (ends : Text.EndsNumber rest) :
    scan (value.compactChars.map some ++ rest) = value.tokens ++ scan rest := by
  cases value with
  | null => exact scan_of_scanOne (c := 'n') (by decide) rfl
  | bool value =>
    cases value with
    | false => exact scan_of_scanOne (c := 'f') (by decide) rfl
    | true => exact scan_of_scanOne (c := 't') (by decide) rfl
  | number number =>
    cases number with
    | integer value fits => exact scan_chars (Number.readsBack_integer value fits) ends
    | float f => exact scan_chars (reads f (by simp [Value.floats])) ends
  | string text => exact scan_quotedChars text rest
  | array items =>
    rw [Value.floats] at reads
    have inside := scan_compactItems items reads (Text.endsNumber_cons (c := ']') (by decide) rest)
    have close : scan (some ']' :: rest) = .closeArray :: scan rest :=
      scan_of_scanOne (by decide) rfl
    rw [Value.compactChars, Value.tokens, List.map_cons, List.map_append, List.cons_append,
      List.append_assoc, List.cons_append, List.append_assoc, List.singleton_append, ← close,
      ← inside]
    exact scan_of_scanOne (by decide) rfl
  | object members =>
    rw [Value.floats] at reads
    have inside := scan_compactMembers members reads
      (Text.endsNumber_cons (c := '\x7d') (by decide) rest)
    have close : scan (some '\x7d' :: rest) = .closeObject :: scan rest :=
      scan_of_scanOne (by decide) rfl
    rw [Value.compactChars, Value.tokens, List.map_cons, List.map_append, List.cons_append,
      List.append_assoc, List.cons_append, List.append_assoc, List.singleton_append, ← close,
      ← inside]
    exact scan_of_scanOne (by decide) rfl

theorem scan_compactItems (items : List Value)
    (reads : ∀ f ∈ Value.itemFloats items, (Number.float f).ReadsBack)
    {rest : Text} (ends : Text.EndsNumber rest) :
    scan ((Value.compactItems items).map some ++ rest) = Value.itemTokens items ++ scan rest := by
  cases items with
  | nil => rfl
  | cons item others =>
    rw [Value.itemFloats] at reads
    obtain ⟨first, later⟩ := List.forall_mem_append.mp reads
    cases others with
    | nil => exact scan_compactChars item first ends
    | cons second others =>
      have onward := scan_compactItems (second :: others) later ends
      rw [Value.compactItems, Value.itemTokens, List.map_append, List.map_cons, List.append_assoc,
        List.append_assoc, List.cons_append, List.cons_append, ← onward, ← scan_comma]
      · exact scan_compactChars item first (Text.endsNumber_cons (by decide) _)
      · simp
      · simp

theorem scan_compactMembers (members : List (String × Value))
    (reads : ∀ f ∈ Value.memberFloats members, (Number.float f).ReadsBack)
    {rest : Text} (ends : Text.EndsNumber rest) :
    scan ((Value.compactMembers members).map some ++ rest) =
      Value.memberTokens members ++ scan rest := by
  cases members with
  | nil => rfl
  | cons member others =>
    obtain ⟨key, value⟩ := member
    rw [Value.memberFloats] at reads
    obtain ⟨first, later⟩ := List.forall_mem_append.mp reads
    cases others with
    | nil =>
      rw [Value.compactMembers, Value.memberTokens, List.map_append, List.map_cons,
        List.append_assoc, List.cons_append, scan_quotedChars, scan_colon,
        scan_compactChars value first ends]
      rfl
    | cons second others =>
      have onward := scan_compactMembers (second :: others) later ends
      rw [Value.compactMembers, Value.memberTokens, List.map_append, List.map_cons,
        List.map_append, List.map_cons, List.append_assoc, List.cons_append, List.append_assoc,
        List.cons_append, scan_quotedChars, scan_colon,
        scan_compactChars value first (Text.endsNumber_cons (by decide) _), scan_comma, onward]
      · simp
      · simp
      · simp

end

end Token

end ProgramGraphs.Json
