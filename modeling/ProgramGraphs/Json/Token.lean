import ProgramGraphs.Json.Failure
import ProgramGraphs.Json.ScaledWord
import ProgramGraphs.Json.Value

/-! # JSON text as tokens

A text is a list of characters among which bytes that belong to no character may stand. `Token.scan`
cuts it into tokens and never fails: what is wrong with a token is part of the token. Some faults
only matter to a reader that needs the value (a number too large, a lone surrogate, a byte that is
no text); a reader that skips the value passes over them. After a broken token nothing is scanned.
-/

namespace ProgramGraphs.Json

/-- Characters, and `none` for a byte that is part of no character. -/
abbrev Text := List (Option Char)

namespace Text

/-- A string as text. -/
def ofString (text : String) : Text :=
  text.toList.map some

/-- Decode bytes from a position on. -/
def ofBytesFrom (bytes : ByteArray) (position : Nat) : Text :=
  if position < bytes.size then
    match bytes.utf8DecodeChar? position with
    | some c => some c :: ofBytesFrom bytes (position + c.utf8Size)
    | none => none :: ofBytesFrom bytes (position + 1)
  else []
termination_by bytes.size - position
decreasing_by
  · have := Char.utf8Size_pos c
    omega
  · omega

/-- Decode bytes; a byte that starts no character stands alone. -/
def ofBytes (bytes : ByteArray) : Text :=
  ofBytesFrom bytes 0

/-- The number of bytes that a text takes. -/
def byteCount (text : Text) : Nat :=
  (text.map fun symbol => (symbol.map Char.utf8Size).getD 1).foldr (· + ·) 0

/-- The digits at the head of a text, and what follows them. -/
def takeDigits : Text → List Char × Text
  | some c :: rest =>
    if c.isDigit then (c :: (takeDigits rest).1, (takeDigits rest).2) else ([], some c :: rest)
  | text => ([], text)

theorem takeDigits_length (text : Text) : (takeDigits text).2.length ≤ text.length := by
  fun_induction takeDigits text with
  | case1 c rest digit ih => simp only [List.length_cons]; omega
  | case2 => exact Nat.le_refl _
  | case3 => exact Nat.le_refl _

theorem takeDigits_length_lt (text : Text) (taken : (takeDigits text).1 ≠ []) :
    (takeDigits text).2.length < text.length := by
  fun_cases takeDigits text with
  | case1 c rest digit =>
    have := takeDigits_length rest
    simp only [List.length_cons]
    omega
  | case2 c rest other => simp [takeDigits, other] at taken
  | case3 text other => simp [takeDigits] at taken

end Text

/-- A piece of JSON text. -/
inductive Token where
  | openArray
  | closeArray
  | openObject
  | closeObject
  | comma
  | colon
  | null
  | bool (value : Bool)
  | number (value : Except Fault Number)
  | string (value : Except Fault String)
  | brokenString (read skipped : Fault)
  | broken (read skipped : Fault)

namespace Token

/-- The value of a hexadecimal digit. -/
def hexValue? (c : Char) : Option Nat :=
  if '0' ≤ c ∧ c ≤ '9' then some (c.toNat - 48)
  else if 'a' ≤ c ∧ c ≤ 'f' then some (c.toNat - 87)
  else if 'A' ≤ c ∧ c ≤ 'F' then some (c.toNat - 55)
  else none

/-- The value of four hexadecimal digits. -/
def hexValues? (symbols : List (Option Char)) : Option Nat :=
  symbols.foldlM (fun value symbol => do
    let digit ← hexValue? (← symbol)
    pure (16 * value + digit)) 0

/-- The character named by a letter after a backslash. -/
def escaped? : Char → Option Char
  | '"' => some '"'
  | '\\' => some '\\'
  | '/' => some '/'
  | 'b' => some '\x08'
  | 'f' => some '\x0c'
  | 'n' => some '\n'
  | 'r' => some '\r'
  | 't' => some '\t'
  | _ => none

/-- What is known of a string of which a part has been scanned: its characters in reverse, whether
it holds a byte that is no text, a leading surrogate that waits for its partner, and the first
fault of an escape. -/
structure Partial where
  reversed : List Char := []
  garbled : Bool := false
  leading : Option Nat := none
  fault : Option Fault := none

namespace Partial

/-- Anything but a hexadecimal escape leaves a waiting surrogate alone. -/
def settle (content : Partial) : Partial :=
  match content.leading with
  | none => content
  | some _ =>
    { content with leading := none, fault := content.fault.or (some .hexEscapeCutShort) }

/-- Append a character. -/
def push (content : Partial) (c : Char) : Partial :=
  { content.settle with reversed := c :: content.reversed }

/-- Append a byte that is no text. -/
def pushByte (content : Partial) : Partial :=
  { content.settle with garbled := true }

/-- Append a code unit: a surrogate pair makes one character, and neither half stands alone. -/
def pushUnit (content : Partial) (unit : Nat) : Partial :=
  match content.leading with
  | some leading =>
    if 0xDC00 ≤ unit ∧ unit ≤ 0xDFFF then
      { content with
        leading := none
        reversed :=
          Char.ofNat (0x10000 + (leading - 0xD800) * 0x400 + (unit - 0xDC00)) ::
            content.reversed }
    else { content with leading := none, fault := content.fault.or (some .loneSurrogate) }
  | none =>
    if 0xD800 ≤ unit ∧ unit ≤ 0xDBFF then { content with leading := some unit }
    else if 0xDC00 ≤ unit ∧ unit ≤ 0xDFFF then
      { content with fault := content.fault.or (some .loneSurrogate) }
    else { content with reversed := Char.ofNat unit :: content.reversed }

/-- The string, once its closing quote is reached. -/
def close (content : Partial) : Except Fault String :=
  match content.settle.fault with
  | some fault => .error fault
  | none =>
    if content.garbled then .error .invalidCodePoint
    else .ok (String.ofList content.reversed.reverse)

/-- A string that breaks off; an earlier fault of an escape is what a reader of the value meets. -/
def breakOff (content : Partial) (fault : Fault) : Token :=
  .brokenString (content.fault.getD fault) fault

end Partial

/-- Scan a string after its opening quote. -/
def scanString (content : Partial) : Text → Token × Text
  | [] => (content.breakOff .stringCutShort, [])
  | some '"' :: rest => (.string content.close, rest)
  | [some '\\'] => (content.breakOff .stringCutShort, [])
  | some '\\' :: some 'u' :: a :: b :: c :: d :: rest =>
    match hexValues? [a, b, c, d] with
    | some unit => scanString (content.pushUnit unit) rest
    | none => (content.breakOff .invalidEscape, [])
  | some '\\' :: some 'u' :: short =>
    if Text.byteCount short < 4 then (content.breakOff .stringCutShort, [])
    else (content.breakOff .invalidEscape, [])
  | some '\\' :: letter :: rest =>
    match letter.bind escaped? with
    | some c => scanString (content.push c) rest
    | none => (content.settle.breakOff .invalidEscape, [])
  | none :: rest => scanString content.pushByte rest
  | some c :: rest =>
    if c.toNat < 32 then (content.settle.breakOff .controlCharacter, [])
    else scanString (content.push c) rest

theorem scanString_length (content : Partial) (text : Text) :
    (scanString content text).2.length ≤ text.length := by
  fun_induction scanString content text <;> simp only [List.length_nil, List.length_cons] at * <;>
    omega

/-- The number written by decimal digits. -/
def digitsValue (digits : List Char) : Nat :=
  digits.foldl (fun value digit => 10 * value + digitValue digit) 0

/-- A number with a fraction or an exponent. -/
def scaledNumber (negative : Bool) (whole fraction : List Char) (exponent : Int) :
    Except Fault Number :=
  match (ScaledWord.ofDigits whole fraction exponent).toBinary64? negative with
  | some float => .ok (.float float)
  | none => .error .numberOutOfRange

/-- A number without fraction and exponent stays whole where it fits; zero with a sign does not. -/
def wholeNumber (negative : Bool) (digits : List Char) : Except Fault Number :=
  let magnitude := digitsValue digits
  let value : Int := if negative then -(magnitude : Int) else magnitude
  if fits : Number.Fits value ∧ ¬(negative ∧ magnitude = 0) then .ok (.integer value fits.1)
  else scaledNumber negative digits [] 0

/-- A number that lacks a digit. Only a reader of the value minds whether the text ended there. -/
def digitMissing (rest : Text) : Token × Text :=
  (.broken (if rest.isEmpty then .valueCutShort else .invalidNumber) .invalidNumber, [])

/-- Scan the digits of an exponent after its sign, if any. -/
def scanExponent (negative : Bool) (whole fraction : List Char) (below : Bool) (text : Text) :
    Token × Text :=
  match Text.takeDigits text with
  | ([], rest) => digitMissing rest
  | (digits, rest) =>
    let magnitude : Int := digitsValue digits
    (.number (scaledNumber negative whole fraction (if below then -magnitude else magnitude)), rest)

/-- Scan what may follow the whole part and the fraction of a number. -/
def scanScale (negative : Bool) (whole : List Char) (fraction : Option (List Char)) :
    Text → Token × Text
  | some 'e' :: rest | some 'E' :: rest =>
    match rest with
    | some '+' :: rest => scanExponent negative whole (fraction.getD []) false rest
    | some '-' :: rest => scanExponent negative whole (fraction.getD []) true rest
    | rest => scanExponent negative whole (fraction.getD []) false rest
  | rest =>
    match fraction with
    | some fraction => (.number (scaledNumber negative whole fraction 0), rest)
    | none => (.number (wholeNumber negative whole), rest)

/-- Scan what may follow the whole part of a number. -/
def scanFraction (negative : Bool) (whole : List Char) : Text → Token × Text
  | some '.' :: rest =>
    match Text.takeDigits rest with
    | ([], rest) => digitMissing rest
    | (digits, rest) => scanScale negative whole (some digits) rest
  | rest => scanScale negative whole none rest

/-- Scan a number after its sign; a leading zero stands alone. -/
def scanNumber (negative : Bool) (text : Text) : Token × Text :=
  match Text.takeDigits text with
  | ([], rest) => digitMissing rest
  | ('0' :: _ :: _, _) => (.broken .invalidNumber .invalidNumber, [])
  | (digits, rest) => scanFraction negative digits rest

theorem scanExponent_length (negative : Bool) (whole fraction : List Char) (below : Bool)
    (text : Text) : (scanExponent negative whole fraction below text).2.length ≤ text.length := by
  have shorter := Text.takeDigits_length text
  unfold scanExponent
  split
  · simp [digitMissing]
  · next taken => simpa [taken] using shorter

theorem scanScale_length (negative : Bool) (whole : List Char) (fraction : Option (List Char))
    (text : Text) : (scanScale negative whole fraction text).2.length ≤ text.length := by
  unfold scanScale
  split
  · split <;> refine Nat.le_trans (scanExponent_length ..) ?_ <;>
      simp only [List.length_cons] <;> omega
  · split <;> refine Nat.le_trans (scanExponent_length ..) ?_ <;>
      simp only [List.length_cons] <;> omega
  · split <;> exact Nat.le_refl _

theorem scanFraction_length (negative : Bool) (whole : List Char) (text : Text) :
    (scanFraction negative whole text).2.length ≤ text.length := by
  unfold scanFraction
  split
  · next rest =>
    have shorter := Text.takeDigits_length rest
    split
    · simp [digitMissing]
    · next taken =>
      rw [taken] at shorter
      exact Nat.le_trans (scanScale_length ..) (Nat.le_trans shorter (by simp))
  · exact scanScale_length ..

theorem scanNumber_length (negative : Bool) (text : Text) :
    (scanNumber negative text).2.length ≤ text.length - 1 := by
  have shorter := Text.takeDigits_length_lt text
  unfold scanNumber
  split
  · simp [digitMissing]
  · simp
  · next some_digit _ taken =>
    rw [taken] at shorter
    refine Nat.le_trans (scanFraction_length ..) ?_
    have := shorter some_digit
    simp only at this
    omega

/-- A word must be spelt out; the text may also end inside it. -/
def scanWord (token : Token) : List Char → Text → Token × Text
  | [], rest => (token, rest)
  | _ :: _, [] => (.broken .valueCutShort .valueCutShort, [])
  | expected :: letters, found :: rest =>
    if found = some expected then scanWord token letters rest
    else (.broken .expectedWord .expectedWord, [])

theorem scanWord_length (token : Token) (letters : List Char) (text : Text) :
    (scanWord token letters text).2.length ≤ text.length := by
  fun_induction scanWord token letters text <;>
    simp only [List.length_nil, List.length_cons] at * <;>
    omega

/-- Scan the token that starts with a character which is no blank. -/
def scanOne (head : Option Char) (rest : Text) : Token × Text :=
  match head with
  | some '[' => (.openArray, rest)
  | some ']' => (.closeArray, rest)
  | some '\x7b' => (.openObject, rest)
  | some '\x7d' => (.closeObject, rest)
  | some ',' => (.comma, rest)
  | some ':' => (.colon, rest)
  | some '"' => scanString {} rest
  | some 'n' => scanWord .null ['u', 'l', 'l'] rest
  | some 't' => scanWord (.bool true) ['r', 'u', 'e'] rest
  | some 'f' => scanWord (.bool false) ['a', 'l', 's', 'e'] rest
  | some '-' => scanNumber true rest
  | some c =>
    if c.isDigit then scanNumber false (some c :: rest)
    else (.broken .expectedValue .expectedValue, [])
  | none => (.broken .expectedValue .expectedValue, [])

theorem scanOne_length (head : Option Char) (rest : Text) :
    (scanOne head rest).2.length ≤ rest.length := by
  unfold scanOne
  split <;> first
    | exact Nat.le_refl _
    | exact scanString_length ..
    | exact scanWord_length ..
    | exact Nat.le_trans (scanNumber_length ..) (Nat.sub_le ..)
    | skip
  · split
    · exact Nat.le_trans (scanNumber_length ..) (by simp)
    · simp
  · simp

/-- Blanks separate tokens. -/
def isBlank (symbol : Option Char) : Bool :=
  symbol = some ' ' || symbol = some '\t' || symbol = some '\n' || symbol = some '\r'

/-- The tokens of a text. -/
def scan : Text → List Token
  | [] => []
  | head :: rest =>
    if isBlank head then scan rest
    else (scanOne head rest).1 :: scan (scanOne head rest).2
termination_by text => text.length
decreasing_by
  · simp
  · have := scanOne_length head rest
    simp only [List.length_cons]
    omega

end Token

end ProgramGraphs.Json
