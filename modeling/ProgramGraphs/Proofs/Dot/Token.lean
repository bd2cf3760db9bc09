import Mathlib.Tactic.SplitIfs
import ProgramGraphs.Dot.Basic

/-! # Words and signs of DOT text

A text is read character by character. A quoted string ends at the first quote that no backslash
comes before; in it a backslash and the character after it stand for a backslash, a quote or a line
break. Outside of strings letters, digits and underscores make words, and blanks say nothing. A
piece of text that is read from between two tokens to between two tokens spells some tokens wherever
it stands (`Spells`), so pieces can be read one by one. Comments, numerals and markup are left to
other readers: such a text is not read at all.
-/

namespace ProgramGraphs.Dot

/-- A smallest piece of text with a meaning. -/
inductive Token where
  | word (text : String)
  | quoted (text : String)
  | openBlock
  | closeBlock
  | openList
  | closeList
  | equals
  | arrow
  deriving DecidableEq, Repr

/-- What a text stops in. -/
inductive Mode where
  | between
  | word (read : List Char)
  | quoted (read : List Char)
  | escaped (read : List Char)
  | dash

/-- How far a text has been read. -/
structure Scan where
  tokens : List Token
  mode : Mode

/-- Whether a character only separates. -/
def isBlank (c : Char) : Bool :=
  c == ' ' || c == '\n' || c == '\t' || c == '\r'

/-- Whether a word can start with a character. -/
def startsWord (c : Char) : Bool :=
  c.isAlpha || c == '_'

/-- Whether a word can go on with a character. -/
def continuesWord (c : Char) : Bool :=
  c.isAlphanum || c == '_'

/-- The token of a single character. -/
def sign? : Char → Option Token
  | '\x7b' => some .openBlock
  | '\x7d' => some .closeBlock
  | '[' => some .openList
  | ']' => some .closeList
  | '=' => some .equals
  | _ => none

/-- The character that a backslash and another character stand for. -/
def pair? : Char → Option Char
  | '\\' => some '\\'
  | '"' => some '"'
  | 'l' => some '\n'
  | _ => none

namespace Scan

/-- Read a character after some tokens. -/
def start (tokens : List Token) (c : Char) : Option Scan :=
  if startsWord c then some ⟨tokens, .word [c]⟩
  else if isBlank c then some ⟨tokens, .between⟩
  else if c = '"' then some ⟨tokens, .quoted []⟩
  else if c = '-' then some ⟨tokens, .dash⟩
  else (sign? c).map fun token => ⟨tokens ++ [token], .between⟩

/-- Read a character. -/
def step (scan : Scan) (c : Char) : Option Scan :=
  match scan.mode with
  | .between => start scan.tokens c
  | .word read =>
    if continuesWord c then some ⟨scan.tokens, .word (read ++ [c])⟩
    else start (scan.tokens ++ [.word (String.ofList read)]) c
  | .quoted read =>
    if c = '"' then some ⟨scan.tokens ++ [.quoted (String.ofList read)], .between⟩
    else if c = '\\' then some ⟨scan.tokens, .escaped read⟩
    else some ⟨scan.tokens, .quoted (read ++ [c])⟩
  | .escaped read => (pair? c).map fun meant => ⟨scan.tokens, .quoted (read ++ [meant])⟩
  | .dash => if c = '>' then some ⟨scan.tokens ++ [.arrow], .between⟩ else none

end Scan

/-- The tokens of a text that stops between two tokens. -/
def tokens? (text : String) : Option (List Token) :=
  match text.toList.foldlM Scan.step ⟨[], .between⟩ with
  | some ⟨tokens, .between⟩ => some tokens
  | _ => none

/-- Whether a text is a word. -/
def isWord (text : String) : Bool :=
  match text.toList with
  | [] => false
  | c :: rest => startsWord c && rest.all continuesWord

/-- A text without carriage returns. -/
def dropReturns (text : String) : String :=
  String.ofList (text.toList.filter (· ≠ '\r'))

theorem dropReturns_eq_self {text : String} (absent : '\r' ∉ text.toList) :
    dropReturns text = text := by
  rw [dropReturns, List.filter_eq_self.mpr fun c member => ?_, String.ofList_toList]
  exact decide_eq_true fun same => absent (same ▸ member)

theorem dropReturns_dropReturns (text : String) :
    dropReturns (dropReturns text) = dropReturns text := by
  simp [dropReturns]

/-- A piece of text that adds some tokens to those before it. -/
def Spells (text : List Char) (tokens : List Token) : Prop :=
  ∀ before, text.foldlM Scan.step ⟨before, .between⟩ = some ⟨before ++ tokens, .between⟩

namespace Spells

theorem nil : Spells [] [] := by
  intro before
  rw [List.append_nil]
  rfl

theorem append {first second : List Char} {front rest : List Token} (one : Spells first front)
    (other : Spells second rest) : Spells (first ++ second) (front ++ rest) := by
  intro before
  rw [List.foldlM_append, one before, ← List.append_assoc]
  exact other (before ++ front)

theorem blank {c : Char} (separates : isBlank c = true) : Spells [c] [] := by
  intro before
  simp only [isBlank, Bool.or_eq_true, beq_iff_eq] at separates
  rw [List.append_nil]
  rcases separates with ((rfl | rfl) | rfl) | rfl <;> rfl

theorem sign {c : Char} {token : Token} (means : sign? c = some token) : Spells [c] [token] := by
  intro before
  unfold sign? at means
  split at means <;> cases means <;> rfl

theorem arrow : Spells ['-', '>'] [.arrow] := by
  intro before
  simp [Scan.step, Scan.start, isBlank, startsWord]

theorem foldlM_word (before : List Token) (read : List Char) {rest : List Char}
    (continues : rest.all continuesWord = true) :
    rest.foldlM Scan.step ⟨before, .word read⟩ = some ⟨before, .word (read ++ rest)⟩ := by
  induction rest generalizing read with
  | nil => rw [List.append_nil]; rfl
  | cons c rest ih =>
    obtain ⟨here, others⟩ := Bool.and_eq_true_iff.mp (List.all_cons ▸ continues)
    have next : Scan.step ⟨before, .word read⟩ c = some ⟨before, .word (read ++ [c])⟩ := if_pos here
    rw [List.foldlM_cons, next]
    exact (ih (read ++ [c]) others).trans (by rw [List.append_assoc, List.singleton_append])

/-- A word ends at the first character that cannot belong to it. -/
theorem word {text : String} (plain : isWord text = true) {c : Char}
    (ends : continuesWord c = false) {tokens : List Token} (next : Spells [c] tokens) :
    Spells (text.toList ++ [c]) (.word text :: tokens) := by
  intro before
  rw [isWord] at plain
  split at plain
  · cases plain
  · next first rest shape =>
    obtain ⟨starts, continues⟩ := Bool.and_eq_true_iff.mp plain
    have opens : Scan.step ⟨before, .between⟩ first = some ⟨before, .word [first]⟩ := if_pos starts
    -- the character that ends the word is read as it is between tokens
    have closes : Scan.step ⟨before, .word ([first] ++ rest)⟩ c =
        Scan.step ⟨before ++ [.word text], .between⟩ c := by
      rw [List.singleton_append, ← shape]
      simp [Scan.step, ends, String.ofList_toList]
    have whole := next (before ++ [.word text])
    rw [shape, List.cons_append, List.foldlM_cons, opens]
    change (rest ++ [c]).foldlM Scan.step ⟨before, .word [first]⟩ = _
    rw [List.foldlM_append, foldlM_word before [first] continues, List.append_cons, ← whole]
    exact congrArg (· >>= fun scan => pure scan) closes

theorem foldlM_escapeChars (before : List Token) (read text : List Char) :
    (escapeChars text).foldlM Scan.step ⟨before, .quoted read⟩ =
      some ⟨before, .quoted (read ++ text.filter (· ≠ '\r'))⟩ := by
  induction text generalizing read with
  | nil => rw [List.filter_nil, List.append_nil]; rfl
  | cons c text ih =>
    have first : (escapeChar c).foldlM Scan.step ⟨before, .quoted read⟩ =
        some ⟨before, .quoted (read ++ [c].filter (· ≠ '\r'))⟩ := by
      unfold escapeChar
      split_ifs with isBackslash isQuote isReturn isBreak
      · subst isBackslash; rfl
      · subst isQuote; rfl
      · subst isReturn; simp
      · subst isBreak; rfl
      · simp [Scan.step, isBackslash, isQuote, isReturn]
    rw [escapeChars, List.flatMap_cons, List.foldlM_append, first]
    refine (ih _).trans ?_
    rw [List.append_assoc, ← List.filter_append, List.singleton_append]

/-- Quoting loses nothing but carriage returns. -/
theorem quote (text : String) : Spells (quote text).toList [.quoted (dropReturns text)] := by
  intro before
  rw [Dot.quote, String.toList_ofList, quoteChars, List.foldlM_cons]
  change (escapeChars text.toList ++ ['"']).foldlM Scan.step ⟨before, .quoted []⟩ = _
  rw [List.foldlM_append, foldlM_escapeChars, List.nil_append]
  rfl

end Spells

end ProgramGraphs.Dot
