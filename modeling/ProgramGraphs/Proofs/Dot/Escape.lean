import ProgramGraphs.Proofs.Dot.Token

/-! # Escaped text

What stands between the quotes of a quoted string is made of plain characters and of pairs that
begin with a backslash (`Escaped`). So the string ends at its last quote whatever follows it, and
the pairs can be read back. Escaping gives every such text, and the same one for two texts only
where these differ in carriage returns (`escape_reversible`). Replacing one character after the
other in the whole text comes to the same as escaping each character once, as long as backslashes
come first.
-/

namespace ProgramGraphs.Dot

/-- Put a text in the place of a character wherever it occurs. -/
def substitute (c : Char) (instead text : List Char) : List Char :=
  text.flatMap fun d => if d = c then instead else [d]

/-- Characters that stand for themselves between quotes. -/
def isPlain (c : Char) : Bool :=
  c != '\\' && c != '"' && c != '\n' && c != '\r'

/-- A text of plain characters and pairs. -/
inductive Escaped : List Char → Prop where
  | nil : Escaped []
  | plain {c : Char} {rest : List Char} (stands : isPlain c = true) (others : Escaped rest) :
      Escaped (c :: rest)
  | pair {c meant : Char} {rest : List Char} (means : pair? c = some meant)
      (others : Escaped rest) : Escaped ('\\' :: c :: rest)

/-- Read the pairs of a text back. -/
def unescape? : List Char → Option (List Char)
  | [] => some []
  | ['\\'] => none
  | '\\' :: c :: rest => (pair? c).bind fun meant => (unescape? rest).map (meant :: ·)
  | c :: rest => (unescape? rest).map (c :: ·)

/-- Cut a text at the first quote that is not the second character of a pair. -/
def close? : List Char → Option (List Char × List Char)
  | [] => none
  | '"' :: rest => some ([], rest)
  | '\\' :: c :: rest => (close? rest).map fun cut => ('\\' :: c :: cut.1, cut.2)
  | c :: rest => (close? rest).map fun cut => (c :: cut.1, cut.2)

/-- What stands between the quotes of the quoted string at the start of a text, and what follows. -/
def quoted? : List Char → Option (List Char × List Char)
  | '"' :: rest => close? rest
  | _ => none

theorem isPlain_iff {c : Char} :
    isPlain c = true ↔ c ≠ '\\' ∧ c ≠ '"' ∧ c ≠ '\n' ∧ c ≠ '\r' := by
  simp only [isPlain, Bool.and_eq_true, bne_iff_ne, and_assoc]

theorem escapeChar_of_isPlain {c : Char} (stands : isPlain c = true) : escapeChar c = [c] := by
  obtain ⟨notBackslash, notQuote, notBreak, notReturn⟩ := isPlain_iff.mp stands
  simp only [escapeChar, if_neg notBackslash, if_neg notQuote, if_neg notReturn, if_neg notBreak]

theorem escapeChar_of_pair? {c meant : Char} (means : pair? c = some meant) :
    escapeChar meant = ['\\', c] := by
  unfold pair? at means
  split at means <;> cases means <;> rfl

/-- A character is plain, or left out, or meant by a pair. -/
theorem escapeChar_cases (c : Char) :
    isPlain c = true ∨ c = '\r' ∨ c ≠ '\r' ∧ ∃ second, pair? second = some c := by
  by_cases isBackslash : c = '\\'
  · exact .inr (.inr (isBackslash ▸ ⟨by decide, '\\', rfl⟩))
  by_cases isQuote : c = '"'
  · exact .inr (.inr (isQuote ▸ ⟨by decide, '"', rfl⟩))
  by_cases isBreak : c = '\n'
  · exact .inr (.inr (isBreak ▸ ⟨by decide, 'l', rfl⟩))
  by_cases isReturn : c = '\r'
  · exact .inr (.inl isReturn)
  · exact .inl (isPlain_iff.mpr ⟨isBackslash, isQuote, isBreak, isReturn⟩)

/-- No replacement touches what those before it have put in. -/
theorem escapeChars_eq_substitute (text : List Char) :
    escapeChars text = substitute '\n' ['\\', 'l'] (substitute '\r' []
      (substitute '"' ['\\', '"'] (substitute '\\' ['\\', '\\'] text))) := by
  induction text with
  | nil => rfl
  | cons c text ih =>
    have single : escapeChar c = substitute '\n' ['\\', 'l'] (substitute '\r' []
        (substitute '"' ['\\', '"'] (substitute '\\' ['\\', '\\'] [c]))) := by
      unfold escapeChar
      split_ifs with isBackslash isQuote isReturn isBreak
      · subst isBackslash; rfl
      · subst isQuote; rfl
      · subst isReturn; rfl
      · subst isBreak; rfl
      · simp [substitute, isBackslash, isQuote, isReturn, isBreak]
    rw [escapeChars, List.flatMap_cons, ← escapeChars, ih, single]
    simp only [substitute, ← List.flatMap_append, List.singleton_append]

theorem escaped_escapeChars (text : List Char) : Escaped (escapeChars text) := by
  induction text with
  | nil => exact .nil
  | cons c text ih =>
    rw [escapeChars, List.flatMap_cons, ← escapeChars]
    rcases escapeChar_cases c with stands | rfl | ⟨-, second, means⟩
    · rw [escapeChar_of_isPlain stands]
      exact .plain stands ih
    · exact ih
    · rw [escapeChar_of_pair? means]
      exact .pair means ih

theorem unescape?_plain {c : Char} (stands : isPlain c = true) (rest : List Char) :
    unescape? (c :: rest) = (unescape? rest).map (c :: ·) := by
  have notBackslash := (isPlain_iff.mp stands).1
  rw [unescape?]
  · exact fun same _ => notBackslash same
  · exact fun _ _ same _ => notBackslash same

theorem unescape?_pair {c meant : Char} (means : pair? c = some meant) (rest : List Char) :
    unescape? ('\\' :: c :: rest) = (unescape? rest).map (meant :: ·) := by
  rw [unescape?, means, Option.bind_some]

/-- Only carriage returns are lost between escaping and reading back. -/
theorem unescape?_escapeChars (text : List Char) :
    unescape? (escapeChars text) = some (text.filter (· ≠ '\r')) := by
  induction text with
  | nil => rfl
  | cons c text ih =>
    rw [escapeChars, List.flatMap_cons, ← escapeChars]
    have kept (notReturn : c ≠ '\r') :
        (c :: text).filter (· ≠ '\r') = c :: text.filter (· ≠ '\r') :=
      List.filter_cons_of_pos (decide_eq_true notReturn)
    rcases escapeChar_cases c with stands | rfl | ⟨notReturn, second, means⟩
    · rw [escapeChar_of_isPlain stands, kept (isPlain_iff.mp stands).2.2.2]
      exact (unescape?_plain stands _).trans (ih ▸ rfl)
    · exact ih
    · rw [escapeChar_of_pair? means, kept notReturn]
      exact (unescape?_pair means _).trans (ih ▸ rfl)

namespace Escaped

variable {text : List Char}

/-- Line breaks and carriage returns are neither plain nor the second character of a pair. -/
theorem isPlain_or_pair? (escaped : Escaped text) {c : Char} (member : c ∈ text) :
    isPlain c = true ∨ c = '\\' ∨ ∃ meant, pair? c = some meant := by
  induction escaped with
  | nil => cases member
  | plain stands _ ih =>
    rcases List.mem_cons.mp member with rfl | member
    · exact .inl stands
    · exact ih member
  | pair means _ ih =>
    rcases List.mem_cons.mp member with rfl | member
    · exact .inr (.inl rfl)
    rcases List.mem_cons.mp member with rfl | member
    · exact .inr (.inr ⟨_, means⟩)
    · exact ih member

/-- A quoted string ends with the text between its quotes, whatever follows. -/
theorem close? (escaped : Escaped text) (rest : List Char) :
    Dot.close? (text ++ '"' :: rest) = some (text, rest) := by
  induction escaped with
  | nil => rfl
  | plain stands _ ih =>
    obtain ⟨notBackslash, notQuote, -⟩ := isPlain_iff.mp stands
    rw [List.cons_append, Dot.close?, ih, Option.map_some]
    · exact notQuote
    · exact fun _ _ same => absurd same notBackslash
  | pair means _ ih =>
    rw [List.cons_append, List.cons_append, Dot.close?, ih, Option.map_some]

/-- Every text of plain characters and pairs is what escaping makes of some text. -/
theorem exists_escapeChars (escaped : Escaped text) :
    ∃ meant, '\r' ∉ meant ∧ escapeChars meant = text := by
  induction escaped with
  | nil => exact ⟨[], List.not_mem_nil, rfl⟩
  | @plain c rest stands _ ih =>
    obtain ⟨meant, noReturn, rfl⟩ := ih
    have notReturn := (isPlain_iff.mp stands).2.2.2
    refine ⟨c :: meant, fun member => ?_, ?_⟩
    · exact (List.mem_cons.mp member).elim (fun same => notReturn same.symm) noReturn
    · rw [escapeChars, List.flatMap_cons, escapeChar_of_isPlain stands]
      rfl
  | @pair c first rest means _ ih =>
    obtain ⟨meant, noReturn, rfl⟩ := ih
    refine ⟨first :: meant, fun member => ?_, ?_⟩
    · rcases List.mem_cons.mp member with rfl | member
      · cases escapeChar_of_pair? means
      · exact noReturn member
    · rw [escapeChars, List.flatMap_cons, escapeChar_of_pair? means]
      rfl

end Escaped

/-- Escaping comes to four replacements in the whole text, one after the other. It leaves no line
break and no carriage return, every backslash begins a pair, and no quote stands outside of a pair.
So a quoted text is one quoted string that ends where the text ends, whatever follows it. Every text
like that is an escaped one, and reading the pairs back loses nothing but carriage returns. -/
theorem escape_reversible (text : String) :
    (escape text).toList = substitute '\n' ['\\', 'l'] (substitute '\r' []
      (substitute '"' ['\\', '"'] (substitute '\\' ['\\', '\\'] text.toList))) ∧
    ('\n' ∉ (escape text).toList ∧ '\r' ∉ (escape text).toList) ∧
    Escaped (escape text).toList ∧
    (∀ rest, quoted? ((quote text).toList ++ rest) = some ((escape text).toList, rest)) ∧
    tokens? (quote text) = some [.quoted (dropReturns text)] ∧
    unescape? (escape text).toList = some (dropReturns text).toList ∧
    (∀ other : String, '\r' ∉ text.toList → '\r' ∉ other.toList →
      (escape text = escape other ↔ text = other)) ∧
    (∀ escaped, Escaped escaped → ∃ meant : String, (escape meant).toList = escaped) := by
  have toList_escape (text : String) : (escape text).toList = escapeChars text.toList :=
    String.toList_ofList
  have escaped := escaped_escapeChars text.toList
  have notRaw (c : Char) (raw : c = '\n' ∨ c = '\r') : c ∉ escapeChars text.toList := by
    intro member
    rcases escaped.isPlain_or_pair? member with stands | isBackslash | ⟨meant, means⟩
    · rcases raw with rfl | rfl <;> cases stands
    · rcases raw with rfl | rfl <;> cases isBackslash
    · rcases raw with rfl | rfl <;> cases means
  simp only [toList_escape]
  refine ⟨escapeChars_eq_substitute _, ⟨notRaw _ (.inl rfl), notRaw _ (.inr rfl)⟩, escaped,
    ?ends, ?reads, ?back, ?injective, ?onto⟩
  case ends =>
    intro rest
    rw [quote, String.toList_ofList, quoteChars, List.cons_append, List.append_assoc]
    exact escaped.close? rest
  case reads =>
    rw [tokens?, Spells.quote text [], List.nil_append]
  case back =>
    rw [unescape?_escapeChars, dropReturns, String.toList_ofList]
  case injective =>
    intro other noReturn otherNoReturn
    refine ⟨fun same => ?_, fun same => same ▸ rfl⟩
    have chars : escapeChars text.toList = escapeChars other.toList := by
      rw [← toList_escape, ← toList_escape, same]
    have kept := congrArg unescape? chars
    rw [unescape?_escapeChars, unescape?_escapeChars, Option.some.injEq] at kept
    rw [← dropReturns_eq_self noReturn, ← dropReturns_eq_self otherNoReturn, dropReturns,
      dropReturns, kept]
  case onto =>
    intro escaped shaped
    obtain ⟨meant, -, rfl⟩ := shaped.exists_escapeChars
    exact ⟨String.ofList meant, by rw [String.toList_ofList]⟩

end ProgramGraphs.Dot
