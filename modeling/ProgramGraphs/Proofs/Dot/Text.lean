import ProgramGraphs.Proofs.Dot.Grammar

/-! # DOT text is read back

Every line of a printed document spells the tokens of its part of the document, and what stands
between the lines spells nothing. So the text is read as the document, but for the carriage returns
in its strings (`Document.read?_text`).
-/

namespace ProgramGraphs.Dot

/-- Change the values of attributes. -/
def mapValues (change : String → String) (attributes : List (String × String)) :
    List (String × String) :=
  attributes.map fun entry => (entry.1, change entry.2)

/-- Change the strings of a statement; its keys are words. -/
def Statement.mapTexts (change : String → String) : Statement → Statement
  | .defaults scope attributes => .defaults scope (mapValues change attributes)
  | .attribute key value => .attribute key (change value)
  | .node id attributes => .node (change id) (mapValues change attributes)
  | .edge source target attributes =>
    .edge (change source) (change target) (mapValues change attributes)

/-- Change the strings of a statement or a cluster. -/
def Element.mapTexts (change : String → String) : Element → Element
  | .statement content => .statement (content.mapTexts change)
  | .subgraph id statements => .subgraph (change id) (statements.map (·.mapTexts change))

/-- Change the strings of a graph. -/
def Document.mapTexts (change : String → String) (document : Document) : Document :=
  ⟨change document.id, document.elements.map (·.mapTexts change)⟩

/-- Lines that spell some tokens, one line after the other. -/
inductive LinesSpell : List String → List Token → Prop
  | nil : LinesSpell [] []
  | cons {line : String} {lines : List String} {front rest : List Token} :
      Spells line.toList front → LinesSpell lines rest → LinesSpell (line :: lines) (front ++ rest)

namespace LinesSpell

theorem single {line : String} {tokens : List Token} (spells : Spells line.toList tokens) :
    LinesSpell [line] tokens := by
  have whole := LinesSpell.cons spells .nil
  rwa [List.append_nil] at whole

theorem append {first second : List String} {front rest : List Token} (one : LinesSpell first front)
    (other : LinesSpell second rest) : LinesSpell (first ++ second) (front ++ rest) := by
  induction one with
  | nil => exact other
  | cons here _ ih =>
    rw [List.cons_append, List.append_assoc]
    exact .cons here ih

theorem flatMap {α : Type} {items : List α} {lines : α → List String} {tokens : α → List Token}
    (each : ∀ item ∈ items, LinesSpell (lines item) (tokens item)) :
    LinesSpell (items.flatMap lines) (items.flatMap tokens) := by
  induction items with
  | nil => exact .nil
  | cons item rest ih =>
    obtain ⟨here, others⟩ := List.forall_mem_cons.mp each
    exact here.append (ih others)

theorem map {α : Type} {items : List α} {line : α → String} {tokens : α → List Token}
    (each : ∀ item ∈ items, Spells (line item).toList (tokens item)) :
    LinesSpell (items.map line) (items.flatMap tokens) := by
  rw [List.map_eq_flatMap]
  exact flatMap fun item member => single (each item member)

/-- What stands between lines says nothing. -/
theorem intercalate {lines : List String} {tokens : List Token} (spells : LinesSpell lines tokens)
    {between : String} (silent : Spells between.toList []) :
    Spells (String.intercalate between lines).toList tokens := by
  rw [String.toList_intercalate]
  induction spells with
  | nil => exact .nil
  | @cons line lines front rest here others ih =>
    cases lines with
    | nil =>
      cases others
      simpa using here
    | cons next lines =>
      rw [List.map_cons, List.map_cons, List.intercalate_cons_cons, List.append_assoc]
      exact here.append (silent.append ih)

end LinesSpell

theorem spells_attributeText {entry : String × String} (plain : isKey entry.1 = true) :
    Spells (attributeText entry).toList (attributeTokens (entry.1, dropReturns entry.2)) := by
  have word : isWord entry.1 = true := (Bool.and_eq_true_iff.mp plain).1
  have named : Spells (entry.1.toList ++ ['=']) [.word entry.1, .equals] :=
    Spells.word word (by decide) (Spells.sign rfl)
  have whole := named.append (Spells.quote entry.2)
  rw [attributeText, String.toList_append, String.toList_append]
  exact whole

/-- The bracket is left out that the attributes start with. -/
theorem spells_attributesText {attributes : List (String × String)} (plain : HasKeys attributes) :
    ∃ inner, (attributesText attributes).toList = '[' :: inner ∧
      Spells inner
        ((mapValues dropReturns attributes).flatMap attributeTokens ++ [.closeList]) := by
  have entries : LinesSpell (attributes.map attributeText)
      ((mapValues dropReturns attributes).flatMap attributeTokens) := by
    rw [mapValues, List.flatMap_map]
    exact .map fun entry member => spells_attributeText (plain entry member)
  refine ⟨(String.intercalate " " (attributes.map attributeText)).toList ++ [']'], ?_, ?_⟩
  · rw [attributesText, String.toList_append, String.toList_append]
    rfl
  · have silent : Spells " ".toList [] := Spells.blank (c := ' ') rfl
    exact (entries.intercalate silent).append (Spells.sign rfl)

theorem Statement.spells_text {content : Statement} (plain : content.HasKeys) :
    Spells content.text.toList (content.mapTexts dropReturns).tokens := by
  match content, plain with
  | .defaults scope attributes, plain =>
    obtain ⟨inner, shape, spells⟩ := spells_attributesText plain
    have word : isWord scope.keyword = true := by cases scope <;> decide
    have named : Spells (scope.keyword.toList ++ ['[']) [.word scope.keyword, .openList] :=
      Spells.word word (by decide) (Spells.sign rfl)
    rw [text, String.toList_append, shape, List.append_cons]
    exact named.append spells
  | .attribute key value, plain =>
    have named : isKey (key, value).1 = true := plain
    exact spells_attributeText named
  | .node id attributes, plain =>
    obtain ⟨inner, shape, spells⟩ := spells_attributesText plain
    have opened : Spells ['['] [.openList] := Spells.sign rfl
    rw [text, String.toList_append, shape]
    exact (Spells.quote id).append (opened.append spells)
  | .edge source target attributes, plain =>
    have blank : Spells [' '] [] := Spells.blank rfl
    have arrow : Spells " -> ".toList [.arrow] := blank.append (Spells.arrow.append blank)
    have ends := (Spells.quote source).append (arrow.append (Spells.quote target))
    cases attributes with
    | nil =>
      have shape : (text (.edge source target [])).toList =
          (quote source).toList ++ (" -> ".toList ++ (quote target).toList) := by
        simp [text, String.toList_append]
      rw [shape]
      exact ends
    | cons entry rest =>
      obtain ⟨inner, opens, spells⟩ := spells_attributesText plain
      have bracket : Spells ['['] [.openList] := Spells.sign rfl
      have shape : (text (.edge source target (entry :: rest))).toList =
          (quote source).toList ++ (" -> ".toList ++ (quote target).toList) ++
            ([' '] ++ (['['] ++ inner)) := by
        simp [text, String.toList_append, opens]
      rw [shape]
      exact ends.append (blank.append (bracket.append spells))

theorem spells_indented {indent text : String} {tokens : List Token}
    (silent : Spells indent.toList []) (spells : Spells text.toList tokens) :
    Spells (indent ++ text).toList tokens := by
  rw [String.toList_append]
  exact silent.append spells

/-- The first line of a block. -/
theorem spells_opening (keyword id : String) (plain : isWord keyword = true) :
    Spells (keyword ++ " " ++ quote id ++ " \x7b").toList
      [.word keyword, .quoted (dropReturns id), .openBlock] := by
  have blank : Spells [' '] [] := Spells.blank rfl
  have named : Spells (keyword.toList ++ [' ']) [.word keyword] :=
    Spells.word plain (by decide) blank
  have opened : Spells " \x7b".toList [.openBlock] := blank.append (Spells.sign rfl)
  have whole := (named.append (Spells.quote id)).append opened
  simp only [String.toList_append]
  exact whole

theorem Element.spells_lines {element : Element} (plain : element.HasKeys) :
    LinesSpell element.lines (element.mapTexts dropReturns).tokens := by
  have blank : Spells [' '] [] := Spells.blank rfl
  have two : Spells "  ".toList [] := blank.append blank
  have four : Spells "    ".toList [] := two.append two
  cases element with
  | statement content => exact .single (spells_indented two (Statement.spells_text plain))
  | subgraph id statements =>
    have opening := spells_indented two (spells_opening "subgraph" id (by decide))
    have inside : LinesSpell (statements.map ("    " ++ ·.text))
        ((statements.map (·.mapTexts dropReturns)).flatMap Statement.tokens) := by
      rw [List.flatMap_map]
      exact .map fun content member =>
        spells_indented four (Statement.spells_text (plain content member))
    have closing : Spells "  \x7d".toList [.closeBlock] := two.append (Spells.sign rfl)
    exact .cons opening (inside.append (.single closing))

theorem Document.spells_text {document : Document}
    (plain : ∀ element ∈ document.elements, element.HasKeys) :
    Spells document.text.toList (document.mapTexts dropReturns).tokens := by
  have breaks : Spells "\n".toList [] := Spells.blank (c := '\n') rfl
  have inside : LinesSpell (document.elements.flatMap Element.lines)
      ((document.elements.map (·.mapTexts dropReturns)).flatMap Element.tokens) := by
    rw [List.flatMap_map]
    exact .flatMap fun element member => Element.spells_lines (plain element member)
  have closing : Spells "\x7d".toList [.closeBlock] := Spells.sign (c := '\x7d') rfl
  have opening := spells_opening "digraph" document.id (by decide)
  exact (LinesSpell.cons opening (inside.append (.single closing))).intercalate breaks

theorem HasKeys.mapValues {attributes : List (String × String)} (plain : HasKeys attributes)
    (change : String → String) : HasKeys (mapValues change attributes) := by
  intro entry member
  obtain ⟨old, listed, rfl⟩ := List.mem_map.mp member
  exact plain old listed

theorem Statement.HasKeys.mapTexts {content : Statement} (plain : content.HasKeys)
    (change : String → String) : (content.mapTexts change).HasKeys := by
  match content, plain with
  | .defaults _ _, plain => exact Dot.HasKeys.mapValues plain change
  | .attribute _ _, plain => exact plain
  | .node _ _, plain => exact Dot.HasKeys.mapValues plain change
  | .edge _ _ _, plain => exact Dot.HasKeys.mapValues plain change

theorem Element.HasKeys.mapTexts {element : Element} (plain : element.HasKeys)
    (change : String → String) : (element.mapTexts change).HasKeys := by
  cases element with
  | statement content => exact Statement.HasKeys.mapTexts plain change
  | subgraph id statements =>
    intro content member
    obtain ⟨old, listed, rfl⟩ := List.mem_map.mp member
    exact (plain old listed).mapTexts change

/-- The text of a document is read as the document without the carriage returns in its strings. -/
theorem Document.read?_text {document : Document}
    (plain : ∀ element ∈ document.elements, element.HasKeys) :
    read? document.text = some (document.mapTexts dropReturns) := by
  have scanned : tokens? document.text = some (document.mapTexts dropReturns).tokens := by
    rw [tokens?, spells_text plain []]
    rfl
  have plainToo : ∀ element ∈ (document.mapTexts dropReturns).elements, element.HasKeys := by
    intro element member
    obtain ⟨old, listed, rfl⟩ := List.mem_map.mp member
    exact (plain old listed).mapTexts dropReturns
  rw [read?, scanned]
  exact document?_tokens plainToo

end ProgramGraphs.Dot
