import ProgramGraphs.Proofs.Dot.Token

/-! # Reading DOT text

The grammar of directed graphs, as far as statements stand one after another without separators and
clusters hold no clusters: settings of a scope, an assignment, a node or an edge, with attributes in
brackets, and a block of such statements under a name. A keyword is no identifier, in whatever case
it is written. The tokens of a document are read as that document, so no two documents have the same
tokens (`document?_tokens`).
-/

namespace ProgramGraphs.Dot

/-- The words that are no identifiers. -/
def keywords : List String :=
  ["strict", "graph", "digraph", "node", "edge", "subgraph"]

/-- Whether a text is a keyword, in whatever case. -/
def isKeyword (keyword text : String) : Bool :=
  text.toList.map Char.toLower == keyword.toList

namespace Token

/-- Whether a token is a keyword. -/
def isKeyword (keyword : String) : Token → Bool
  | .word text => Dot.isKeyword keyword text
  | _ => false

/-- The identifier that a token is. -/
def id? : Token → Option String
  | .quoted text => some text
  | .word text => if keywords.any (Dot.isKeyword · text) then none else some text
  | _ => none

/-- The scope that a token names. -/
def scope? (token : Token) : Option Scope :=
  [Scope.graph, .node, .edge].find? fun scope => token.isKeyword scope.keyword

end Token

/-- Read items up to a closing token. -/
def until? {α : Type} (close : Token) (item? : List Token → Option (α × List Token))
    (tokens : List Token) : Option (List α × List Token) :=
  match tokens with
  | [] => none
  | token :: rest =>
    if token = close then some ([], rest)
    else
      match item? (token :: rest) with
      | none => none
      | some (item, later) =>
        if later.length < (token :: rest).length then do
          let (items, last) ← until? close item? later
          pure (item :: items, last)
        else none
termination_by tokens.length
decreasing_by assumption

/-- Read one attribute. -/
def attribute? : List Token → Option ((String × String) × List Token)
  | key :: .equals :: value :: rest => do
    let key ← key.id?
    let value ← value.id?
    pure ((key, value), rest)
  | _ => none

/-- Read a statement that is no cluster. -/
def statement? : List Token → Option (Statement × List Token)
  | key :: .equals :: value :: rest => do
    let ((key, value), rest) ← attribute? (key :: .equals :: value :: rest)
    pure (.attribute key value, rest)
  | source :: .arrow :: target :: .openList :: rest => do
    let source ← source.id?
    let target ← target.id?
    let (attributes, rest) ← until? .closeList attribute? rest
    pure (.edge source target attributes, rest)
  | source :: .arrow :: target :: rest => do
    let source ← source.id?
    let target ← target.id?
    pure (.edge source target [], rest)
  | first :: .openList :: rest => do
    let (attributes, rest) ← until? .closeList attribute? rest
    match first.scope? with
    | some scope => pure (.defaults scope attributes, rest)
    | none =>
      let id ← first.id?
      pure (.node id attributes, rest)
  | first :: rest => do
    let id ← first.id?
    pure (.node id [], rest)
  | [] => none

/-- Read a name and a block of statements. -/
def cluster? : List Token → Option (Element × List Token)
  | name :: .openBlock :: rest => do
    let id ← name.id?
    let (statements, rest) ← until? .closeBlock statement? rest
    pure (.subgraph id statements, rest)
  | _ => none

/-- Read a statement or a cluster. -/
def element? : List Token → Option (Element × List Token)
  | [] => none
  | first :: rest =>
    if first.isKeyword "subgraph" then cluster? rest
    else do
      let (content, rest) ← statement? (first :: rest)
      pure (.statement content, rest)

/-- Read a directed graph. -/
def document? : List Token → Option Document
  | first :: name :: .openBlock :: rest =>
    if first.isKeyword "digraph" then do
      let id ← name.id?
      let (elements, rest) ← until? .closeBlock element? rest
      if rest.isEmpty then pure ⟨id, elements⟩ else none
    else none
  | _ => none

/-- Read the text of a directed graph. -/
def Document.read? (text : String) : Option Document := do
  let tokens ← tokens? text
  document? tokens

/-! ## Documents as tokens -/

/-- The tokens of an attribute. -/
def attributeTokens (entry : String × String) : List Token :=
  [.word entry.1, .equals, .quoted entry.2]

/-- The tokens of a list of attributes. -/
def attributesTokens (attributes : List (String × String)) : List Token :=
  .openList :: (attributes.flatMap attributeTokens ++ [.closeList])

/-- The tokens of a statement. -/
def Statement.tokens : Statement → List Token
  | .defaults scope attributes => .word scope.keyword :: attributesTokens attributes
  | .attribute key value => attributeTokens (key, value)
  | .node id attributes => .quoted id :: attributesTokens attributes
  | .edge source target attributes => [.quoted source, .arrow, .quoted target] ++
      if attributes.isEmpty then [] else attributesTokens attributes

/-- The tokens of a statement or a cluster. -/
def Element.tokens : Element → List Token
  | .statement content => content.tokens
  | .subgraph id statements => [.word "subgraph", .quoted id, .openBlock] ++
      (statements.flatMap Statement.tokens ++ [.closeBlock])

/-- The tokens of a graph. -/
def Document.tokens (document : Document) : List Token :=
  [.word "digraph", .quoted document.id, .openBlock] ++
    (document.elements.flatMap Element.tokens ++ [.closeBlock])

/-- Whether a text is a word that can be an identifier. -/
def isKey (text : String) : Bool :=
  isWord text && !keywords.any (isKeyword · text)

theorem isKeyword_eq_false {key keyword : String} (plain : isKey key = true)
    (member : keyword ∈ keywords) : isKeyword keyword key = false := by
  rw [isKey, Bool.and_eq_true, Bool.not_eq_true', List.any_eq_false] at plain
  exact Bool.eq_false_iff.mpr (plain.2 keyword member)

theorem Token.id?_word {key : String} (plain : isKey key = true) :
    (Token.word key).id? = some key := by
  rw [isKey, Bool.and_eq_true, Bool.not_eq_true'] at plain
  rw [id?, plain.2]
  rfl

theorem Token.scope?_keyword (scope : Scope) : (Token.word scope.keyword).scope? = some scope := by
  cases scope <;> decide

/-- The keys of a list of attributes are identifiers. -/
def HasKeys (attributes : List (String × String)) : Prop :=
  ∀ entry ∈ attributes, isKey entry.1 = true

/-- All keys of a statement are identifiers. -/
def Statement.HasKeys : Statement → Prop
  | .defaults _ attributes | .node _ attributes | .edge _ _ attributes => Dot.HasKeys attributes
  | .attribute key _ => isKey key = true

/-- All keys of a statement or cluster are identifiers. -/
def Element.HasKeys : Element → Prop
  | .statement content => content.HasKeys
  | .subgraph _ statements => ∀ content ∈ statements, content.HasKeys

/-! ## Reading documents back -/

/-- What follows an item that may go on with attributes. -/
def Ends (later : List Token) : Prop :=
  later.head? ≠ some .openList

/-- Items are read one by one, if each can be read whatever ends it. -/
theorem until?_flatMap {α : Type} {close : Token} {item? : List Token → Option (α × List Token)}
    {write : α → List Token} {items : List α} (closes : close ≠ .openList)
    (starts : ∀ item ∈ items, ∃ token, (write item).head? = some token ∧ token ≠ close ∧
      token ≠ .openList)
    (reads : ∀ item ∈ items, ∀ later, Ends later → item? (write item ++ later) = some (item, later))
    (rest : List Token) :
    until? close item? (items.flatMap write ++ close :: rest) = some (items, rest) := by
  induction items with
  | nil => rw [List.flatMap_nil, List.nil_append, until?, if_pos rfl]
  | cons item items ih =>
    obtain ⟨⟨token, head, other, opens⟩, startsLater⟩ := List.forall_mem_cons.mp starts
    obtain ⟨here, readsLater⟩ := List.forall_mem_cons.mp reads
    obtain ⟨tail, shape⟩ := List.head?_eq_some_iff.mp head
    -- the closing token or the start of another item comes next, so no list goes on here
    have ends : Ends (items.flatMap write ++ close :: rest) := by
      cases items with
      | nil => simpa [Ends] using closes
      | cons next items =>
        obtain ⟨⟨first, begins, -, noList⟩, -⟩ := List.forall_mem_cons.mp startsLater
        obtain ⟨more, nextShape⟩ := List.head?_eq_some_iff.mp begins
        simpa [Ends, nextShape] using noList
    have first := here _ ends
    rw [List.flatMap_cons, List.append_assoc]
    rw [shape, List.cons_append] at first ⊢
    rw [until?, if_neg other, first]
    dsimp only
    rw [if_pos (by simp only [List.length_cons, List.length_append]; omega),
      ih startsLater readsLater]
    rfl

theorem attribute?_tokens {entry : String × String} (plain : isKey entry.1 = true)
    (later : List Token) : attribute? (attributeTokens entry ++ later) = some (entry, later) := by
  change ((Token.word entry.1).id? >>= _) = _
  rw [Token.id?_word plain]
  rfl

theorem attributes?_tokens {attributes : List (String × String)} (plain : HasKeys attributes)
    (later : List Token) :
    until? .closeList attribute? (attributes.flatMap attributeTokens ++ .closeList :: later) =
      some (attributes, later) := by
  have closes : Token.closeList ≠ .openList := by decide
  refine until?_flatMap closes (fun entry _ => ?_)
    (fun entry member later _ => attribute?_tokens (plain entry member) later) later
  exact ⟨.word entry.1, rfl, nofun, nofun⟩

theorem attributesTokens_append (attributes : List (String × String)) (later : List Token) :
    attributesTokens attributes ++ later =
      .openList :: (attributes.flatMap attributeTokens ++ .closeList :: later) := by
  rw [attributesTokens, List.cons_append, List.append_assoc, List.singleton_append]

/-- A statement starts with an identifier or with the keyword of a scope. -/
theorem Statement.exists_head?_tokens {content : Statement} (plain : content.HasKeys) :
    ∃ token, content.tokens.head? = some token ∧ token ≠ .closeBlock ∧ token ≠ .openList ∧
      token.isKeyword "subgraph" = false := by
  match content, plain with
  | .defaults scope attributes, _ =>
    exact ⟨_, rfl, nofun, nofun, by cases scope <;> decide⟩
  | .attribute key value, plain =>
    exact ⟨_, rfl, nofun, nofun, isKeyword_eq_false plain (by decide)⟩
  | .node id attributes, _ => exact ⟨_, rfl, nofun, nofun, rfl⟩
  | .edge source target attributes, _ => exact ⟨_, rfl, nofun, nofun, rfl⟩

theorem statement?_tokens {content : Statement} (plain : content.HasKeys) {later : List Token}
    (ends : Ends later) : statement? (content.tokens ++ later) = some (content, later) := by
  match content, plain with
  | .defaults scope attributes, plain =>
    rw [Statement.tokens, List.cons_append, attributesTokens_append, statement?,
      attributes?_tokens plain]
    simp [Token.scope?_keyword]
  | .attribute key value, plain =>
    have named : isKey (key, value).1 = true := plain
    change attribute? (attributeTokens (key, value) ++ later) >>= _ = _
    rw [attribute?_tokens named]
    rfl
  | .node id attributes, plain =>
    rw [Statement.tokens, List.cons_append, attributesTokens_append, statement?,
      attributes?_tokens plain]
    rfl
  | .edge source target [], _ =>
    change statement? (.quoted source :: .arrow :: .quoted target :: later) = _
    rw [statement?]
    · rfl
    · rintro rest rfl
      exact ends rfl
  | .edge source target (entry :: rest), plain =>
    have shape : (Statement.edge source target (entry :: rest)).tokens ++ later =
        .quoted source :: .arrow :: .quoted target ::
          (attributesTokens (entry :: rest) ++ later) := rfl
    rw [shape, attributesTokens_append, statement?, attributes?_tokens plain]
    rfl

theorem Element.exists_head?_tokens {element : Element} (plain : element.HasKeys) :
    ∃ token, element.tokens.head? = some token ∧ token ≠ .closeBlock ∧ token ≠ .openList := by
  cases element with
  | statement content =>
    obtain ⟨token, head, noBlock, noList, -⟩ := Statement.exists_head?_tokens plain
    exact ⟨token, head, noBlock, noList⟩
  | subgraph id statements => exact ⟨_, rfl, nofun, nofun⟩

theorem element?_tokens {element : Element} (plain : element.HasKeys) {later : List Token}
    (ends : Ends later) : element? (element.tokens ++ later) = some (element, later) := by
  have closes : Token.closeBlock ≠ .openList := by decide
  cases element with
  | statement content =>
    obtain ⟨token, head, -, -, other⟩ := Statement.exists_head?_tokens plain
    obtain ⟨tail, shape⟩ := List.head?_eq_some_iff.mp head
    have reads := statement?_tokens plain ends
    rw [shape, List.cons_append] at reads
    rw [Element.tokens, shape, List.cons_append, element?, if_neg (by rw [other]; simp), reads]
    rfl
  | subgraph id statements =>
    have inside : until? .closeBlock statement?
        (statements.flatMap Statement.tokens ++ .closeBlock :: later) =
          some (statements, later) := by
      refine until?_flatMap closes (fun content member => ?_)
        (fun content member _ => statement?_tokens (plain content member)) later
      obtain ⟨token, head, noBlock, noList, -⟩ :=
        Statement.exists_head?_tokens (plain content member)
      exact ⟨token, head, noBlock, noList⟩
    have shape : (Element.subgraph id statements).tokens ++ later =
        .word "subgraph" :: .quoted id :: .openBlock ::
          (statements.flatMap Statement.tokens ++ .closeBlock :: later) := by
      simp [Element.tokens]
    rw [shape, element?, if_pos (by decide), cluster?, inside]
    rfl

/-- The tokens of a graph are read as that graph. -/
theorem document?_tokens {document : Document}
    (plain : ∀ element ∈ document.elements, element.HasKeys) :
    document? document.tokens = some document := by
  have closes : Token.closeBlock ≠ .openList := by decide
  have inside : until? .closeBlock element?
      (document.elements.flatMap Element.tokens ++ [.closeBlock]) = some (document.elements, []) :=
    until?_flatMap closes (fun element member => Element.exists_head?_tokens (plain element member))
      (fun element member _ => element?_tokens (plain element member)) []
  have shape : document.tokens = .word "digraph" :: .quoted document.id :: .openBlock ::
      (document.elements.flatMap Element.tokens ++ [.closeBlock]) := rfl
  rw [shape, document?, if_pos (by decide), inside]
  rfl

end ProgramGraphs.Dot
