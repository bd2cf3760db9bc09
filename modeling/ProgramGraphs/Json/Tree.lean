import ProgramGraphs.Json.Token

/-! # Partial trees

A tree is what a text says up to the first fault that nothing can be read past, so every text has
one. It is built token by token by a machine that keeps the open arrays and objects; the machine is
a fold, and the tokens after the tree are returned. A tree is then read in the order of the text:
whoever reads it meets shapes and faults in the order in which they are written.
-/

namespace ProgramGraphs.Json

/-- What follows the items of an array. -/
inductive ArrayEnd where
  | closed
  | cutShort
  | unseparated
  | trailingComma
  deriving DecidableEq, Repr

/-- What follows the members of an object. -/
inductive ObjectEnd where
  | closed
  | cutShort
  | cutAfterComma
  | unseparated
  | trailingComma
  | keyExpected
  | brokenKey (read skipped : Fault)
  deriving DecidableEq, Repr

/-- A value of a text as far as the text goes. -/
inductive Tree where
  | null
  | bool (value : Bool)
  | number (value : Except Fault Number)
  | string (value : Except Fault String)
  | array (items : List Tree) (ending : ArrayEnd)
  | object (members : List (Except Fault String × Tree)) (ending : ObjectEnd)
  | broken (read skipped : Fault)

namespace ArrayEnd

/-- The fault that a reader of the items meets at their end. -/
def readFault? : ArrayEnd → Option Fault
  | .closed => none
  | .cutShort => some .listCutShort
  | .unseparated => some .expectedListSeparator
  | .trailingComma => some .trailingComma

/-- The fault met when skipping over the array. -/
def skipFault? : ArrayEnd → Option Fault
  | .trailingComma => some .expectedValue
  | ending => ending.readFault?

/-- The fault met by a reader that has all the items it wants. -/
def closeFault? : ArrayEnd → Option Fault
  | .unseparated => some .trailingCharacters
  | ending => ending.readFault?

end ArrayEnd

namespace ObjectEnd

/-- The fault that a reader of the members meets at their end. -/
def readFault? : ObjectEnd → Option Fault
  | .closed => none
  | .cutShort => some .objectCutShort
  | .cutAfterComma => some .valueCutShort
  | .unseparated => some .expectedObjectSeparator
  | .trailingComma => some .trailingComma
  | .keyExpected => some .keyNotAString
  | .brokenKey read _ => some read

/-- The fault met when skipping over the object. -/
def skipFault? : ObjectEnd → Option Fault
  | .cutAfterComma => some .objectCutShort
  | .trailingComma => some .keyNotAString
  | .brokenKey _ skipped => some skipped
  | ending => ending.readFault?

end ObjectEnd

/-- An array or object of which a value is being read; items and members come last first. -/
inductive Frame where
  | item (before : List Tree)
  | member (before : List (Except Fault String × Tree)) (key : Except Fault String)

/-- What is due next in the innermost open value. -/
inductive Place where
  | value
  | item (before : List Tree) (first : Bool)
  | itemEnd (before : List Tree)
  | key (before : List (Except Fault String × Tree)) (first : Bool)
  | colon (before : List (Except Fault String × Tree)) (key : Except Fault String)
  | memberEnd (before : List (Except Fault String × Tree))

/-- A machine that has read some tokens has its tree, or is at a place inside open frames. -/
inductive Progress where
  | running (frames : List Frame) (place : Place)
  | complete (tree : Tree)

namespace Progress

/-- Hand a value to the frame that waits for it. -/
def deliver (tree : Tree) : List Frame → Progress
  | [] => .complete tree
  | .item before :: frames => .running frames (.itemEnd (tree :: before))
  | .member before key :: frames => .running frames (.memberEnd ((key, tree) :: before))

/-- Close all frames over a value that nothing is read past. -/
def abandon (tree : Tree) : List Frame → Tree
  | [] => tree
  | .item before :: frames => abandon (.array (tree :: before).reverse .cutShort) frames
  | .member before key :: frames =>
    abandon (.object ((key, tree) :: before).reverse .cutShort) frames

/-- Stop with a value that nothing is read past. -/
def stop (frames : List Frame) (tree : Tree) : Progress :=
  .complete (abandon tree frames)

/-- The first token of a value. -/
def startValue (frames : List Frame) : Token → Progress
  | .openArray => .running frames (.item [] true)
  | .openObject => .running frames (.key [] true)
  | .null => deliver .null frames
  | .bool value => deliver (.bool value) frames
  | .number value => deliver (.number value) frames
  | .string value => deliver (.string value) frames
  | .brokenString read skipped => stop frames (.broken read skipped)
  | .broken read skipped => stop frames (.broken read skipped)
  | _ => stop frames (.broken .expectedValue .expectedValue)

/-- Read one token. -/
def step (frames : List Frame) (place : Place) (token : Token) : Progress :=
  match place, token with
  | .value, token => startValue frames token
  | .item _ true, .closeArray => deliver (.array [] .closed) frames
  | .item before false, .closeArray => stop frames (.array before.reverse .trailingComma)
  | .item before _, token => startValue (.item before :: frames) token
  | .itemEnd before, .comma => .running frames (.item before false)
  | .itemEnd before, .closeArray => deliver (.array before.reverse .closed) frames
  | .itemEnd before, _ => stop frames (.array before.reverse .unseparated)
  | .key before _, .string key => .running frames (.colon before key)
  | .key before _, .brokenString read skipped =>
    stop frames (.object before.reverse (.brokenKey read skipped))
  | .key _ true, .closeObject => deliver (.object [] .closed) frames
  | .key before false, .closeObject => stop frames (.object before.reverse .trailingComma)
  | .key before _, _ => stop frames (.object before.reverse .keyExpected)
  | .colon before key, .colon => .running (.member before key :: frames) .value
  | .colon before key, _ =>
    stop (.member before key :: frames) (.broken .expectedColon .expectedColon)
  | .memberEnd before, .comma => .running frames (.key before false)
  | .memberEnd before, .closeObject => deliver (.object before.reverse .closed) frames
  | .memberEnd before, _ => stop frames (.object before.reverse .unseparated)

/-- The tree of a text that ends at a place. -/
def finish (frames : List Frame) : Place → Tree
  | .value => abandon (.broken .valueCutShort .valueCutShort) frames
  | .item _ true => abandon (.array [] .cutShort) frames
  | .item before false =>
    abandon (.broken .valueCutShort .valueCutShort) (.item before :: frames)
  | .itemEnd before => abandon (.array before.reverse .cutShort) frames
  | .key before true => abandon (.object before.reverse .cutShort) frames
  | .key before false => abandon (.object before.reverse .cutAfterComma) frames
  | .colon before key =>
    abandon (.broken .objectCutShort .objectCutShort) (.member before key :: frames)
  | .memberEnd before => abandon (.object before.reverse .cutShort) frames

/-- Read tokens until the tree is complete; the tokens after it are left over. -/
def run : Progress → List Token → Tree × List Token
  | .complete tree, rest => (tree, rest)
  | .running frames place, [] => (finish frames place, [])
  | .running frames place, token :: rest => run (step frames place token) rest

end Progress

namespace Tree

/-- The tree at the head of some tokens, and the tokens after it. -/
def ofTokens (tokens : List Token) : Tree × List Token :=
  (Progress.running [] .value).run tokens

/-- Arrays and objects may be read this deep inside each other. -/
def depthLimit : Nat := 127

/-- A fault that is met, if any, ends the reading. -/
def raise? : Option Fault → Except Fault Unit
  | none => .ok ()
  | some fault => .error fault

mutual

/-- Read a value in full, inside so many open arrays and objects. -/
def value (depth : Nat) : Tree → Except Fault Value
  | .null => .ok .null
  | .bool value => .ok (.bool value)
  | .number value => value.map .number
  | .string value => value.map .string
  | .array items ending =>
    if depthLimit ≤ depth then .error .nestingTooDeep
    else do
      let values ← itemValues (depth + 1) items
      raise? ending.readFault?
      pure (.array values)
  | .object members ending =>
    if depthLimit ≤ depth then .error .nestingTooDeep
    else do
      let values ← memberValues (depth + 1) members
      raise? ending.readFault?
      pure (.object values)
  | .broken read _ => .error read

def itemValues (depth : Nat) : List Tree → Except Fault (List Value)
  | [] => .ok []
  | item :: rest => do
    let first ← value depth item
    let others ← itemValues depth rest
    pure (first :: others)

def memberValues (depth : Nat) :
    List (Except Fault String × Tree) → Except Fault (List (String × Value))
  | [] => .ok []
  | (key, member) :: rest => do
    let key ← key
    let first ← value depth member
    let others ← memberValues depth rest
    pure ((key, first) :: others)

end

mutual

/-- Skip over a value: nesting, ranges and the text of strings do not matter. -/
def skip : Tree → Except Fault Unit
  | .array items ending => do
    skipItems items
    raise? ending.skipFault?
  | .object members ending => do
    skipMembers members
    raise? ending.skipFault?
  | .broken _ skipped => .error skipped
  | _ => .ok ()

def skipItems : List Tree → Except Fault Unit
  | [] => .ok ()
  | item :: rest => do
    skip item
    skipItems rest

def skipMembers : List (Except Fault String × Tree) → Except Fault Unit
  | [] => .ok ()
  | (_, member) :: rest => do
    skip member
    skipMembers rest

end

end Tree

end ProgramGraphs.Json
