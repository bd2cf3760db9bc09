import ProgramGraphs.Output.Path

/-! # The pieces of a joined path

Joining a name to a path adds a piece: after those of the path, or instead of an empty piece at the
end, which is there if the path is empty or ends with a slash. The name is then what the path means.
-/

namespace ProgramGraphs.Path

theorem split_slash (rest : List Char) : split ('/' :: rest) = [] :: split rest :=
  rfl

theorem split_ne_nil (text : List Char) : split text ≠ [] :=
  List.cons_ne_nil _ _

theorem split_cons {c : Char} (plain : c ≠ '/') (rest : List Char) :
    split (c :: rest) = (c :: (splitSlashes rest).1) :: (splitSlashes rest).2 := by
  rw [split, splitSlashes]
  simp only [if_neg plain]

theorem split_append_slash (front rest : List Char) :
    split (front ++ '/' :: rest) = split front ++ split rest := by
  induction front with
  | nil => rfl
  | cons c front ih =>
    by_cases slash : c = '/'
    · subst slash
      rw [List.cons_append, split_slash, split_slash, ih, List.cons_append]
    · obtain ⟨first, others⟩ := List.cons.inj ih
      rw [List.cons_append, split_cons slash, split_cons slash, first, others]
      rfl

theorem split_of_notMem {text : List Char} (absent : '/' ∉ text) : split text = [text] := by
  induction text with
  | nil => rfl
  | cons c text ih =>
    rw [List.mem_cons, not_or] at absent
    obtain ⟨first, others⟩ := List.cons.inj (ih absent.2)
    rw [split_cons (Ne.symm absent.1), first, others]

/-- The text after the root. -/
def body (path : Path) : List Char :=
  if path.isAbsolute then path.text.toList.tail else path.text.toList

theorem pieces_eq_split (path : Path) : path.pieces = split path.body := by
  rw [pieces, body]

theorem isAbsolute_of_text {path : Path} {c : Char} {rest : List Char}
    (chars : path.text.toList = c :: rest) : path.isAbsolute = (c == '/') := by
  rw [isAbsolute, chars]
  rfl

theorem body_of_text {path : Path} {c : Char} {rest : List Char}
    (chars : path.text.toList = c :: rest) : path.body = if c = '/' then rest else c :: rest := by
  rw [body, isAbsolute_of_text chars, chars, List.tail_cons]
  simp only [beq_iff_eq]

theorem body_of_empty {path : Path} (chars : path.text.toList = []) : path.body = [] := by
  rw [body, chars, List.tail_nil, ite_self]

/-- What joining adds to a text. -/
def addition (directory : Path) (name : String) : List Char :=
  if directory.text.isEmpty || directory.endsWithSlash then name.toList else '/' :: name.toList

theorem toList_join (directory : Path) (name : String) :
    (directory.join name).text.toList = directory.text.toList ++ directory.addition name := by
  rw [join, addition]
  split
  · rw [String.toList_append]
  · rw [String.toList_append, String.toList_append, List.append_assoc]
    rfl

/-- Joining a name leaves the root alone. -/
theorem root_join (directory : Path) {name : String} (plain : '/' ∉ name.toList) :
    (directory.join name).isAbsolute = directory.isAbsolute ∧
      (directory.join name).body = directory.body ++ directory.addition name := by
  have joined := toList_join directory name
  cases chars : directory.text.toList with
  | nil =>
    have empty : directory.text.isEmpty = true := by
      rw [String.isEmpty_iff, ← String.toList_eq_nil_iff]
      exact chars
    have whole : directory.addition name = name.toList := by
      rw [addition, empty, Bool.true_or, if_pos rfl]
    have relative : directory.isAbsolute = false := by
      rw [isAbsolute, chars]
      rfl
    rw [chars, whole, List.nil_append] at joined
    rw [body_of_empty chars, whole, List.nil_append, relative]
    cases shape : name.toList with
    | nil =>
      rw [shape] at joined
      exact ⟨by rw [isAbsolute, joined]; rfl, body_of_empty joined⟩
    | cons first rest =>
      have notSlash : first ≠ '/' := fun same => plain (shape ▸ same ▸ List.mem_cons_self)
      rw [shape] at joined
      rw [isAbsolute_of_text joined, body_of_text joined, if_neg notSlash]
      exact ⟨beq_false_of_ne notSlash, rfl⟩
  | cons c rest =>
    rw [chars, List.cons_append] at joined
    rw [isAbsolute_of_text chars, isAbsolute_of_text joined, body_of_text chars,
      body_of_text joined]
    refine ⟨rfl, ?_⟩
    split <;> rfl

theorem split_append_of_slash {text name : List Char} (plain : '/' ∉ name)
    (ends : text = [] ∨ text.getLast? = some '/') :
    ∃ front, split (text ++ name) = front ++ [name] ∧ split text = front ++ [[]] := by
  rcases ends with rfl | ends
  · exact ⟨[], split_of_notMem plain, rfl⟩
  · obtain ⟨before, rfl⟩ := List.getLast?_eq_some_iff.mp ends
    refine ⟨split before, ?_, split_append_slash before []⟩
    rw [List.append_assoc, List.singleton_append, split_append_slash, split_of_notMem plain]

theorem body_ends_of_endsWithSlash {path : Path} (ends : path.endsWithSlash = true) :
    path.body = [] ∨ path.body.getLast? = some '/' := by
  rw [endsWithSlash, beq_iff_eq] at ends
  cases chars : path.text.toList with
  | nil => exact .inl (body_of_empty chars)
  | cons c rest =>
    rw [chars] at ends
    rw [body_of_text chars]
    split
    · cases rest with
      | nil => exact .inl rfl
      | cons d rest => exact .inr ends
    · exact .inr ends

/-- A name that is joined to a path becomes its last piece. -/
theorem exists_pieces_join (directory : Path) {name : String} (plain : '/' ∉ name.toList) :
    ∃ front, (directory.join name).pieces = front ++ [name.toList] ∧
      (directory.pieces = front ∨ directory.pieces = front ++ [[]]) := by
  rw [pieces_eq_split, pieces_eq_split, (root_join directory plain).2, addition]
  split
  · next closed =>
    have ends : directory.body = [] ∨ directory.body.getLast? = some '/' := by
      rcases Bool.or_eq_true_iff.mp closed with empty | ends
      · exact .inl (body_of_empty (String.toList_eq_nil_iff.mpr (String.isEmpty_iff.mp empty)))
      · exact body_ends_of_endsWithSlash ends
    obtain ⟨front, joined, own⟩ := split_append_of_slash plain ends
    exact ⟨front, joined, .inr own⟩
  · exact ⟨split directory.body, by rw [split_append_slash, split_of_notMem plain], .inl rfl⟩

/-- A path that a name is joined to means that name. -/
theorem fileChars?_join (directory : Path) {name : String} (plain : '/' ∉ name.toList)
    (idle : isIdle name.toList = false) (up : name.toList ≠ ['.', '.']) :
    (directory.join name).fileChars? = some name.toList := by
  obtain ⟨front, joined, -⟩ := exists_pieces_join directory plain
  have kept : ((directory.join name).pieces.reverse.dropWhile isIdle).reverse =
      front ++ [name.toList] := by
    rw [joined, List.reverse_append, List.reverse_singleton, List.singleton_append,
      List.dropWhile_cons_of_neg (by rw [idle]; exact Bool.false_ne_true), List.reverse_cons,
      List.reverse_reverse]
  have dot : name.toList ≠ ['.'] := by
    rintro same
    rw [same] at idle
    cases idle
  rw [fileChars?, counted, kept]
  split
  · next none => exact absurd none (by simp)
  · rw [List.getLast?_concat, Option.filter_some, if_pos (by simp [dot, up])]

end ProgramGraphs.Path
