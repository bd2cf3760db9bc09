import ProgramGraphs.Json.Decoder
import ProgramGraphs.Proofs.Journal

/-! # Reading the text of numbers

A number goes on as long as there are digits, a point or an exponent. So where none of these
follows, what is scanned of a number does not depend on what follows (`scanNumber_append`), and a
number whose text reads back alone reads back before a comma or a closing bracket as well. The text
of a whole number always reads back. For a number with a fraction that is an assumption: its decimal
is rounded twice when it is read.
-/

namespace ProgramGraphs.Json

/-- A text is read as what its tree is read as, if nothing follows the tree. -/
theorem Decoder.read_eq_ok_iff {α : Type} {decoder : Decoder α} {text : Text} {result : α} :
    decoder.read text = .ok result ↔
      ∃ tree, Tree.ofTokens (Token.scan text) = (tree, []) ∧ decoder 0 tree = .ok result := by
  rw [read]
  obtain ⟨tree, rest⟩ := Tree.ofTokens (Token.scan text)
  dsimp only
  rw [bind_eq_ok_iff]
  cases rest with
  | nil =>
    constructor
    · rintro ⟨_, reads, ⟨⟩⟩
      exact ⟨tree, rfl, reads⟩
    · rintro ⟨_, ⟨⟩, reads⟩
      exact ⟨result, reads, rfl⟩
  | cons token tokens =>
    constructor
    · rintro ⟨_, _, ⟨⟩⟩
    · rintro ⟨_, ⟨⟩, _⟩

theorem Failure.ofFault_eq_ok_iff {α : Type} {outcome : Except Fault α} {result : α} :
    Failure.ofFault outcome = .ok result ↔ outcome = .ok result := by
  cases outcome with
  | error fault => exact iff_of_false (fun same => nomatch same) (fun same => nomatch same)
  | ok value =>
    constructor
    · rintro ⟨⟩
      rfl
    · rintro ⟨⟩
      rfl

theorem Decoder.value_eq_ok_iff {depth : Nat} {tree : Tree} {result : Value} :
    Decoder.value depth tree = .ok result ↔ tree.value depth = .ok result :=
  Failure.ofFault_eq_ok_iff

namespace Text

/-- At the head of the text no number goes on. -/
def EndsNumber (text : Text) : Prop :=
  ∀ c tail, text = some c :: tail → c.isDigit = false ∧ c ≠ '.' ∧ c ≠ 'e' ∧ c ≠ 'E'

theorem endsNumber_nil : EndsNumber [] :=
  fun _ _ same => nomatch same

theorem endsNumber_cons {c : Char} (other : c.isDigit = false ∧ c ≠ '.' ∧ c ≠ 'e' ∧ c ≠ 'E')
    (tail : Text) : EndsNumber (some c :: tail) := by
  rintro _ _ ⟨⟩
  exact other

theorem takeDigits_of_endsNumber {text : Text} (ends : EndsNumber text) :
    takeDigits text = ([], text) := by
  fun_cases takeDigits text with
  | case1 c rest digit =>
    have other := (ends c rest rfl).1
    rw [digit] at other
    cases other
  | case2 => rfl
  | case3 => rfl

theorem takeDigits_append {rest : Text} (ends : EndsNumber rest) (text : Text) :
    takeDigits (text ++ rest) = ((takeDigits text).1, (takeDigits text).2 ++ rest) := by
  fun_induction takeDigits text with
  | case1 c tail digit ih => rw [List.cons_append, takeDigits, if_pos digit, ih]
  | case2 c tail other => exact if_neg other
  | case3 text other =>
    cases text with
    | nil => exact takeDigits_of_endsNumber ends
    | cons head tail =>
      cases head with
      | none => rfl
      | some c => exact absurd rfl (other c tail)

theorem takeDigits_map (digits : List Char) (all : ∀ c ∈ digits, c.isDigit = true) :
    takeDigits (digits.map some) = (digits, []) := by
  induction digits with
  | nil => rfl
  | cons digit digits ih =>
    obtain ⟨isDigit, others⟩ := List.forall_mem_cons.mp all
    rw [List.map_cons, takeDigits, if_pos isDigit, ih others]

theorem append_ne_cons {c : Char} {text rest : Text}
    (first : ∀ tail, text = some c :: tail → False)
    (second : ∀ tail, rest = some c :: tail → False) (tail : Text) :
    text ++ rest = some c :: tail → False := by
  cases text with
  | nil => exact second tail
  | cons head text =>
    rintro ⟨⟩
    exact first text rfl

theorem cons_append_ne_cons {c : Char} {head : Option Char} {text rest : Text}
    (first : ∀ tail, head :: text = some c :: tail → False) (tail : Text) :
    head :: text ++ rest = some c :: tail → False := by
  rintro ⟨⟩
  exact first text rfl

end Text

namespace Token

variable {negative below : Bool} {whole fraction : List Char} {value : Except Fault Number}
  {text left rest : Text}

theorem scanExponent_append (ends : Text.EndsNumber rest)
    (scans : scanExponent negative whole fraction below text = (.number value, left)) :
    scanExponent negative whole fraction below (text ++ rest) =
      (.number value, left ++ rest) := by
  rw [scanExponent] at scans ⊢
  rw [Text.takeDigits_append ends]
  generalize Text.takeDigits text = taken at scans ⊢
  obtain ⟨_ | ⟨digit, digits⟩, after⟩ := taken
  · cases scans
  · cases scans
    rfl

/-- An exponent without a sign. -/
theorem scanScale_lower_append {places : Option (List Char)} (ends : Text.EndsNumber rest)
    (plus : ∀ tail, text = some '+' :: tail → False)
    (minus : ∀ tail, text = some '-' :: tail → False)
    (scans : scanScale negative whole places (some 'e' :: text) = (.number value, left)) :
    scanScale negative whole places (some 'e' :: (text ++ rest)) =
      (.number value, left ++ rest) := by
  rw [scanScale.eq_3 _ _ _ _ plus minus] at scans
  -- an exponent without digits is broken, so there is a character here that is no sign
  cases text with
  | nil => cases scans
  | cons head tail =>
    rw [scanScale.eq_3 _ _ _ _ (Text.cons_append_ne_cons plus) (Text.cons_append_ne_cons minus)]
    exact scanExponent_append ends scans

theorem scanScale_append {places : Option (List Char)} (ends : Text.EndsNumber rest)
    (scans : scanScale negative whole places text = (.number value, left)) :
    scanScale negative whole places (text ++ rest) = (.number value, left ++ rest) := by
  fun_cases scanScale negative whole places text with
  | case1 => exact scanExponent_append ends scans
  | case2 => exact scanExponent_append ends scans
  | case3 _ tail plus minus => exact scanScale_lower_append ends plus minus scans
  | case4 => exact scanExponent_append ends scans
  | case5 => exact scanExponent_append ends scans
  | case6 _ tail plus minus => exact scanScale_lower_append ends plus minus scans
  -- nothing but what may follow keeps an exponent from starting in `rest`
  | case7 fraction lower upper =>
    rw [scanScale.eq_7 _ _ _ _ lower upper] at scans
    cases scans
    exact scanScale.eq_7 _ _ _ _
      (Text.append_ne_cons lower fun tail same => (ends _ tail same).2.2.1 rfl)
      (Text.append_ne_cons upper fun tail same => (ends _ tail same).2.2.2 rfl)
  | case8 _ lower upper =>
    rw [scanScale.eq_8 _ _ _ lower upper] at scans
    cases scans
    exact scanScale.eq_8 _ _ _
      (Text.append_ne_cons lower fun tail same => (ends _ tail same).2.2.1 rfl)
      (Text.append_ne_cons upper fun tail same => (ends _ tail same).2.2.2 rfl)

theorem scanFraction_append (ends : Text.EndsNumber rest)
    (scans : scanFraction negative whole text = (.number value, left)) :
    scanFraction negative whole (text ++ rest) = (.number value, left ++ rest) := by
  fun_cases scanFraction negative whole text with
  | case1 tail after taken =>
    rw [scanFraction, taken] at scans
    cases scans
  | case2 tail digits after nonempty taken =>
    rw [scanFraction, taken] at scans
    rw [List.cons_append, scanFraction, Text.takeDigits_append ends, taken]
    cases digits with
    | nil => exact absurd rfl nonempty
    | cons digit digits => exact scanScale_append ends scans
  | case3 _ point =>
    rw [scanFraction.eq_2 _ _ _ point] at scans
    rw [scanFraction.eq_2 _ _ _ (Text.append_ne_cons point fun tail same =>
      (ends _ tail same).2.1 rfl)]
    exact scanScale_append ends scans

/-- What follows a number is left over. -/
theorem scanNumber_append (ends : Text.EndsNumber rest)
    (scans : scanNumber negative text = (.number value, left)) :
    scanNumber negative (text ++ rest) = (.number value, left ++ rest) := by
  rw [scanNumber] at scans ⊢
  rw [Text.takeDigits_append ends]
  generalize Text.takeDigits text = taken at scans ⊢
  obtain ⟨_ | ⟨digit, digits⟩, after⟩ := taken
  · cases scans
  · split at scans
    · cases scans
    · cases scans
    · next nonempty single same =>
      cases same
      split
      · next nothing => cases nothing
      · next zero =>
        cases zero
        exact absurd rfl (single _ _)
      · next same =>
        cases same
        exact scanFraction_append ends scans

/-- What can come of scanning a number. -/
inductive Numeral : Token → Prop
  | number (value : Except Fault Number) : Numeral (.number value)
  | broken (read skipped : Fault) : Numeral (.broken read skipped)

theorem numeral_scanExponent (negative : Bool) (whole fraction : List Char) (below : Bool)
    (text : Text) : (scanExponent negative whole fraction below text).1.Numeral := by
  unfold scanExponent
  split
  · exact .broken _ _
  · exact .number _

theorem numeral_scanScale (negative : Bool) (whole : List Char) (places : Option (List Char))
    (text : Text) : (scanScale negative whole places text).1.Numeral := by
  unfold scanScale
  split
  · split <;> exact numeral_scanExponent _ _ _ _ _
  · split <;> exact numeral_scanExponent _ _ _ _ _
  · split <;> exact .number _

theorem numeral_scanFraction (negative : Bool) (whole : List Char) (text : Text) :
    (scanFraction negative whole text).1.Numeral := by
  unfold scanFraction
  split
  · split
    · exact .broken _ _
    · exact numeral_scanScale _ _ _ _
  · exact numeral_scanScale _ _ _ _

theorem numeral_scanNumber (negative : Bool) (text : Text) :
    (scanNumber negative text).1.Numeral := by
  unfold scanNumber
  split
  · exact .broken _ _
  · exact .broken _ _
  · exact numeral_scanFraction _ _ _

theorem scanOne_digit {c : Char} (digit : c.isDigit = true) (rest : Text) :
    scanOne (some c) rest = scanNumber false (some c :: rest) := by
  have other : ∀ d : Char, d.isDigit = false → c = d → False := by
    rintro _ isOther rfl
    rw [digit] at isOther
    cases isOther
  rw [scanOne.eq_12 _ _ (other _ rfl) (other _ rfl) (other _ rfl) (other _ rfl) (other _ rfl)
    (other _ rfl) (other _ rfl) (other _ rfl) (other _ rfl) (other _ rfl) (other _ rfl),
    if_pos digit]

theorem scan_of_scanOne {c : Char} (visible : isBlank (some c) = false) {rest left : Text}
    {token : Token} (scanned : scanOne (some c) rest = (token, left)) :
    scan (some c :: rest) = token :: scan left := by
  rw [scan, visible, scanned]
  rfl

theorem isBlank_of_starts {c : Char} (starts : c = '-' ∨ c.isDigit = true) :
    isBlank (some c) = false := by
  simp only [isBlank, Option.some.injEq, Bool.or_eq_false_iff, decide_eq_false_iff_not]
  refine ⟨⟨⟨?_, ?_⟩, ?_⟩, ?_⟩ <;>
    · rintro rfl
      exact absurd starts (by decide)

/-- A minus sign or a digit starts a number. -/
theorem exists_scan_eq {c : Char} (starts : c = '-' ∨ c.isDigit = true) (tail : Text) :
    ∃ negative text, ∀ rest, scan (some c :: (tail ++ rest)) =
      (scanNumber negative (text ++ rest)).1 :: scan (scanNumber negative (text ++ rest)).2 := by
  have visible := isBlank_of_starts starts
  rcases starts with rfl | digit
  · exact ⟨true, tail, fun rest => scan_of_scanOne visible rfl⟩
  · refine ⟨false, some c :: tail, fun rest => ?_⟩
    exact scan_of_scanOne visible (scanOne_digit digit (tail ++ rest))

theorem scan_append_of_nil {left : Text} (blank : scan left = []) (rest : Text) :
    scan (left ++ rest) = scan rest := by
  fun_induction scan left with
  | case1 => rfl
  | case2 head tail isBlank ih =>
    rw [List.cons_append, scan, if_pos isBlank]
    exact ih blank
  | case3 => cases blank

theorem digitsValue_toDigits (n : Nat) : digitsValue (Nat.toDigits 10 n) = n :=
  Nat.ofDigitChars_ten_toDigits

/-- Only zero is written with a leading zero. -/
theorem tail_eq_nil_of_toDigits {n : Nat} {tail : List Char}
    (written : Nat.toDigits 10 n = '0' :: tail) : tail = [] := by
  induction n using Nat.strongRecOn generalizing tail with
  | ind n ih =>
    by_cases small : n < 10
    · rw [Nat.toDigits_of_lt_base small] at written
      exact (List.cons.inj written).2.symm
    · -- the digits before the last are those of a tenth, which is not zero
      rw [Nat.toDigits_of_base_le (by decide) (by omega)] at written
      cases front : Nat.toDigits 10 (n / 10) with
      | nil => exact absurd front Nat.toDigits_ne_nil
      | cons first others =>
        rw [front] at written
        cases written
        rw [ih (n / 10) (by omega) front] at front
        have none := digitsValue_toDigits (n / 10)
        rw [front] at none
        have zero : n / 10 = 0 := none.symm
        omega

theorem scanNumber_toDigits (negative : Bool) (n : Nat) :
    scanNumber negative ((Nat.toDigits 10 n).map some) =
      (.number (wholeNumber negative (Nat.toDigits 10 n)), []) := by
  have all : ∀ c ∈ Nat.toDigits 10 n, c.isDigit = true := fun c member =>
    Nat.isDigit_of_mem_toDigits (by decide) (by decide) member
  rw [scanNumber, Text.takeDigits_map _ all]
  split
  · next nothing => exact absurd (congrArg Prod.fst nothing) Nat.toDigits_ne_nil
  · next written => cases tail_eq_nil_of_toDigits (congrArg Prod.fst written)
  · next same =>
    cases same
    rfl

theorem wholeNumber_toDigits {value : Int} (fits : Number.Fits value) :
    wholeNumber (decide (value < 0)) (Nat.toDigits 10 value.natAbs) =
      .ok (.integer value fits) := by
  have signed : (if decide (value < 0) = true then -((value.natAbs : Nat) : Int)
      else ((value.natAbs : Nat) : Int)) = value := by
    split
    · next below => have := of_decide_eq_true below; omega
    · next above => have := mt decide_eq_true above; omega
  have nonzero : ¬ (decide (value < 0) = true ∧ value.natAbs = 0) := by
    rintro ⟨below, zero⟩
    have := of_decide_eq_true below
    omega
  rw [wholeNumber]
  simp only [digitsValue_toDigits, signed, dif_pos (And.intro fits nonzero)]

end Token

/-- The digits of a whole number start with a digit. -/
theorem exists_toDigits (n : Nat) :
    ∃ first others, Nat.toDigits 10 n = first :: others ∧ first.isDigit = true := by
  cases written : Nat.toDigits 10 n with
  | nil => exact absurd written Nat.toDigits_ne_nil
  | cons first others =>
    refine ⟨first, others, rfl, Nat.isDigit_of_mem_toDigits (b := 10) (n := n) ?_ ?_ ?_⟩
    · decide
    · decide
    · rw [written]
      exact List.mem_cons_self

theorem Decimal.exists_head_chars (decimal : Decimal) :
    ∃ c tail, decimal.chars = c :: tail ∧ c.isDigit = true := by
  obtain ⟨first, others, digits, isDigit⟩ := exists_toDigits decimal.digits
  rw [chars, digits]
  split
  · rw [positionalChars]
    split
    · exact ⟨first, _, rfl, isDigit⟩
    · dsimp only
      split
      · next inside =>
        obtain ⟨count, positive⟩ :
            ∃ count, (first :: others).length - (-decimal.exponent).toNat = count + 1 :=
          ⟨_, (Nat.succ_pred_eq_of_pos (Nat.sub_pos_of_lt inside)).symm⟩
        rw [positive]
        exact ⟨first, _, rfl, isDigit⟩
      · exact ⟨'0', _, rfl, rfl⟩
  · exact ⟨first, _, rfl, isDigit⟩

namespace Number

/-- Reading the text of a number gives the number. -/
def ReadsBack (number : Number) : Prop :=
  Decoder.value.read (Text.ofString (String.ofList number.chars)) = .ok (.number number)

theorem exists_head_chars (number : Number) :
    ∃ c tail, number.chars = c :: tail ∧ (c = '-' ∨ c.isDigit = true) := by
  cases number with
  | integer value fits =>
    obtain ⟨first, others, digits, isDigit⟩ := exists_toDigits value.natAbs
    rw [chars]
    split
    · exact ⟨_, _, rfl, .inl rfl⟩
    · exact ⟨first, others, digits, .inr isDigit⟩
  | float value =>
    rw [chars, Binary64.chars]
    split
    · exact ⟨_, _, rfl, .inl rfl⟩
    · split
      · exact ⟨_, _, rfl, .inr rfl⟩
      · obtain ⟨first, others, written, isDigit⟩ := Decimal.exists_head_chars (.shortest value)
        exact ⟨first, others, written, .inr isDigit⟩

/-- A number reads back if its text is one token that stands for it. -/
theorem readsBack_iff (number : Number) : number.ReadsBack ↔
    Token.scan (number.chars.map some) = [.number (.ok number)] := by
  obtain ⟨c, tail, written, starts⟩ := number.exists_head_chars
  obtain ⟨negative, text, scans⟩ := Token.exists_scan_eq starts (tail.map some)
  have alone := scans []
  rw [List.append_nil, List.append_nil] at alone
  rw [ReadsBack, Decoder.read_eq_ok_iff, Text.ofString, String.toList_ofList, written,
    List.map_cons, alone]
  have numeral := Token.numeral_scanNumber negative text
  generalize Token.scanNumber negative text = outcome at numeral ⊢
  obtain ⟨token, left⟩ := outcome
  cases numeral with
  | broken read skipped =>
    have tree : Tree.ofTokens (.broken read skipped :: Token.scan left) =
        (.broken read skipped, Token.scan left) := by
      simp only [Tree.ofTokens, Progress.run, Progress.step, Progress.startValue, Progress.stop,
        Progress.abandon]
    refine iff_of_false ?_ (fun same => nomatch same)
    rintro ⟨found, same, reads⟩
    rw [tree, Prod.mk.injEq] at same
    rw [Decoder.value_eq_ok_iff, ← same.1, Tree.value] at reads
    cases reads
  | number value =>
    have tree : Tree.ofTokens (.number value :: Token.scan left) =
        (.number value, Token.scan left) := by
      simp only [Tree.ofTokens, Progress.run, Progress.step, Progress.startValue, Progress.deliver]
    simp only [tree, Prod.mk.injEq, List.cons.injEq, Token.number.injEq]
    constructor
    · rintro ⟨_, ⟨rfl, blank⟩, reads⟩
      rw [Decoder.value_eq_ok_iff, Tree.value] at reads
      cases value with
      | error fault => cases reads
      | ok value =>
        cases reads
        exact ⟨rfl, blank⟩
    · rintro ⟨rfl, blank⟩
      exact ⟨_, ⟨rfl, blank⟩, by rw [Decoder.value_eq_ok_iff, Tree.value]; rfl⟩

/-- Whole numbers read back. -/
theorem readsBack_integer (value : Int) (fits : Fits value) : (integer value fits).ReadsBack := by
  have scans := Token.scanNumber_toDigits (decide (value < 0)) value.natAbs
  rw [Token.wholeNumber_toDigits fits] at scans
  rw [readsBack_iff, chars]
  split
  · next below =>
    rw [decide_eq_true below] at scans
    have scanned : Token.scanOne (some '-') ((Nat.toDigits 10 value.natAbs).map some) = _ := scans
    rw [List.map_cons, Token.scan_of_scanOne rfl scanned, Token.scan]
  · next above =>
    obtain ⟨first, others, digits, isDigit⟩ := exists_toDigits value.natAbs
    rw [decide_eq_false above, digits, List.map_cons, ← Token.scanOne_digit isDigit] at scans
    rw [digits, List.map_cons,
      Token.scan_of_scanOne (Token.isBlank_of_starts (.inr isDigit)) scans, Token.scan]

end Number

namespace Token

/-- A number that reads back is scanned as what it stands for, if no number goes on behind it. -/
theorem scan_chars {number : Number} (reads : number.ReadsBack) {rest : Text}
    (ends : Text.EndsNumber rest) :
    scan (number.chars.map some ++ rest) = .number (.ok number) :: scan rest := by
  have alone := (Number.readsBack_iff number).mp reads
  obtain ⟨c, tail, written, starts⟩ := number.exists_head_chars
  obtain ⟨negative, text, scans⟩ := exists_scan_eq starts (tail.map some)
  have scanned := scans []
  rw [List.append_nil, List.append_nil] at scanned
  rw [written, List.map_cons, scanned, List.cons.injEq] at alone
  obtain ⟨token, blank⟩ := alone
  have goesOn := scanNumber_append ends (Prod.ext token rfl :
    scanNumber negative text = (.number (.ok number), (scanNumber negative text).2))
  rw [written, List.map_cons, List.cons_append, scans, goesOn, scan_append_of_nil blank]

end Token

end ProgramGraphs.Json
