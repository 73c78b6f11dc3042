import BlockLang.Proofs.Grammar.Derivation
import BlockLang.Proofs.Token.Canonical
import Mathlib.Tactic.Ring

/-! # Values — what the lexemes of a source are read as

  A digit counts by its place, so a run of digits stands for a number however
  many zeros it starts with.  The lexeme of an integer is such a run, and it is
  read as its number unless that takes more than 63 bits.  The other lexemes
  that are looked into, those of decimals, truth values and type names, can
  always be read.  So no lexeme of a source is refused for another reason. -/

namespace BlockLang

/-! ### Numbers -/

/-- The number that a run of digits stands for. -/
def decimal : List Char → Nat
  | [] => 0
  | c :: more => (c.toNat - '0'.toNat) * 10 ^ more.length + decimal more

theorem digitsValue_eq (n : Nat) (digits : List Char) :
    digitsValue n digits = n * 10 ^ digits.length + decimal digits := by
  induction digits generalizing n with
  | nil => simp [digitsValue, decimal]
  | cons c digits ih =>
    have hstep : digitsValue n (c :: digits) =
        digitsValue (10 * n + (c.toNat - '0'.toNat)) digits := rfl
    rw [hstep, ih, decimal, List.length_cons, Nat.pow_succ, Nat.add_mul]
    ring

section

variable {text : List Char} {word : String}

theorem IsDigits.all_isDigit (h : IsDigits text) : ∀ c ∈ text, c.isDigit = true :=
  fun c hc => digit_iff.mpr (h.2 c hc)

theorem IsDigits.readNat?_eq (h : IsDigits text) : readNat? text = some (decimal text) := by
  have hempty : text.isEmpty = false := List.isEmpty_eq_false_iff.mpr h.1
  rw [readNat?, hempty, List.all_eq_true.mpr h.all_isDigit, digitsValue_eq, Nat.zero_mul,
    Nat.zero_add]
  rfl

/-- A digit is no sign. -/
theorem takeSign_of_digit {c : Char} (hc : Digit c) (more : List Char) :
    takeSign (c :: more) = (false, c :: more) := by
  unfold takeSign
  split
  · rename_i heq
    cases heq
    exact absurd hc (by decide)
  · rename_i heq
    cases heq
    exact absurd hc (by decide)
  · rfl

/-- A run of digits is read as an integer if its number is below `2 ^ 63`. -/
theorem IsDigits.readInt64?_eq (h : IsDigits word.toList) :
    readInt64? word =
      if decimal word.toList < 2 ^ 63 then some (Int64.ofInt (decimal word.toList)) else none := by
  obtain ⟨c, more, hword⟩ := List.exists_cons_of_ne_nil h.1
  have hsign : takeSign word.toList = (false, word.toList) := by
    rw [hword]
    exact takeSign_of_digit (h.2 c (hword ▸ List.mem_cons_self)) more
  have hmin : Int64.minValue.toInt = -2 ^ 63 := by decide
  have hmax : Int64.maxValue.toInt = 2 ^ 63 - 1 := by decide
  simp only [readInt64?, hsign, h.readNat?_eq, hmin, hmax, Bool.false_eq_true, if_false]
  by_cases hlt : decimal word.toList < 2 ^ 63
  · rw [if_pos hlt, if_pos (by omega)]
  · rw [if_neg hlt, if_neg (by omega)]

/-- An integer that is read has the value of its digits. -/
theorem IsDigits.toInt_eq (h : IsDigits word.toList) {value : Int64}
    (hvalue : readInt64? word = some value) : value.toInt = decimal word.toList := by
  rw [h.readInt64?_eq] at hvalue
  split at hvalue
  · rw [← Option.some.inj hvalue]
    exact Int64.toInt_ofInt_of_le (by omega) (by omega)
  · cases hvalue

theorem IsDigits.le_of_unreadable (h : IsDigits word.toList) (hnone : readInt64? word = none) :
    2 ^ 63 ≤ decimal word.toList := by
  rw [h.readInt64?_eq] at hnone
  by_contra hlt
  rw [if_pos (Nat.not_le.mp hlt)] at hnone
  cases hnone

/-- Digits, a point and digits can always be read. -/
theorem IsDecimal.readDecimal?_isSome (h : IsDecimal text) : (readDecimal? text).isSome := by
  obtain ⟨whole, fraction, rfl, hwhole, hfraction⟩ := h
  have hpoint : ∀ d, ('.' :: fraction).head? = some d → d.isDigit = false := by
    intro d hd
    cases hd
    decide
  have htake : fraction.takeWhile Char.isDigit = fraction :=
    List.takeWhile_eq_self_iff.mpr hfraction.all_isDigit
  have hdrop : fraction.dropWhile Char.isDigit = [] :=
    List.dropWhile_eq_nil_iff.mpr hfraction.all_isDigit
  have hempty : whole.isEmpty = false := List.isEmpty_eq_false_iff.mpr hwhole.1
  simp only [readDecimal?, takeWhile_append_of_stop hwhole.all_isDigit hpoint,
    dropWhile_append_of_stop hwhole.all_isDigit hpoint, htake, hdrop, hempty, Bool.false_and]
  rfl

theorem IsDecimal.readBinary64?_isSome (h : IsDecimal word.toList) :
    (readBinary64? word).isSome := by
  have hdecimal := h.readDecimal?_isSome
  obtain ⟨whole, fraction, hword, hwhole, -⟩ := h
  obtain ⟨c, more, rfl⟩ := List.exists_cons_of_ne_nil hwhole.1
  have hsign : takeSign word.toList = (false, word.toList) := by
    rw [hword]
    exact takeSign_of_digit (hwhole.2 c List.mem_cons_self) _
  obtain ⟨value, hvalue⟩ := Option.isSome_iff_exists.mp hdecimal
  simp [readBinary64?, hsign, hvalue]

end

/-! ### Lexemes -/

/-- What the lexeme of a token looks like, if it is looked into. -/
def Token.Legible (token : Token) : Prop :=
  match token.kind with
  | .integer => IsDigits token.lexeme.toList
  | .float => IsDecimal token.lexeme.toList
  | .boolean => token.lexeme = "true" ∨ token.lexeme = "false"
  | .typeName => (Ty.ofKeyword? token.lexeme).isSome
  | _ => True

/-- Of the reserved words, those that name a type or a truth value do so. -/
theorem Token.legible_of_reserved {token : Token}
    (h : Kind.reserved? token.lexeme = some token.kind) : token.Legible := by
  obtain ⟨kind, lexeme, span⟩ := token
  replace h : Kind.reserved? lexeme = some kind := h
  unfold Kind.reserved? at h
  split at h
  all_goals cases h
  all_goals simp [Token.Legible, Ty.ofKeyword?]

/-- What spells a token has such a lexeme. -/
theorem Spells.legible {text : List Char} {token : Token}
    (h : Spells text token.kind token.lexeme.toList) : token.Legible := by
  obtain ⟨kind, lexeme, span⟩ := token
  generalize hlexeme : lexeme.toList = letters at h
  have hword : lexeme = String.ofList letters := by rw [← hlexeme, String.ofList_toList]
  cases h with
  | keyword _ hreserved => exact Token.legible_of_reserved (hword ▸ hreserved)
  | name => trivial
  | integer hdigits =>
    show IsDigits lexeme.toList
    rw [hlexeme]
    exact hdigits
  | float hdecimal =>
    show IsDecimal lexeme.toList
    rw [hlexeme]
    exact hdecimal
  | string => trivial
  | mark hmark =>
    unfold Token.Legible
    cases kind with
    | integer | float | boolean | typeName => cases hmark
    | _ => trivial

variable {source file : String} {tokens : List Token}

/-- The tokens of a source have such lexemes. -/
theorem legible_of_tokenize (h : tokenize source file = .ok tokens) :
    ∀ token ∈ tokens, token.Legible := by
  intro token htoken
  rcases exists_spells_of_mem h token htoken with hnone | ⟨text, -, hspells⟩
  · cases hnone
  · exact hspells.legible

/-- Only an integer with too great a number is unreadable. -/
theorem Token.Legible.readable_or {token : Token} (h : token.Legible) :
    token.Readable ∨ token.kind = .integer ∧ IsDigits token.lexeme.toList ∧
      2 ^ 63 ≤ decimal token.lexeme.toList := by
  obtain ⟨kind, lexeme, span⟩ := token
  cases kind with
  | integer =>
    cases hvalue : readInt64? lexeme with
    | some value => exact .inl (Option.isSome_of_eq_some hvalue)
    | none => exact .inr ⟨rfl, h, IsDigits.le_of_unreadable h hvalue⟩
  | float => exact .inl (IsDecimal.readBinary64?_isSome h)
  | typeName => exact .inl h
  | _ => exact .inl trivial

end BlockLang
