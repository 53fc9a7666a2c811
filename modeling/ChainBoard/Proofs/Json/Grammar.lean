import Mathlib.Algebra.Group.Nat.Defs
import ChainBoard.Json.Record

/-!
# How values are written

The grammar of JSON, as relations on texts that do not mention any reader. A value is a word, a text
in quotes, a number, or a list or object in brackets; white space may stand around every item
between brackets. A text in quotes has a form, and stands for a text unless it holds half of a
surrogate pair alone.

## Main definitions

* `Blank`: white space
* `Spells`, `IsQuotable`: what stands between quotes, with or without the text that it stands for
* `IsNumber`: numbers
* `Written`, `IsValue`: values of any depth
* `IsNatural`, `IsTextOf`, `IsAmount`, `Kind.Denotes`: the values that fields may hold
* `Members`, `Elements`: the members of an object with their names, and the elements of a list
* `Schema.Writes`: how a record is written
-/

namespace ChainBoard

namespace Json

/-- White space: spaces, tabs, line feeds and carriage returns. -/
def Blank (s : List Char) : Prop :=
  ∀ c ∈ s, c = ' ' ∨ c = '\t' ∨ c = '\n' ∨ c = '\r'

/-! ## Texts -/

/-- A character that stands for itself between quotes. -/
def IsPlain (c : Char) : Prop :=
  c ≠ '"' ∧ c ≠ '\\' ∧ 0x20 ≤ c.toNat

instance : DecidablePred IsPlain := fun c =>
  inferInstanceAs (Decidable (c ≠ '"' ∧ c ≠ '\\' ∧ 0x20 ≤ c.toNat))

/-- What stands between quotes, and the text that it stands for. -/
inductive Spells : List Char → List Char → Prop
  | nil : Spells [] []
  | plain {c : Char} {s t : List Char} : IsPlain c → Spells s t → Spells (c :: s) (c :: t)
  | letter {c e : Char} {s t : List Char} : lettered? c = some e → Spells s t →
      Spells ('\\' :: c :: s) (e :: t)
  /-- A unit of 16 bits that is no surrogate. -/
  | unit {a b c d : Char} {n : Nat} {s t : List Char} : unit? a b c d = some n →
      isLeading n = false → isTrailing n = false → Spells s t →
      Spells ('\\' :: 'u' :: a :: b :: c :: d :: s) (Char.ofNat n :: t)
  /-- Two surrogates that make up one character. -/
  | pair {a b c d a' b' c' d' : Char} {n m : Nat} {s t : List Char} : unit? a b c d = some n →
      isLeading n = true → unit? a' b' c' d' = some m → isTrailing m = true → Spells s t →
      Spells ('\\' :: 'u' :: a :: b :: c :: d :: '\\' :: 'u' :: a' :: b' :: c' :: d' :: s)
        (joined n m :: t)

/-- What may stand between quotes, whether or not it stands for a text. -/
inductive IsQuotable : List Char → Prop
  | nil : IsQuotable []
  | plain {c : Char} {s : List Char} : IsPlain c → IsQuotable s → IsQuotable (c :: s)
  | letter {c e : Char} {s : List Char} : lettered? c = some e → IsQuotable s →
      IsQuotable ('\\' :: c :: s)
  | unit {a b c d : Char} {n : Nat} {s : List Char} : unit? a b c d = some n → IsQuotable s →
      IsQuotable ('\\' :: 'u' :: a :: b :: c :: d :: s)

/-! ## Numbers -/

/-- One or more decimal digits. -/
def IsDigits (s : List Char) : Prop :=
  s ≠ [] ∧ ∀ c ∈ s, c.isDigit = true

/-- Digits without needless zeros. -/
def IsWhole (s : List Char) : Prop :=
  IsDigits s ∧ (s.head? = some '0' → s = ['0'])

/-- A point and digits, or nothing. -/
def IsFraction (s : List Char) : Prop :=
  s = [] ∨ ∃ ds, s = '.' :: ds ∧ IsDigits ds

/-- The letter of an exponent, a sign if any, and digits; or nothing. -/
def IsExponent (s : List Char) : Prop :=
  s = [] ∨ ∃ letter sign ds, s = letter :: (sign ++ ds) ∧ (letter = 'e' ∨ letter = 'E') ∧
    (sign = [] ∨ sign = ['+'] ∨ sign = ['-']) ∧ IsDigits ds

/-- A number: a minus sign if any, a whole part, a fraction and an exponent. -/
def IsNumber (s : List Char) : Prop :=
  ∃ sign whole fraction exponent, s = sign ++ (whole ++ (fraction ++ exponent)) ∧
    (sign = [] ∨ sign = ['-']) ∧ IsWhole whole ∧ IsFraction fraction ∧ IsExponent exponent

/-! ## Values -/

/-- The bracket that opens. -/
def Bracket.opening : Bracket → Char
  | list => '['
  | object => '{'

/-- The parts of which values are made up. -/
inductive Part where
  | value
  /-- An element of a list or a member of an object, with the white space around it. -/
  | item (bracket : Bracket)
  /-- One or more items, divided by commas. -/
  | items (bracket : Bracket)

/-- How the parts of values are written. -/
inductive Written : Part → List Char → Prop
  | null : Written .value ['n', 'u', 'l', 'l']
  | yes : Written .value ['t', 'r', 'u', 'e']
  | no : Written .value ['f', 'a', 'l', 's', 'e']
  | text {s : List Char} : IsQuotable s → Written .value ('"' :: (s ++ ['"']))
  | number {s : List Char} : IsNumber s → Written .value s
  | empty {b : Bracket} {w : List Char} : Blank w →
      Written .value (b.opening :: (w ++ [b.close]))
  | filled {b : Bracket} {s : List Char} : Written (.items b) s →
      Written .value (b.opening :: (s ++ [b.close]))
  | element {w v w' : List Char} : Blank w → Written .value v → Blank w' →
      Written (.item .list) (w ++ (v ++ w'))
  | member {w k w₁ w₂ v w' : List Char} : Blank w → IsQuotable k → Blank w₁ → Blank w₂ →
      Written .value v → Blank w' →
      Written (.item .object) (w ++ '"' :: (k ++ '"' :: (w₁ ++ ':' :: (w₂ ++ (v ++ w')))))
  | one {b : Bracket} {s : List Char} : Written (.item b) s → Written (.items b) s
  | more {b : Bracket} {s s' : List Char} : Written (.item b) s → Written (.items b) s' →
      Written (.items b) (s ++ ',' :: s')

/-- A value of any kind and any depth. -/
def IsValue (v : List Char) : Prop :=
  Written .value v

/-! ## What fields hold -/

/-- A whole number without sign, fraction and exponent, of at most 64 bits. -/
def IsNatural (v : List Char) (n : Nat) : Prop :=
  IsWhole v ∧ Nat.ofDigitChars 10 v 0 = n ∧ n < 2 ^ 64

/-- A text in quotes that stands for `t`. -/
def IsTextOf (v t : List Char) : Prop :=
  ∃ s, v = '"' :: (s ++ ['"']) ∧ Spells s t

end Json

/-- The text of an amount: at most one plus sign, a digit, and any digits and underscores, of which
the digits name the amount. -/
def Amount.Names (t : List Char) (n : Nat) : Prop :=
  ∃ sign d ds, t = sign ++ d :: ds ∧ (sign = [] ∨ sign = ['+']) ∧ d.isDigit = true ∧
    (∀ c ∈ ds, c.isDigit = true ∨ c = '_') ∧
    Nat.ofDigitChars 10 (d :: ds.filter (· ≠ '_')) 0 = n

namespace Json

/-- An amount: a text that names it, or a whole number of at most 64 bits. -/
def IsAmount (v : List Char) (n : Nat) : Prop :=
  (∃ t, IsTextOf v t ∧ Amount.Names t n) ∨ IsNatural v n

/-- A whole number of at most 64 bits, or null for none. -/
def IsOptional (v : List Char) (n? : Option Nat) : Prop :=
  (v = ['n', 'u', 'l', 'l'] ∧ n? = none) ∨ ∃ n, IsNatural v n ∧ n? = some n

/-- What a value denotes in a field. -/
def Kind.Denotes : (kind : Kind) → List Char → kind.Carrier → Prop
  | natural => IsNatural
  | optional => IsOptional
  | text => IsTextOf
  | amount => IsAmount

/-! ## Records -/

/-- A member of an object: the name that its key stands for, and its value as it is written. -/
structure Member where
  name : List Char
  value : List Char

/-- A member as it is written, with the white space around it. -/
def Member.IsWritten (m : Member) (s : List Char) : Prop :=
  ∃ w k w₁ w₂ w', s = w ++ '"' :: (k ++ '"' :: (w₁ ++ ':' :: (w₂ ++ (m.value ++ w')))) ∧
    Blank w ∧ Spells k m.name ∧ Blank w₁ ∧ Blank w₂ ∧ Blank w'

/-- The members of an object, between its brackets. -/
inductive Members : List Member → List Char → Prop
  | none {w : List Char} : Blank w → Members [] w
  | one {m : Member} {s : List Char} : m.IsWritten s → Members [m] s
  | more {m m' : Member} {ms : List Member} {s s' : List Char} : m.IsWritten s →
      Members (m' :: ms) s' → Members (m :: m' :: ms) (s ++ ',' :: s')

/-- The values of a list as they are written, between its brackets. -/
inductive Elements : List (List Char) → List Char → Prop
  | none {w : List Char} : Blank w → Elements [] w
  | one {w v w' : List Char} : Blank w → Blank w' → Elements [v] (w ++ (v ++ w'))
  | more {w v w' v' s : List Char} {vs : List (List Char)} : Blank w → Blank w' →
      Elements (v' :: vs) s → Elements (v :: v' :: vs) (w ++ (v ++ (w' ++ ',' :: s)))

/-- The values of the members with a name. -/
def valuesOf (name : List Char) (ms : List Member) : List (List Char) :=
  (ms.filter (·.name = name)).map (·.value)

/-- The members with other names. -/
def without (name : List Char) (ms : List Member) : List Member :=
  ms.filter (·.name ≠ name)

/-- The values that members give a field: one value that denotes it, or none if it need not be
there. -/
def Kind.Holds (kind : Kind) (vs : List (List Char)) (x : kind.Carrier) : Prop :=
  (∃ v, vs = [v] ∧ kind.Denotes v x) ∨ (vs = [] ∧ kind.absent? = some x)

/-- The members of an object hold the fields of a record; members with other names have any values.
-/
def MembersHold : (fields : List Field) → List Member → Row fields → Prop
  | [], ms, _ => ∀ m ∈ ms, IsValue m.value
  | field :: fields, ms, (x, row) =>
    field.kind.Holds (valuesOf field.name.toList ms) x ∧
      MembersHold fields (without field.name.toList ms) row

/-- The elements of a list hold the fields of a record in their order; those at the end may be
missing if they need not be there. -/
def ElementsHold : (fields : List Field) → List (List Char) → Row fields → Prop
  | [], vs, _ => vs = []
  | field :: fields, [], (x, row) => field.kind.absent? = some x ∧ ElementsHold fields [] row
  | field :: fields, v :: vs, (x, row) => field.kind.Denotes v x ∧ ElementsHold fields vs row

/-- How a record is written: as an object or as a list. -/
def Schema.Writes (schema : Schema) (t : List Char) (row : Row schema.fields) : Prop :=
  (∃ ms s, t = '{' :: (s ++ ['}']) ∧ Members ms s ∧ MembersHold schema.fields ms row) ∨
    ∃ vs s, t = '[' :: (s ++ [']']) ∧ Elements vs s ∧ ElementsHold schema.fields vs row

end Json

end ChainBoard
