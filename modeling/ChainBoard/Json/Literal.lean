import ChainBoard.Json.Reader

/-!
# Number literals

A literal is read in two steps. Its form comes first: an optional minus sign, a whole part without
needless zeros, an optional fraction and an optional exponent. Its value comes second. A whole
literal of at most 64 bits has its exact value; every other literal is a binary fraction. The
significant digits of a binary fraction are those that fit 64 bits, and the power of ten that
remains is multiplied or divided in afterwards; a literal beyond all binary fractions is out of
range.

The number 0 with a minus sign has no whole value and is a binary fraction as well.

## Main definitions

* `Literal`, `Literal.read`: the form of a literal
* `Literal.number`: the value of a literal
* `Number.read`: form and value at once

## Main results

* `Number.length_read_lt`: a number takes at least one character
-/

namespace ChainBoard.Json

open Decimal (Binary64)

/-- An exponent: its sign and its digits. -/
structure Exponent where
  negative : Bool
  digits : List Char
  deriving DecidableEq, Repr

/-- The form of a number literal. The fraction is empty when there is no point. -/
structure Literal where
  negative : Bool
  whole : List Char
  fraction : List Char
  exponent : Option Exponent
  deriving DecidableEq, Repr

namespace Literal

/-- Whether a text begins with a digit. -/
def startsWithDigit : List Char → Bool
  | c :: _ => c.isDigit
  | [] => false

/-- The digits at the start of a text, which must not be empty, and the text behind them. At the end
of the input the refusal is `atEnd`. -/
def readDigits (atEnd : Cause) (s : List Char) : Except Stop (List Char × List Char) :=
  if startsWithDigit s then .ok (s.takeWhile Char.isDigit, s.dropWhile Char.isDigit)
  else if s = [] then .error (Stop.before atEnd s)
  else .error (Stop.on .invalidNumber s)

/-- The whole part: a single zero, or digits that do not start with zero. -/
def readWhole (atEnd : Cause) : List Char → Except Stop (List Char × List Char)
  | '0' :: s => if startsWithDigit s then .error (Stop.on .invalidNumber s) else .ok (['0'], s)
  | s => readDigits atEnd s

/-- The fraction: a point and digits, or nothing. -/
def readFraction (atEnd : Cause) : List Char → Except Stop (List Char × List Char)
  | '.' :: s => readDigits atEnd s
  | s => .ok ([], s)

/-- A sign in front of an exponent, and the text behind it. -/
def readSign : List Char → Bool × List Char
  | '-' :: s => (true, s)
  | '+' :: s => (false, s)
  | s => (false, s)

/-- The digits of an exponent behind its letter. -/
def readPower (atEnd : Cause) (s : List Char) : Except Stop (Option Exponent × List Char) :=
  (readDigits atEnd (readSign s).2).map fun (digits, rest) => (some ⟨(readSign s).1, digits⟩, rest)

/-- The exponent: a letter, an optional sign and digits, or nothing. -/
def readExponent (atEnd : Cause) : List Char → Except Stop (Option Exponent × List Char)
  | 'e' :: s => readPower atEnd s
  | 'E' :: s => readPower atEnd s
  | s => .ok (none, s)

/-- The minus sign of a literal, and the text behind it. -/
def readMinus : List Char → Bool × List Char
  | '-' :: s => (true, s)
  | s => (false, s)

/-- The form of the literal at the start of a text. -/
def read (atEnd : Cause) (s : List Char) : Except Stop (Literal × List Char) := do
  let (whole, s') ← readWhole atEnd (readMinus s).2
  let (fraction, s') ← readFraction atEnd s'
  let (exponent, s') ← readExponent atEnd s'
  .ok (⟨(readMinus s).1, whole, fraction, exponent⟩, s')

end Literal

namespace Literal

theorem length_readDigits_lt {atEnd : Cause} {s ds rest : List Char}
    (h : readDigits atEnd s = .ok (ds, rest)) : rest.length < s.length := by
  unfold readDigits at h
  split at h
  · rename_i hs
    simp only [Except.ok.injEq, Prod.mk.injEq] at h
    obtain ⟨-, rfl⟩ := h
    match s, hs with
    | c :: s, hs =>
      have hc : c.isDigit = true := hs
      rw [List.dropWhile_cons, if_pos hc, List.length_cons]
      exact Nat.lt_succ_of_le (List.dropWhile_suffix _).length_le
  · split at h <;> simp at h

theorem length_readWhole_lt {atEnd : Cause} {s ds rest : List Char}
    (h : readWhole atEnd s = .ok (ds, rest)) : rest.length < s.length := by
  unfold readWhole at h
  split at h
  · split at h
    · simp at h
    · simp only [Except.ok.injEq, Prod.mk.injEq] at h
      obtain ⟨-, rfl⟩ := h
      simp
  · exact length_readDigits_lt h

theorem length_readFraction_le {atEnd : Cause} {s ds rest : List Char}
    (h : readFraction atEnd s = .ok (ds, rest)) : rest.length ≤ s.length := by
  unfold readFraction at h
  split at h
  · have := length_readDigits_lt h
    simp only [List.length_cons]
    omega
  · simp only [Except.ok.injEq, Prod.mk.injEq] at h
    obtain ⟨-, rfl⟩ := h
    exact Nat.le_refl _

theorem length_readSign_le (s : List Char) : (readSign s).2.length ≤ s.length := by
  unfold readSign
  split <;> simp

theorem length_readMinus_le (s : List Char) : (readMinus s).2.length ≤ s.length := by
  unfold readMinus
  split <;> simp

theorem length_readPower_le {atEnd : Cause} {s rest : List Char} {e : Option Exponent}
    (h : readPower atEnd s = .ok (e, rest)) : rest.length ≤ s.length := by
  unfold readPower at h
  obtain ⟨p, hp, he⟩ := map_eq_ok_iff.1 h
  have := length_readDigits_lt hp
  have := length_readSign_le s
  simp only [Prod.mk.injEq] at he
  obtain ⟨-, rfl⟩ := he
  omega

theorem length_readExponent_le {atEnd : Cause} {s rest : List Char} {e : Option Exponent}
    (h : readExponent atEnd s = .ok (e, rest)) : rest.length ≤ s.length := by
  unfold readExponent at h
  split at h
  · have := length_readPower_le h
    simp only [List.length_cons]
    omega
  · have := length_readPower_le h
    simp only [List.length_cons]
    omega
  · simp only [Except.ok.injEq, Prod.mk.injEq] at h
    obtain ⟨-, rfl⟩ := h
    exact Nat.le_refl _

/-- A literal takes at least one character. -/
theorem length_read_lt {atEnd : Cause} {s rest : List Char} {literal : Literal}
    (h : read atEnd s = .ok (literal, rest)) : rest.length < s.length := by
  unfold read at h
  obtain ⟨w, hw, h⟩ := bind_eq_ok_iff.1 h
  obtain ⟨f, hf, h⟩ := bind_eq_ok_iff.1 h
  obtain ⟨e, he, h⟩ := bind_eq_ok_iff.1 h
  simp only [Except.ok.injEq, Prod.mk.injEq] at h
  obtain ⟨-, rfl⟩ := h
  have := length_readMinus_le s
  have := length_readWhole_lt hw
  have := length_readFraction_le hf
  have := length_readExponent_le he
  omega

end Literal

/-- One more than the greatest significand. -/
def significandBound : Nat := Nat.pow 2 64

/-- Takes digits into a significand as long as it stays below its bound, and gives the digits that
no longer fit. -/
def absorb (significand : Nat) : List Char → Nat × List Char
  | [] => (significand, [])
  | d :: ds =>
    let more := 10 * significand + (d.toNat - '0'.toNat)
    if more < significandBound then absorb more ds else (significand, d :: ds)

/-- The greatest exponent. -/
def greatestExponent : Nat := Nat.pow 2 31 - 1

/-- The digits of an exponent behind the first that takes it beyond the greatest exponent. -/
def overrun? (power : Nat) : List Char → Option (List Char)
  | [] => none
  | d :: ds =>
    let more := 10 * power + (d.toNat - '0'.toNat)
    if more ≤ greatestExponent then overrun? more ds else some ds

/-- The greatest power of ten that is a binary fraction. -/
def greatestPower : Nat := 308

/-- A binary fraction divided by a power of ten, in steps of at most the greatest one. -/
def dividedByTen (x : Binary64) (power : Nat) : Option Binary64 :=
  if power ≤ greatestPower then Binary64.tenTo? power >>= x.div?
  else if x.mantissa = 0 then some x
  else do dividedByTen (← Binary64.tenTo? greatestPower >>= x.div?) (power - greatestPower)
termination_by power
decreasing_by simp only [greatestPower] at *; omega

/-- The binary fraction `significand * 10 ^ power`, unless it is out of range. -/
def timesTen (significand : Nat) (power : Int) : Option Binary64 := do
  let x ← Binary64.ofNat? significand
  if power < 0 then dividedByTen x power.natAbs
  else if power.toNat ≤ greatestPower then Binary64.tenTo? power.toNat >>= x.mul?
  else if significand = 0 then some x
  else none

namespace Literal

/-- Whether a literal has neither fraction nor exponent. -/
def isWhole (literal : Literal) : Bool :=
  literal.fraction = [] && literal.exponent.isNone

/-- The significand, and the power of ten that remains before the exponent is counted in. -/
def significand (literal : Literal) : Nat × Int :=
  let (high, cut) := absorb 0 literal.whole
  let (all, unread) := absorb high literal.fraction
  (all, (cut.length : Int) - (literal.fraction.length - unread.length : Nat))

/-- The binary fraction of a literal in front of the text `rest`. -/
def fractional (literal : Literal) (rest : List Char) : Except Stop Number :=
  let (all, power) := literal.significand
  let result (power : Int) : Except Stop Number :=
    match timesTen all power with
    | some x => .ok (.fraction literal.negative x)
    | none => .error (Stop.before .numberOutOfRange rest)
  match literal.exponent with
  | none => result power
  | some exponent =>
    match overrun? 0 exponent.digits with
    | none =>
      let n : Int := Nat.ofDigitChars 10 exponent.digits 0
      result (if exponent.negative then power - n else power + n)
    | some unread =>
      if all ≠ 0 ∧ ¬ exponent.negative then
        .error (Stop.before .numberOutOfRange (unread ++ rest))
      else .ok (.fraction literal.negative Binary64.zero)

/-- The value of a literal in front of the text `rest`. -/
def number (literal : Literal) (rest : List Char) : Except Stop Number :=
  let n := Nat.ofDigitChars 10 literal.whole 0
  if literal.isWhole ∧ ¬ literal.negative ∧ n < significandBound then .ok (.natural n)
  else if literal.isWhole ∧ literal.negative ∧ 0 < n ∧ n ≤ Nat.pow 2 63 then .ok (.negative n)
  else literal.fractional rest

end Literal

/-- The number at the start of a text. -/
def Number.read (s : List Char) : Except Stop (Number × List Char) := do
  let (literal, rest) ← Literal.read .endInValue s
  return (← literal.number rest, rest)

/-- A number takes at least one character. -/
theorem Number.length_read_lt {s rest : List Char} {n : Number}
    (h : Number.read s = .ok (n, rest)) : rest.length < s.length := by
  unfold Number.read at h
  obtain ⟨l, hl, h⟩ := bind_eq_ok_iff.1 h
  obtain ⟨n', -, h⟩ := bind_eq_ok_iff.1 h
  simp only [pure, Except.pure, Except.ok.injEq, Prod.mk.injEq] at h
  obtain ⟨-, rfl⟩ := h
  exact Literal.length_read_lt hl

end ChainBoard.Json
