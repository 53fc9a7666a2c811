/-!
# Texts as bytes

A text is sent as its UTF-8 bytes. Bytes from outside may be no UTF-8 at all; reading them never
fails. The reader takes the longest start of a sequence that could still become a character, and
writes one replacement character for it if it does not. The byte that breaks a sequence starts the
next one, so that no character behind a broken sequence is lost.

## Main definitions

* `byteSize`, `bytes`: the bytes of a text
* `Begun`: a sequence that has begun and is not complete
* `Decoder.step`: what one byte does
* `decode`: the text of any bytes
* `dropMark`: the text without the mark of its byte order

## Main results

* `length_bytes`: the length of `bytes s` is `byteSize s`
-/

namespace ChainBoard.Text.Utf8

/-- The number of bytes of a text. -/
def byteSize (s : List Char) : Nat :=
  (s.map Char.utf8Size).foldr (· + ·) 0

/-- The bytes of a text. -/
def bytes (s : List Char) : List UInt8 :=
  s.flatMap String.utf8EncodeChar

/-- The character that stands for a sequence that is none. -/
def replacement : Char := '\uFFFD'

/-- A sequence that has begun: the bits read so far, how many bytes must still come, and the range
in which the next one must lie. -/
structure Begun where
  bits : Nat
  missing : Nat
  low : Nat := 0x80
  high : Nat := 0xBF
  deriving DecidableEq, Repr

/-- What the first byte of a sequence says. -/
inductive Lead where
  /-- The byte is a character by itself. -/
  | whole (c : Char)
  /-- More bytes must follow. -/
  | opens (seq : Begun)
  /-- No character starts with the byte. -/
  | stray
  deriving DecidableEq, Repr

/-- What the first byte of a sequence says. The second byte is bounded so that no character is
longer than needed, none is a surrogate, and none lies beyond the last code point. -/
def lead (b : Nat) : Lead :=
  if b < 0x80 then .whole (Char.ofNat b)
  else if b < 0xC2 then .stray
  else if b < 0xE0 then .opens { bits := b - 0xC0, missing := 1 }
  else if b = 0xE0 then .opens { bits := 0, missing := 2, low := 0xA0 }
  else if b = 0xED then .opens { bits := 13, missing := 2, high := 0x9F }
  else if b < 0xF0 then .opens { bits := b - 0xE0, missing := 2 }
  else if b = 0xF0 then .opens { bits := 0, missing := 3, low := 0x90 }
  else if b < 0xF4 then .opens { bits := b - 0xF0, missing := 3 }
  else if b = 0xF4 then .opens { bits := 4, missing := 3, high := 0x8F }
  else .stray

/-- The characters read so far, the last one first, and the sequence that has begun, if any. -/
structure Decoder where
  done : List Char := []
  open? : Option Begun := none
  deriving DecidableEq, Repr

namespace Decoder

/-- A byte that starts a sequence. -/
def start (done : List Char) (b : Nat) : Decoder :=
  match lead b with
  | .whole c => { done := c :: done }
  | .opens seq => { done, open? := some seq }
  | .stray => { done := replacement :: done }

/-- What one byte does: it continues the sequence that has begun, or breaks it and starts a new
one. -/
def step (decoder : Decoder) (byte : UInt8) : Decoder :=
  let b := byte.toNat
  match decoder.open? with
  | none => start decoder.done b
  | some seq =>
    if seq.low ≤ b ∧ b ≤ seq.high then
      let bits := seq.bits * 64 + (b - 0x80)
      if seq.missing ≤ 1 then { done := Char.ofNat bits :: decoder.done }
      else { decoder with open? := some { bits, missing := seq.missing - 1 } }
    else start (replacement :: decoder.done) b

/-- The text read, with one replacement character for a sequence that is still open. -/
def finish (decoder : Decoder) : List Char :=
  match decoder.open? with
  | none => decoder.done.reverse
  | some _ => (replacement :: decoder.done).reverse

end Decoder

/-- The text of any bytes. -/
def decode (bytes : List UInt8) : List Char :=
  (bytes.foldl Decoder.step {}).finish

/-- The text without one byte order mark at its start. -/
def dropMark : List Char → List Char
  | '\uFEFF' :: s => s
  | s => s

@[simp] theorem byteSize_nil : byteSize [] = 0 := rfl

@[simp] theorem byteSize_cons (c : Char) (s : List Char) :
    byteSize (c :: s) = c.utf8Size + byteSize s := by
  simp [byteSize]

@[simp] theorem byteSize_append (s t : List Char) :
    byteSize (s ++ t) = byteSize s + byteSize t := by
  induction s with
  | nil => simp
  | cons c s ih => rw [List.cons_append, byteSize_cons, byteSize_cons, ih, Nat.add_assoc]

/-- As many bytes as counted. -/
theorem length_bytes (s : List Char) : (bytes s).length = byteSize s := by
  induction s with
  | nil => rfl
  | cons c s ih =>
    simp only [bytes, List.flatMap_cons, List.length_append, byteSize_cons] at ih ⊢
    rw [ih, String.length_utf8EncodeChar]

end ChainBoard.Text.Utf8
