import ChainBoard.Json.Value

/-!
# The values of fields

A field of a record holds a natural number of at most 64 bits, such a number or null, a text, or an
amount. Null, or no field at all, leaves an optional number open.

An amount is first walked over like any value, and only then looked at: whatever is wrong with its
form comes before the question whether it is an amount. A fault of an amount has no place of its
own.

## Main definitions

* `Kind`, `Kind.Carrier`: what a field holds
* `readNatural`, `readOptional`, `readTextValue`, `readAmount`: the readers
* `Failure`: a stop, or a fault without a place
* `Kind.read`: reads the value of a field

## Main results

* `Kind.length_read_lt`: a value takes at least one character
-/

namespace ChainBoard.Json

/-- What a field holds. -/
inductive Kind where
  | natural
  | optional
  | text
  | amount
  deriving DecidableEq, Repr

namespace Kind

/-- The values that a field may hold. -/
@[reducible] def Carrier : Kind → Type
  | natural => Nat
  | optional => Option Nat
  | text => List Char
  | amount => Nat

/-- The value of a field that is not there, if it need not be there. -/
def absent? : (kind : Kind) → Option kind.Carrier
  | natural => none
  | optional => some none
  | text => none
  | amount => none

end Kind

/-- The number of brackets that may be open at once, at most, where values are walked over exactly.
-/
def bracketLimit : Nat := 127

/-- A natural number of at most 64 bits. -/
def readNatural (s : List Char) : Except Stop (Nat × List Char) := do
  let (seen, rest) ← Seen.read s
  match seen with
  | .number (.natural n) => .ok (n, rest)
  | .number (.negative n) => .error (Stop.before (.belowZero n) rest)
  | seen => .error (Stop.before (.wrongType seen .natural) rest)

/-- A natural number of at most 64 bits, or null. -/
def readOptional (s : List Char) : Except Stop (Option Nat × List Char) :=
  match skipBlank s with
  | 'n' :: rest => (readWord ['u', 'l', 'l'] rest).map fun rest => (none, rest)
  | _ => (readNatural s).map fun (n, rest) => (some n, rest)

/-- A text. -/
def readTextValue (s : List Char) : Except Stop (List Char × List Char) := do
  let (seen, rest) ← Seen.read s
  match seen with
  | .text text => .ok (text, rest)
  | seen => .error (Stop.before (.wrongType seen .text) rest)

/-- What a scalar is as an amount. -/
def Seen.amount : Seen → Except Amount.Fault Nat
  | text s => Amount.ofText s
  | number (.natural n) => .ok n
  | _ => .error .notAmount

/-- The value in front of a reader as an amount, with at most `room` open brackets in it. -/
def readAmount (room : Nat) (s : List Char) :
    Except Stop (Except Amount.Fault Nat × List Char) := do
  let (seen, rest) ← Seen.read s
  match seen with
  | .list => return (seen.amount, ← passValue (.exact room) s)
  | .object => return (seen.amount, ← passValue (.exact room) s)
  | seen => return (seen.amount, rest)

/-- Why a record is refused: a stop, or a cause without a place and the text left then. -/
inductive Failure where
  | stopped (stop : Stop)
  | unplaced (cause : Cause) (rest : List Char)
  deriving DecidableEq, Repr

/-- A reader among the fields of a record. -/
def within {α : Type} (x : Except Stop α) : Except Failure α :=
  x.mapError .stopped

/-- An amount inside a record, whose bracket is open already. -/
def readAmountField (s : List Char) : Except Failure (Nat × List Char) :=
  match readAmount (bracketLimit - 1) s with
  | .ok (.ok n, rest) => .ok (n, rest)
  | .ok (.error fault, rest) => .error (.unplaced (.amount fault) rest)
  | .error stop => .error (.stopped stop)

namespace Kind

/-- The value of a field. -/
def read (kind : Kind) (s : List Char) : Except Failure (kind.Carrier × List Char) :=
  match kind with
  | natural => within (readNatural s)
  | optional => within (readOptional s)
  | text => within (readTextValue s)
  | amount => readAmountField s

end Kind

/-- A scalar takes at least one character; a bracket takes none. -/
theorem Seen.length_read {s rest : List Char} {seen : Seen} (h : Seen.read s = .ok (seen, rest)) :
    rest.length < s.length ∨ seen = .list ∨ seen = .object := by
  unfold Seen.read at h
  have hb := length_skipBlank_le s
  split at h
  · simp at h
  · rename_i c s' hs
    rw [hs, List.length_cons] at hb
    have word {w : List Char} {seen' : Seen}
        (hw : (readWord w s').map (fun rest => (seen', rest)) = .ok (seen, rest)) :
        rest.length < s.length := by
      obtain ⟨r, hr, he⟩ := map_eq_ok_iff.1 hw
      simp only [Prod.mk.injEq] at he
      obtain ⟨-, rfl⟩ := he
      have := length_readWord_le hr
      omega
    split at h
    · obtain ⟨p, hp, he⟩ := map_eq_ok_iff.1 h
      simp only [Prod.mk.injEq] at he
      obtain ⟨-, rfl⟩ := he
      have := length_readText_lt hp
      omega
    · split at h
      · simp_all
      · split at h
        · simp_all
        · split at h
          · exact .inl (word h)
          · split at h
            · exact .inl (word h)
            · split at h
              · exact .inl (word h)
              · split at h
                · obtain ⟨p, hp, he⟩ := map_eq_ok_iff.1 h
                  simp only [Prod.mk.injEq] at he
                  obtain ⟨-, rfl⟩ := he
                  have := Number.length_read_lt hp
                  simp only [List.length_cons] at this
                  omega
                · simp at h

theorem length_readNatural_lt {s rest : List Char} {n : Nat} (h : readNatural s = .ok (n, rest)) :
    rest.length < s.length := by
  obtain ⟨⟨seen, r⟩, hr, h⟩ := bind_eq_ok_iff.1 h
  have := Seen.length_read hr
  dsimp only at h
  split at h
  · simp_all
  · simp at h
  · simp at h

theorem length_readOptional_lt {s rest : List Char} {n : Option Nat}
    (h : readOptional s = .ok (n, rest)) : rest.length < s.length := by
  unfold readOptional at h
  have hb := length_skipBlank_le s
  split at h
  · rename_i hs
    rw [hs, List.length_cons] at hb
    obtain ⟨r, hr, he⟩ := map_eq_ok_iff.1 h
    simp only [Prod.mk.injEq] at he
    obtain ⟨-, rfl⟩ := he
    have := length_readWord_le hr
    omega
  · obtain ⟨p, hp, he⟩ := map_eq_ok_iff.1 h
    simp only [Prod.mk.injEq] at he
    exact he.2 ▸ length_readNatural_lt hp

theorem length_readTextValue_lt {s text rest : List Char}
    (h : readTextValue s = .ok (text, rest)) : rest.length < s.length := by
  obtain ⟨⟨seen, r⟩, hr, h⟩ := bind_eq_ok_iff.1 h
  have := Seen.length_read hr
  dsimp only at h
  split at h
  · simp_all
  · simp at h

theorem length_readAmount_lt {room : Nat} {s rest : List Char} {n : Except Amount.Fault Nat}
    (h : readAmount room s = .ok (n, rest)) : rest.length < s.length := by
  obtain ⟨⟨seen, r⟩, hr, h⟩ := bind_eq_ok_iff.1 h
  have := Seen.length_read hr
  dsimp only at h
  split at h
  · obtain ⟨r', hr', h⟩ := bind_eq_ok_iff.1 h
    simp only [pure, Except.pure, Except.ok.injEq, Prod.mk.injEq] at h
    exact h.2 ▸ length_passValue_lt hr'
  · obtain ⟨r', hr', h⟩ := bind_eq_ok_iff.1 h
    simp only [pure, Except.pure, Except.ok.injEq, Prod.mk.injEq] at h
    exact h.2 ▸ length_passValue_lt hr'
  · simp_all [pure, Except.pure]

theorem length_readAmountField_lt {s rest : List Char} {n : Nat}
    (h : readAmountField s = .ok (n, rest)) : rest.length < s.length := by
  unfold readAmountField at h
  split at h
  · rename_i hr
    simp only [Except.ok.injEq, Prod.mk.injEq] at h
    exact h.2 ▸ length_readAmount_lt hr
  · simp at h
  · simp at h

theorem within_eq_ok_iff {α : Type} {x : Except Stop α} {a : α} :
    within x = .ok a ↔ x = .ok a :=
  mapError_eq_ok_iff

/-- The value of a field takes at least one character. -/
theorem Kind.length_read_lt {kind : Kind} {s rest : List Char} {value : kind.Carrier}
    (h : kind.read s = .ok (value, rest)) : rest.length < s.length := by
  cases kind with
  | natural => exact length_readNatural_lt (within_eq_ok_iff.1 h)
  | optional => exact length_readOptional_lt (within_eq_ok_iff.1 h)
  | text => exact length_readTextValue_lt (within_eq_ok_iff.1 h)
  | amount => exact length_readAmountField_lt h

end ChainBoard.Json
