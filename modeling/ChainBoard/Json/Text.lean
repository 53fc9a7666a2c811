import ChainBoard.Json.Reader

/-!
# Texts in JSON

A text stands in double quotes. A backslash starts an escape: a letter for some characters, or `u`
and four hexadecimal digits for a unit of 16 bits. Characters beyond 16 bits are escaped by two
units, a leading and a trailing surrogate. No control character stands in a text unescaped.

A text is read for its characters, or only passed. Where it is passed, an escape needs its four
digits and nothing more, so that a surrogate may stand alone.

The four digits are looked for among bytes: a reader that finds something else has nevertheless read
four bytes, and may stand inside a character or behind a line feed.

## Main definitions

* `readUnit`: four hexadecimal digits
* `readEscape`, `passEscape`: what stands behind a backslash
* `readText`, `passText`: what stands behind a quote, with the quote that ends it

## Main results

* `length_readText_lt`, `length_passText_lt`: a text takes at least the quote that ends it
-/

namespace ChainBoard.Json

/-- The value of a hexadecimal digit. -/
def hexDigit? (c : Char) : Option Nat :=
  if c.isDigit then some (c.toNat - '0'.toNat)
  else if 'a' ≤ c ∧ c ≤ 'f' then some (c.toNat - 'a'.toNat + 10)
  else if 'A' ≤ c ∧ c ≤ 'F' then some (c.toNat - 'A'.toNat + 10)
  else none

/-- The value of four hexadecimal digits. -/
def unit? (a b c d : Char) : Option Nat := do
  return (((← hexDigit? a) * 16 + (← hexDigit? b)) * 16 + (← hexDigit? c)) * 16 + (← hexDigit? d)

/-- The stop at four bytes that are not four hexadecimal digits. -/
def notUnit (s : List Char) : Stop :=
  if Text.Utf8.byteSize s < 4 then Stop.before .endInText []
  else ⟨.invalidEscape, Text.Utf8.byteSize s - 4⟩

/-- The unit written by the four hexadecimal digits at the start of a text. -/
def readUnit (s : List Char) : Except Stop (Nat × List Char) :=
  match s with
  | a :: b :: c :: d :: rest =>
    match unit? a b c d with
    | some n => .ok (n, rest)
    | none => .error (notUnit s)
  | _ => .error (notUnit s)

/-- Whether a unit is the first half of a character beyond 16 bits. -/
def isLeading (n : Nat) : Bool :=
  0xD800 ≤ n && n ≤ 0xDBFF

/-- Whether a unit is the second half of a character beyond 16 bits. -/
def isTrailing (n : Nat) : Bool :=
  0xDC00 ≤ n && n ≤ 0xDFFF

/-- The character of a leading and a trailing surrogate. -/
def joined (leading trailing : Nat) : Char :=
  Char.ofNat (0x10000 + (leading - 0xD800) * 0x400 + (trailing - 0xDC00))

/-- The trailing surrogate that has to follow a leading one. -/
def readTrailing : List Char → Except Stop (Nat × List Char)
  | [] => .error (Stop.before .endInText [])
  | '\\' :: [] => .error (Stop.before .endInText [])
  | '\\' :: 'u' :: s => do
    let (n, rest) ← readUnit s
    if isTrailing n then .ok (n, rest) else .error (Stop.before .loneSurrogate rest)
  | '\\' :: s => .error (Stop.on .unpairedSurrogate s)
  | s => .error (Stop.on .unpairedSurrogate s)

/-- The character written by hexadecimal digits, from the first of them on. -/
def readCoded (s : List Char) : Except Stop (Char × List Char) := do
  let (n, rest) ← readUnit s
  if isTrailing n then .error (Stop.before .loneSurrogate rest)
  else if isLeading n then do
    let (m, rest) ← readTrailing rest
    .ok (joined n m, rest)
  else .ok (Char.ofNat n, rest)

/-- The character that a letter behind a backslash stands for. -/
def lettered? : Char → Option Char
  | '"' => some '"'
  | '\\' => some '\\'
  | '/' => some '/'
  | 'b' => some '\x08'
  | 'f' => some '\x0c'
  | 'n' => some '\n'
  | 'r' => some '\r'
  | 't' => some '\t'
  | _ => none

/-- The character of an escape, from behind its backslash on. -/
def readEscape : List Char → Except Stop (Char × List Char)
  | [] => .error (Stop.before .endInText [])
  | 'u' :: s => readCoded s
  | c :: s =>
    match lettered? c with
    | some e => .ok (e, s)
    | none => .error (Stop.on .invalidEscape (c :: s))

/-- The text behind an escape, from behind its backslash on. -/
def passEscape : List Char → Except Stop (List Char)
  | [] => .error (Stop.before .endInText [])
  | 'u' :: s => (readUnit s).map (·.2)
  | c :: s =>
    match lettered? c with
    | some _ => .ok s
    | none => .error (Stop.on .invalidEscape (c :: s))

/-- The control characters that must be escaped. -/
def isBareControl (c : Char) : Bool :=
  c.toNat < 0x20

theorem length_readUnit_lt {s rest : List Char} {n : Nat} (h : readUnit s = .ok (n, rest)) :
    rest.length < s.length := by
  unfold readUnit at h
  split at h
  · split at h
    · simp only [Except.ok.injEq, Prod.mk.injEq] at h
      obtain ⟨-, rfl⟩ := h
      simp only [List.length_cons]
      omega
    · simp at h
  · simp at h

theorem length_readTrailing_lt {s rest : List Char} {n : Nat}
    (h : readTrailing s = .ok (n, rest)) : rest.length < s.length := by
  unfold readTrailing at h
  split at h
  · simp at h
  · simp at h
  · obtain ⟨⟨m, r⟩, hr, h⟩ := bind_eq_ok_iff.1 h
    have := length_readUnit_lt hr
    dsimp only at h
    split at h
    · simp only [Except.ok.injEq, Prod.mk.injEq] at h
      obtain ⟨-, rfl⟩ := h
      simp only [List.length_cons]
      omega
    · simp at h
  · simp at h
  · simp at h

theorem length_readCoded_lt {s rest : List Char} {c : Char} (h : readCoded s = .ok (c, rest)) :
    rest.length < s.length := by
  unfold readCoded at h
  obtain ⟨⟨n, r⟩, hr, h⟩ := bind_eq_ok_iff.1 h
  have := length_readUnit_lt hr
  dsimp only at h
  split at h
  · simp at h
  · split at h
    · obtain ⟨⟨m, r'⟩, hr', h⟩ := bind_eq_ok_iff.1 h
      have := length_readTrailing_lt hr'
      simp only [Except.ok.injEq, Prod.mk.injEq] at h
      obtain ⟨-, rfl⟩ := h
      omega
    · simp only [Except.ok.injEq, Prod.mk.injEq] at h
      obtain ⟨-, rfl⟩ := h
      assumption

theorem length_readEscape_lt {s rest : List Char} {c : Char} (h : readEscape s = .ok (c, rest)) :
    rest.length < s.length := by
  unfold readEscape at h
  split at h
  · simp at h
  · have := length_readCoded_lt h
    simp only [List.length_cons]
    omega
  · split at h
    · simp only [Except.ok.injEq, Prod.mk.injEq] at h
      obtain ⟨-, rfl⟩ := h
      simp
    · simp at h

theorem length_passEscape_lt {s rest : List Char} (h : passEscape s = .ok rest) :
    rest.length < s.length := by
  unfold passEscape at h
  split at h
  · simp at h
  · obtain ⟨p, hp, rfl⟩ := map_eq_ok_iff.1 h
    have := length_readUnit_lt hp
    simp only [List.length_cons]
    omega
  · split at h
    · simp only [Except.ok.injEq] at h
      simp [h]
    · simp at h

/-- The characters of a text, the last one of `done` being the first, and what stands behind its
closing quote. -/
def readTextOnto (done : List Char) (s : List Char) : Except Stop (List Char × List Char) :=
  match s with
  | [] => .error (Stop.before .endInText [])
  | c :: s =>
    if c = '"' then .ok (done.reverse, s)
    else if c = '\\' then
      match _h : readEscape s with
      | .ok (e, rest) => readTextOnto (e :: done) rest
      | .error stop => .error stop
    else if isBareControl c then .error (Stop.on .controlCharacter (c :: s))
    else readTextOnto (c :: done) s
termination_by s.length
decreasing_by
  · have := length_readEscape_lt _h
    simp only [List.length_cons]
    omega
  · simp

/-- The characters of a text, from behind its opening quote on, and what stands behind its closing
quote. -/
def readText (s : List Char) : Except Stop (List Char × List Char) :=
  readTextOnto [] s

/-- What stands behind the closing quote of a text, from behind its opening quote on. -/
def passText (s : List Char) : Except Stop (List Char) :=
  match s with
  | [] => .error (Stop.before .endInText [])
  | c :: s =>
    if c = '"' then .ok s
    else if c = '\\' then
      match _h : passEscape s with
      | .ok rest => passText rest
      | .error stop => .error stop
    else if isBareControl c then .error (Stop.before .controlCharacter (c :: s))
    else passText s
termination_by s.length
decreasing_by
  · have := length_passEscape_lt _h
    simp only [List.length_cons]
    omega
  · simp

theorem length_readTextOnto_lt {done s text rest : List Char}
    (h : readTextOnto done s = .ok (text, rest)) : rest.length < s.length := by
  fun_induction readTextOnto done s with
  | case1 => simp at h
  | case2 =>
    simp only [Except.ok.injEq, Prod.mk.injEq] at h
    obtain ⟨-, rfl⟩ := h
    simp
  | case3 _ s e rest' he _ ih =>
    have := ih h
    have := length_readEscape_lt he
    simp only [List.length_cons]
    omega
  | case4 => simp at h
  | case5 => simp at h
  | case6 _ _ s _ _ _ ih =>
    have := ih h
    simp only [List.length_cons]
    omega

/-- A text takes at least its closing quote. -/
theorem length_readText_lt {s text rest : List Char} (h : readText s = .ok (text, rest)) :
    rest.length < s.length :=
  length_readTextOnto_lt h

/-- A text that is passed takes at least its closing quote. -/
theorem length_passText_lt {s rest : List Char} (h : passText s = .ok rest) :
    rest.length < s.length := by
  fun_induction passText s with
  | case1 => simp at h
  | case2 =>
    simp only [Except.ok.injEq] at h
    simp [h]
  | case3 s rest' he _ ih =>
    have := ih h
    have := length_passEscape_lt he
    simp only [List.length_cons]
    omega
  | case4 => simp at h
  | case5 => simp at h
  | case6 _ s _ _ _ ih =>
    have := ih h
    simp only [List.length_cons]
    omega

end ChainBoard.Json
