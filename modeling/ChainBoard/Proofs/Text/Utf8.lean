import ChainBoard.Text.Utf8

/-!
# Texts survive their bytes

A text that is sent as its bytes is read as that text. The bytes of one character take a reader that
is between characters to a reader between characters with that character read; for a text this is
repeated character by character.

## Main results

* `range_of_lead`: what the range of the second byte sees to
* `foldl_step_utf8EncodeChar`: the bytes of a character are read as that character
* `decode_bytes`: the bytes of a text are read as that text
* `mem_bytes_iff`: a byte below 0x80 stands for the character with that code point
-/

namespace ChainBoard.Text.Utf8

/-! ## First bytes -/

theorem lead_one {a : Nat} (h : a < 0x80) : lead a = .whole (Char.ofNat a) := by
  rw [lead, if_pos h]

theorem lead_two : ∀ a < 32, 2 ≤ a → lead (a + 0xC0) = .opens ⟨a, 1, 0x80, 0xBF⟩ := by
  decide

/-- The second byte of three is bounded from below behind the first of these first bytes, and from
above behind the one in front of the surrogates. -/
theorem lead_three : ∀ a < 16, lead (a + 0xE0) =
    .opens ⟨a, 2, if a = 0 then 0xA0 else 0x80, if a = 13 then 0x9F else 0xBF⟩ := by
  decide

/-- The second byte of four is bounded from below behind the first of these first bytes, and from
above behind the last. -/
theorem lead_four : ∀ a < 5, lead (a + 0xF0) =
    .opens ⟨a, 3, if a = 0 then 0x90 else 0x80, if a = 4 then 0x8F else 0xBF⟩ := by
  decide

theorem lead_ne_whole {b : Nat} (h : 0x80 ≤ b) (c : Char) : lead b ≠ .whole c := by
  grind [lead]

/-- The range of the second byte, and what it sees to for each number of bytes. -/
theorem range_of_lead {b : Nat} {seq : Begun} (h : lead b = .opens seq) :
    (0x80 ≤ seq.low ∧ seq.low ≤ seq.high ∧ seq.high ≤ 0xBF) ∧
    ((seq.missing = 1 ∧ 2 ≤ seq.bits ∧ seq.bits < 32 ∧ b = seq.bits + 0xC0) ∨
    (seq.missing = 2 ∧ seq.bits < 16 ∧ b = seq.bits + 0xE0 ∧
      (seq.bits = 0 → 0xA0 ≤ seq.low) ∧ (seq.bits = 13 → seq.high ≤ 0x9F)) ∨
    (seq.missing = 3 ∧ seq.bits < 5 ∧ b = seq.bits + 0xF0 ∧
      (seq.bits = 0 → 0x90 ≤ seq.low) ∧ (seq.bits = 4 → seq.high ≤ 0x8F))) := by
  by_cases h₂ : b < 0xC2
  · exact absurd h (by grind [lead])
  by_cases h₃ : b < 0xE0
  · obtain ⟨a, rfl⟩ : ∃ a, b = a + 0xC0 := ⟨b - 0xC0, by omega⟩
    rw [lead_two a (by omega) (by omega), Lead.opens.injEq] at h
    subst h
    dsimp only
    omega
  by_cases h₄ : b < 0xF0
  · obtain ⟨a, rfl⟩ : ∃ a, b = a + 0xE0 := ⟨b - 0xE0, by omega⟩
    rw [lead_three a (by omega), Lead.opens.injEq] at h
    subst h
    dsimp only
    split <;> split <;> omega
  by_cases h₅ : b < 0xF5
  · obtain ⟨a, rfl⟩ : ∃ a, b = a + 0xF0 := ⟨b - 0xF0, by omega⟩
    rw [lead_four a (by omega), Lead.opens.injEq] at h
    subst h
    dsimp only
    split <;> split <;> omega
  · exact absurd h (by grind [lead])

namespace Decoder

/-! ## Steps between and inside characters -/

theorem step_first {b : Nat} (hb : b < 256) (done : List Char) :
    step ⟨done, none⟩ (UInt8.ofNat b) = start done b := by
  simp [step, Nat.mod_eq_of_lt hb]

theorem step_opens {b : Nat} {seq : Begun} (hb : b < 256) (h : lead b = .opens seq)
    (done : List Char) : step ⟨done, none⟩ (UInt8.ofNat b) = ⟨done, some seq⟩ := by
  rw [step_first hb, start, h]

theorem step_last {bits low high b : Nat} (hb : b < 256) (hlow : low ≤ b) (hhigh : b ≤ high)
    (done : List Char) :
    step ⟨done, some ⟨bits, 1, low, high⟩⟩ (UInt8.ofNat b) =
      ⟨Char.ofNat (bits * 64 + (b - 0x80)) :: done, none⟩ := by
  simp [step, Nat.mod_eq_of_lt hb, hlow, hhigh]

theorem step_inner {bits missing low high b : Nat} (hb : b < 256) (hm : 1 < missing)
    (hlow : low ≤ b) (hhigh : b ≤ high) (done : List Char) :
    step ⟨done, some ⟨bits, missing, low, high⟩⟩ (UInt8.ofNat b) =
      ⟨done, some ⟨bits * 64 + (b - 0x80), missing - 1, 0x80, 0xBF⟩⟩ := by
  have : ¬ missing ≤ 1 := by omega
  simp [step, Nat.mod_eq_of_lt hb, hlow, hhigh, this]

/-! ## Characters -/

/-- The code points are those in front of the surrogates and those behind them. -/
theorem toNat_bounds (c : Char) :
    c.val.toNat < 0xD800 ∨ (0xDFFF < c.val.toNat ∧ c.val.toNat < 0x110000) :=
  c.valid

theorem ofNat_val_toNat (c : Char) : Char.ofNat c.val.toNat = c :=
  Char.ofNat_toNat c

theorem val_toNat_ofNat {v : Nat} (h : v.isValidChar) : (Char.ofNat v).val.toNat = v := by
  rw [Char.ofNat, dif_pos h]
  rfl

/-- **The bytes of a character are read as that character.** -/
theorem foldl_step_utf8EncodeChar (c : Char) (done : List Char) :
    (String.utf8EncodeChar c).foldl step ⟨done, none⟩ = ⟨c :: done, none⟩ := by
  have hv := toNat_bounds c
  have hc := ofNat_val_toNat c
  unfold String.utf8EncodeChar
  revert hv hc
  generalize c.val.toNat = v
  intro hv hc
  -- One case for each number of bytes; the code point is put together from its parts.
  dsimp only
  split
  · -- one byte
    rename_i h₁
    rw [List.foldl_cons, List.foldl_nil, step_first (by omega), start, lead_one (by omega), hc]
  · split
    · -- two bytes, as few as the code point needs
      rename_i h₁ h₂
      have hlead := lead_two (v / 64 % 32) (by omega) (by omega)
      simp only [List.foldl_cons, List.foldl_nil]
      rw [step_opens (by omega) hlead, step_last (by omega) (by omega) (by omega)]
      have he : v / 64 % 32 * 64 + (v % 64 + 128 - 128) = v := by omega
      rw [he, hc]
    · split
      · -- three bytes: the second has its bounds because the character is neither shorter nor a
        -- surrogate
        rename_i h₁ h₂ h₃
        have hlead := lead_three (v / 4096 % 16) (by omega)
        simp only [List.foldl_cons, List.foldl_nil]
        rw [step_opens (by omega) hlead,
          step_inner (by omega) (by omega) (by split <;> omega) (by split <;> omega),
          step_last (by omega) (by omega) (by omega)]
        have he : (v / 4096 % 16 * 64 + (v / 64 % 64 + 128 - 128)) * 64 + (v % 64 + 128 - 128) =
            v := by omega
        rw [he, hc]
      · -- four bytes: the second has its bounds because the character is neither shorter nor beyond
        -- the last code point
        rename_i h₁ h₂ h₃
        have hlead := lead_four (v / 262144 % 8) (by omega)
        simp only [List.foldl_cons, List.foldl_nil]
        rw [step_opens (by omega) hlead,
          step_inner (by omega) (by omega) (by split <;> omega) (by split <;> omega),
          step_inner (by omega) (by omega) (by omega) (by omega),
          step_last (by omega) (by omega) (by omega)]
        have he : ((v / 262144 % 8 * 64 + (v / 4096 % 64 + 128 - 128)) * 64 +
            (v / 64 % 64 + 128 - 128)) * 64 + (v % 64 + 128 - 128) = v := by omega
        rw [he, hc]

end Decoder

/-! ## Texts -/

theorem foldl_step_bytes (s done : List Char) :
    (bytes s).foldl Decoder.step ⟨done, none⟩ = ⟨s.reverse ++ done, none⟩ := by
  induction s generalizing done with
  | nil => rfl
  | cons c s ih =>
    rw [bytes, List.flatMap_cons, List.foldl_append, Decoder.foldl_step_utf8EncodeChar]
    rw [bytes] at ih
    rw [ih]
    simp

/-- **The bytes of a text are read as that text.** -/
theorem decode_bytes (s : List Char) : decode (bytes s) = s := by
  rw [decode, foldl_step_bytes]
  simp [Decoder.finish]

/-! ## Bytes below 0x80 -/

/-- A byte below 0x80 belongs to the character with that code point and to no other. -/
theorem mem_utf8EncodeChar_iff {c : Char} {b : UInt8} (hb : b.toNat < 0x80) :
    b ∈ String.utf8EncodeChar c ↔ c.toNat = b.toNat := by
  have hv := Decoder.toNat_bounds c
  rw [← Char.toNat_val]
  unfold String.utf8EncodeChar
  revert hv
  generalize c.val.toNat = v
  intro hv
  simp only [← UInt8.toNat_inj, apply_ite (b ∈ ·), List.mem_cons, List.not_mem_nil, or_false,
    UInt8.toNat_ofNat']
  -- All bytes of a longer character have their first bit set.
  split
  · omega
  · split
    · omega
    · split <;> omega

/-- A byte below 0x80 is in a text when the character with that code point is. -/
theorem mem_bytes_iff {s : List Char} {b : UInt8} (hb : b.toNat < 0x80) :
    b ∈ bytes s ↔ ∃ c ∈ s, c.toNat = b.toNat := by
  simp only [bytes, List.mem_flatMap, mem_utf8EncodeChar_iff hb]

end ChainBoard.Text.Utf8
