import Mathlib
import ChainBoard.Log.Filter

/-!
# What a filter lets through

The directive that decides about a part of the program is one of those that are for it, and no other
of them names a longer beginning. A setting that is nothing but the name of a level shows the
records down to that level, of all parts of the program and whatever they say.

## Main results

* `Log.Directive.deciding?_longest`, `Log.Directive.deciding?_eq_none_iff`: what decides about a
  part of the program
* `Log.Filter.ofSetting_levelName`: the filter of a setting that names a level
* `Log.Filter.isShown_ofSetting_levelName`: what it shows
-/

namespace ChainBoard

/-- A text without white space is left as it is. -/
theorem Text.trim_eq_self {s : List Char} (h : ∀ c ∈ s, isWhite c = false) : trim s = s := by
  have hdrop (t : List Char) (ht : ∀ c ∈ t, isWhite c = false) : t.dropWhile isWhite = t := by
    cases t with
    | nil => rfl
    | cons c t => simp [ht c List.mem_cons_self]
  rw [trim, hdrop s h, hdrop s.reverse fun c hc => h c (List.mem_reverse.1 hc),
    List.reverse_reverse]

namespace Log

namespace Directive

variable {directives : List Directive} {directive : Directive} {origin : Origin}

/-! ## The directive that decides -/

/-- **The longest beginning decides.** -/
theorem deciding?_longest (h : deciding? directives origin = some directive) :
    directive ∈ directives ∧ directive.covers origin = true ∧
      ∀ other ∈ directives, other.covers origin = true → other.length ≤ directive.length := by
  have hmem := List.maxOn?_mem h
  rw [List.mem_reverse, List.mem_filter] at hmem
  refine ⟨hmem.1, hmem.2, ?_⟩
  intro other hother hcovers
  have hin : other ∈ (directives.filter (·.covers origin)).reverse :=
    List.mem_reverse.2 (List.mem_filter.2 ⟨hother, hcovers⟩)
  have hle := List.le_apply_get_maxOn?_of_mem (f := length) hin
  rw [deciding?] at h
  simpa only [h, Option.get_some] using hle

/-- Nothing decides about a part of the program that no directive is for. -/
theorem deciding?_eq_none_iff : deciding? directives origin = none ↔
    ∀ directive ∈ directives, directive.covers origin = false := by
  rw [deciding?, ← Option.not_isSome_iff_eq_none, List.isSome_maxOn?_iff]
  simp [List.filter_eq_nil_iff]

end Directive

/-! ## The names of levels -/

section LevelName

variable {name : List Char} {rank : Nat} {c : Char}

/-- The name of a level of records, in capital or small letters, stands for its rank. -/
theorem rank?_of_map_toUpper {level : Level} (h : name.map Char.toUpper = level.name.toList) :
    rank? name = some level.rank := by
  rw [rank?, h]
  cases level <;> decide +kernel

/-- Names of levels are written in letters. -/
theorem isUpper_of_mem_levelNames {known : String} (h : known ∈ levelNames)
    (hc : c ∈ known.toList) : c.isUpper = true := by
  have hall : ∀ known ∈ levelNames, known.toList.all Char.isUpper := by
    decide +kernel
  exact List.all_eq_true.1 (hall known h) c hc

theorem isAlpha_of_mem_levelName (h : rank? name = some rank) (hc : c ∈ name) :
    c.isAlpha = true := by
  obtain ⟨hlt, hname, -⟩ := List.findIdx?_eq_some_iff_getElem.1 h
  rw [← Char.isUpper_toUpper_eq_isAlpha]
  apply isUpper_of_mem_levelNames (List.getElem_mem hlt)
  rw [of_decide_eq_true hname]
  exact List.mem_map_of_mem hc

/-- No letter is white space. -/
theorem isWhite_of_isAlpha (h : c.isAlpha = true) : Text.isWhite c = false := by
  have hrange : (65 ≤ c.toNat ∧ c.toNat ≤ 90) ∨ 97 ≤ c.toNat ∧ c.toNat ≤ 122 := by
    simpa [Char.isAlpha, Char.isUpper, Char.isLower, UInt32.le_iff_toNat_le] using h
  simp [Text.isWhite, Text.whiteRanges]
  omega

/-- The name of a level is one directive, for all parts of the program. -/
theorem ofText_levelName (h : rank? name = some rank) : Directive.ofText name = [⟨none, rank⟩] := by
  have halpha (c : Char) (hc : c ∈ name) : c.isAlpha = true := isAlpha_of_mem_levelName h hc
  have hnotMem (c : Char) (hc : c.isAlpha = false) : c ∉ name := by
    intro hmem
    rw [halpha c hmem] at hc
    cases hc
  have hne : name ≠ [] := by
    rintro rfl
    have hnone : rank? [] = none := by
      decide +kernel
    rw [hnone] at h
    cases h
  have htrim : Text.trim name = name :=
    Text.trim_eq_self fun c hc => isWhite_of_isAlpha (halpha c hc)
  have hpart : Directive.ofPart? name = some ⟨none, rank⟩ := by
    rw [Directive.ofPart?, List.splitOn_eq_singleton (hnotMem '=' rfl)]
    simp [h]
  rw [Directive.ofText, List.splitOn_eq_singleton (hnotMem ',' rfl)]
  simp [htrim, hne, hpart, Directive.insert]

end LevelName

namespace Filter

variable {patterns : Patterns} {setting : String} {rank : Nat}

/-- **A setting that names a level.** -/
theorem ofSetting_levelName (h : rank? setting.toList = some rank) :
    ofSetting patterns setting = ⟨[⟨none, rank⟩], none⟩ := by
  have hslash : '/' ∉ setting.toList := fun hmem =>
    absurd (isAlpha_of_mem_levelName h hmem) (by decide)
  rw [ofSetting, List.splitOn_eq_singleton hslash]
  simp [ofDirectives, ofText_levelName h]

/-- It shows the records down to that level. -/
theorem isShown_ofSetting_levelName (h : rank? setting.toList = some rank) (entry : Entry) :
    (ofSetting patterns setting).isShown entry = decide (entry.level.rank ≤ rank) := by
  rw [ofSetting_levelName h, isShown, Directive.deciding?]
  simp [Directive.covers]

end Filter

end Log

end ChainBoard
