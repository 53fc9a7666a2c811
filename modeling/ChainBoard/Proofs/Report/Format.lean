import ChainBoard.Proofs.Json.Record
import ChainBoard.Report.Coins
import ChainBoard.Report.Tip

/-!
# The format of reports

What texts hold a report, and which report they hold. A report is written as an object with its
fields among any other members, or as a list of its fields in their order. The names of members
count as what they stand for, however they are escaped.

## Main definitions

* `Json.Padded`: white space around what is written
* `Json.Once`: a name stands once among members, with a value as demanded
* `TipReport.IsWritten`, `CoinReport.IsWritten`: how reports are written

## Main results

* `Json.membersHold_iff`: fields with different names are looked up independently of each other
* `reports_parse_exactly`: whole texts hold the reports that they write, and nothing else
-/

namespace ChainBoard

namespace Json

/-- A text with white space around what is written. -/
def Padded (written : List Char → Prop) (text : List Char) : Prop :=
  ∃ w t w', text = w ++ (t ++ w') ∧ Blank w ∧ Blank w' ∧ written t

/-! ## Members that hold fields -/

/-- The name stands once among the members, with a value as demanded. -/
def Once (name : String) (ms : List Member) (demand : List Char → Prop) : Prop :=
  ∃ v, valuesOf name.toList ms = [v] ∧ demand v

/-- Members with other names than these have any values. -/
def OthersAreValues (names : List String) (ms : List Member) : Prop :=
  ∀ m ∈ ms, m.name ∉ names.map String.toList → IsValue m.value

/-- Each field is held by the members with its name. -/
def EachHeld : (fields : List Field) → List Member → Row fields → Prop
  | [], _, _ => True
  | field :: fields, ms, (x, row) =>
    field.kind.Holds (valuesOf field.name.toList ms) x ∧ EachHeld fields ms row

theorem valuesOf_without {name other : List Char} (h : name ≠ other) (ms : List Member) :
    valuesOf name (without other ms) = valuesOf name ms := by
  induction ms with
  | nil => rfl
  | cons m ms ih =>
    by_cases ho : m.name = other
    · -- the member is left out, and it has another name
      rw [without_cons_self ho, ih, valuesOf_cons_of_ne]
      intro e
      exact h (e.symm.trans ho)
    · rw [without_cons_of_ne ho]
      by_cases hn : m.name = name
      · rw [valuesOf_cons_self hn, valuesOf_cons_self hn, ih]
      · rw [valuesOf_cons_of_ne hn, valuesOf_cons_of_ne hn, ih]

/-- Leaving out a name does not matter to fields with other names. -/
theorem eachHeld_without {fields : List Field} {name : String} {ms : List Member}
    {row : Row fields} (h : name ∉ fields.map (·.name)) :
    EachHeld fields (without name.toList ms) row ↔ EachHeld fields ms row := by
  induction fields with
  | nil => exact Iff.rfl
  | cons field fields ih =>
    obtain ⟨x, row⟩ := row
    rw [List.map_cons, List.mem_cons, not_or] at h
    have hne : field.name.toList ≠ name.toList := fun e => h.1 (String.toList_inj.1 e).symm
    show _ ∧ EachHeld fields (without name.toList ms) row ↔ _ ∧ EachHeld fields ms row
    rw [valuesOf_without hne, ih h.2]

theorem othersAreValues_without {name : String} {names : List String} {ms : List Member} :
    OthersAreValues names (without name.toList ms) ↔ OthersAreValues (name :: names) ms := by
  constructor
  · intro h m hm hname
    rw [List.map_cons, List.mem_cons, not_or] at hname
    exact h m (List.mem_filter.2 ⟨hm, by simpa using hname.1⟩) hname.2
  · intro h m hm hname
    obtain ⟨hm, hne⟩ := List.mem_filter.1 hm
    apply h m hm
    intro hin
    rw [List.map_cons, List.mem_cons] at hin
    rcases hin with he | hin
    · -- the member would have been left out
      simp [he] at hne
    · exact hname hin

/-- Fields with different names are looked up independently of each other. -/
theorem membersHold_iff {fields : List Field} {ms : List Member} {row : Row fields}
    (h : (fields.map (·.name)).Nodup) :
    MembersHold fields ms row ↔
      EachHeld fields ms row ∧ OthersAreValues (fields.map (·.name)) ms := by
  induction fields generalizing ms with
  | nil => simp [MembersHold, EachHeld, OthersAreValues]
  | cons field fields ih =>
    obtain ⟨x, row⟩ := row
    rw [List.map_cons, List.nodup_cons] at h
    -- What the first field leaves out does not matter to the fields behind it.
    show _ ∧ MembersHold fields (without field.name.toList ms) row ↔ (_ ∧ _) ∧ _
    rw [ih h.2, eachHeld_without h.1, othersAreValues_without, List.map_cons, and_assoc]

/-- A field that must be there is held by exactly one member. -/
theorem holds_iff_once (kind : Kind) {name : String} {ms : List Member} {x : kind.Carrier}
    (h : kind.absent? = none) :
    kind.Holds (valuesOf name.toList ms) x ↔ Once name ms (kind.Denotes · x) := by
  simp [Kind.Holds, Once, h]

/-- A field that must be there takes the first element. -/
theorem exists_of_elementsHold {field : Field} {fields : List Field} {vs : List (List Char)}
    {x : field.kind.Carrier} {row : Row fields} (ha : field.kind.absent? = none)
    (h : ElementsHold (field :: fields) vs (x, row)) :
    ∃ v vs', vs = v :: vs' ∧ field.kind.Denotes v x ∧ ElementsHold fields vs' row := by
  cases vs with
  | nil =>
    obtain ⟨hx, -⟩ := h
    rw [ha] at hx
    cases hx
  | cons v vs => exact ⟨v, vs, rfl, h⟩

end Json

open Json

/-! ## Reports on the tip -/

namespace TipReport

/-- The members of an object that hold a report. -/
structure InMembers (report : TipReport) (ms : List Member) : Prop where
  height : Once "height" ms (IsNatural · report.height)
  blockId : Once "blockid" ms (IsTextOf · report.blockId.toList)
  difficulty : Once "difficulty" ms (IsAmount · report.difficulty)
  others : OthersAreValues ["height", "blockid", "difficulty"] ms

/-- The elements of a list that hold a report. -/
def InElements (report : TipReport) (vs : List (List Char)) : Prop :=
  ∃ v₁ v₂ v₃, vs = [v₁, v₂, v₃] ∧ IsNatural v₁ report.height ∧
    IsTextOf v₂ report.blockId.toList ∧ IsAmount v₃ report.difficulty

/-- How a report is written: as an object or as a list. -/
def IsWritten (report : TipReport) (t : List Char) : Prop :=
  (∃ ms s, t = '{' :: (s ++ ['}']) ∧ Members ms s ∧ report.InMembers ms) ∨
    ∃ vs s, t = '[' :: (s ++ [']']) ∧ Elements vs s ∧ report.InElements vs

/-- The values of the fields of a report. -/
def toRow (report : TipReport) : Row fields :=
  (report.height, report.blockId.toList, report.difficulty, ())

theorem ofRow_eq_iff {row : Row fields} {report : TipReport} :
    ofRow row = report ↔ row = report.toRow := by
  obtain ⟨height, blockId, difficulty, ⟨⟩⟩ := row
  constructor
  · rintro rfl
    simp [ofRow, toRow]
  · intro h
    obtain ⟨rfl, rfl, rfl, -⟩ := h
    simp [ofRow]

theorem membersHold_toRow_iff {report : TipReport} {ms : List Member} :
    MembersHold fields ms report.toRow ↔ report.InMembers ms := by
  rw [membersHold_iff (by decide)]
  constructor
  · rintro ⟨⟨h₁, h₂, h₃, -⟩, hothers⟩
    refine ⟨?_, ?_, ?_, hothers⟩
    · exact (holds_iff_once .natural rfl).1 h₁
    · exact (holds_iff_once .text rfl).1 h₂
    · exact (holds_iff_once .amount rfl).1 h₃
  · rintro ⟨h₁, h₂, h₃, hothers⟩
    refine ⟨⟨?_, ?_, ?_, trivial⟩, hothers⟩
    · exact (holds_iff_once .natural rfl).2 h₁
    · exact (holds_iff_once .text rfl).2 h₂
    · exact (holds_iff_once .amount rfl).2 h₃

theorem elementsHold_toRow_iff {report : TipReport} {vs : List (List Char)} :
    ElementsHold fields vs report.toRow ↔ report.InElements vs := by
  constructor
  · intro h
    obtain ⟨v₁, _, rfl, h₁, h⟩ := exists_of_elementsHold rfl h
    obtain ⟨v₂, _, rfl, h₂, h⟩ := exists_of_elementsHold rfl h
    obtain ⟨v₃, _, rfl, h₃, rfl⟩ := exists_of_elementsHold rfl h
    exact ⟨v₁, v₂, v₃, rfl, h₁, h₂, h₃⟩
  · rintro ⟨v₁, v₂, v₃, rfl, h₁, h₂, h₃⟩
    exact ⟨h₁, h₂, h₃, rfl⟩

theorem writes_toRow_iff {report : TipReport} {t : List Char} :
    schema.Writes t report.toRow ↔ report.IsWritten t := by
  simp only [Schema.Writes, IsWritten, membersHold_toRow_iff, elementsHold_toRow_iff]

theorem parse_eq_ok_iff {text : String} {report : TipReport} :
    parse text = .ok report ↔ Padded report.IsWritten text.toList := by
  simp only [parse, map_eq_ok_iff, ofRow_eq_iff, exists_eq_right, Padded, ← writes_toRow_iff]
  exact Schema.parse_eq_ok_iff_writes

end TipReport

/-! ## Reports on the coins -/

namespace CoinReport

/-- The members of an object that hold a report. The height need not be there. -/
structure InMembers (report : CoinReport) (ms : List Member) : Prop where
  height : Once "height" ms (IsOptional · report.height) ∨
    (valuesOf "height".toList ms = [] ∧ report.height = none)
  time : Once "time" ms (IsNatural · report.time)
  spendable : Once "spendabletokens" ms (IsAmount · report.spendable)
  locked : Once "spendablelockedtokens" ms (IsAmount · report.locked)
  feeDebt : Once "totalcustodyfeedebt" ms (IsAmount · report.feeDebt)
  spent : Once "spenttokens" ms (IsAmount · report.spent)
  feeCollected : Once "paidcustodyfees" ms (IsAmount · report.feeCollected)
  others : OthersAreValues ["height", "time", "spendabletokens", "spendablelockedtokens",
    "totalcustodyfeedebt", "spenttokens", "paidcustodyfees"] ms

/-- The elements of a list that hold a report, the height being null if there is none. -/
def InElements (report : CoinReport) (vs : List (List Char)) : Prop :=
  ∃ v₁ v₂ v₃ v₄ v₅ v₆ v₇, vs = [v₁, v₂, v₃, v₄, v₅, v₆, v₇] ∧
    IsOptional v₁ report.height ∧ IsNatural v₂ report.time ∧ IsAmount v₃ report.spendable ∧
    IsAmount v₄ report.locked ∧ IsAmount v₅ report.feeDebt ∧ IsAmount v₆ report.spent ∧
    IsAmount v₇ report.feeCollected

/-- How a report is written: as an object or as a list. -/
def IsWritten (report : CoinReport) (t : List Char) : Prop :=
  (∃ ms s, t = '{' :: (s ++ ['}']) ∧ Members ms s ∧ report.InMembers ms) ∨
    ∃ vs s, t = '[' :: (s ++ [']']) ∧ Elements vs s ∧ report.InElements vs

/-- The values of the fields of a report. -/
def toRow (report : CoinReport) : Row fields :=
  (report.height, report.time, report.spendable, report.locked, report.feeDebt, report.spent,
    report.feeCollected, ())

theorem ofRow_eq_iff {row : Row fields} {report : CoinReport} :
    ofRow row = report ↔ row = report.toRow := by
  obtain ⟨height, time, spendable, locked, feeDebt, spent, feeCollected, ⟨⟩⟩ := row
  constructor
  · rintro rfl
    rfl
  · intro h
    obtain ⟨rfl, rfl, rfl, rfl, rfl, rfl, rfl, -⟩ := h
    rfl

theorem holds_height_iff {report : CoinReport} {ms : List Member} :
    Kind.optional.Holds (valuesOf "height".toList ms) report.height ↔
      Once "height" ms (IsOptional · report.height) ∨
        (valuesOf "height".toList ms = [] ∧ report.height = none) := by
  refine or_congr Iff.rfl (and_congr Iff.rfl ?_)
  constructor
  · intro h
    exact (Option.some.inj h).symm
  · intro h
    rw [h]
    rfl

theorem membersHold_toRow_iff {report : CoinReport} {ms : List Member} :
    MembersHold fields ms report.toRow ↔ report.InMembers ms := by
  have amount {name : String} {n : Nat} :
      Kind.amount.Holds (valuesOf name.toList ms) n ↔ Once name ms (IsAmount · n) :=
    holds_iff_once .amount rfl
  rw [membersHold_iff (by decide)]
  constructor
  · rintro ⟨⟨h₁, h₂, h₃, h₄, h₅, h₆, h₇, -⟩, hothers⟩
    refine ⟨holds_height_iff.1 h₁, ?_, amount.1 h₃, amount.1 h₄, amount.1 h₅, amount.1 h₆,
      amount.1 h₇, hothers⟩
    exact (holds_iff_once .natural rfl).1 h₂
  · rintro ⟨h₁, h₂, h₃, h₄, h₅, h₆, h₇, hothers⟩
    refine ⟨⟨holds_height_iff.2 h₁, ?_, amount.2 h₃, amount.2 h₄, amount.2 h₅, amount.2 h₆,
      amount.2 h₇, trivial⟩, hothers⟩
    exact (holds_iff_once .natural rfl).2 h₂

theorem elementsHold_toRow_iff {report : CoinReport} {vs : List (List Char)} :
    ElementsHold fields vs report.toRow ↔ report.InElements vs := by
  constructor
  · intro h
    cases vs with
    | nil =>
      -- without a height there is no time either
      obtain ⟨_, _, hnil, -⟩ := exists_of_elementsHold rfl h.2
      cases hnil
    | cons v₁ _ =>
      obtain ⟨h₁, h⟩ := h
      obtain ⟨v₂, _, rfl, h₂, h⟩ := exists_of_elementsHold rfl h
      obtain ⟨v₃, _, rfl, h₃, h⟩ := exists_of_elementsHold rfl h
      obtain ⟨v₄, _, rfl, h₄, h⟩ := exists_of_elementsHold rfl h
      obtain ⟨v₅, _, rfl, h₅, h⟩ := exists_of_elementsHold rfl h
      obtain ⟨v₆, _, rfl, h₆, h⟩ := exists_of_elementsHold rfl h
      obtain ⟨v₇, _, rfl, h₇, rfl⟩ := exists_of_elementsHold rfl h
      exact ⟨v₁, v₂, v₃, v₄, v₅, v₆, v₇, rfl, h₁, h₂, h₃, h₄, h₅, h₆, h₇⟩
  · rintro ⟨v₁, v₂, v₃, v₄, v₅, v₆, v₇, rfl, h₁, h₂, h₃, h₄, h₅, h₆, h₇⟩
    exact ⟨h₁, h₂, h₃, h₄, h₅, h₆, h₇, rfl⟩

theorem writes_toRow_iff {report : CoinReport} {t : List Char} :
    schema.Writes t report.toRow ↔ report.IsWritten t := by
  simp only [Schema.Writes, IsWritten, membersHold_toRow_iff, elementsHold_toRow_iff]

theorem parse_eq_ok_iff {text : String} {report : CoinReport} :
    parse text = .ok report ↔ Padded report.IsWritten text.toList := by
  simp only [parse, map_eq_ok_iff, ofRow_eq_iff, exists_eq_right, Padded, ← writes_toRow_iff]
  exact Schema.parse_eq_ok_iff_writes

end CoinReport

/-! ## Both formats -/

/-- **Reports are read from exactly their format, with exact values.** A whole text holds a report
if and only if, up to white space around it, it is an object or a list that writes that report. -/
theorem reports_parse_exactly :
    (∀ (text : String) (report : TipReport),
      TipReport.parse text = .ok report ↔ Padded report.IsWritten text.toList) ∧
    ∀ (text : String) (report : CoinReport),
      CoinReport.parse text = .ok report ↔ Padded report.IsWritten text.toList :=
  ⟨fun _ _ => TipReport.parse_eq_ok_iff, fun _ _ => CoinReport.parse_eq_ok_iff⟩

end ChainBoard
