import ChainBoard.Proofs.Report.Amount
import ChainBoard.Proofs.Json.Range
import ChainBoard.Proofs.Report.FieldFaults

/-!
# Why a value is no amount

A value is judged as an amount by what it is: a text by the characters that it stands for, a number
by its form and its bits, and anything else is none. The reader finds this judgement wherever the
value stands, alone or among the members of a report; what differs is the place, which a value that
stands alone does not have.

## Main definitions

* `Json.IsExact`: a value that a reader of amounts passes
* `Json.Judged`: what a value is as an amount
* `TipReport.withDifficulty`: a report with any value for an amount

## Main results

* `Json.existsUnique_judged`: every value is judged in one way
* `Json.readAmount_of_judged`: the reader of amounts judges a value wherever it stands
* `Feed.parse_of_amount_fault`: a value that is no amount, among the members of a report
* `amount_faults_agree`: alone and in a report a value is refused in the same words
-/

namespace ChainBoard

/-! ## Texts that name no amount -/

namespace Amount

theorem dropPlus_eq_nil_iff {t : List Char} : dropPlus t = [] ↔ t = [] ∨ t = ['+'] := by
  constructor
  · intro h
    obtain ⟨sign, ht, hsign⟩ := exists_dropPlus t
    rw [h, List.append_nil] at ht
    rw [ht]
    exact hsign
  · rintro (rfl | rfl)
    · rfl
    · rfl

/-- A text without characters but for the sign is empty. -/
theorem ofText_eq_empty_iff {t : List Char} : ofText t = .error .empty ↔ t = [] ∨ t = ['+'] := by
  rw [← dropPlus_eq_nil_iff, ofText]
  split
  · rename_i h
    simp [h]
  · rename_i h
    rw [h]
    split <;> simp

/-- No text is refused for not being one. -/
theorem ofText_ne_notAmount (t : List Char) : ofText t ≠ .error .notAmount := by
  unfold ofText
  split
  · simp
  · split <;> simp

/-- Any other text that names no amount has a character that is no digit. -/
theorem ofText_eq_notDigit_iff {t : List Char} :
    ofText t = .error .notDigit ↔ t ≠ [] ∧ t ≠ ['+'] ∧ ∀ n, ¬ Names t n := by
  have hamount := ofText_ne_notAmount t
  rw [← and_assoc, ← not_or, ← ofText_eq_empty_iff]
  simp only [← ofText_eq_ok_iff]
  cases h : ofText t with
  | ok n => simp
  | error fault =>
    cases fault with
    | empty => simp
    | notDigit => simp
    | notAmount => exact absurd h hamount

end Amount

namespace Json

/-! ## What a value is as an amount -/

/-- A value whose texts hold no half of a surrogate pair alone, whose numbers are in range, and in
which at most `room` brackets are open at once. -/
def IsExact (room : Nat) (v : List Char) : Prop :=
  Passable (.exact room) .value v

/-- What a value is as an amount: the amount that it is, or why it is none. -/
def Judged (v : List Char) : Except Amount.Fault Nat → Prop
  | .ok n => IsAmount v n
  | .error .empty => IsTextOf v [] ∨ IsTextOf v ['+']
  | .error .notDigit => ∃ t, IsTextOf v t ∧ t ≠ [] ∧ t ≠ ['+'] ∧ ∀ n, ¬ Amount.Names t n
  | .error .notAmount => (∀ t, ¬ IsTextOf v t) ∧ ∀ n, ¬ IsNatural v n

theorem IsTextOf.unique {v t t' : List Char} (h : IsTextOf v t) (h' : IsTextOf v t') : t = t' := by
  have hread : readTextValue ([] ++ (v ++ [])) = .ok (t, []) :=
    readTextValue_complete Blank.nil h
  rw [readTextValue_complete Blank.nil h'] at hread
  cases hread
  rfl

/-- A natural number is no text. -/
theorem IsNatural.not_isTextOf {v t : List Char} {n : Nat} (h : IsNatural v n) : ¬ IsTextOf v t := by
  rintro ⟨s, rfl, -⟩
  obtain ⟨d, ds, he, hd⟩ := h.exists_cons
  rw [← (List.cons.inj he).1] at hd
  cases hd

/-- A text is judged by what it stands for. -/
theorem judged_text_iff {v t : List Char} (h : IsTextOf v t) {amount : Except Amount.Fault Nat} :
    Judged v amount ↔ Amount.ofText t = amount := by
  have only {p : List Char → Prop} : (∃ t', IsTextOf v t' ∧ p t') ↔ p t := by
    constructor
    · rintro ⟨t', ht', hp⟩
      rwa [h.unique ht']
    · exact fun hp => ⟨t, h, hp⟩
  have this (t' : List Char) : IsTextOf v t' ↔ t = t' :=
    ⟨h.unique, fun he => he ▸ h⟩
  cases amount with
  | ok n =>
    rw [Amount.ofText_eq_ok_iff, ← only (p := (Amount.Names · n))]
    exact or_iff_left fun hn => hn.not_isTextOf h
  | error fault =>
    cases fault with
    | empty => rw [Amount.ofText_eq_empty_iff, Judged, this, this]
    | notDigit => rw [Amount.ofText_eq_notDigit_iff, Judged, only]
    | notAmount => exact iff_of_false (fun hnone => hnone.1 t h) (Amount.ofText_ne_notAmount t)

/-- A natural number is judged to be itself. -/
theorem judged_natural_iff {v : List Char} {n : Nat} (h : IsNatural v n)
    {amount : Except Amount.Fault Nat} : Judged v amount ↔ amount = .ok n := by
  cases amount with
  | ok m =>
    rw [Except.ok.injEq]
    constructor
    · rintro (⟨t, ht, -⟩ | hm)
      · exact absurd ht h.not_isTextOf
      · rw [← hm.2.1, h.2.1]
    · rintro rfl
      exact .inr h
  | error fault =>
    refine iff_of_false ?_ (by simp)
    cases fault with
    | empty => exact not_or.2 ⟨h.not_isTextOf, h.not_isTextOf⟩
    | notDigit =>
      rintro ⟨t, ht, -⟩
      exact h.not_isTextOf ht
    | notAmount => exact fun hnone => hnone.2 n h

/-- Anything else is judged to be no amount. -/
theorem judged_other_iff {v : List Char} (ht : ∀ t, ¬ IsTextOf v t) (hn : ∀ n, ¬ IsNatural v n)
    {amount : Except Amount.Fault Nat} : Judged v amount ↔ amount = .error .notAmount := by
  cases amount with
  | ok n =>
    refine iff_of_false ?_ (by simp)
    rintro (⟨t, htext, -⟩ | hnatural)
    · exact ht t htext
    · exact hn n hnatural
  | error fault =>
    cases fault with
    | empty => exact iff_of_false (not_or.2 ⟨ht [], ht ['+']⟩) (by simp)
    | notDigit =>
      refine iff_of_false ?_ (by simp)
      rintro ⟨t, htext, -⟩
      exact ht t htext
    | notAmount => exact iff_of_true ⟨ht, hn⟩ rfl

/-- **Every value is judged in one way.** -/
theorem existsUnique_judged (v : List Char) : ∃! amount, Judged v amount := by
  by_cases ht : ∃ t, IsTextOf v t
  · obtain ⟨t, ht⟩ := ht
    exact ⟨_, (judged_text_iff ht).2 rfl, fun amount h => ((judged_text_iff ht).1 h).symm⟩
  by_cases hn : ∃ n, IsNatural v n
  · obtain ⟨n, hn⟩ := hn
    exact ⟨_, (judged_natural_iff hn).2 rfl, fun amount => (judged_natural_iff hn).1⟩
  · rw [not_exists] at ht hn
    exact ⟨_, (judged_other_iff ht hn).2 rfl, fun amount => (judged_other_iff ht hn).1⟩

/-! ## The reader of amounts -/

/-- What starts neither like a text nor like a natural number is none. -/
theorem judged_of_head {c : Char} (hc : c ≠ '"') (hd : c.isDigit = false) (v : List Char) :
    Judged (c :: v) (.error .notAmount) := by
  constructor
  · rintro t ⟨s, he, -⟩
    exact hc (List.cons.inj he).1
  · intro n hn
    obtain ⟨d, ds, he, hdigit⟩ := hn.exists_cons
    rw [← (List.cons.inj he).1, hd] at hdigit
    cases hdigit

/-- A number is judged by what it is read as. -/
theorem judged_number {v : List Char} {x : Number} (h : Number.read v = .ok (x, [])) :
    Judged v (Seen.number x).amount := by
  obtain ⟨v, rfl, hv⟩ := Number.read_sound h
  rw [List.append_nil] at h ⊢
  by_cases hx : ∃ n, x = .natural n
  · obtain ⟨n, rfl⟩ := hx
    obtain ⟨v, rfl, hn⟩ := Number.read_natural_sound h
    rw [List.append_nil]
    exact .inr hn
  · -- a number of another kind is written unlike a natural number
    have hother : (Seen.number x).amount = .error .notAmount := by
      cases x with
      | natural n => exact absurd ⟨n, rfl⟩ hx
      | negative n => rfl
      | fraction minus y => rfl
    rw [hother]
    constructor
    · rintro t ⟨s, rfl, -⟩
      obtain ⟨c, v, he, hc⟩ := hv.exists_cons
      rw [← (List.cons.inj he).1] at hc
      simp at hc
    · intro n hn
      have hread := Number.read_natural_complete hn endsNumber_nil
      rw [List.append_nil, h] at hread
      cases hread
      exact hx ⟨n, rfl⟩

/-- A scalar is read as what is seen of it. -/
theorem readAmount_scalar (seen : Seen) {room : Nat} {w s rest : List Char}
    (h : Seen.read s = .ok (seen, rest)) (hlist : seen ≠ .list) (hobject : seen ≠ .object)
    (hw : Blank w) : readAmount room (w ++ s) = .ok (seen.amount, rest) := by
  refine bind_eq_ok_iff.2 ⟨(seen, rest), ?_, ?_⟩
  · rw [Seen.read_blank_append hw]
    exact h
  · cases seen with
    | list => exact absurd rfl hlist
    | object => exact absurd rfl hobject
    | _ => rfl

/-- A list or an object is walked over and is no amount. -/
theorem readAmount_bracket {b : Bracket} {room : Nat} {w s rest : List Char}
    (h : passValue (.exact room) (w ++ b.opening :: s) = .ok rest) (hw : Blank w) :
    readAmount room (w ++ b.opening :: s) = .ok (.error .notAmount, rest) := by
  have hseen := Seen.read_blank_append hw (b.opening :: s)
  cases b with
  | list => exact bind_eq_ok_iff.2 ⟨_, hseen, bind_eq_ok_iff.2 ⟨rest, h, rfl⟩⟩
  | object => exact bind_eq_ok_iff.2 ⟨_, hseen, bind_eq_ok_iff.2 ⟨rest, h, rfl⟩⟩

/-- **The reader of amounts judges a value wherever it stands**, if as many brackets may be open
there as the value has. -/
theorem readAmount_of_judged {limit room : Nat} {v w rest : List Char}
    {amount : Except Amount.Fault Nat} (h : IsExact limit v) (hjudged : Judged v amount)
    (hroom : limit ≤ room) (hw : Blank w) (hr : EndsNumber rest) :
    readAmount room (w ++ (v ++ rest)) = .ok (amount, rest) := by
  have ha : (Rigour.exact room).Allows [] (.exact limit) := by
    show 0 + limit ≤ room
    omega
  have hpass := passValue_complete ha hw h hr
  have hbracket (b : Bracket) (s : List Char) : Judged (b.opening :: s) (.error .notAmount) := by
    cases b with
    | list => exact judged_of_head (by decide) rfl s
    | object => exact judged_of_head (by decide) rfl s
  -- what is read is a judgement, and there is only one
  obtain ⟨found, hfound, hread⟩ : ∃ found, Judged v found ∧
      readAmount room (w ++ (v ++ rest)) = .ok (found, rest) := by
    cases h with
    | null =>
      refine ⟨_, judged_of_head ?_ rfl _, readAmount_scalar .null rfl ?_ ?_ hw⟩
      all_goals simp
    | yes =>
      refine ⟨_, judged_of_head ?_ rfl _, readAmount_scalar (.boolean true) rfl ?_ ?_ hw⟩
      all_goals simp
    | no =>
      refine ⟨_, judged_of_head ?_ rfl _, readAmount_scalar (.boolean false) rfl ?_ ?_ hw⟩
      all_goals simp
    | @text _ s hs =>
      obtain ⟨t, ht⟩ := hs
      have htext : IsTextOf ('"' :: (s ++ ['"'])) t := ⟨s, rfl, ht⟩
      have hseen : Seen.read ('"' :: (s ++ ['"']) ++ rest) = .ok (.text t, rest) := by
        simpa using Seen.read_text ht rest
      refine ⟨_, (judged_text_iff htext).2 rfl, readAmount_scalar (.text t) hseen ?_ ?_ hw⟩
      all_goals simp
    | number hn =>
      have hnumber := hn.isNumber
      obtain ⟨x, hx⟩ := hn
      have hseen := Seen.read_number hnumber (Number.read_append hx hr)
      refine ⟨_, judged_number hx, readAmount_scalar (.number x) hseen ?_ ?_ hw⟩
      all_goals simp
    | @empty _ _ b w' _ _ =>
      exact ⟨_, hbracket b _, readAmount_bracket hpass hw⟩
    | @filled _ _ b s _ _ =>
      exact ⟨_, hbracket b _, readAmount_bracket hpass hw⟩
  rw [hread, (existsUnique_judged v).unique hfound hjudged]

/-- A value alone is judged without a place, with any white space around it. -/
theorem parseAmount_of_judged {limit : Nat} {v w w' : List Char}
    {amount : Except Amount.Fault Nat} (h : IsExact limit v) (hjudged : Judged v amount)
    (hlimit : limit ≤ bracketLimit) (hw : Blank w) (hw' : Blank w') :
    parseAmount (w ++ (v ++ w')) = amount.mapError fun fault => ⟨.amount fault, none⟩ := by
  have hend : EndsNumber w' := by
    have := endsNumber_nil.blank_append hw'
    rwa [List.append_nil] at this
  have hread := readAmount_of_judged h hjudged hlimit hw hend
  rw [parseAmount, hread]
  cases amount with
  | ok n =>
    refine bind_eq_ok_iff.2 ⟨(.ok n, w'), rfl, ?_⟩
    refine bind_eq_ok_iff.2 ⟨n, rfl, ?_⟩
    exact bind_eq_ok_iff.2 ⟨(), mapError_eq_ok_iff.2 (Schema.readEnd_eq_ok_iff.2 hw'), rfl⟩
  | error fault => rfl

/-- Alone, without white space around it. -/
theorem parseAmount_of_judged_alone {limit : Nat} {v : List Char}
    {amount : Except Amount.Fault Nat} (h : IsExact limit v) (hjudged : Judged v amount)
    (hlimit : limit ≤ bracketLimit) :
    parseAmount v = amount.mapError fun fault => ⟨.amount fault, none⟩ := by
  have hparse := parseAmount_of_judged h hjudged hlimit .nil .nil
  rwa [List.nil_append, List.append_nil] at hparse

theorem isNatural_zero : IsNatural ['0'] 0 :=
  ⟨⟨⟨by simp, by simp⟩, by simp⟩, rfl, by decide⟩

theorem isTextOf_nil : IsTextOf ['"', '"'] [] :=
  ⟨[], rfl, .nil⟩

/-! ## Among members -/

/-- A field that was not met is read from behind its colon. -/
theorem Draft.member_of_unmet {fields : List Field} {last : Draft fields} {ms : List Member}
    {field : Field} (hnames : (fields.map (·.name)).Nodup)
    (h : Takes fields (Draft.empty fields) ms last) (hfield : field ∈ fields)
    (hunmet : valuesOf field.name.toList ms = []) {s rest : List Char} {failure : Failure}
    (hcolon : Stage.readColon s = .ok rest) (hread : field.kind.read rest = .error failure) :
    Draft.member fields last field.name.toList s = .error failure := by
  -- Induction on the fields, up to the one that has the name.
  induction fields generalizing ms with
  | nil => cases hfield
  | cons head fields ih =>
    obtain ⟨value?, last⟩ := last
    obtain ⟨hvalue, htakes⟩ := h
    rw [List.map_cons, List.nodup_cons] at hnames
    unfold Draft.member
    rcases List.mem_cons.1 hfield with rfl | hmem
    · -- the draft has no value for the field
      rw [hunmet] at hvalue
      obtain rfl := fieldTakes_nil_iff.1 hvalue
      rw [if_pos rfl]
      dsimp only
      rw [hcolon]
      show (field.kind.read rest >>= _) = _
      rw [hread]
      rfl
    · have hne : field.name.toList ≠ head.name.toList := by
        intro e
        exact hnames.1 (String.toList_inj.1 e ▸ List.mem_map_of_mem hmem)
      rw [← valuesOf_without hne ms] at hunmet
      rw [if_neg hne.symm, ih hnames.2 htakes hmem hunmet]
      rfl

/-- A value that is no amount stops the reader of members behind it. -/
theorem readMembers_amount_fault {fields : List Field} {last : Draft fields} {ms : List Member}
    {name : String} {body w k w₁ w₂ v rest : List Char} {fault : Amount.Fault}
    (hnames : (fields.map (·.name)).Nodup) (hbody : Members ms body) (hne : ms ≠ [])
    (h : Takes fields (Draft.empty fields) ms last)
    (hfield : (⟨name, .amount⟩ : Field) ∈ fields) (hunmet : valuesOf name.toList ms = [])
    (hw : Blank w) (hk : Spells k name.toList) (h₁ : Blank w₁) (h₂ : Blank w₂)
    (hv : IsExact (bracketLimit - 1) v) (hjudged : Judged v (.error fault))
    (hr : EndsNumber rest) :
    readMembers fields true (Draft.empty fields)
        (body ++ ',' :: (w ++ '"' :: (k ++ '"' :: (w₁ ++ ':' :: (w₂ ++ (v ++ rest)))))) =
      .error (.unplaced (.amount fault) rest) := by
  have hread : readAmountField (w₂ ++ (v ++ rest)) = .error (.unplaced (.amount fault) rest) := by
    rw [readAmountField, readAmount_of_judged hv hjudged (Nat.le_refl _) h₂ hr]
  have hcolon : Stage.readColon (w₁ ++ ':' :: (w₂ ++ (v ++ rest))) = .ok (w₂ ++ (v ++ rest)) :=
    Stage.readColon_eq_ok_iff.2 ⟨w₁, rfl, h₁⟩
  obtain ⟨w', hw', hrun⟩ := readMembers_run hbody divides_first hne h
    (endsNumber_comma (w ++ '"' :: (k ++ '"' :: (w₁ ++ ':' :: (w₂ ++ (v ++ rest))))))
  have hname := readName_complete (divides_later hw') hw hk (w₁ ++ ':' :: (w₂ ++ (v ++ rest)))
  rw [List.append_assoc, List.singleton_append] at hname
  rw [List.nil_append] at hrun
  rw [hrun, readMembers_eq, hname]
  dsimp only
  rw [Draft.member_of_unmet hnames h hfield hunmet hcolon hread]

end Json

namespace Feed

open Json (Blank IsExact Judged Member Members MembersFit Place Spells valuesOf)

/-- **A value that is no amount is refused where an amount is wanted**, behind members that fit the
fields of a report. The place is that behind the value, white space, and the closing bracket if that
comes next. -/
theorem parse_of_amount_fault (feed : Feed) {ms : List Member} {name : String}
    {w body w' k w₁ w₂ v rest : List Char} {fault : Amount.Fault} (hw : Blank w)
    (hbody : Members ms body) (hne : ms ≠ []) (hfit : MembersFit feed.schema.fields ms)
    (hfield : (⟨name, .amount⟩ : Json.Field) ∈ feed.schema.fields)
    (hunmet : valuesOf name.toList ms = []) (hw' : Blank w') (hk : Spells k name.toList)
    (h₁ : Blank w₁) (h₂ : Blank w₂) (hv : IsExact (Json.bracketLimit - 1) v)
    (hjudged : Judged v (.error fault)) (hr : Json.EndsNumber rest) :
    let front := w ++ '{' :: (body ++ ',' :: (w' ++ '"' :: (k ++ '"' :: (w₁ ++ ':' :: (w₂ ++ v)))))
    feed.parse (String.ofList (front ++ rest)) =
      .error ⟨.amount fault, some (Place.behind (front ++ Json.passedBehind rest))⟩ := by
  intro front
  obtain ⟨last, hlast⟩ := Json.exists_takes feed.nodup_names hfit
  have hread : feed.schema.readWhole (front ++ rest) =
      .error (Json.Stop.before (.amount fault) (Json.leave .object rest)) := by
    have htext : front ++ rest = w ++ '{' :: (body ++ ',' ::
        (w' ++ '"' :: (k ++ '"' :: (w₁ ++ ':' :: (w₂ ++ (v ++ rest)))))) := by simp [front]
    rw [htext]
    exact feed.schema.readWhole_of_readMembers hw
      (Json.readMembers_amount_fault feed.nodup_names hbody hne hlast hfield hunmet hw' hk h₁ h₂ hv
        hjudged hr)
  have hsplit : front ++ rest =
      (front ++ Json.passedBehind rest) ++ Json.leave .object rest := by
    rw [List.append_assoc front, Json.passedBehind_append_leave]
  rw [hsplit] at hread ⊢
  exact feed.parse_of_stop_before hread

end Feed

/-! ## Alone and in a report -/

open Json (IsExact Judged IsTextOf IsNatural IsAmount Member Members MembersFit Place parseAmount)

namespace TipReport

/-- A report on the tip with a value for its difficulty, of height zero and without an identifier. -/
def withDifficulty (v : String) : String :=
  "\x7b\"height\":0,\"blockid\":\"\",\"difficulty\":" ++ v ++ "\x7d"

/-- The members in front of the difficulty. -/
def known : List Member :=
  [⟨"height".toList, ['0']⟩, ⟨"blockid".toList, ['"', '"']⟩]

theorem toList_withDifficulty (v : String) :
    (withDifficulty v).toList = '{' :: ("\"height\":0,\"blockid\":\"\"".toList ++
      ',' :: '"' :: ("difficulty".toList ++ '"' :: ':' :: (v.toList ++ ['}']))) := by
  have hhead : "\x7b\"height\":0,\"blockid\":\"\",\"difficulty\":".toList =
      '{' :: ("\"height\":0,\"blockid\":\"\"".toList ++
        ',' :: '"' :: ("difficulty".toList ++ ['"', ':'])) := by decide +kernel
  unfold withDifficulty
  rw [String.toList_append, String.toList_append, hhead]
  simp only [List.cons_append, List.append_assoc, List.nil_append]
  rfl

theorem members_known : Members known "\"height\":0,\"blockid\":\"\"".toList := by
  have hheight : Member.IsWritten ⟨"height".toList, ['0']⟩ "\"height\":0".toList :=
    Member.isWritten_of_isPlain (by decide)
  have hblockId : Member.IsWritten ⟨"blockid".toList, ['"', '"']⟩ "\"blockid\":\"\"".toList :=
    Member.isWritten_of_isPlain (by decide)
  exact .more hheight (.one hblockId)

theorem membersFit_known : MembersFit fields known := by
  refine ⟨?_, ?_⟩
  · intro field hfield
    simp only [List.mem_cons, List.not_mem_nil, or_false] at hfield
    rcases hfield with rfl | rfl | rfl
    · exact .inr ⟨['0'], by decide, 0, Json.isNatural_zero⟩
    · exact .inr ⟨['"', '"'], by decide, [], Json.isTextOf_nil⟩
    · exact .inl (by decide)
  · intro m hm hname
    rcases List.mem_cons.1 hm with rfl | hm
    · exact absurd (by decide) hname
    · rw [List.mem_singleton.1 hm] at hname
      exact absurd (by decide) hname

/-- With anything else than an amount for its difficulty it is refused at its end. -/
theorem parse_withDifficulty_fault {v : String} {fault : Amount.Fault}
    (h : IsExact 126 v.toList) (hjudged : Judged v.toList (.error fault)) :
    parse (withDifficulty v) =
      .error ⟨.amount fault, some (Place.behind (withDifficulty v).toList)⟩ := by
  have hend : Json.EndsNumber ['}'] := Json.endsNumber_close .object []
  have hname : Json.Spells "difficulty".toList "difficulty".toList :=
    Json.spells_of_isPlain (by decide)
  have hne : known ≠ [] := by simp [known]
  have hfield : (⟨"difficulty", .amount⟩ : Json.Field) ∈ Feed.tip.schema.fields := by
    simp [Feed.schema]
  have hunmet : Json.valuesOf "difficulty".toList known = [] := by decide
  have hparse := Feed.tip.parse_of_amount_fault .nil members_known hne membersFit_known hfield
    hunmet .nil hname .nil .nil h hjudged hend
  have htext : [] ++ '{' :: ("\"height\":0,\"blockid\":\"\"".toList ++ ',' :: ([] ++
      '"' :: ("difficulty".toList ++ '"' :: ([] ++ ':' :: ([] ++ v.toList))))) ++ ['}'] =
      (withDifficulty v).toList := by
    rw [toList_withDifficulty]
    simp only [List.cons_append, List.append_assoc, List.nil_append]
  have hpassed : Json.passedBehind ['}'] = ['}'] := by decide
  simp only [hpassed] at hparse
  rw [htext, String.ofList_toList] at hparse
  exact hparse

/-- With an amount for its difficulty it is accepted. -/
theorem parse_withDifficulty {v : String} {n : Nat} (h : IsAmount v.toList n) :
    parse (withDifficulty v) = .ok ⟨0, "", n⟩ := by
  have hplain : "difficulty".toList.all (Json.IsPlain ·) = true := by decide
  have hdifficulty := Member.isWritten_of_isPlain (m := ⟨"difficulty".toList, v.toList⟩) hplain
  have hmembers := members_known.concat (by simp [known]) hdifficulty
  refine parse_eq_ok_iff.2 ⟨[], _, [], ?_, .nil, .nil, .inl ⟨_, _, rfl, hmembers, ?_⟩⟩
  · rw [toList_withDifficulty]
    simp only [List.cons_append, List.append_assoc, List.nil_append, List.append_nil]
  · refine ⟨⟨['0'], rfl, Json.isNatural_zero⟩, ⟨['"', '"'], rfl, Json.isTextOf_nil⟩,
      ⟨v.toList, rfl, h⟩, ?_⟩
    -- there are no other members
    intro m hm hname
    simp only [known, List.mem_append, List.mem_cons, List.not_mem_nil, or_false] at hm
    rcases hm with (rfl | rfl) | rfl
    all_goals exact absurd (by simp) hname

end TipReport

/-- Alone, a value is refused with these words. -/
def RefusedWith (v : List Char) (words : String) : Prop :=
  ∃ refusal, parseAmount v = .error refusal ∧ refusal.message = words

theorem message_injective {fault fault' : Amount.Fault} (h : fault.message = fault'.message) :
    fault = fault' := by
  revert h
  cases fault <;> cases fault' <;> decide

/-- The words say which judgement it was. -/
theorem refusedWith_iff {v : List Char} (h : IsExact 126 v) (fault : Amount.Fault) :
    RefusedWith v fault.message ↔ Judged v (.error fault) := by
  obtain ⟨amount, hjudged, hunique⟩ := Json.existsUnique_judged v
  have hparse := Json.parseAmount_of_judged_alone h hjudged (by decide)
  constructor
  · rintro ⟨refusal, hrefused, hwords⟩
    rw [hparse] at hrefused
    cases amount with
    | ok n => cases hrefused
    | error fault' =>
      cases hrefused
      have hmessage : fault'.message ++ "" = fault.message := hwords
      rw [String.append_empty] at hmessage
      rwa [← message_injective hmessage]
  · intro hfault
    obtain rfl := hunique _ hfault
    exact ⟨_, hparse, String.append_empty⟩

/-- **Alone and as the difficulty of a report a value is refused alike**: if one of them is accepted,
so is the other, with the same amount, and otherwise both are refused in the same words, to which the
report adds its place. The words tell what the value is. Its texts have to stand for something, less
than 127 of its brackets may be open at once, and its numbers have to be in range, as all numbers are
up to the third greatest binary fraction. -/
theorem amount_faults_agree :
    (∀ (v : List Char) (l : Json.Literal), l.Spelled v → l.value ≤ (2 ^ 53 - 3) * 2 ^ 971 →
      l.power ≤ Json.greatestExponent → ∀ room, (Json.Rigour.exact room).Counts v) ∧
    ∀ v : String, IsExact 126 v.toList →
      ((∃ n, parseAmount v.toList = .ok n ∧
          TipReport.parse (TipReport.withDifficulty v) = .ok ⟨0, "", n⟩) ∨
        ∃ alone inside place, parseAmount v.toList = .error alone ∧ alone.place? = none ∧
          TipReport.parse (TipReport.withDifficulty v) = .error inside ∧
          inside.place? = some place ∧ inside.message = alone.message ++ place.describe) ∧
      (RefusedWith v.toList "cannot parse integer from empty string" ↔
        IsTextOf v.toList [] ∨ IsTextOf v.toList ['+']) ∧
      (RefusedWith v.toList "invalid digit found in string" ↔
        ∃ t, IsTextOf v.toList t ∧ t ≠ [] ∧ t ≠ ['+'] ∧ ∀ n, ¬ Amount.Names t n) ∧
      (RefusedWith v.toList "data did not match any variant of untagged enum Raw" ↔
        (∀ t, ¬ IsTextOf v.toList t) ∧ ∀ n, ¬ IsNatural v.toList n) := by
  refine ⟨fun v l h hvalue hpower room => Json.Number.exists_read h hvalue hpower, ?_⟩
  intro v h
  refine ⟨?_, refusedWith_iff h .empty, refusedWith_iff h .notDigit, refusedWith_iff h .notAmount⟩
  obtain ⟨amount, hjudged, -⟩ := Json.existsUnique_judged v.toList
  have halone := Json.parseAmount_of_judged_alone h hjudged (by decide)
  cases amount with
  | ok n => exact .inl ⟨n, halone, TipReport.parse_withDifficulty hjudged⟩
  | error fault =>
    refine .inr ⟨_, _, _, halone, rfl, TipReport.parse_withDifficulty_fault h hjudged, rfl, ?_⟩
    show fault.message ++ _ = fault.message ++ "" ++ _
    rw [String.append_empty]
    rfl

/-- The theorem at a list with a fraction, which is no amount. -/
theorem amount_faults_agree_list :
    IsExact 126 "[1.5]".toList ∧
      RefusedWith "[1.5]".toList "data did not match any variant of untagged enum Raw" := by
  obtain ⟨hcounts, hagree⟩ := amount_faults_agree
  have hspelled : Json.Literal.Spelled ⟨false, ['1'], ['5'], none⟩ "1.5".toList :=
    ⟨[], ['.', '5'], [], rfl, .inr ⟨rfl, rfl⟩, ⟨⟨by simp, by simp⟩, by simp⟩,
      .inr ⟨⟨by simp, by simp⟩, rfl⟩, rfl⟩
  have hvalue : Json.Literal.value ⟨false, ['1'], ['5'], none⟩ ≤ (2 ^ 53 - 3) * 2 ^ 971 := by
    calc Json.Literal.value ⟨false, ['1'], ['5'], none⟩ = (15 : ℕ) * 10 ^ (-1 : ℤ) := rfl
      _ ≤ 2 ^ 53 - 3 := by norm_num
      _ ≤ (2 ^ 53 - 3) * 2 ^ 971 :=
        le_mul_of_one_le_right (by norm_num) (one_le_pow₀ one_le_two)
  have hnumber := hcounts _ _ hspelled hvalue (by decide) 125
  have hlist : IsExact 126 "[1.5]".toList :=
    .filled (b := .list) rfl (.one (.element .nil (.number hnumber) .nil))
  exact ⟨hlist, (hagree _ hlist).2.2.2.2 (Json.judged_of_head (by decide) rfl _)⟩

/-- A number that is no greater than the greatest binary fraction may still be out of range, and is
then refused for that, at a place even where it stands alone: its digits and its power of ten are
rounded before they are multiplied. -/
theorem exponent_out_of_range :
    let v := "1797693134862315708e290".toList
    let l : Json.Literal := ⟨false, "1797693134862315708".toList, [], some ⟨false, "290".toList⟩⟩
    l.Spelled v ∧ l.value ≤ Decimal.Binary64.greatest.toRat ∧
      (∀ t, ¬ IsTextOf v t) ∧ (∀ n, ¬ IsNatural v n) ∧
      parseAmount v = .error ⟨.numberOutOfRange, some ⟨1, 23⟩⟩ ∧
      ¬ RefusedWith v "data did not match any variant of untagged enum Raw" := by
  intro v l
  have hwhole : Json.IsWhole l.whole := ⟨⟨by decide, List.all_eq_true.1 (by decide)⟩, by decide⟩
  have hpower : Json.IsDigits "290".toList := ⟨by decide, List.all_eq_true.1 (by decide)⟩
  have hspelled : l.Spelled v :=
    ⟨[], [], 'e' :: "290".toList, rfl, .inr ⟨rfl, rfl⟩, hwhole, .inl ⟨rfl, rfl⟩, hpower, 'e', [],
      rfl, .inl rfl, .inr ⟨.inl rfl, rfl⟩⟩
  have hvalue : l.value ≤ Decimal.Binary64.greatest.toRat := by
    have hle : 1797693134862315708 * 10 ^ 290 ≤ (2 ^ 53 - 1) * 2 ^ 971 := by decide +kernel
    have hdigits : Nat.ofDigitChars 10 (l.whole ++ l.fraction) 0 = 1797693134862315708 := by
      decide +kernel
    have hexponent : l.power - l.fraction.length = (290 : ℕ) := by decide +kernel
    refine le_of_eq_of_le ?_ (Decimal.Binary64.natCast_le_greatest hle)
    rw [Json.Literal.value, hdigits, hexponent, zpow_natCast, Nat.cast_mul, Nat.cast_pow]
    rfl
  have hparse : parseAmount v = .error ⟨.numberOutOfRange, some ⟨1, 23⟩⟩ := by decide +kernel
  refine ⟨hspelled, hvalue, ?_, ?_, hparse, ?_⟩
  · -- no quote stands in front
    rintro t ⟨s, he, -⟩
    exact absurd (List.cons.inj he).1 (by decide)
  · -- the letter is no digit
    intro n hn
    have hdigit := hn.1.1.2 'e' (by decide)
    cases hdigit
  · rintro ⟨refusal, hrefused, hwords⟩
    rw [hparse] at hrefused
    cases hrefused
    revert hwords
    decide

end ChainBoard
