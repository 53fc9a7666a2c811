import ChainBoard.Fault
import ChainBoard.Proofs.Decimal.Digits

/-!
# Valid settings are accepted, the first invalid one is reported

An address is valid behind the name of a protocol that the program speaks, when the slashes at its
end are taken off. The precision of coins and the refresh period are numerals of numbers up to a
bound. Settings that are all valid are accepted and have the values that were read, or the defaults.
Otherwise the first that is invalid is reported with its text, the address before the precision and
the precision before the refresh period. Nothing else can be invalid.

## Main definitions

* `Settings.IsTrimmed`, `Settings.Speaks`, `Settings.IsPrecision`, `Settings.IsPeriod`: valid
  settings
* `Settings.FirstInvalid`: the first setting that is invalid
* `Settings.IsResolved`: the values of valid settings
* `Settings.IsUsable`: what a run can rely on

## Main results

* `Settings.resolve_of_isResolved`, `Settings.resolve_of_firstInvalid`,
  `Settings.exists_isResolved_or_firstInvalid`: both are what they say, and there is nothing else
* `Settings.resolve_reports_first_invalid`: valid settings are accepted, the first invalid one is
  reported
-/

namespace ChainBoard.Settings

open Decimal (IsNumeral)

/-! ## Valid settings -/

/-- The text that the address is taken from: the argument, or else the variable, which may be empty,
or else the default. -/
def givenAddress (argument? : Option String) (environment : String → Option String) : String :=
  match argument?, environment "EXPLORER_STATS_ADDR" with
  | some argument, _ => argument
  | none, some text => text
  | none, none => "http://localhost:23110"

/-- An address without any of the slashes at the end of the given text. -/
structure IsTrimmed (given address : String) : Prop where
  append_slashes : ∃ k, given.toList = address.toList ++ List.replicate k '/'
  getLast?_ne : address.toList.getLast? ≠ some '/'

/-- Addresses that start with the name of a protocol that the program speaks. -/
def Speaks (address : String) : Prop :=
  "http://".toList <+: address.toList ∨ "https://".toList <+: address.toList

/-- Texts of a precision. -/
def IsPrecision (text : String) (n : Nat) : Prop :=
  IsNumeral text.toList n ∧ n ≤ 38

/-- Texts of a refresh period. -/
def IsPeriod (text : String) (n : Nat) : Prop :=
  IsNumeral text.toList n ∧ n < 2 ^ 64

/-- A setting that is set to a text that is not valid. -/
def IsInvalid (valid : String → Nat → Prop) (setting? : Option String) (text : String) : Prop :=
  setting? = some text ∧ ∀ n, ¬ valid text n

/-- The first setting that is invalid, of the address, the precision and the refresh period. -/
inductive FirstInvalid (address : String) (precision? refresh? : Option String) : Fault → Prop where
  | address (haddress : ¬ Speaks address) :
      FirstInvalid address precision? refresh? (.address address)
  | precision {text : String} (haddress : Speaks address)
      (hprecision : IsInvalid IsPrecision precision? text) :
      FirstInvalid address precision? refresh? (.precision text)
  | refresh {text : String} (haddress : Speaks address)
      (hprecision : ∀ text, ¬ IsInvalid IsPrecision precision? text)
      (hrefresh : IsInvalid IsPeriod refresh? text) :
      FirstInvalid address precision? refresh? (.refresh text)

/-- The precision that a variable gives, which has a default. -/
def GivesPrecision : Option String → Nat → Prop
  | some text, precision => IsPrecision text precision
  | none, precision => precision = 9

/-- The refresh period that a variable gives. There is none by default, and a period of no seconds
is none. -/
def GivesPeriod : Option String → Option Nat → Prop
  | some text, refresh => ∃ n, IsPeriod text n ∧ refresh = if n = 0 then none else some n
  | none, refresh => refresh = none

/-- Settings with the values that were read, and the defaults for what is not set. -/
structure IsResolved (argument? : Option String) (environment : String → Option String)
    (settings : Settings) : Prop where
  address : IsTrimmed (givenAddress argument? environment) settings.address
  speaks : Speaks settings.address
  userAgent : settings.userAgent = (environment "EXPLORER_STATS_USER_AGENT").getD "Rivine-Agent"
  precision : GivesPrecision (environment "EXPLORER_STATS_PRECISION") settings.coins.precision
  unit : settings.coins.name = (environment "EXPLORER_STATS_UNIT").getD "AUR"
  linkBase : settings.linkBase = (environment "EXPLORER_STATS_LINK_BASE").getD ""
  refresh : GivesPeriod (environment "EXPLORER_STATS_REFRESH") settings.refresh

/-- Settings that a run can be made with. -/
structure IsUsable (settings : Settings) : Prop where
  speaks : Speaks settings.address
  getLast?_ne : settings.address.toList.getLast? ≠ some '/'
  precision_le : settings.coins.precision ≤ 38
  refresh : ∀ seconds, settings.refresh = some seconds → 0 < seconds ∧ seconds < 2 ^ 64

/-- The text that a fault is about. -/
def Fault.text : Fault → String
  | .address text => text
  | .precision text => text
  | .refresh text => text

/-! ## Each setting by itself -/

theorem resolve_address (argument? : Option String) (environment : String → Option String) :
    (argument? <|> environment addressName).getD defaultAddress =
      givenAddress argument? environment := by
  change (argument? <|> environment "EXPLORER_STATS_ADDR").getD "http://localhost:23110" = _
  unfold givenAddress
  cases argument? with
  | some argument => rfl
  | none => cases environment "EXPLORER_STATS_ADDR" <;> rfl

theorem isTrimmed_trimAddress (given : String) : IsTrimmed given (trimAddress given) :=
  ⟨exists_trimAddress_append given, getLast?_trimAddress_ne given⟩

/-- There is one way to take all slashes off. -/
theorem IsTrimmed.eq_trimAddress {given address : String} (h : IsTrimmed given address) :
    trimAddress given = address := by
  obtain ⟨⟨k, hk⟩, hlast⟩ := h
  -- what does not end with a slash is trimmed already
  have htrim : Text.trimEnd '/' address.toList = address.toList := by
    obtain ⟨j, hj⟩ := Text.trimEnd_append_self '/' address.toList
    cases j with
    | zero =>
      rw [List.replicate_zero, List.append_nil] at hj
      exact hj.symm
    | succ j =>
      rw [hj, List.replicate_succ', ← List.append_assoc, List.getLast?_concat] at hlast
      exact absurd rfl hlast
  rw [trimAddress, hk, Text.trimEnd_append_replicate, htrim, String.ofList_toList]

/-- The name of a protocol loses its own slashes when nothing stands behind them. -/
example : trimAddress "http://" = "http:" ∧ isSupported "http:" = false := by decide

theorem isSupported_iff {address : String} : isSupported address = true ↔ Speaks address := by
  rw [isSupported, Bool.or_eq_true, List.isPrefixOf_iff_prefix, List.isPrefixOf_iff_prefix, Speaks]

theorem readPrecision_eq_ok {text : String} {n : Nat} (h : IsPrecision text n) :
    readPrecision text = .ok n := by
  have hle : n ≤ maxPrecision := h.2
  simp only [readPrecision, Decimal.numeral?_eq_some_iff.2 h.1, if_pos hle]

theorem readPrecision_eq_error {text : String} (h : ∀ n, ¬ IsPrecision text n) :
    readPrecision text = .error (.precision text) := by
  unfold readPrecision
  split
  · rename_i n hn
    apply if_neg
    intro hle
    exact h n ⟨Decimal.numeral?_eq_some_iff.1 hn, hle⟩
  · rfl

theorem readRefresh_eq_ok {text : String} {n : Nat} (h : IsPeriod text n) :
    readRefresh text = .ok (if n = 0 then none else some n) := by
  have hlt : n < refreshBound := h.2
  simp only [readRefresh, Decimal.numeral?_eq_some_iff.2 h.1, if_pos hlt]

theorem readRefresh_eq_error {text : String} (h : ∀ n, ¬ IsPeriod text n) :
    readRefresh text = .error (.refresh text) := by
  unfold readRefresh
  split
  · rename_i n hn
    apply if_neg
    intro hlt
    exact h n ⟨Decimal.numeral?_eq_some_iff.1 hn, hlt⟩
  · rfl

/-- The precision from a variable, which has a default. -/
def precisionOf : Option String → Except Fault Nat
  | some text => readPrecision text
  | none => .ok 9

/-- The refresh period from a variable, which has none as a default. -/
def refreshOf : Option String → Except Fault (Option Nat)
  | some text => readRefresh text
  | none => .ok none

theorem precisionOf_eq_ok {setting? : Option String} {n : Nat} (h : GivesPrecision setting? n) :
    precisionOf setting? = .ok n := by
  cases setting? with
  | some text => exact readPrecision_eq_ok h
  | none => rw [show n = 9 from h, precisionOf]

theorem refreshOf_eq_ok {setting? : Option String} {refresh : Option Nat}
    (h : GivesPeriod setting? refresh) : refreshOf setting? = .ok refresh := by
  cases setting? with
  | some text =>
    obtain ⟨n, hn, rfl⟩ := h
    exact readRefresh_eq_ok hn
  | none => rw [show refresh = none from h, refreshOf]

theorem precisionOf_eq_error {setting? : Option String} {text : String}
    (h : IsInvalid IsPrecision setting? text) :
    precisionOf setting? = .error (.precision text) := by
  obtain ⟨rfl, hinvalid⟩ := h
  exact readPrecision_eq_error hinvalid

theorem refreshOf_eq_error {setting? : Option String} {text : String}
    (h : IsInvalid IsPeriod setting? text) : refreshOf setting? = .error (.refresh text) := by
  obtain ⟨rfl, hinvalid⟩ := h
  exact readRefresh_eq_error hinvalid

/-- A text of a variable that is not invalid is valid. -/
theorem exists_valid {valid : String → Nat → Prop} {text : String}
    (h : ∀ t, ¬ IsInvalid valid (some text) t) : ∃ n, valid text n := by
  by_contra hn
  exact h text ⟨rfl, not_exists.1 hn⟩

theorem exists_givesPrecision {setting? : Option String}
    (h : ∀ text, ¬ IsInvalid IsPrecision setting? text) : ∃ n, GivesPrecision setting? n := by
  cases setting? with
  | some text => exact exists_valid h
  | none => exact ⟨9, rfl⟩

theorem exists_givesPeriod {setting? : Option String}
    (h : ∀ text, ¬ IsInvalid IsPeriod setting? text) : ∃ refresh, GivesPeriod setting? refresh := by
  cases setting? with
  | some text =>
    obtain ⟨n, hn⟩ := exists_valid h
    exact ⟨_, n, hn, rfl⟩
  | none => exact ⟨none, rfl⟩

/-! ## All settings -/

section Resolve

variable {argument? : Option String} {environment : String → Option String}

/-- The settings with values that were read. -/
def ofValues (environment : String → Option String) (address : String) (precision : Nat)
    (refresh : Option Nat) : Settings where
  address := address
  userAgent := (environment "EXPLORER_STATS_USER_AGENT").getD "Rivine-Agent"
  coins := { precision, name := (environment "EXPLORER_STATS_UNIT").getD "AUR" }
  linkBase := (environment "EXPLORER_STATS_LINK_BASE").getD ""
  refresh := refresh

/-- The address is looked at before the precision, and the precision before the refresh period. -/
theorem resolve_eq (argument? : Option String) (environment : String → Option String) :
    resolve argument? environment =
      if isSupported (trimAddress (givenAddress argument? environment)) then do
        let precision ← precisionOf (environment "EXPLORER_STATS_PRECISION")
        let refresh ← refreshOf (environment "EXPLORER_STATS_REFRESH")
        pure (ofValues environment (trimAddress (givenAddress argument? environment)) precision
          refresh)
      else .error (.address (trimAddress (givenAddress argument? environment))) := by
  simp only [resolve, resolve_address, precisionName, refreshName]
  generalize trimAddress (givenAddress argument? environment) = address
  by_cases hsupported : isSupported address = true
  · rw [if_pos hsupported, if_neg (not_not_intro hsupported)]
    -- each of the two variables is set or not
    cases environment "EXPLORER_STATS_PRECISION" <;> cases environment "EXPLORER_STATS_REFRESH"
    all_goals rfl
  · rw [if_neg hsupported, if_pos hsupported]
    rfl

/-- Settings that follow the rules are the result. -/
theorem resolve_of_isResolved {settings : Settings}
    (h : IsResolved argument? environment settings) :
    resolve argument? environment = .ok settings := by
  rw [resolve_eq, h.address.eq_trimAddress, if_pos (isSupported_iff.2 h.speaks),
    precisionOf_eq_ok h.precision, refreshOf_eq_ok h.refresh]
  show Except.ok (ofValues _ _ _ _) = _
  rw [ofValues, ← h.userAgent, ← h.unit, ← h.linkBase]

/-- The first invalid setting is the fault. -/
theorem resolve_of_firstInvalid {address : String} {fault : Fault}
    (haddress : IsTrimmed (givenAddress argument? environment) address)
    (h : FirstInvalid address (environment "EXPLORER_STATS_PRECISION")
      (environment "EXPLORER_STATS_REFRESH") fault) :
    resolve argument? environment = .error fault := by
  rw [resolve_eq, haddress.eq_trimAddress]
  cases h with
  | address hspeaks =>
    apply if_neg
    exact fun h => hspeaks (isSupported_iff.1 h)
  | precision hspeaks hprecision =>
    rw [if_pos (isSupported_iff.2 hspeaks), precisionOf_eq_error hprecision]
    rfl
  | refresh hspeaks hprecision hrefresh =>
    obtain ⟨n, hn⟩ := exists_givesPrecision hprecision
    rw [if_pos (isSupported_iff.2 hspeaks), precisionOf_eq_ok hn, refreshOf_eq_error hrefresh]
    rfl

/-- There is a first invalid setting as soon as there is an invalid one. -/
theorem exists_firstInvalid_iff {address : String} {precision? refresh? : Option String} :
    (∃ fault, FirstInvalid address precision? refresh? fault) ↔
      ¬ Speaks address ∨ (∃ text, IsInvalid IsPrecision precision? text) ∨
        ∃ text, IsInvalid IsPeriod refresh? text := by
  constructor
  · rintro ⟨fault, h⟩
    cases h with
    | address haddress => exact .inl haddress
    | precision _ hprecision => exact .inr (.inl ⟨_, hprecision⟩)
    | refresh _ _ hrefresh => exact .inr (.inr ⟨_, hrefresh⟩)
  · intro h
    by_cases haddress : Speaks address
    · by_cases hprecision : ∃ text, IsInvalid IsPrecision precision? text
      · obtain ⟨text, htext⟩ := hprecision
        exact ⟨_, .precision haddress htext⟩
      · obtain ⟨text, htext⟩ := (h.resolve_left (not_not_intro haddress)).resolve_left hprecision
        exact ⟨_, .refresh haddress (not_exists.1 hprecision) htext⟩
    · exact ⟨_, .address haddress⟩

/-- Either the settings follow the rules, or one of them is the first that is invalid. -/
theorem exists_isResolved_or_firstInvalid (argument? : Option String)
    (environment : String → Option String) {address : String}
    (haddress : IsTrimmed (givenAddress argument? environment) address) :
    (∃ settings, IsResolved argument? environment settings) ∨
      ∃ fault, FirstInvalid address (environment "EXPLORER_STATS_PRECISION")
        (environment "EXPLORER_STATS_REFRESH") fault := by
  by_cases hfirst : ∃ fault, FirstInvalid address (environment "EXPLORER_STATS_PRECISION")
      (environment "EXPLORER_STATS_REFRESH") fault
  · exact .inr hfirst
  · -- no setting is invalid, so that each gives a value
    rw [exists_firstInvalid_iff, not_or, not_or, not_not, not_exists, not_exists] at hfirst
    obtain ⟨hspeaks, hprecision, hrefresh⟩ := hfirst
    obtain ⟨precision, hprecision⟩ := exists_givesPrecision hprecision
    obtain ⟨refresh, hrefresh⟩ := exists_givesPeriod hrefresh
    refine .inl ⟨ofValues environment address precision refresh, ?_⟩
    exact ⟨haddress, hspeaks, rfl, hprecision, rfl, rfl, hrefresh⟩

theorem resolve_eq_ok_iff {settings : Settings} :
    resolve argument? environment = .ok settings ↔ IsResolved argument? environment settings := by
  refine ⟨fun h => ?_, resolve_of_isResolved⟩
  have haddress := isTrimmed_trimAddress (givenAddress argument? environment)
  rcases exists_isResolved_or_firstInvalid argument? environment haddress with
    ⟨resolved, hresolved⟩ | ⟨fault, hfault⟩
  · rw [resolve_of_isResolved hresolved] at h
    cases h
    exact hresolved
  · rw [resolve_of_firstInvalid haddress hfault] at h
    cases h

theorem resolve_eq_error_iff {address : String} {fault : Fault}
    (haddress : IsTrimmed (givenAddress argument? environment) address) :
    resolve argument? environment = .error fault ↔
      FirstInvalid address (environment "EXPLORER_STATS_PRECISION")
        (environment "EXPLORER_STATS_REFRESH") fault := by
  refine ⟨fun h => ?_, resolve_of_firstInvalid haddress⟩
  rcases exists_isResolved_or_firstInvalid argument? environment haddress with
    ⟨resolved, hresolved⟩ | ⟨first, hfirst⟩
  · rw [resolve_of_isResolved hresolved] at h
    cases h
  · rw [resolve_of_firstInvalid haddress hfirst] at h
    cases h
    exact hfirst

theorem IsResolved.isUsable {settings : Settings} (h : IsResolved argument? environment settings) :
    settings.IsUsable := by
  refine ⟨h.speaks, h.address.getLast?_ne, ?_, ?_⟩
  · have hprecision := h.precision
    cases hset : environment "EXPLORER_STATS_PRECISION" with
    | some text =>
      rw [hset] at hprecision
      exact hprecision.2
    | none =>
      rw [hset] at hprecision
      rw [show settings.coins.precision = 9 from hprecision]
      decide
  · intro seconds hseconds
    have hrefresh := h.refresh
    cases hset : environment "EXPLORER_STATS_REFRESH" with
    | some text =>
      rw [hset] at hrefresh
      obtain ⟨n, hn, heq⟩ := hrefresh
      rw [heq] at hseconds
      split at hseconds
      · cases hseconds
      · rename_i hne
        cases hseconds
        exact ⟨Nat.pos_of_ne_zero hne, hn.2⟩
    | none =>
      rw [hset] at hrefresh
      rw [show settings.refresh = none from hrefresh] at hseconds
      cases hseconds

end Resolve

theorem suffix_toList_append (s t : String) : t.toList <:+ (s ++ t).toList := by
  rw [String.toList_append]
  exact List.suffix_append s.toList t.toList

/-- The wording of a fault ends with the text that the fault is about. -/
theorem Fault.text_suffix_message (fault : Fault) :
    fault.text.toList <:+ (ChainBoard.Fault.settings fault).message.toList := by
  have hmessage : fault.text.toList <:+ fault.message.toList := by
    cases fault with
    | address text => exact suffix_toList_append "unsupported API address " text
    | precision text => exact suffix_toList_append "invalid coin precision " text
    | refresh text => exact suffix_toList_append "invalid refresh period " text
  exact hmessage.trans (suffix_toList_append "invalid configuration: " fault.message)

/-- **Valid settings are accepted, and the first invalid one is reported.** There is a fault exactly
if the address, the precision or the refresh period is invalid. It is the first of these, in its
wording stands its text, and no other variable has a part in it. Without a fault, every setting has
the value that was read or its default. -/
theorem resolve_reports_first_invalid (argument? : Option String)
    (environment : String → Option String) :
    ∃ address, IsTrimmed (givenAddress argument? environment) address ∧
      ((∃ fault, resolve argument? environment = .error fault) ↔
        ¬ Speaks address ∨
        (∃ text, IsInvalid IsPrecision (environment "EXPLORER_STATS_PRECISION") text) ∨
        ∃ text, IsInvalid IsPeriod (environment "EXPLORER_STATS_REFRESH") text) ∧
      (∀ fault, resolve argument? environment = .error fault ↔
        FirstInvalid address (environment "EXPLORER_STATS_PRECISION")
          (environment "EXPLORER_STATS_REFRESH") fault) ∧
      (∀ fault, resolve argument? environment = .error fault →
        fault.text.toList <:+: (ChainBoard.Fault.settings fault).message.toList) ∧
      (∀ environment' : String → Option String,
        (∀ name ∈ ["EXPLORER_STATS_ADDR", "EXPLORER_STATS_PRECISION", "EXPLORER_STATS_REFRESH"],
          environment' name = environment name) →
        ∀ fault, resolve argument? environment' = .error fault ↔
          resolve argument? environment = .error fault) ∧
      (∀ settings, resolve argument? environment = .ok settings ↔
        IsResolved argument? environment settings) ∧
      ∀ settings, resolve argument? environment = .ok settings → settings.IsUsable := by
  have haddress := isTrimmed_trimAddress (givenAddress argument? environment)
  refine ⟨trimAddress (givenAddress argument? environment), haddress, ?_, ?_, ?_, ?_, ?_, ?_⟩
  · -- when there is a fault
    simp only [resolve_eq_error_iff haddress]
    exact exists_firstInvalid_iff
  · -- which one it is
    intro fault
    exact resolve_eq_error_iff haddress
  · -- what it says
    intro fault _
    exact fault.text_suffix_message.isInfix
  · -- what it does not depend on
    intro environment' hagree fault
    simp only [List.forall_mem_cons] at hagree
    obtain ⟨hvariable, hprecision, hrefresh, -⟩ := hagree
    have hgiven : givenAddress argument? environment' = givenAddress argument? environment := by
      unfold givenAddress
      rw [hvariable]
    have haddress' := isTrimmed_trimAddress (givenAddress argument? environment')
    rw [resolve_eq_error_iff haddress, resolve_eq_error_iff haddress', hgiven, hprecision, hrefresh]
  · -- the values
    intro settings
    exact resolve_eq_ok_iff
  · -- what they satisfy
    intro settings h
    exact (resolve_eq_ok_iff.1 h).isUsable

end ChainBoard.Settings
