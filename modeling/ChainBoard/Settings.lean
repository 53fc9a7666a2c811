import ChainBoard.Decimal.Numeral
import ChainBoard.Figure.Coins
import ChainBoard.Text.Trim

/-!
# Settings

The settings of a run come from its first argument and from variables of its environment. The
argument wins over the variable for the address; everything else is a variable or has a default.
Texts are taken as they are. The address, the precision of coins and the refresh period can be
invalid, and the first of them in this order that is invalid is reported.

## Main definitions

* `Settings`: the settings
* `Settings.Fault`: which setting is invalid, with its text
* `Settings.names`: the variables that settings come from
* `Settings.resolve`: the settings of an argument and an environment

## Main results

* `Settings.exists_trimAddress_append`, `Settings.getLast?_trimAddress_ne`: a trimmed address is the
  address without the slashes at its end
* `Settings.resolve_congr`: no other variable is looked at
-/

namespace ChainBoard

/-- The settings of a run. -/
structure Settings where
  /-- The address of the explorer, without slashes at its end. -/
  address : String
  /-- What the program calls itself in its requests. -/
  userAgent : String
  /-- How amounts of coins are shown. -/
  coins : CoinUnit
  /-- What stands in front of the targets of links. -/
  linkBase : String
  /-- The seconds between two boards; one board only when there are none. -/
  refresh : Option Nat
  deriving DecidableEq, Repr

namespace Settings

/-- An invalid setting, with its text. -/
inductive Fault where
  | address (text : String)
  | precision (text : String)
  | refresh (text : String)
  deriving DecidableEq, Repr

/-- The wording of a fault. -/
def Fault.message : Fault → String
  | address text => "unsupported API address " ++ text
  | precision text => "invalid coin precision " ++ text
  | refresh text => "invalid refresh period " ++ text

/-- The variable for the address. -/
def addressName : String := "EXPLORER_STATS_ADDR"

/-- The variable for the user agent. -/
def userAgentName : String := "EXPLORER_STATS_USER_AGENT"

/-- The variable for the precision of coins. -/
def precisionName : String := "EXPLORER_STATS_PRECISION"

/-- The variable for the name of coins. -/
def unitName : String := "EXPLORER_STATS_UNIT"

/-- The variable for the base of links. -/
def linkBaseName : String := "EXPLORER_STATS_LINK_BASE"

/-- The variable for the refresh period. -/
def refreshName : String := "EXPLORER_STATS_REFRESH"

/-- The variables that settings come from. -/
def names : List String :=
  [addressName, userAgentName, precisionName, unitName, linkBaseName, refreshName]

/-- The address when none is given. -/
def defaultAddress : String := "http://localhost:23110"

/-- The user agent when none is given. -/
def defaultUserAgent : String := "Rivine-Agent"

/-- The greatest precision of coins. -/
def maxPrecision : Nat := 38

/-- One more than the longest refresh period, in seconds. -/
def refreshBound : Nat := Nat.pow 2 64

/-- An address without slashes at its end. -/
def trimAddress (address : String) : String :=
  String.ofList (Text.trimEnd '/' address.toList)

/-- An address is the trimmed address and a number of slashes. -/
theorem exists_trimAddress_append (address : String) :
    ∃ k, address.toList = (trimAddress address).toList ++ List.replicate k '/' := by
  obtain ⟨k, hk⟩ := Text.trimEnd_append_self '/' address.toList
  exact ⟨k, by rw [trimAddress, String.toList_ofList, ← hk]⟩

/-- A trimmed address does not end with a slash. -/
theorem getLast?_trimAddress_ne (address : String) :
    (trimAddress address).toList.getLast? ≠ some '/' := by
  rw [trimAddress, String.toList_ofList]
  exact Text.getLast?_trimEnd_ne '/' address.toList

/-- Whether an address names a protocol that the program speaks. -/
def isSupported (address : String) : Bool :=
  "http://".toList.isPrefixOf address.toList || "https://".toList.isPrefixOf address.toList

/-- The precision that a text gives. -/
def readPrecision (text : String) : Except Fault Nat :=
  match Decimal.numeral? text.toList with
  | some n => if n ≤ maxPrecision then .ok n else .error (.precision text)
  | none => .error (.precision text)

/-- The refresh period that a text gives; a period of no seconds is none. -/
def readRefresh (text : String) : Except Fault (Option Nat) :=
  match Decimal.numeral? text.toList with
  | some n =>
    if n < refreshBound then .ok (if n = 0 then none else some n) else .error (.refresh text)
  | none => .error (.refresh text)

/-- The settings of a run with an optional argument and an environment. -/
def resolve (argument? : Option String) (environment : String → Option String) :
    Except Fault Settings := do
  let address := trimAddress ((argument? <|> environment addressName).getD defaultAddress)
  if ¬ isSupported address then throw (.address address)
  let coins : CoinUnit := {}
  let precision ← match environment precisionName with
    | some text => readPrecision text
    | none => pure coins.precision
  let refresh ← match environment refreshName with
    | some text => readRefresh text
    | none => pure none
  return {
    address
    userAgent := (environment userAgentName).getD defaultUserAgent
    coins := { precision, name := (environment unitName).getD coins.name }
    linkBase := (environment linkBaseName).getD ""
    refresh }

/-- The settings are the same in environments that agree on the variables that settings come from.
-/
theorem resolve_congr {environment environment' : String → Option String}
    (h : ∀ name ∈ names, environment' name = environment name) (argument? : Option String) :
    resolve argument? environment' = resolve argument? environment := by
  simp only [names, List.forall_mem_cons] at h
  obtain ⟨haddress, huserAgent, hprecision, hunit, hlinkBase, hrefresh, -⟩ := h
  rw [resolve, resolve, haddress, huserAgent, hprecision, hunit, hlinkBase, hrefresh]

end Settings

end ChainBoard
