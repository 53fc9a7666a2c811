import ChainBoard.Figure.Amount
import ChainBoard.Json.Number
import ChainBoard.Text.Quoted

/-!
# Why a text is refused

A text is refused because it is not written as JSON, or because a value in it is not what its place
demands. Each cause has one wording.

## Main definitions

* `Seen`: a scalar, or the bracket in front of more
* `Wanted`: what a place demands
* `Cause`: why a text is refused
* `Cause.message`: the wording of a cause
-/

namespace ChainBoard.Json

/-- What stands in front of a reader: a scalar, or the bracket in front of a list or object. -/
inductive Seen where
  | null
  | boolean (b : Bool)
  | number (n : Number)
  | text (s : List Char)
  | list
  | object
  deriving DecidableEq, Repr

/-- What is seen, in a message. -/
def Seen.describe : Seen → List Char
  | null => "null".toList
  | boolean true => "boolean `true`".toList
  | boolean false => "boolean `false`".toList
  | number n => n.describe
  | text s => "string ".toList ++ Text.quoted s
  | list => "sequence".toList
  | object => "map".toList

/-- What a place demands. -/
inductive Wanted where
  | natural
  | text
  | record (title : String)
  deriving DecidableEq, Repr

/-- What is wanted, in a message. -/
def Wanted.describe : Wanted → String
  | natural => "u64"
  | text => "a string"
  | record title => "struct " ++ title

/-- Why a text is refused. -/
inductive Cause where
  | endInValue
  | endInText
  | endInList
  | endInObject
  | expectedWord
  | expectedValue
  | expectedColon
  | expectedCommaInList
  | expectedCommaInObject
  | expectedKey
  | trailingComma
  | trailingCharacters
  | invalidNumber
  | numberOutOfRange
  | invalidEscape
  | loneSurrogate
  | unpairedSurrogate
  | controlCharacter
  | tooDeep
  /-- A value is of another type than its place demands. -/
  | wrongType (seen : Seen) (wanted : Wanted)
  /-- The number `-n` stands where a natural number is wanted. -/
  | belowZero (n : Nat)
  | missingField (name : String)
  | repeatedField (name : String)
  /-- A record written as a list has only `length` of its `size` fields. -/
  | tooShort (length : Nat) (title : String) (size : Nat)
  | amount (fault : Amount.Fault)
  deriving DecidableEq, Repr

/-- The wording of a cause. -/
def Cause.message : Cause → String
  | endInValue => "EOF while parsing a value"
  | endInText => "EOF while parsing a string"
  | endInList => "EOF while parsing a list"
  | endInObject => "EOF while parsing an object"
  | expectedWord => "expected ident"
  | expectedValue => "expected value"
  | expectedColon => "expected `:`"
  | expectedCommaInList => "expected `,` or `]`"
  | expectedCommaInObject => "expected `,` or `\x7d`"
  | expectedKey => "key must be a string"
  | trailingComma => "trailing comma"
  | trailingCharacters => "trailing characters"
  | invalidNumber => "invalid number"
  | numberOutOfRange => "number out of range"
  | invalidEscape => "invalid escape"
  | loneSurrogate => "lone leading surrogate in hex escape"
  | unpairedSurrogate => "unexpected end of hex escape"
  | controlCharacter => "control character (\\u0000-\\u001F) found while parsing a string"
  | tooDeep => "recursion limit exceeded"
  | wrongType seen wanted =>
    "invalid type: " ++ String.ofList seen.describe ++ ", expected " ++ wanted.describe
  | belowZero n =>
    "invalid value: integer `-" ++ toString n ++ "`, expected " ++ Wanted.natural.describe
  | missingField name => "missing field `" ++ name ++ "`"
  | repeatedField name => "duplicate field `" ++ name ++ "`"
  | tooShort length title size =>
    "invalid length " ++ toString length ++ ", expected struct " ++ title ++ " with " ++
      toString size ++ " elements"
  | amount fault => fault.message

end ChainBoard.Json
