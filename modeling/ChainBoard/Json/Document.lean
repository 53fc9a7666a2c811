import ChainBoard.Json.Record

/-!
# Whole texts

A whole text holds one value, with white space around it and nothing else. Here the stops of readers
become refusals, whose places are counted in the whole text. An amount that stands alone has no
record to place its faults in, so that they have no place.

## Main definitions

* `readEnd`: the end of a text
* `Schema.readWhole`, `Schema.parse`: the record that a text holds
* `parseAmount`: the amount that a text holds

## Main results

* `Schema.parse_eq_ok_iff`: a text is accepted if the readers accept it
-/

namespace ChainBoard.Json

/-- Only white space is left. -/
def readEnd (s : List Char) : Except Stop Unit :=
  if skipBlank s = [] then .ok () else .error (Stop.on .trailingCharacters (skipBlank s))

namespace Schema

/-- The record that a whole text holds, or where the reader stops. -/
def readWhole (schema : Schema) (text : List Char) : Except Stop (Row schema.fields) := do
  let (row, rest) ← schema.read text
  readEnd rest
  return row

/-- The record that a whole text holds, or why and where it is refused. -/
def parse (schema : Schema) (text : List Char) : Except Refusal (Row schema.fields) :=
  (schema.readWhole text).mapError (Stop.refusal · text)

theorem parse_eq_ok_iff {schema : Schema} {text : List Char} {row : Row schema.fields} :
    schema.parse text = .ok row ↔ schema.readWhole text = .ok row :=
  mapError_eq_ok_iff

end Schema

/-- The amount that a whole text holds. -/
def parseAmount (text : List Char) : Except Refusal Nat := do
  let (amount, rest) ← (readAmount bracketLimit text).mapError (Stop.refusal · text)
  let n ← amount.mapError fun fault => ⟨.amount fault, none⟩
  (readEnd rest).mapError (Stop.refusal · text)
  return n

end ChainBoard.Json
