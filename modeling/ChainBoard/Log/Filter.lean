import ChainBoard.Log
import ChainBoard.Text.Trim

/-!
# Which records are shown

A setting says which records are shown. It lists directives with commas between them. A directive is
the name of a level, for all parts of the program, or the beginning of the names of the parts that
it is for, with the name of a level behind an equals sign or without one. For each part the
directive with the longest beginning decides; it lets through its level and the more serious ones.
Behind a slash may stand a pattern that the text of a record must match; how patterns are read is
left open. What is wrong with a setting is passed over, and without any directive only errors are
shown.

## Main definitions

* `Log.rank?`: the name of a level
* `Log.Directive`, `Log.Directive.ofPart?`: directives, and how they are spelled
* `Log.Filter`, `Log.Filter.ofSetting`: which records are shown, and how a setting says so
* `Log.Filter.isShown`: whether a record is shown
-/

namespace ChainBoard.Log

/-- The names of the levels, behind a name for no level at all. -/
def levelNames : List String := ["OFF", "ERROR", "WARN", "INFO", "DEBUG", "TRACE"]

/-- The rank of the last level. -/
def lastRank : Nat := 5

/-- The rank that a name stands for, in capital or small letters. -/
def rank? (name : List Char) : Option Nat :=
  levelNames.findIdx? fun known => known.toList = name.map Char.toUpper

/-- Parts of the program, by the beginning of their names or all of them, and the last rank of their
records that is let through. -/
structure Directive where
  beginning? : Option (List Char)
  rank : Nat
  deriving DecidableEq, Repr

namespace Directive

/-- Whether a directive is for a part of the program. -/
def covers (directive : Directive) (origin : Origin) : Bool :=
  (directive.beginning?.getD []).isPrefixOf origin.target.toList

/-- The length of the beginning that a directive names. -/
def length (directive : Directive) : Nat :=
  (directive.beginning?.getD []).length

/-- The directive that a part of a setting spells. -/
def ofPart? (part : List Char) : Option Directive :=
  match part.splitOn '=' with
  | [word] =>
    match rank? word with
    | some rank => some ⟨none, rank⟩
    | none => some ⟨some word, lastRank⟩
  | [beginning, name] =>
    if Text.trim name = [] then some ⟨some beginning, lastRank⟩
    else (rank? (Text.trim name)).map fun rank => ⟨some beginning, rank⟩
  | _ => none

/-- A directive takes the place of one for the same parts. -/
def insert (directives : List Directive) (directive : Directive) : List Directive :=
  if directives.any (·.beginning? = directive.beginning?) then
    directives.map fun known =>
      if known.beginning? = directive.beginning? then directive else known
  else directives ++ [directive]

/-- The directives that a text spells: between its commas, without white space. -/
def ofText (text : List Char) : List Directive :=
  let parts := ((text.splitOn ',').map Text.trim).filter (· ≠ [])
  (parts.filterMap ofPart?).foldl insert []

/-- The directive that decides about a part of the program: the one with the longest beginning, and
the last of them. -/
def deciding? (directives : List Directive) (origin : Origin) : Option Directive :=
  (directives.filter (·.covers origin)).reverse.maxOn? length

end Directive

/-- Which records are shown: directives, and the texts that match a pattern, if there is one. -/
structure Filter where
  directives : List Directive
  pattern? : Option (String → Bool)

/-- A reader of patterns: what matches a pattern, unless it is none. -/
abbrev Patterns := String → Option (String → Bool)

namespace Filter

/-- The filter of directives; without any it shows errors only. -/
def ofDirectives (directives : List Directive) (pattern? : Option (String → Bool)) : Filter :=
  ⟨if directives = [] then [⟨none, Level.error.rank⟩] else directives, pattern?⟩

/-- The filter that a setting asks for: directives, and a pattern behind a slash. A setting with two
slashes asks for nothing. -/
def ofSetting (patterns : Patterns) (setting : String) : Filter :=
  match setting.toList.splitOn '/' with
  | [directives] => ofDirectives (Directive.ofText directives) none
  | [directives, pattern] =>
    ofDirectives (Directive.ofText directives) (patterns (String.ofList pattern))
  | _ => ofDirectives [] none

/-- Whether a record is shown. -/
def isShown (filter : Filter) (entry : Entry) : Bool :=
  (Directive.deciding? filter.directives entry.origin).any (entry.level.rank ≤ ·.rank) &&
    filter.pattern?.all fun isMatch => isMatch entry.text

end Filter

end ChainBoard.Log
