import Assay.Decimal.Layout
import Assay.Toml.Value

/-!
# Writing TOML documents

A table is written with its plain entries first, one to a line, and then its subtables, each under
a header after an empty line. A table that holds nothing but tables needs no header of its own.
Keys are taken to be bare.
-/

namespace Assay.Toml

/-- Floats are written positionally, and whole ones with a fraction. -/
def floatLayout : Layout := ⟨".0", none, none, "nan"⟩

/-! ## Strings -/

/-- A control character that no string can hold as it is. Tab is none, and line ends count apart. -/
def isControl (c : Char) : Bool := (c < ' ' && c ≠ '\t' && c ≠ '\n') || c = '\x7f'

/-- The length of the longest run of a character. -/
def longestRun (mark : Char) (cs : List Char) : Nat :=
  (cs.foldl (fun (longest, run) c =>
    let run := if c = mark then run + 1 else 0
    (max longest run, run)) (0, 0)).1

/-- The ways to write a string: in quotes, with escapes, or in apostrophes, as it is; and with one
delimiter, on one line, or with three, on any number of lines. -/
inductive StringStyle
  | basic
  | literal
  | multilineBasic
  | multilineLiteral
deriving DecidableEq

/-- The style of a string: the first in which no character but a tab needs an escape. If there is
none, the string has quotes for its delimiters, three of them to keep its lines. -/
def StringStyle.of (cs : List Char) : StringStyle :=
  let hasControl := cs.any isControl
  let hasBackslash := cs.contains '\\'
  let hasLines := cs.contains '\n'
  let quotes := longestRun '"' cs
  let apostrophes := longestRun '\x27' cs
  if !hasControl && !hasBackslash && !hasLines && quotes = 0 then .basic
  else if !hasControl && !hasLines && apostrophes = 0 then .literal
  else if !hasControl && !hasBackslash && quotes ≤ 2 then .multilineBasic
  else if !hasControl && apostrophes ≤ 2 then .multilineLiteral
  else if hasLines then .multilineBasic
  else .basic

/-- A character as written in a basic string where it cannot stand as it is. -/
def escaped (multiline : Bool) (c : Char) : String :=
  if c = '\x08' then "\\b"
  else if c = '\t' then "\\t"
  else if c = '\n' then if multiline then "\n" else "\\n"
  else if c = '\x0c' then "\\f"
  else if c = '\r' then "\\r"
  else if c = '"' then "\\\""
  else if c = '\\' then "\\\\"
  else if isControl c then
    let digits := (Nat.toDigits 16 c.toNat).map Char.toUpper
    "\\u" ++ String.ofList (List.replicate (4 - digits.length) '0' ++ digits)
  else c.toString

/-- The texts of the characters of a basic string. Two quotes in a row are no delimiter of three, so
they can stand as they are between such; `run` counts those just before. -/
def basicTexts (multiline : Bool) : (run : Nat) → List Char → List String
  | _, [] => []
  | run, c :: cs =>
    if c = '"' && multiline && run < 2 then "\"" :: basicTexts multiline (run + 1) cs
    else escaped multiline c :: basicTexts multiline 0 cs

/-- The text of a string. The first of several lines starts below the opening delimiter. -/
def stringText (s : String) : String :=
  let cs := s.toList
  let lead := if cs.contains '\n' then "\n" else ""
  match StringStyle.of cs with
  | .basic => "\"" ++ String.join (basicTexts false 0 cs) ++ "\""
  | .literal => "'" ++ s ++ "'"
  | .multilineBasic => "\"\"\"" ++ lead ++ String.join (basicTexts true 0 cs) ++ "\"\"\""
  | .multilineLiteral => "'''" ++ lead ++ s ++ "'''"

/-! ## Values and tables -/

mutual

/-- The text of a value on one line. -/
def Value.text : Value → String
  | .string s => stringText s
  | .integer n => toString n
  | .float x => x.text floatLayout
  | .boolean b => if b then "true" else "false"
  | .dateTime text => text
  | .array items => "[" ++ String.intercalate ", " (itemTexts items) ++ "]"
  | .table entries => "\x7b " ++ String.intercalate ", " (entryTexts entries) ++ " \x7d"

/-- The texts of an array's items. -/
def itemTexts : List Value → List String
  | [] => []
  | item :: rest => item.text :: itemTexts rest

/-- The texts of an inline table's entries. -/
def entryTexts : List (String × Value) → List String
  | [] => []
  | (key, value) :: rest => (key ++ " = " ++ value.text) :: entryTexts rest

end

/-- Whether an entry is written under a header of its own. -/
def Value.isTable : Value → Bool
  | table _ => true
  | _ => false

/-- The lines of a table's plain entries. -/
def plainLines (entries : Table) : List String :=
  (entries.filter fun entry => !entry.2.isTable).map fun (key, value) =>
    key ++ " = " ++ value.text

mutual

/-- The lines of a table under a header. -/
def Value.sectionLines (path : List String) : Value → List String
  | .table entries =>
    let plain := plainLines entries
    let header :=
      if plain.isEmpty && !entries.isEmpty then []
      else ["", "[" ++ String.intercalate "." path ++ "]"]
    header ++ plain ++ subtableLines path entries
  | _ => []

/-- The lines of the tables among some entries. -/
def subtableLines (path : List String) : List (String × Value) → List String
  | [] => []
  | (key, value) :: rest => value.sectionLines (path ++ [key]) ++ subtableLines path rest

end

/-- The lines of a document. -/
def documentLines (entries : Table) : List String :=
  plainLines entries ++ subtableLines [] entries

/-- The text of a document. -/
def documentText (entries : Table) : String :=
  String.join ((documentLines entries).map (· ++ "\n"))

end Assay.Toml
