import Assay.Toml.DateTime
import Assay.Toml.Draft

/-!
# Reading TOML documents

A document is a sequence of lines: headers, which open tables, and keys with values. The readers of
nested values and of lines are bounded by the length of the text, of which each step uses at least
one character. Values also have `room` for so many arrays and inline tables, one inside another.
-/

namespace Assay.Toml

mutual

/-- A value. -/
def value? : (fuel room : Nat) → Reader Value
  | 0, _, _ => none
  | fuel + 1, room, cs =>
    match cs, room with
    | '"' :: _, _ | '\x27' :: _, _ => do
      let (s, rest) ← string? cs
      return (.string s, rest)
    | '[' :: _, 0 | '\x7b' :: _, 0 => none
    | '[' :: rest, room + 1 => do
      let (items, rest) ← items? fuel room rest
      return (.array items, rest)
    | '\x7b' :: rest, room + 1 =>
      match skipBlanks rest with
      | '\x7d' :: rest => some (.table [], rest)
      | rest => do
        let (entries, rest) ← inlineEntries? fuel room [] rest
        return (.table (finishEntries entries), rest)
    | cs, _ =>
      match dateTime? cs with
      | some (text, rest) => some (.dateTime text, rest)
      | none => plain? cs

/-- The items of an array up to its closing bracket. Lines may end anywhere between them, and a
comma may follow the last one. -/
def items? : (fuel room : Nat) → Reader (List Value)
  | 0, _, _ => none
  | fuel + 1, room, cs =>
    match skipLines (cs.length + 1) cs with
    | ']' :: rest => some ([], rest)
    | cs => do
      let (item, rest) ← value? fuel room cs
      match skipLines (rest.length + 1) rest with
      | ']' :: rest => return ([item], rest)
      | ',' :: rest =>
        let (items, rest) ← items? fuel room rest
        return (item :: items, rest)
      | _ => none

/-- The entries of an inline table up to its closing brace, added to those read before. -/
def inlineEntries? : (fuel room : Nat) → Entries → Reader Entries
  | 0, _, _, _ => none
  | fuel + 1, room, entries, cs => do
    let (path, key, value, rest) ← keyValue? fuel room cs
    let entries ← entries.addAt path key value
    match skipBlanks rest with
    | '\x7d' :: rest => return (entries, rest)
    | ',' :: rest => inlineEntries? fuel room entries rest
    | _ => none

/-- A key, of which the last part is set apart, with its value. -/
def keyValue? : (fuel room : Nat) → List Char → Option (List String × String × Value × List Char)
  | 0, _, _ => none
  | fuel + 1, room, cs => do
    let (parts, rest) ← key? cs
    let key ← parts.getLast?
    match rest with
    | '=' :: rest =>
      let (value, rest) ← value? fuel room (skipBlanks rest)
      return (parts.dropLast, key, value, rest)
    | _ => none

end

/-- A header, from after its opening bracket: whether its brackets are double, and its key. -/
def header? (cs : List Char) : Option ((Bool × List String) × List Char) := do
  let (isElement, cs) := match cs with
    | '[' :: cs => (true, cs)
    | cs => (false, cs)
  let (parts, rest) ← key? cs
  match isElement, rest with
  | true, ']' :: ']' :: rest => return ((true, parts), rest)
  | false, ']' :: rest => return ((false, parts), rest)
  | _, _ => none

/-- Reads the lines that follow in the table at `path`. -/
def lines? : (fuel : Nat) → (path : List String) → Entries → List Char → Option Entries
  | 0, _, _, _ => none
  | fuel + 1, path, entries, cs =>
    match skipLines (cs.length + 1) cs with
    | [] => some entries
    | '[' :: rest => do
      let ((isElement, parts), rest) ← header? rest
      let rest ← lineEnd? rest
      let key ← parts.getLast?
      let entries ←
        if isElement then entries.openElement parts.dropLast key
        else entries.openTable parts.dropLast key
      lines? fuel parts entries rest
    | cs => do
      let (keyPath, key, value, rest) ← keyValue? (cs.length + 1) maxNesting cs
      let rest ← lineEnd? rest
      let add (_ : Origin) (table : Entries) := table.addAt keyPath key value
      let entries ← Entries.changeAt false add path .header entries
      lines? fuel path entries rest

/-- The table that a document denotes. -/
def parse? (text : String) : Option Table := do
  let cs := match text.toList with
    | '\ufeff' :: cs => cs
    | cs => cs
  let entries ← lines? (cs.length + 1) [] [] cs
  return finishEntries entries

end Assay.Toml
