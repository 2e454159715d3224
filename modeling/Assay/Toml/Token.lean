import Assay.Decimal.Shortest
import Assay.Digits
import Assay.Toml.Value

/-!
# Tokens of TOML

Blanks, comments, strings, keys and numbers. Each reader takes a list of characters and gives what
it read with the rest, or none where the text is malformed.
-/

namespace Assay.Toml

/-- What a reader read, and the characters that follow. -/
abbrev Reader (α : Type) := List Char → Option (α × List Char)

/-- A character that may stand in a comment or a literal string: no control character but tab. -/
def isPrintable (c : Char) : Bool := c = '\t' || (' ' ≤ c && c ≠ '\x7f')

def isBlank (c : Char) : Bool := c = ' ' || c = '\t'

def skipBlanks (cs : List Char) : List Char := cs.dropWhile isBlank

/-- A line feed, with or without a carriage return before it. -/
def newline? : List Char → Option (List Char)
  | '\n' :: rest => some rest
  | '\r' :: '\n' :: rest => some rest
  | _ => none

/-- The text without the comment at its start, if it starts with one. -/
def skipComment : List Char → List Char
  | '#' :: rest => rest.dropWhile isPrintable
  | cs => cs

/-- What follows the end of a line: blanks and a comment may precede it. -/
def lineEnd? (cs : List Char) : Option (List Char) :=
  match skipComment (skipBlanks cs) with
  | [] => some []
  | cs => newline? cs

/-- Skips blanks, comments and line ends; `fuel` bounds the number of lines. -/
def skipLines : (fuel : Nat) → List Char → List Char
  | 0, cs => cs
  | fuel + 1, cs =>
    let cs := skipComment (skipBlanks cs)
    match newline? cs with
    | some rest => skipLines fuel rest
    | none => cs

/-! ## Strings -/

/-- The character with a number of so many hexadecimal digits. -/
def codePoint? (digits : Nat) (cs : List Char) : Option (Char × List Char) := do
  let (taken, rest) := cs.splitAt digits
  if taken.length < digits then none
  let values ← taken.mapM Digits.hexValue?
  let n := values.foldl (fun n d => 16 * n + d) 0
  if n.isValidChar then return (Char.ofNat n, rest) else none

/-- The character of an escape whose backslash has been read. -/
def escape? : List Char → Option (Char × List Char)
  | 'b' :: rest => some ('\x08', rest)
  | 't' :: rest => some ('\t', rest)
  | 'n' :: rest => some ('\n', rest)
  | 'f' :: rest => some ('\x0c', rest)
  | 'r' :: rest => some ('\r', rest)
  | '"' :: rest => some ('"', rest)
  | '\\' :: rest => some ('\\', rest)
  | 'u' :: rest => codePoint? 4 rest
  | 'U' :: rest => codePoint? 8 rest
  | _ => none

/-- The characters of a basic string up to its closing quote. -/
def basicChars? : (fuel : Nat) → Reader (List Char)
  | 0, _ => none
  | _, [] => none
  | fuel + 1, c :: rest =>
    if c = '"' then some ([], rest)
    else if c = '\\' then do
      let (c, rest) ← escape? rest
      let (cs, rest) ← basicChars? fuel rest
      return (c :: cs, rest)
    else if isPrintable c then do
      let (cs, rest) ← basicChars? fuel rest
      return (c :: cs, rest)
    else none

/-- The characters of a literal string up to its closing quote. -/
def literalChars? (cs : List Char) : Option (List Char × List Char) :=
  match cs.span fun c => isPrintable c && c ≠ '\x27' with
  | (taken, '\x27' :: rest) => some (taken, rest)
  | _ => none

/-- The closing quotes of a string of several lines, with up to two more that belong to it. -/
def closingQuotes? (quote : Char) (cs : List Char) : Option (List Char × List Char) :=
  let count := (cs.takeWhile (· = quote)).length
  if count < 3 then none
  else
    let own := min 2 (count - 3)
    some (List.replicate own quote, cs.drop (own + 3))

/-- The text without the blanks and empty lines at its start; `fuel` bounds their number. -/
def skipEmptyLines : (fuel : Nat) → List Char → List Char
  | 0, cs => cs
  | fuel + 1, cs =>
    let cs := skipBlanks cs
    match newline? cs with
    | some rest => skipEmptyLines fuel rest
    | none => cs

/-- The rest after a backslash at the end of a line: blanks and line ends are skipped. -/
def continued? (cs : List Char) : Option (List Char) := do
  let rest ← newline? (skipBlanks cs)
  return skipEmptyLines (rest.length + 1) rest

/-- The characters of a string of several lines up to its closing quotes. -/
def linesChars? (quote : Char) (escapes : Bool) : (fuel : Nat) → Reader (List Char)
  | 0, _ => none
  | _, [] => none
  | fuel + 1, c :: rest =>
    match closingQuotes? quote (c :: rest), newline? (c :: rest) with
    | some closed, _ => some closed
    | none, some rest => do
      let (cs, rest) ← linesChars? quote escapes fuel rest
      return ('\n' :: cs, rest)
    | none, none =>
      if escapes && c = '\\' then
        match continued? rest with
        | some rest => linesChars? quote escapes fuel rest
        | none => do
          let (c, rest) ← escape? rest
          let (cs, rest) ← linesChars? quote escapes fuel rest
          return (c :: cs, rest)
      else if isPrintable c then do
        let (cs, rest) ← linesChars? quote escapes fuel rest
        return (c :: cs, rest)
      else none

/-- A string of one line, as a key or a value. -/
def lineString? : Reader String
  | '"' :: rest => do
    let (cs, rest) ← basicChars? (rest.length + 1) rest
    return (String.ofList cs, rest)
  | '\x27' :: rest => do
    let (cs, rest) ← literalChars? rest
    return (String.ofList cs, rest)
  | _ => none

/-- A string value. A line end right after three opening quotes does not belong to it. -/
def string? : Reader String
  | '"' :: '"' :: '"' :: rest => lines '"' true rest
  | '\x27' :: '\x27' :: '\x27' :: rest => lines '\x27' false rest
  | cs => lineString? cs
where
  /-- A string of several lines whose opening quotes have been read. -/
  lines (quote : Char) (escapes : Bool) (rest : List Char) : Option (String × List Char) := do
    let rest := (newline? rest).getD rest
    let (cs, rest) ← linesChars? quote escapes (rest.length + 1) rest
    return (String.ofList cs, rest)

/-! ## Keys -/

def isBareKey (c : Char) : Bool := c.isAlphanum || c = '_' || c = '-'

/-- One part of a key. -/
def simpleKey? (cs : List Char) : Option (String × List Char) :=
  match cs.span isBareKey with
  | ([], _) => lineString? cs
  | (bare, rest) => some (String.ofList bare, rest)

/-- The most parts that a key may have, and the most arrays and inline tables that may be nested. -/
def maxNesting : Nat := 79

/-- The parts of a key, with blanks around them. There are at most `room` of them. -/
def keyParts? : (room : Nat) → Reader (List String)
  | 0, _ => none
  | room + 1, cs => do
    let (part, rest) ← simpleKey? (skipBlanks cs)
    match skipBlanks rest with
    | '.' :: rest =>
      let (parts, rest) ← keyParts? room rest
      return (part :: parts, rest)
    | rest => return ([part], rest)

def key? : Reader (List String) := keyParts? maxNesting

/-! ## Numbers -/

/-- The digits of a number, of which two can be parted by an underscore. -/
def digits? (isDigit : Char → Bool) : List Char → Option (List Char)
  | [] => none
  | [c] => if isDigit c then some [c] else none
  | c :: '_' :: rest => if isDigit c then (c :: ·) <$> digits? isDigit rest else none
  | c :: rest => if isDigit c then (c :: ·) <$> digits? isDigit rest else none

/-- Whether a number is negative, and what follows its sign. -/
def sign : List Char → Bool × List Char
  | '+' :: rest => (false, rest)
  | '-' :: rest => (true, rest)
  | cs => (false, cs)

/-- Decimal digits without a superfluous zero in front. -/
def wholeDigits? (cs : List Char) : Option (List Char) :=
  match digits? Char.isDigit cs with
  | some ('0' :: _ :: _) => none
  | digits => digits

/-- Integers have 64 bits. -/
def inRange? (n : Int) : Option Value :=
  if Int64.minValue.toInt ≤ n ∧ n ≤ Int64.maxValue.toInt then some (.integer n) else none

def integer? (cs : List Char) : Option Value :=
  let based (base : Nat) (digits : List Char) : Option Value := do
    let isDigit (c : Char) := (Digits.hexValue? c).any (· < base)
    inRange? (Digits.number base (← digits? isDigit digits))
  match cs with
  | '0' :: 'x' :: digits => based 16 digits
  | '0' :: 'o' :: digits => based 8 digits
  | '0' :: 'b' :: digits => based 2 digits
  | cs => do
    let (negative, cs) := sign cs
    let n := Digits.number 10 (← wholeDigits? cs)
    inRange? (if negative then -n else n)

/-- The exponent of a float, from its mark on. -/
def exponent? : List Char → Option Int
  | [] => some 0
  | _ :: cs => do
    let (negative, cs) := sign cs
    let n := Digits.number 10 (← digits? Char.isDigit cs)
    return if negative then -n else n

/-- The digits of a float after its point, from the point on. -/
def fraction? : List Char → Option (List Char)
  | [] => some []
  | _ :: cs => digits? Char.isDigit cs

/-- A float has a fraction, an exponent or both, so an integer out of range is none. One that is too
large is malformed; one that is too far below zero is minus infinity. -/
def float? (cs : List Char) : Option Value := do
  let (negative, cs) := sign cs
  match cs with
  | ['i', 'n', 'f'] => return .float (.infinite negative)
  | ['n', 'a', 'n'] => return .float .nan
  | _ =>
    let (mantissa, exponentPart) := cs.span fun c => c ≠ 'e' && c ≠ 'E'
    let (whole, fractionPart) := mantissa.span (· ≠ '.')
    if fractionPart.isEmpty && exponentPart.isEmpty then none
    let whole ← wholeDigits? whole
    let fraction ← fraction? fractionPart
    let exponent ← exponent? exponentPart
    let decimal : Decimal := ⟨Digits.number 10 (whole ++ fraction), exponent - fraction.length⟩
    let x := decimal.toBinary64 negative
    if x == .infinite false then none else return .float x

/-- A boolean or a number: the longest run of characters that may belong to one. -/
def plain? (cs : List Char) : Option (Value × List Char) := do
  let (token, rest) := cs.span fun c => c.isAlphanum || c = '_' || c = '+' || c = '-' || c = '.'
  let value ←
    if token = ['t', 'r', 'u', 'e'] then some (.boolean true)
    else if token = ['f', 'a', 'l', 's', 'e'] then some (.boolean false)
    else integer? token <|> float? token
  return (value, rest)

end Assay.Toml
