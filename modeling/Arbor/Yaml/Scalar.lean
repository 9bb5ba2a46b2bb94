import Arbor.Double

/-!
# YAML scalars

A text is written plain where a reader would take the plain text for that same
text, and in one of three other styles elsewhere:

* between single quotes, if the plain text is a word for null, a boolean or a
  number, or contains something with a meaning of its own;
* as a block of lines, if it contains line feeds;
* between double quotes with escapes, if it contains characters that are not
  printed, or blanks that the other styles would lose.

Lines are never folded.
-/

namespace Arbor

namespace Yaml

/-! ### Characters -/

/-- Ends a line. -/
def isBreak (c : Char) : Bool :=
  c == '\n' || c == '\r' || c == '\u0085' || c == '\u2028' || c == '\u2029'

/-- Separates words, or is no character of a text. -/
def isBlank (c : Char) : Bool := c == ' ' || c == '\t' || c == '\x00' || isBreak c

/-- Written as it is. -/
def isPrinted (c : Char) : Bool :=
  c == '\n' || (' ' ≤ c && c ≤ '~') || ('\u00a0' ≤ c && c ≤ '\ufffd' && c != '\ufeff')
    || 0x10000 ≤ c.toNat

/-- Starts something other than a plain text. -/
def isIndicator (c : Char) : Bool := "#,[]\x7b\x7d&*!|>'\"%@`".toList.contains c

/-! ### What a plain text would be taken for -/

/-- The words for null and for the booleans. -/
def words : List String :=
  ["null", "Null", "NULL", "~", "true", "True", "TRUE", "false", "False", "FALSE"]

/-- The words for numbers that are not finite, without a sign. -/
def infinities : List String := [".inf", ".Inf", ".INF"]

/-- The words for what is no number. -/
def undefineds : List String := [".nan", ".NaN", ".NAN"]

/-- The base of digits by the letter after a zero. -/
def radix? : Char → Option Nat
  | 'x' => some 16
  | 'o' => some 8
  | 'b' => some 2
  | _ => none

/-- The value of a digit in a base. -/
def digit? (base : Nat) (c : Char) : Option Nat :=
  let value :=
    if c.isDigit then c.toNat - '0'.toNat
    else if c.isAlpha then c.toLower.toNat - 'a'.toNat + 10
    else base
  if value < base then some value else none

/-- The number that digits spell in a base. -/
def inRadix? (base : Nat) : List Char → Option Nat
  | [] => none
  | digits => digits.foldlM (fun n c => (digit? base c).map (n * base + ·)) 0

/-- Digits behind `0x`, `0o` or `0b`, of a number of at most 128 bits. -/
def isRadixInteger : List Char → Bool
  | '-' :: '0' :: letter :: digits => fits letter digits (Nat.pow 2 127)
  | '+' :: '0' :: letter :: digits => fits letter digits (Nat.pow 2 128 - 1)
  | '0' :: letter :: digits => fits letter digits (Nat.pow 2 128 - 1)
  | _ => false
where
  fits (letter : Char) (digits : List Char) (most : Nat) : Bool :=
    ((radix? letter).bind (inRadix? · digits)).any (· ≤ most)

/-- A decimal number without a sign, with or without a point and an exponent. -/
def decimal? (text : List Char) : Option Decimal :=
  let whole := text.takeWhile Char.isDigit
  let text := text.dropWhile Char.isDigit
  let (fraction, text) := match text with
    | '.' :: text => (text.takeWhile Char.isDigit, text.dropWhile Char.isDigit)
    | _ => ([], text)
  let exponent : Option (List Char) := match text with
    | [] => some ['0']
    | 'e' :: text | 'E' :: text => some text
    | _ => none
  let unsigned := exponent.map fun text => match text with
    | '+' :: digits | '-' :: digits => digits
    | digits => digits
  if whole.isEmpty && fraction.isEmpty then none
  else if unsigned.any fun digits => !digits.isEmpty && digits.all Char.isDigit then
    exponent.map fun text => .ofParts false whole fraction (Decimal.signed text)
  else none

/-- Taken for a decimal number, which has to be a finite one. -/
def isDecimal (text : List Char) : Bool :=
  let unsigned := match text with
    | '+' :: text | '-' :: text => text
    | _ => text
  (decimal? unsigned).any fun x => (Double.ofDecimal x).isFinite

/-- Digits with a zero too many in front. Readers differ on what they are. -/
def isPadded (text : List Char) : Bool :=
  let unsigned := match text with
    | '+' :: text | '-' :: text => text
    | _ => text
  match unsigned with
  | '0' :: digit :: digits => (digit :: digits).all Char.isDigit
  | _ => false

/-- Taken for something other than a text. -/
def isSpecial (text : List Char) : Bool :=
  let unsigned := match text with
    | '+' :: text | '-' :: text => text
    | _ => text
  text.isEmpty || words.contains (String.ofList text)
    || infinities.contains (String.ofList unsigned)
    || undefineds.contains (String.ofList text)
    || isRadixInteger text || isDecimal text || isPadded text

/-! ### What a plain text must not contain -/

/-- The end of a text, or a blank. -/
def startsBlank : List Char → Bool
  | [] => true
  | c :: _ => isBlank c

/-- A colon before a blank, or a sharp after one. -/
def hasMark (previous : Char) : List Char → Bool
  | [] => false
  | c :: rest =>
    (c == ':' && startsBlank rest) || (c == '#' && isBlank previous) || hasMark c rest

/-- Something at the start with a meaning of its own. -/
def startsMark : List Char → Bool
  | '-' :: '-' :: '-' :: _ => true
  | '.' :: '.' :: '.' :: _ => true
  | c :: rest => isIndicator c || ((c == '?' || c == ':' || c == '-') && startsBlank rest)
  | [] => false

/-- Two neighbours in a text, the first and the second of the given sorts. -/
def hasPair (first second : Char → Bool) : List Char → Bool
  | a :: b :: rest => (first a && second b) || hasPair first second (b :: rest)
  | _ => false

/-- A space, and no other blank. -/
def isSpace (c : Char) : Bool := c == ' '

/-- The first or the last character is of a sort. -/
def atEnd (sort : Char → Bool) (text : List Char) : Bool :=
  text.head?.any sort || text.getLast?.any sort

/-- What can be written plain, if it is not special. -/
def fitsPlain (text : List Char) : Bool :=
  !(startsMark text || hasMark 'x' text || atEnd isSpace text || text.any isBreak)

/-- What only double quotes can show. -/
def needsEscapes (text : List Char) : Bool :=
  text.any (!isPrinted ·) || hasPair isSpace isBreak text

/-! ### Writing -/

/-- The way a text is written. -/
inductive Style
  | plain
  | single
  | double
  | block
  deriving DecidableEq

/-- The style of a text. -/
def style (text : List Char) : Style :=
  if text.contains '\n' then
    if needsEscapes text || text.getLast?.any isSpace then .double else .block
  else if isSpecial text || !fitsPlain text then
    if needsEscapes text || hasPair isBreak isSpace text then .double else .single
  else if needsEscapes text then .double
  else .plain

/-- A letter that stands for a character behind a backslash. -/
def letter? (c : Char) : Option Char :=
  match c.toNat with
  | 0x00 => some '0'
  | 0x07 => some 'a'
  | 0x08 => some 'b'
  | 0x09 => some 't'
  | 0x0a => some 'n'
  | 0x0b => some 'v'
  | 0x0c => some 'f'
  | 0x0d => some 'r'
  | 0x1b => some 'e'
  | 0x22 => some '"'
  | 0x5c => some '\\'
  | 0x85 => some 'N'
  | 0x2028 => some 'L'
  | 0x2029 => some 'P'
  | _ => none

/-- Upper-case hexadecimal digits, as many as asked for. -/
def hex (width n : Nat) : List Char :=
  let digits := (Nat.toDigits 16 n).map Char.toUpper
  List.replicate (width - digits.length) '0' ++ digits

/-- What stands for a character between double quotes. -/
def escape (c : Char) : List Char :=
  match letter? c with
  | some letter => ['\\', letter]
  | none =>
    if isPrinted c then [c]
    else if c.toNat ≤ 0xff then '\\' :: 'x' :: hex 2 c.toNat
    else if c.toNat ≤ 0xffff then '\\' :: 'u' :: hex 4 c.toNat
    else '\\' :: 'U' :: hex 8 c.toNat

/-- Lines of a text with blanks in front of each, those apart that are empty; `begun`
    says that the blanks of the present line were written. -/
def indented (blanks : List Char) (begun : Bool) : List Char → List Char
  | [] => []
  | c :: rest =>
    if isBreak c then c :: indented blanks false rest
    else if begun then c :: indented blanks true rest
    else blanks ++ c :: indented blanks true rest

/-- What stands between single quotes: quotes are doubled, and after a break come the
    blanks of the next line. -/
def singleQuoted (blanks : List Char) (begun : Bool) : List Char → List Char
  | [] => if begun then [] else blanks
  | c :: rest =>
    let text := if c = '\'' then ['\'', '\''] else [c]
    if isBreak c then text ++ singleQuoted blanks false rest
    else if begun then text ++ singleQuoted blanks true rest
    else blanks ++ text ++ singleQuoted blanks true rest

/-- The head of a block: a bar; the width of its indentation, if the first line starts
    with a blank; and how many line ends there are behind the last line, one, none
    (`-`) or more (`+`). -/
def blockHead (text : List Char) : List Char :=
  let width := if text.head?.any fun c => isSpace c || isBreak c then ['2'] else []
  let ends := match text.reverse with
    | a :: b :: _ => if !isBreak a then ['-'] else if isBreak b then ['+'] else []
    | [a] => if isBreak a then ['+'] else ['-']
    | [] => ['-']
  '|' :: (width ++ ends)

/-- A text, up to the end of its last line, as the value of a member whose name stands
    `depth` columns in. -/
def scalar (depth : Nat) (text : String) : List Char :=
  let text := text.toList
  let blanks := List.replicate (depth + 2) ' '
  match style text with
  | .plain => text ++ ['\n']
  | .single => '\'' :: (singleQuoted blanks true text ++ ['\'', '\n'])
  | .double => '"' :: (text.flatMap escape ++ ['"', '\n'])
  | .block =>
    let ended := text.getLast?.any isBreak
    blockHead text ++ '\n' :: indented blanks false text ++ (if ended then [] else ['\n'])

end Yaml

end Arbor
