import SnippetReview.Decimal.Reading
import SnippetReview.Document

/- Documents as YAML in block style. A text is written plainly where it reads back as that text, in single
   quotes where it would read as something else, as a literal block where it has several lines, and in double
   quotes where nothing else can hold it. -/

set_option autoImplicit false

namespace SnippetReview.Document.Yaml

def booleanWords : List String := ["true", "True", "TRUE", "false", "False", "FALSE"]

def nullWords : List String := ["", "null", "Null", "NULL", "~"]

def digitValue (c : Char) : Nat :=
  if c.isDigit then c.toNat - 48
  else if 'a' ≤ c && c ≤ 'f' then c.toNat - 87
  else if 'A' ≤ c && c ≤ 'F' then c.toNat - 55
  else 16

def radixValue? (radix : Nat) (digits : List Char) : Option Nat :=
  if !digits.isEmpty && digits.all fun c => digitValue c < radix then
    some (Decimal.joined radix (digits.reverse.map digitValue))
  else none

def markedNumber? : List Char → Option Nat
  | '0' :: 'x' :: digits => radixValue? 16 digits
  | '0' :: 'o' :: digits => radixValue? 8 digits
  | '0' :: 'b' :: digits => radixValue? 2 digits
  | _ => none

def isRadixNumber (s : List Char) : Bool :=
  let (negative, rest) := Decimal.splitSign s
  match markedNumber? rest with
  | some n => if negative then n ≤ 1 <<< 127 else n < 1 <<< 128
  | none => false

def isZeroPadded (s : List Char) : Bool :=
  match (Decimal.splitSign s).2 with
  | '0' :: c :: digits => (c :: digits).all Char.isDigit
  | _ => false

def isNumberName (s : List Char) : Bool :=
  let (negative, rest) := Decimal.splitSign s
  [".inf", ".Inf", ".INF"].any (·.toList == rest)
    || (!negative && [".nan", ".NaN", ".NAN"].any (·.toList == s))

def isFiniteNumber (s : List Char) : Bool :=
  let unsigned := match s with
    | '+' :: rest => if rest.head? == some '+' || rest.head? == some '-' then [] else rest
    | _ => s
  ((Decimal.read? (String.ofList unsigned)).map Decimal.isFinite).getD false

def readsAsOther (s : String) : Bool :=
  booleanWords.contains s || nullWords.contains s
    || (let chars := s.toList
        isZeroPadded chars || isRadixNumber chars || isNumberName chars || isFiniteNumber chars)

def isBreak (c : Char) : Bool :=
  c == '\n' || c == '\r' || c == '\u0085' || c == '\u2028' || c == '\u2029'

def isBlankOrEnd (c : Option Char) : Bool :=
  match c with
  | none => true
  | some c => c == ' ' || c == '\t' || c == '\x00' || isBreak c

def isPrintable (c : Char) : Bool :=
  let code := c.toNat
  code == 0x0A || (0x20 ≤ code && code ≤ 0x7E) || (0xA0 ≤ code && code ≤ 0xFFFD && code != 0xFEFF) || 0x10000 ≤ code

def leadingIndicators : List Char :=
  ['#', ',', '[', ']', '\x7b', '\x7d', '&', '*', '!', '|', '>', '\'', '"', '%', '@', '\x60']

def isIndicator (before : Option Char) (c : Char) (after : Option Char) : Bool :=
  match before with
  | none =>
    leadingIndicators.contains c || ((c == '?' || c == ':' || c == '-') && isBlankOrEnd after)
  | some b => (c == ':' && isBlankOrEnd after) || (c == '#' && isBlankOrEnd (some b))

def anyInContext (test : Option Char → Char → Option Char → Bool) (before : Option Char) : List Char → Bool
  | [] => false
  | c :: rest => test before c rest.head? || anyInContext test (some c) rest

def hasIndicator (s : List Char) : Bool :=
  ['-', '-', '-'].isPrefixOf s || ['.', '.', '.'].isPrefixOf s || anyInContext isIndicator none s

def hasBreakSpace (s : List Char) : Bool :=
  anyInContext (fun before c _ => c == ' ' && (before.map isBreak).getD false) none s

def hasSpaceBreak (s : List Char) : Bool :=
  anyInContext (fun before c _ => isBreak c && before == some ' ') none s

inductive Style where
  | plain
  | singleQuoted
  | doubleQuoted
  | literal
deriving DecidableEq, Repr

def needsEscapes (s : List Char) : Bool := hasSpaceBreak s || !s.all isPrintable

def allowsPlain (s : List Char) : Bool :=
  let outer (c : Option Char) := (c.map fun c => c == ' ' || isBreak c).getD false
  !outer s.head? && !outer s.getLast? && !s.any isBreak && !needsEscapes s && !hasIndicator s

def styleOf (s : String) : Style :=
  let chars := s.toList
  let quoted := if hasBreakSpace chars || needsEscapes chars then Style.doubleQuoted else .singleQuoted
  if chars.contains '\n' then
    if needsEscapes chars || chars.getLast? == some ' ' then .doubleQuoted else .literal
  else if readsAsOther s then quoted
  else if allowsPlain chars then .plain
  else quoted

def spaces (n : Nat) : List Char := List.replicate n ' '

-- Adds characters to `done`, which is reversed, with `indent` spaces at the beginning of every line but those
-- that are empty.
def indentedOnto (done : List Char) (indent : Nat) (atLineStart : Bool) : List Char → List Char
  | [] => done.reverse
  | c :: rest =>
    if isBreak c then indentedOnto (c :: done) indent true rest
    else if atLineStart then indentedOnto (c :: (spaces indent ++ done)) indent false rest
    else indentedOnto (c :: done) indent false rest

def indented (indent : Nat) (atLineStart : Bool) (s : List Char) : List Char := indentedOnto [] indent atLineStart s

def hexDigits (width n : Nat) : List Char :=
  let digits := (Nat.toDigits 16 n).map Char.toUpper
  List.replicate (width - digits.length) '0' ++ digits

def escapedChar (c : Char) : List Char :=
  if c == '"' then ['\\', '"']
  else if c == '\\' then ['\\', '\\']
  else if isPrintable c && !isBreak c then [c]
  else
    match c.toNat with
    | 0x00 => ['\\', '0']
    | 0x07 => ['\\', 'a']
    | 0x08 => ['\\', 'b']
    | 0x09 => ['\\', 't']
    | 0x0A => ['\\', 'n']
    | 0x0B => ['\\', 'v']
    | 0x0C => ['\\', 'f']
    | 0x0D => ['\\', 'r']
    | 0x1B => ['\\', 'e']
    | 0x85 => ['\\', 'N']
    | 0x2028 => ['\\', 'L']
    | 0x2029 => ['\\', 'P']
    | code =>
      if code ≤ 0xFF then '\\' :: 'x' :: hexDigits 2 code
      else if code ≤ 0xFFFF then '\\' :: 'u' :: hexDigits 4 code
      else '\\' :: 'U' :: hexDigits 8 code

def singleQuoted (indent : Nat) (s : List Char) : List Char :=
  let doubled := s.flatMap fun c => if c == '\'' then ['\'', '\''] else [c]
  let ending := if (s.getLast?.map isBreak).getD false then spaces indent else []
  '\'' :: (indented indent false doubled ++ ending ++ ['\''])

-- What stands after the bar of a literal block: the indentation where it cannot be seen, and what becomes of
-- the line ends at the end.
def blockHints (s : List Char) : List Char :=
  let leading := if (s.head?.map fun c => c == ' ' || isBreak c).getD false then ['2'] else []
  let chomping :=
    match s.reverse with
    | last :: rest =>
      if !isBreak last then ['-']
      else
        match rest with
        | [] => ['+']
        | c :: _ => if isBreak c then ['+'] else []
    | [] => ['-']
  leading ++ chomping

def literalBlock (indent : Nat) (s : List Char) : List Char :=
  '|' :: (blockHints s ++ '\n' :: indented indent true s)

def textWritten (indent : Nat) (s : String) : String :=
  match styleOf s with
  | .plain => s
  | .singleQuoted => String.ofList (singleQuoted indent s.toList)
  | .doubleQuoted => "\"" ++ String.ofList (s.toList.flatMap escapedChar) ++ "\""
  | .literal => String.ofList (literalBlock indent s.toList)

def decimalText (x : Float) : String :=
  if x.isNaN then ".nan"
  else if !Decimal.isFinite x then (if Decimal.isNegative x then "-.inf" else ".inf")
  else Decimal.document "" x

def inline? (indent : Nat) : Document → Option String
  | .null => some "null"
  | .boolean value => some (if value then "true" else "false")
  | .integer value => some (toString value)
  | .decimal value => some (decimalText value)
  | .text value => some (textWritten indent value)
  | .list [] => some "[]"
  | .record [] => some "\x7b\x7d"
  | _ => none

def isList : Document → Bool
  | .list _ => true
  | _ => false

-- What ends the last line of a written text. A literal block may have ended it already, with any character
-- that ends a line.
def lineEnd (written : String) : String := if (written.toList.getLast?.map isBreak).getD false then "" else "\n"

def stackedOnto (margin done last : String) : List String → String
  | [] => done
  | next :: rest => stackedOnto margin (done ++ lineEnd last ++ margin ++ next) next rest

def stacked (indent : Nat) : List String → String
  | [] => ""
  | first :: rest => stackedOnto (String.ofList (spaces indent)) first first rest

def longestSimpleKey : Nat := 128

mutual

def block (indent : Nat) : Document → String
  | .list items => stacked indent (blockItems indent items)
  | .record fields => stacked indent (blockFields indent fields)
  | other => (inline? indent other).getD ""

def blockItems (indent : Nat) : List Document → List String
  | [] => []
  | item :: rest =>
    let written := (inline? (indent + 2) item).getD (block (indent + 2) item)
    ("- " ++ written) :: blockItems indent rest

def blockFields (indent : Nat) : List (String × Document) → List String
  | [] => []
  | (name, value) :: rest =>
    let key := textWritten (indent + 2) name
    let below := if isList value then indent else indent + 2
    let field :=
      if longestSimpleKey < name.utf8ByteSize then
        stacked indent ["? " ++ key, ": " ++ (inline? (indent + 2) value).getD (block (indent + 2) value)]
      else
        match inline? (indent + 2) value with
        | some written => key ++ ": " ++ written
        | none => stacked below [key ++ ":", block below value]
    field :: blockFields indent rest

end

end SnippetReview.Document.Yaml

namespace SnippetReview.Document

def toYaml (d : Document) : String :=
  let written := (Yaml.inline? 0 d).getD (Yaml.block 0 d)
  written ++ Yaml.lineEnd written

end SnippetReview.Document
