import Mathlib.Data.List.Basic

set_option autoImplicit false

/-!
# JSON text, as Go's encoding/json reads and writes it

`FFIParams.Value` and `FFIParams.Scan` go through Go's `json.Marshal` and `json.Unmarshal`; this
is the part of that package they use. Text is a list of characters. A value keeps what the decoder
hands on: a string its escaped text, a number its literal as written, and an object member the raw
text of its value, which is what an `Unmarshaler` such as `JSONAny` receives.

The parser follows the scanner's grammar, with its limit of 10000 nested arrays and objects; its
recursion is bounded by a fuel that `parse` sets from the length of the text. `render` writes a
value back without whitespace, as `compact` does.
-/

namespace FireflyCommon.FFTypes

/-- The errors of Go's JSON package on these paths. -/
inductive JsonError where
  /-- "unexpected end of JSON input". -/
  | unexpectedEnd
  /-- "invalid character ...", at the first character the scanner refuses. -/
  | invalidCharacter (c : Char)
  /-- "json: cannot unmarshal ⟨value⟩ into Go struct field ⟨field⟩ of type ⟨goType⟩", or "into Go
  value of type ⟨goType⟩" when the field is empty. -/
  | unmarshalType (value field goType : String)
  /-- "json: error calling MarshalJSON for type ⟨goType⟩: ⟨cause⟩". -/
  | marshaler (goType : String) (cause : JsonError)
  /-- "invalid character ⟨c⟩ exceeded max depth": an array or object opened inside
  `maxNestingDepth` others. -/
  | exceededMaxDepth (c : Char)
  /-- The parser's recursion budget spent; `parse` sets it so that this never happens. -/
  | outOfFuel
  deriving DecidableEq, Repr

/-- JSON's insignificant whitespace. -/
def isSpace (c : Char) : Bool := c == ' ' || c == '\t' || c == '\n' || c == '\r'

/-- The scanner's whitespace skip. -/
def skipSpace : List Char → List Char
  | [] => []
  | c :: rest => if isSpace c then skipSpace rest else c :: rest

def isDigit (c : Char) : Bool := '0' ≤ c && c ≤ '9'

def isHexDigit (c : Char) : Bool := isDigit c || ('a' ≤ c && c ≤ 'f') || ('A' ≤ c && c ≤ 'F')

/-- The value of a hexadecimal digit. -/
def hexValue (c : Char) : Nat :=
  if isDigit c then c.toNat - '0'.toNat
  else if 'a' ≤ c && c ≤ 'f' then c.toNat - 'a'.toNat + 10
  else c.toNat - 'A'.toNat + 10

/-- The code unit of a \u escape. -/
def hex4 (a b c d : Char) : Nat :=
  ((hexValue a * 16 + hexValue b) * 16 + hexValue c) * 16 + hexValue d

/-! ## Strings -/

/-- The characters that may follow a backslash on their own. -/
def isSimpleEscape (c : Char) : Bool :=
  c == '"' || c == '\\' || c == '/' || c == 'b' || c == 'f' || c == 'n' || c == 'r' || c == 't'

/-- The error for a \u escape that lacks four hexadecimal digits: the first character that is
not one, or the end of the text. -/
def hexError (chars : List Char) : JsonError :=
  match chars.find? fun x => !isHexDigit x with
  | some x => .invalidCharacter x
  | none => .unexpectedEnd

/-- A scanned piece of a string put in front of the rest of the scan. -/
def prependScanned (piece : List Char) :
    Except JsonError (List Char × List Char) → Except JsonError (List Char × List Char)
  | .ok (body, after) => .ok (piece ++ body, after)
  | .error e => .error e

mutual

/-- The scanner inside a string (stateInString): its escaped text up to the closing quote, and
what follows the quote. -/
def scanString : List Char → Except JsonError (List Char × List Char)
  | [] => .error .unexpectedEnd
  | c :: rest =>
    if c = '"' then .ok ([], rest)
    else if c = '\\' then scanEscape rest
    else if c.toNat < 0x20 then .error (.invalidCharacter c)
    else prependScanned [c] (scanString rest)

/-- The scanner after a backslash (stateInStringEsc). -/
def scanEscape : List Char → Except JsonError (List Char × List Char)
  | [] => .error .unexpectedEnd
  | e :: rest =>
    if e = 'u' then scanUnit rest
    else if isSimpleEscape e then prependScanned ['\\', e] (scanString rest)
    else .error (.invalidCharacter e)

/-- The scanner on the four hexadecimal digits of a \u escape (stateInStringEscU). -/
def scanUnit : List Char → Except JsonError (List Char × List Char)
  | a :: b :: c :: d :: rest =>
    if isHexDigit a && isHexDigit b && isHexDigit c && isHexDigit d then
      prependScanned ['\\', 'u', a, b, c, d] (scanString rest)
    else .error (hexError [a, b, c, d])
  | short => .error (hexError short)

end

mutual

/-- The escaped text of a string that the scanner accepts. -/
def validBody : List Char → Bool
  | [] => true
  | c :: rest => if c = '\\' then validEscape rest else c != '"' && 0x20 ≤ c.toNat && validBody rest

/-- The text after a backslash in an accepted string. -/
def validEscape : List Char → Bool
  | [] => false
  | e :: rest => if e = 'u' then validUnit rest else isSimpleEscape e && validBody rest

/-- The text after the "\u" of an escape in an accepted string. -/
def validUnit : List Char → Bool
  | a :: b :: c :: d :: rest =>
    isHexDigit a && isHexDigit b && isHexDigit c && isHexDigit d && validBody rest
  | _ => false

end

/-- The character a simple escape stands for. -/
def unescapeSimple (c : Char) : Char :=
  if c = 'b' then Char.ofNat 8
  else if c = 'f' then Char.ofNat 12
  else if c = 'n' then '\n'
  else if c = 'r' then '\r'
  else if c = 't' then '\t'
  else c

/-- The character a lone \u escape stands for: a surrogate alone is replaced by U+FFFD. -/
def unescapeUnit (r : Nat) : Char :=
  if 0xD800 ≤ r ∧ r < 0xE000 then Char.ofNat 0xFFFD else Char.ofNat r

/-- Go's unquote of a scanned string, one escape or character at a time. A \u escape of a high
surrogate waits as the pending unit for the escape after it, and the two are joined when that one
is a low surrogate; a surrogate left alone is replaced by U+FFFD. -/
def unescapeFrom : Option Nat → List Char → List Char
  | none, [] => []
  | some _, [] => [Char.ofNat 0xFFFD]
  | pending, '\\' :: 'u' :: a :: b :: c :: d :: rest =>
      let fresh :=
        if 0xD800 ≤ hex4 a b c d ∧ hex4 a b c d < 0xDC00 then unescapeFrom (some (hex4 a b c d)) rest
        else unescapeUnit (hex4 a b c d) :: unescapeFrom none rest
      match pending with
      | none => fresh
      | some high =>
          if 0xDC00 ≤ hex4 a b c d ∧ hex4 a b c d < 0xE000 then
            Char.ofNat (0x10000 + (high - 0xD800) * 0x400 + (hex4 a b c d - 0xDC00)) ::
              unescapeFrom none rest
          else Char.ofNat 0xFFFD :: fresh
  | pending, '\\' :: c :: rest =>
      pending.toList.map (fun _ => Char.ofNat 0xFFFD) ++ unescapeSimple c :: unescapeFrom none rest
  | pending, c :: rest => pending.toList.map (fun _ => Char.ofNat 0xFFFD) ++ c :: unescapeFrom none rest

def unescape (body : List Char) : List Char := unescapeFrom none body

/-- A lower-case hexadecimal digit, as the encoder writes it. -/
def hexDigit (n : Nat) : Char :=
  if n < 10 then Char.ofNat ('0'.toNat + n) else Char.ofNat ('a'.toNat + n - 10)

/-- The six-character escape of a character below U+0100. -/
def escapeByte (c : Char) : List Char :=
  ['\\', 'u', '0', '0', hexDigit (c.toNat / 16), hexDigit (c.toNat % 16)]

/-- The encoder's text for one character of a string: quote, backslash, newline, return and tab
by their short escapes, other control characters and the HTML characters by a \u escape, the
line and paragraph separators by theirs, and every other character as it is. -/
def escapeChar (c : Char) : List Char :=
  if c = '"' then ['\\', '"']
  else if c = '\\' then ['\\', '\\']
  else if c = '\n' then ['\\', 'n']
  else if c = '\r' then ['\\', 'r']
  else if c = '\t' then ['\\', 't']
  else if c.toNat < 0x20 ∨ c = '<' ∨ c = '>' ∨ c = '&' then escapeByte c
  else if c.toNat = 0x2028 then ['\\', 'u', '2', '0', '2', '8']
  else if c.toNat = 0x2029 then ['\\', 'u', '2', '0', '2', '9']
  else [c]

/-- The escaped text the encoder writes for a string, between its quotes. -/
def quoteBody (s : List Char) : List Char := s.flatMap escapeChar

/-! ## Numbers -/

/-- A number as written: its sign, integer digits, fraction digits and exponent. -/
structure NumberLiteral where
  negative : Bool
  integer : List Char
  fraction : Option (List Char)
  exponent : Option (Char × Option Char × List Char)
  deriving DecidableEq, Repr

def NumberLiteral.fractionText : Option (List Char) → List Char
  | some digits => '.' :: digits
  | none => []

def NumberLiteral.exponentText : Option (Char × Option Char × List Char) → List Char
  | some (e, sign, digits) => e :: sign.toList ++ digits
  | none => []

def NumberLiteral.render (n : NumberLiteral) : List Char :=
  (if n.negative then ['-'] else []) ++ n.integer ++ fractionText n.fraction ++
    exponentText n.exponent

/-- The error for a part of a number that needs a digit. -/
def expectedDigit : List Char → JsonError
  | [] => .unexpectedEnd
  | c :: _ => .invalidCharacter c

/-- The scanner's integer part: a zero, or a non-zero digit and the digits after it. -/
def scanInteger : List Char → Except JsonError (List Char × List Char)
  | '0' :: rest => .ok (['0'], rest)
  | c :: rest =>
      if isDigit c then .ok (c :: rest.takeWhile isDigit, rest.dropWhile isDigit)
      else .error (.invalidCharacter c)
  | [] => .error .unexpectedEnd

/-- The digits of a fraction or an exponent: at least one. -/
def scanDigits (input : List Char) : Except JsonError (List Char × List Char) :=
  match input.takeWhile isDigit with
  | [] => .error (expectedDigit input)
  | digits => .ok (digits, input.dropWhile isDigit)

def scanFraction : List Char → Except JsonError (Option (List Char) × List Char)
  | '.' :: rest =>
      match scanDigits rest with
      | .ok (digits, after) => .ok (some digits, after)
      | .error e => .error e
  | input => .ok (none, input)

/-- The optional sign of an exponent. -/
def scanSign : List Char → Option Char × List Char
  | '+' :: rest => (some '+', rest)
  | '-' :: rest => (some '-', rest)
  | rest => (none, rest)

def scanExponent : List Char → Except JsonError (Option (Char × Option Char × List Char) × List Char)
  | e :: rest =>
      if e = 'e' ∨ e = 'E' then
        match scanDigits (scanSign rest).2 with
        | .ok (digits, after) => .ok (some (e, (scanSign rest).1, digits), after)
        | .error err => .error err
      else .ok (none, e :: rest)
  | [] => .ok (none, [])

/-- The scanner on a number: sign, integer part, fraction and exponent, each taken as far as it
goes. -/
def scanNumber (input : List Char) : Except JsonError (NumberLiteral × List Char) :=
  let negative := input.head? = some '-'
  match scanInteger (if negative then input.tail else input) with
  | .error e => .error e
  | .ok (integer, afterInteger) =>
    match scanFraction afterInteger with
    | .error e => .error e
    | .ok (fraction, afterFraction) =>
      match scanExponent afterFraction with
      | .error e => .error e
      | .ok (exponent, after) => .ok (⟨negative, integer, fraction, exponent⟩, after)

/-! ## Values -/

/-- A JSON value as the decoder holds it. An object member is its key's escaped text, its value
and the raw text of that value. -/
inductive Json where
  | null
  | bool (value : Bool)
  | number (literal : NumberLiteral)
  | string (escaped : List Char)
  | array (items : List Json)
  | object (members : List (List Char × Json × List Char))

/-- The kind of a value, as an unmarshal type error names it. -/
def Json.kind : Json → String
  | .null => "null"
  | .bool _ => "bool"
  | .number _ => "number"
  | .string _ => "string"
  | .array _ => "array"
  | .object _ => "object"

/-- The scanner in a literal (stateT, stateTr, stateTru and the like): the literal's remaining
characters, one by one, and what follows them. -/
def scanLiteral : List Char → List Char → Except JsonError (List Char)
  | [], rest => .ok rest
  | l :: literal, c :: rest => if c = l then scanLiteral literal rest else .error (.invalidCharacter c)
  | _ :: _, [] => .error .unexpectedEnd

/-- The value of a literal whose first character has been read. -/
def parseLiteral (value : Json) (literal rest : List Char) : Except JsonError (Json × List Char) :=
  match scanLiteral literal rest with
  | .ok after => .ok (value, after)
  | .error e => .error e

/-- The scanner's `maxNestingDepth`: how many arrays and objects may be open at once. -/
def maxNestingDepth : Nat := 10000

mutual

/-- One value, after optional whitespace, inside `depth` open arrays and objects: the switch of
the scanner's stateBeginValue on the value's first character. Opening an array or an object
pushes a parse state, which fails when `maxNestingDepth` are already open. -/
def parseValue : Nat → Nat → List Char → Except JsonError (Json × List Char)
  | 0, _, _ => .error .outOfFuel
  | fuel + 1, depth, input =>
    match skipSpace input with
    | [] => .error .unexpectedEnd
    | c :: rest =>
      if c = '\x7b' then
        if maxNestingDepth ≤ depth then .error (.exceededMaxDepth c) else
        match skipSpace rest with
        | '\x7d' :: after => .ok (.object [], after)
        | _ =>
          match parseMembers fuel (depth + 1) rest with
          | .ok (members, after) => .ok (.object members, after)
          | .error e => .error e
      else if c = '[' then
        if maxNestingDepth ≤ depth then .error (.exceededMaxDepth c) else
        match skipSpace rest with
        | ']' :: after => .ok (.array [], after)
        | _ =>
          match parseItems fuel (depth + 1) rest with
          | .ok (items, after) => .ok (.array items, after)
          | .error e => .error e
      else if c = '"' then
        match scanString rest with
        | .ok (body, after) => .ok (.string body, after)
        | .error e => .error e
      else if c = '-' ∨ isDigit c then
        match scanNumber (c :: rest) with
        | .ok (n, after) => .ok (.number n, after)
        | .error e => .error e
      else if c = 't' then parseLiteral (.bool true) ['r', 'u', 'e'] rest
      else if c = 'f' then parseLiteral (.bool false) ['a', 'l', 's', 'e'] rest
      else if c = 'n' then parseLiteral .null ['u', 'l', 'l'] rest
      else .error (.invalidCharacter c)

/-- The items of a non-empty array and its closing bracket, inside `depth` open arrays and
objects, the array included. -/
def parseItems : Nat → Nat → List Char → Except JsonError (List Json × List Char)
  | 0, _, _ => .error .outOfFuel
  | fuel + 1, depth, input =>
    match parseValue fuel depth input with
    | .error e => .error e
    | .ok (item, after) =>
      match skipSpace after with
      | ',' :: rest =>
          match parseItems fuel depth rest with
          | .ok (items, after) => .ok (item :: items, after)
          | .error e => .error e
      | ']' :: rest => .ok ([item], rest)
      | c :: _ => .error (.invalidCharacter c)
      | [] => .error .unexpectedEnd

/-- The members of a non-empty object and its closing brace, each with its value's raw text,
inside `depth` open arrays and objects, the object included. -/
def parseMembers : Nat → Nat → List Char →
    Except JsonError (List (List Char × Json × List Char) × List Char)
  | 0, _, _ => .error .outOfFuel
  | fuel + 1, depth, input =>
    match skipSpace input with
    | '"' :: rest =>
      match scanString rest with
      | .error e => .error e
      | .ok (key, afterKey) =>
        match skipSpace afterKey with
        | ':' :: rest =>
          match parseValue fuel depth (skipSpace rest) with
          | .error e => .error e
          | .ok (value, after) =>
            let raw := (skipSpace rest).take ((skipSpace rest).length - after.length)
            match skipSpace after with
            | ',' :: rest =>
                match parseMembers fuel depth rest with
                | .ok (members, after) => .ok ((key, value, raw) :: members, after)
                | .error e => .error e
            | '}' :: rest => .ok ([(key, value, raw)], rest)
            | c :: _ => .error (.invalidCharacter c)
            | [] => .error .unexpectedEnd
        | c :: _ => .error (.invalidCharacter c)
        | [] => .error .unexpectedEnd
    | c :: _ => .error (.invalidCharacter c)
    | [] => .error .unexpectedEnd

end

/-- The decoder's reading of a whole text: one value between whitespace. Two units of fuel per
character cover every nesting the text can hold. -/
def parse (input : List Char) : Except JsonError Json :=
  match parseValue (2 * input.length + 2) 0 input with
  | .error e => .error e
  | .ok (value, rest) =>
    match skipSpace rest with
    | [] => .ok value
    | c :: _ => .error (.invalidCharacter c)

mutual

/-- The text of a value without whitespace. -/
def Json.render : Json → List Char
  | .null => ['n', 'u', 'l', 'l']
  | .bool true => ['t', 'r', 'u', 'e']
  | .bool false => ['f', 'a', 'l', 's', 'e']
  | .number n => n.render
  | .string body => '"' :: body ++ ['"']
  | .array items => '[' :: renderItems items ++ [']']
  | .object members => '{' :: renderMembers members ++ ['}']

def renderItems : List Json → List Char
  | [] => []
  | [item] => item.render
  | item :: rest => item.render ++ ',' :: renderItems rest

def renderMembers : List (List Char × Json × List Char) → List Char
  | [] => []
  | [(key, value, _)] => '"' :: key ++ '"' :: ':' :: value.render
  | (key, value, _) :: rest => '"' :: key ++ '"' :: ':' :: value.render ++ ',' :: renderMembers rest

end

mutual

/-- How deeply arrays and objects nest in a value: the most parse states the scanner holds at
once while it reads the value. -/
def Json.depth : Json → Nat
  | .array items => itemsDepth items + 1
  | .object members => membersDepth members + 1
  | _ => 0

def itemsDepth : List Json → Nat
  | [] => 0
  | item :: rest => max item.depth (itemsDepth rest)

def membersDepth : List (List Char × Json × List Char) → Nat
  | [] => 0
  | (_, value, _) :: rest => max value.depth (membersDepth rest)

end

/-! ## Compacting -/

/-- What compacting with HTML escaping writes for one character of a string. -/
def escapeHTMLChar (c : Char) : List Char :=
  if c = '<' ∨ c = '>' ∨ c = '&' then escapeByte c
  else if c.toNat = 0x2028 then ['\\', 'u', '2', '0', '2', '8']
  else if c.toNat = 0x2029 then ['\\', 'u', '2', '0', '2', '9']
  else [c]

def escapeHTMLBody (body : List Char) : List Char := body.flatMap escapeHTMLChar

mutual

/-- A value with HTML escaping applied to its strings and keys, each member's raw text that of
its escaped value. -/
def Json.escapeHTML : Json → Json
  | .string body => .string (escapeHTMLBody body)
  | .array items => .array (escapeHTMLItems items)
  | .object members => .object (escapeHTMLMembers members)
  | v => v

def escapeHTMLItems : List Json → List Json
  | [] => []
  | item :: rest => item.escapeHTML :: escapeHTMLItems rest

def escapeHTMLMembers : List (List Char × Json × List Char) → List (List Char × Json × List Char)
  | [] => []
  | (key, value, _) :: rest =>
      (escapeHTMLBody key, value.escapeHTML, value.escapeHTML.render) :: escapeHTMLMembers rest

end

/-- Go's compact with HTML escaping, as json.Marshal applies it to what a MarshalJSON returns:
the text checked, its whitespace dropped, and the HTML characters and the line and paragraph
separators in its strings escaped. -/
def compact (text : List Char) : Except JsonError (List Char) :=
  match parse text with
  | .ok value => .ok value.escapeHTML.render
  | .error e => .error e

end FireflyCommon.FFTypes
