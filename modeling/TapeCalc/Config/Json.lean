/-!
# JSON

Documents in strict JSON. A text is cut into tokens by an automaton over its characters, and the
tokens are put together by one over an explicit stack, so nesting may be of any depth.
-/
namespace TapeCalc

/-- A string is `none` when it holds half of a surrogate pair, which no text can; it is then
still a string. A number is kept as it is written. -/
inductive Json where
  | null
  | bool (b : Bool)
  | number (digits : List Char)
  | string (text : Option String)
  | array (items : List Json)
  | object (members : List (Option String × Json))

namespace Json

inductive Token where
  | mark (c : Char)
  | value (v : Json)

/-- Pairs of surrogate units joined, and every other unit taken for a character. -/
def joinUnits : List Nat → Option (List Char)
  | [] => some []
  | high :: low :: rest =>
    if 0xD800 ≤ high && high < 0xDC00 then
      if 0xDC00 ≤ low && low < 0xE000 then
        (joinUnits rest).map (Char.ofNat (0x10000 + (high - 0xD800) * 0x400 + (low - 0xDC00)) :: ·)
      else none
    else if 0xDC00 ≤ high && high < 0xE000 then none
    else (joinUnits (low :: rest)).map (Char.ofNat high :: ·)
  | [unit] => if 0xD800 ≤ unit && unit < 0xE000 then none else some [Char.ofNat unit]

/-- The rest after one digit or more. -/
def afterDigits? : List Char → Option (List Char)
  | [] => none
  | c :: cs => if c.isDigit then some (cs.dropWhile Char.isDigit) else none

/-- Nothing, or a letter for the exponent, a sign or none, and digits to the end. -/
def isExponent : List Char → Bool
  | [] => true
  | c :: cs =>
    (c == 'e' || c == 'E') &&
      afterDigits? (match cs with
        | '+' :: ds => ds
        | '-' :: ds => ds
        | ds => ds) == some []

def isFraction : List Char → Bool
  | '.' :: cs => (afterDigits? cs).any isExponent
  | cs => isExponent cs

/-- A sign or none, a whole part without a leading zero, a fraction, an exponent. -/
def isNumber (text : List Char) : Bool :=
  match (match text with | '-' :: cs => cs | cs => cs) with
  | '0' :: cs => isFraction cs
  | cs => (afterDigits? cs).any isFraction

/-- The token that a run of number characters or of letters makes. -/
def Token.ofNumber? (text : List Char) : Option Token :=
  if isNumber text then some (.value (.number text)) else none

def Token.ofWord? (word : List Char) : Option Token :=
  if word = "null".toList then some (.value .null)
  else if word = "true".toList then some (.value (.bool true))
  else if word = "false".toList then some (.value (.bool false))
  else none

/-- What the characters read last belong to. Lists are held in reverse. -/
inductive Lexeme where
  | blank
  | number (text : List Char)
  | word (text : List Char)
  | string (units : List Nat)
  | escape (units : List Nat)
  | hex (units : List Nat) (value : Nat) (missing : Nat)

structure Lexer where
  lexeme : Lexeme := .blank
  tokens : List Token := []

def isSpace (c : Char) : Bool := c == ' ' || c == '\t' || c == '\n' || c == '\r'

def isMark (c : Char) : Bool :=
  c == '[' || c == ']' || c == ',' || c == ':' || c == '\x7b' || c == '\x7d'

def isNumberPart (c : Char) : Bool :=
  c.isDigit || c == '-' || c == '+' || c == '.' || c == 'e' || c == 'E'

def hexDigit? (c : Char) : Option Nat :=
  if c.isDigit then some (c.toNat - 48)
  else if 'a' ≤ c && c ≤ 'f' then some (c.toNat - 87)
  else if 'A' ≤ c && c ≤ 'F' then some (c.toNat - 55)
  else none

/-- The unit that an escape of one letter stands for. -/
def simpleEscape? (c : Char) : Option Nat :=
  if c = '\x22' then some 34
  else if c = '\\' then some 92
  else if c = '/' then some 47
  else if c = 'b' then some 8
  else if c = 'f' then some 12
  else if c = 'n' then some 10
  else if c = 'r' then some 13
  else if c = 't' then some 9
  else none

/-- Starts a lexeme after finished tokens. -/
def Lexer.start (tokens : List Token) (c : Char) : Option Lexer :=
  if isSpace c then some ⟨.blank, tokens⟩
  else if isMark c then some ⟨.blank, .mark c :: tokens⟩
  else if c = '\x22' then some ⟨.string [], tokens⟩
  else if c.isDigit || c == '-' then some ⟨.number [c], tokens⟩
  else if c.isAlpha then some ⟨.word [c], tokens⟩
  else none

def Lexer.step (lexer : Lexer) (c : Char) : Option Lexer :=
  match lexer.lexeme with
  | .blank => start lexer.tokens c
  | .number text =>
    if isNumberPart c then some ⟨.number (c :: text), lexer.tokens⟩
    else (Token.ofNumber? text.reverse).bind fun token => start (token :: lexer.tokens) c
  | .word text =>
    if c.isAlpha then some ⟨.word (c :: text), lexer.tokens⟩
    else (Token.ofWord? text.reverse).bind fun token => start (token :: lexer.tokens) c
  | .string units =>
    if c = '\x22' then
      let text := (joinUnits units.reverse).map String.ofList
      some ⟨.blank, .value (.string text) :: lexer.tokens⟩
    else if c = '\\' then some ⟨.escape units, lexer.tokens⟩
    else if c.toNat < 32 then none
    else some ⟨.string (c.toNat :: units), lexer.tokens⟩
  | .escape units =>
    if c = 'u' then some ⟨.hex units 0 4, lexer.tokens⟩
    else (simpleEscape? c).map fun unit => ⟨.string (unit :: units), lexer.tokens⟩
  | .hex units value missing =>
    (hexDigit? c).map fun digit =>
      if missing ≤ 1 then ⟨.string ((value * 16 + digit) :: units), lexer.tokens⟩
      else ⟨.hex units (value * 16 + digit) (missing - 1), lexer.tokens⟩

/-- The tokens of a text, unless it ends inside one. -/
def tokens? (text : List Char) : Option (List Token) :=
  match text.foldlM Lexer.step {} with
  | none => none
  | some ⟨.blank, tokens⟩ => some tokens.reverse
  | some ⟨.number text, tokens⟩ =>
    (Token.ofNumber? text.reverse).map fun token => (token :: tokens).reverse
  | some ⟨.word text, tokens⟩ =>
    (Token.ofWord? text.reverse).map fun token => (token :: tokens).reverse
  | some _ => none

/-- A container that is still open, its parts in reverse. -/
inductive Frame where
  | items (seen : List Json)
  | members (seen : List (Option String × Json)) (key : Option String)

/-- What may come next. -/
inductive Stage where
  | value
  | firstValue
  | firstKey
  | key
  | colon
  | after

structure Builder where
  frames : List Frame := []
  stage : Stage := .value
  result : Json := .null

/-- Puts a finished value into the innermost container. -/
def Builder.place (v : Json) : List Frame → Builder
  | [] => ⟨[], .after, v⟩
  | .items seen :: frames => ⟨.items (v :: seen) :: frames, .after, .null⟩
  | .members seen key :: frames => ⟨.members ((key, v) :: seen) key :: frames, .after, .null⟩

/-- Starts a value with its first token. -/
def Builder.startValue (frames : List Frame) : Token → Option Builder
  | .value v => some (place v frames)
  | .mark c =>
    if c = '[' then some ⟨.items [] :: frames, .firstValue, .null⟩
    else if c = '\x7b' then some ⟨.members [] none :: frames, .firstKey, .null⟩
    else none

def Builder.startKey (frames : List Frame) : Token → Option Builder
  | .value (.string key) =>
    match frames with
    | .members seen _ :: frames => some ⟨.members seen key :: frames, .colon, .null⟩
    | _ => none
  | _ => none

/-- Closes the innermost container, if the mark is its own. -/
def Builder.close (c : Char) : List Frame → Option Builder
  | .items seen :: frames =>
    if c = ']' then some (place (.array seen.reverse) frames) else none
  | .members seen _ :: frames =>
    if c = '\x7d' then some (place (.object seen.reverse) frames) else none
  | [] => none

/-- A comma, after which a container goes on with a value or with a key. -/
def Builder.separate (frames : List Frame) : Option Builder :=
  match frames with
  | .items _ :: _ => some ⟨frames, .value, .null⟩
  | .members _ _ :: _ => some ⟨frames, .key, .null⟩
  | [] => none

def Builder.step (b : Builder) (token : Token) : Option Builder :=
  match b.stage, token with
  | .value, token => startValue b.frames token
  | .firstValue, .mark ']' => close ']' b.frames
  | .firstValue, token => startValue b.frames token
  | .firstKey, .mark '\x7d' => close '\x7d' b.frames
  | .firstKey, token => startKey b.frames token
  | .key, token => startKey b.frames token
  | .colon, .mark ':' => some ⟨b.frames, .value, .null⟩
  | .colon, _ => none
  | .after, .mark ',' => separate b.frames
  | .after, .mark c => close c b.frames
  | .after, .value _ => none

/-- The document, unless a container is open or nothing was read. -/
def ofTokens? (tokens : List Token) : Option Json :=
  match tokens.foldlM Builder.step {} with
  | some ⟨[], .after, result⟩ => some result
  | _ => none

def parse? (text : String) : Option Json := (tokens? text.toList).bind ofTokens?

end Json

end TapeCalc
