/-
# TICKscript tokens

The lexer of the vendored `kapacitor/tick/ast/lex.go`: after a value it looks
for a binary operator first, after `=`, `=~` and `!~` for a regular expression.
Which characters beyond ASCII are letters or digits is a parameter
(`Unicode`). The value of a string or reference is what the parser makes of
its text (`Token.evaluate`).

Key definitions: `Token`, `next`, `newString`, `Token.evaluate`.
-/
import Chronograf.Lib.Replace
import Chronograf.Lib.Scanner

namespace Chronograf
namespace Tick

inductive TokenType
  | error | eof
  | var | dbrp
  | asgn | dot | pipe | atSign
  | ident | reference | lambda | number | string | duration
  | lparen | rparen | lsbracket | rsbracket | comma
  | not | true | false
  | regex | comment | star
  | plus | minus | mult | div | mod
  | and | or
  | equal | notEqual | less | greater | lessEqual | greaterEqual | regexEqual | regexNotEqual
  deriving DecidableEq

structure Token where
  typ : TokenType
  val : List Char
  deriving DecidableEq

def isSpace (c : Char) : Bool :=
  c = '\t' || c = '\n' || c = '\x0b' || c = '\x0c' || c = '\r' || c = ' ' || c = '\u0085' || c = '\u00a0' ||
    c = '\u1680' || '\u2000' ≤ c && c ≤ '\u200a' || c = '\u2028' || c = '\u2029' || c = '\u202f' || c = '\u205f' ||
    c = '\u3000'

/-- The letters and the decimal digits. No character is both, and no space is either. -/
structure Unicode where
  letter : Char → Bool
  digit : Char → Bool
  letter_ascii : ∀ c : Char, c.val < 128 → letter c = c.isAlpha
  digit_ascii : ∀ c : Char, c.val < 128 → digit c = c.isDigit
  letter_not_digit : ∀ c, letter c → digit c = Bool.false
  space : ∀ c, isSpace c → letter c = Bool.false ∧ digit c = Bool.false

/-- What state the lexer goes to after a token. -/
inductive Mode
  | token
  | binaryOperator
  | regexOrToken
  deriving DecidableEq

variable (u : Unicode)

def isValidIdent (c : Char) : Bool := u.digit c || u.letter c || c = '_'

def isDurUnit (c : Char) : Bool := c ∈ ['u', 'µ', 's', 'm', 'h', 'd', 'w']

/-! ### Tokens with an end of their own

The text that is taken, to the closing quote, and the text after it. -/

/-- Between quotes or slashes. After a `\`, `escaped`, the text goes on. -/
def quoted (q : Char) : Bool → List Char → Option (List Char × List Char)
  | _, [] => none
  | escaped, c :: cs =>
    if c = q ∧ ¬ escaped then some ([c], cs) else (quoted q (c = '\\') cs).map fun p => (c :: p.1, p.2)

/-- Between triple quotes, of which `k` are missing to the end. A `\` counts
only before the last one. -/
def triple : ℕ → Bool → List Char → Option (List Char × List Char)
  | _, _, [] => none
  | k, escaped, c :: cs =>
    if c = '\'' then
      if escaped then (triple k .false cs).map fun p => (c :: p.1, p.2)
      else if k = 1 then some ([c], cs)
      else (triple (k - 1) .false cs).map fun p => (c :: p.1, p.2)
    else if c = '\\' ∧ k = 1 then (triple 1 .true cs).map fun p => (c :: p.1, p.2)
    else (triple 3 .false cs).map fun p => (c :: p.1, p.2)

/-- After the first quote. -/
def singleOrTriple : List Char → Option (List Char × List Char)
  | '\'' :: '\'' :: cs => (triple 3 .false cs).map fun p => ('\'' :: '\'' :: p.1, p.2)
  | cs => quoted '\'' .false cs

/-- To the end of the line, and on if the next line begins with a slash. -/
def comment : Bool → List Char → List Char × List Char
  | _, [] => ([], [])
  | .false, c :: cs =>
    let p := comment (c = '\n') cs
    (c :: p.1, p.2)
  | .true, c :: cs =>
    if c ≠ '\n' ∧ isSpace c then
      let p := comment .true cs
      (c :: p.1, p.2)
    else if c = '/' then
      let p := comment .false cs
      (c :: p.1, p.2)
    else ([], c :: cs)

/-- The unit that begins with the character. -/
def durUnit (c : Char) (cs : List Char) : List Char × List Char :=
  if c = 'm' ∧ cs.head? = some 's' then ([c, 's'], cs.tail) else ([c], cs)

/-- After the first digit or point. -/
def numberOrDuration (foundDecimal : Bool) : List Char → Option (TokenType × List Char × List Char)
  | [] => some (.number, [], [])
  | c :: cs =>
    if c = '.' then
      if foundDecimal then none else (numberOrDuration .true cs).map fun p => (p.1, c :: p.2.1, p.2.2)
    else if u.digit c then (numberOrDuration foundDecimal cs).map fun p => (p.1, c :: p.2.1, p.2.2)
    else if !foundDecimal && isDurUnit c then some (.duration, durUnit c cs)
    else some (.number, [], c :: cs)

/-! ### The states of the lexer -/

/-- The token `typ` with the text that is taken after `opening`. -/
def emit (typ : TokenType) (opening : List Char) (mode : Mode) : Option (List Char × List Char) → Scan Mode Token
  | some p => .token ⟨typ, opening ++ p.1⟩ mode p.2
  | none => .stop ⟨.error, []⟩

def lexReference (cs : List Char) : Scan Mode Token := emit .reference ['"'] .binaryOperator (quoted '"' .false cs)

def lexSingleOrTripleString (cs : List Char) : Scan Mode Token :=
  emit .string ['\''] .binaryOperator (singleOrTriple cs)

def lexRegex (cs : List Char) : Scan Mode Token := emit .regex ['/'] .token (quoted '/' .false cs)

def lexComment (cs : List Char) : Scan Mode Token := emit .comment ['/'] .token (some (comment .false cs))

def keywords : List (String × TokenType) :=
  [("AND", .and), ("OR", .or), ("TRUE", .true), ("FALSE", .false), ("var", .var), ("dbrp", .dbrp)]

/-- Without a colon after it `lambda` is an identifier. -/
def identOrKeyword (text rest : List Char) : Scan Mode Token :=
  match keywords.lookup (String.ofList text) with
  | some typ => .token ⟨typ, text⟩ .binaryOperator rest
  | none =>
    if text = "lambda".toList ∧ rest.head? = some ':' then .token ⟨.lambda, text ++ [':']⟩ .binaryOperator rest.tail
    else .token ⟨.ident, text⟩ .binaryOperator rest

def lexIdentOrKeyword (c : Char) (cs : List Char) : Scan Mode Token :=
  identOrKeyword (c :: cs.takeWhile (isValidIdent u)) (cs.dropWhile (isValidIdent u))

def lexNumberOrDurationOrDot (c : Char) (cs : List Char) : Scan Mode Token :=
  if c = '.' ∧ ¬ cs.head?.any u.digit then .token ⟨.dot, [c]⟩ .token cs
  else
    match numberOrDuration u (c = '.') cs with
    | some (typ, text, rest) => .token ⟨typ, c :: text⟩ .binaryOperator rest
    | none => .stop ⟨.error, []⟩

/-- The tokens of one character, and the state after each. -/
def punctuation : Char → Option (TokenType × Mode)
  | '(' => some (.lparen, .token)
  | ')' => some (.rparen, .binaryOperator)
  | '[' => some (.lsbracket, .token)
  | ']' => some (.rsbracket, .token)
  | '|' => some (.pipe, .token)
  | '@' => some (.atSign, .token)
  | ',' => some (.comma, .token)
  | '*' => some (.star, .token)
  | _ => none

def lexPunctuation (c : Char) (cs : List Char) : Scan Mode Token :=
  match punctuation c with
  | some (typ, mode) => .token ⟨typ, [c]⟩ mode cs
  | none =>
    if c ≠ '/' then .stop ⟨.error, []⟩
    else if cs.head? = some '/' then lexComment cs
    else lexRegex cs

def lexToken : List Char → Scan Mode Token
  | [] => .stop ⟨.eof, []⟩
  | c :: cs =>
    if c = '-' then .token ⟨.minus, [c]⟩ .token cs
    else if c = '!' then .token ⟨.not, [c]⟩ .token cs
    else if u.digit c || c = '.' then lexNumberOrDurationOrDot u c cs
    else if u.letter c then lexIdentOrKeyword u c cs
    else if c = '"' then lexReference cs
    else if c = '\'' then lexSingleOrTripleString cs
    else if isSpace c then lexToken cs
    else lexPunctuation c cs

/-- The binary operators: what may follow the character, and what it is alone. -/
def operator : Char → Option (List (Char × TokenType × Mode) × TokenType × Mode)
  | '+' => some ([], .plus, .token)
  | '-' => some ([], .minus, .token)
  | '*' => some ([], .mult, .token)
  | '%' => some ([], .mod, .token)
  | '/' => some ([], .div, .token)
  | '!' => some ([('=', .notEqual, .token), ('~', .regexNotEqual, .regexOrToken)], .not, .token)
  | '>' => some ([('=', .greaterEqual, .token)], .greater, .token)
  | '<' => some ([('=', .lessEqual, .token)], .less, .token)
  | '=' => some ([('=', .equal, .token), ('~', .regexEqual, .regexOrToken)], .asgn, .regexOrToken)
  | _ => none

def lexOperator (c : Char) (two : List (Char × TokenType × Mode)) (typ : TokenType) (mode : Mode) :
    List Char → Scan Mode Token
  | [] => .token ⟨typ, [c]⟩ mode []
  | d :: cs =>
    match two.lookup d with
    | some (typ', mode') => .token ⟨typ', [c, d]⟩ mode' cs
    | none => .token ⟨typ, [c]⟩ mode (d :: cs)

def tryLexBinaryOperator : List Char → Scan Mode Token
  | [] => lexToken u []
  | c :: cs =>
    if isSpace c then tryLexBinaryOperator cs
    else if c = '/' ∧ cs.head? = some '/' then lexComment cs
    else
      match operator c with
      | some (two, typ, mode) => lexOperator c two typ mode cs
      | none => lexToken u (c :: cs)

def lexRegexOrToken : List Char → Scan Mode Token
  | [] => lexToken u []
  | c :: cs => if isSpace c then lexRegexOrToken cs else if c = '/' then lexRegex cs else lexToken u (c :: cs)

def next : Mode → List Char → Scan Mode Token
  | .token => lexToken u
  | .binaryOperator => tryLexBinaryOperator u
  | .regexOrToken => lexRegexOrToken u

/-! ### The values of literals -/

/-- The quotes in a literal without the `\` before them. -/
def unescape (quote : Char) (literal : List Char) : List Char := Replace.replaceAll ['\\', quote] [quote] literal

def newString (txt : List Char) : List Char :=
  if 6 ≤ txt.length ∧ txt.take 3 = ['\'', '\'', '\''] then (txt.drop 3).take (txt.length - 6)
  else unescape '\'' txt.tail.dropLast

def newReference (txt : List Char) : List Char := unescape '"' txt.tail.dropLast

/-- The token with the value of its literal; the text of a comment does not count. -/
def Token.evaluate (t : Token) : Token :=
  match t.typ with
  | .string => ⟨.string, newString t.val⟩
  | .reference => ⟨.reference, newReference t.val⟩
  | .comment => ⟨.comment, []⟩
  | _ => t

end Tick
end Chronograf
