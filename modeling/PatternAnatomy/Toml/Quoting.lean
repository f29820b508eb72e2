import PatternAnatomy.Toml.Scan

namespace PatternAnatomy.Toml

open Scan

/-- The character with a code point given in hexadecimal digits. -/
def codePoint (size : Nat) : Scan Char := do
  let digits ← times (satisfying (Text.isDigitOf 16)) size
  let n := Text.numberOf 16 digits
  if n.isValidChar then return Char.ofNat n else failure

def escape : Scan Char := do
  discard (char '\\')
  match ← satisfying fun _ => true with
  | 'b' => return '\x08'
  | 't' => return '\t'
  | 'n' => return '\n'
  | 'f' => return '\x0c'
  | 'r' => return '\r'
  | '"' => return '"'
  | '\\' => return '\\'
  | 'u' => codePoint 4
  | 'U' => codePoint 8
  | _ => failure

def basicChar : Scan Char := satisfying fun c => isPlain c && c ≠ '"' && c ≠ '\\'

def literalChar : Scan Char := satisfying fun c => isPlain c && c ≠ '\''

def basicString : Scan Text := do
  discard (char '"')
  let t ← many (basicChar <|> escape)
  discard (char '"')
  return t

def literalString : Scan Text := do
  discard (char '\'')
  let t ← many literalChar
  discard (char '\'')
  return t

/-- A backslash at the end of a line takes all white space up to the next character with it. -/
def joinedLines : Scan Unit := do
  discard (char '\\')
  blanks
  newline
  discard (many ((do discard (satisfying isBlank)) <|> newline))

/-- A quote that is not one of three that close the string. -/
def innerQuote (quote : Char) : Scan Char := do
  notAhead (exactly [quote, quote, quote])
  char quote

/-- A string between three quotes, whose content is read in pieces. Up to two more quotes before the
closing ones belong to the content, and a newline right behind the opening ones does not. -/
def multiline (quote : Char) (piece : Scan Text) : Scan Text := do
  exactly [quote, quote, quote]
  discard (optional newline)
  let pieces ← many piece
  exactly [quote, quote, quote]
  let extra ← exactly [quote, quote] *> pure [quote, quote] <|> exactly [quote] *> pure [quote] <|>
    pure []
  return pieces.flatten ++ extra

def newlineText : Scan Text := newline *> pure ['\n']

def multilineBasic : Scan Text :=
  multiline '"' <|
    (do return [← basicChar <|> innerQuote '"']) <|> joinedLines *> pure [] <|>
    (do return [← escape]) <|> newlineText

def multilineLiteral : Scan Text :=
  multiline '\'' <| (do return [← literalChar <|> innerQuote '\'']) <|> newlineText

def string : Scan Text := multilineBasic <|> multilineLiteral <|> basicString <|> literalString

end PatternAnatomy.Toml
