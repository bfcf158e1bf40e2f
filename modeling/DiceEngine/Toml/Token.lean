/-!
# Tokens of TOML documents

A document in TOML 0.5 is cut into tokens before it is read. A run of letters, digits, dashes and
underscores is one token, be it a key or the beginning of a number; only its place in the document
says which. Line ends are single newlines here, so a carriage return in front of a newline is
dropped first.
-/

namespace DiceEngine.Toml

inductive Token where
  | newline
  /-- A run of spaces and tabs. -/
  | blanks (run : List Char)
  | comment
  | equals
  | period
  | comma
  | colon
  | plus
  | leftBrace
  | rightBrace
  | leftBracket
  | rightBracket
  /-- A run of letters, digits, dashes and underscores. -/
  | bare (text : List Char)
  /-- What a string in quotes stands for. -/
  | quoted (text : List Char) (multiline : Bool)
  deriving DecidableEq, Repr

namespace Token

def isBlank (c : Char) : Bool := c == ' ' || c == '\t'

def isBare (c : Char) : Bool := c.isAlphanum || c == '-' || c == '_'

/-- What a comment may hold. -/
def isCommentChar (c : Char) : Bool := c == '\t' || 0x20 ≤ c.toNat

/-- What a string may hold as it is. -/
def isStringChar (c : Char) : Bool := (c == '\t' || 0x20 ≤ c.toNat) && c != '\x7f'

def hexValue? (c : Char) : Option Nat :=
  if c.isDigit then some (c.toNat - '0'.toNat)
  else if 'a' ≤ c && c ≤ 'f' then some (c.toNat - 'a'.toNat + 10)
  else if 'A' ≤ c && c ≤ 'F' then some (c.toNat - 'A'.toNat + 10)
  else none

/-- The character whose code is written with these hexadecimal digits, where there is one. -/
def ofHex? (digits : List Char) : Option Char := do
  let code ← digits.foldlM (fun n c => do return 16 * n + (← hexValue? c)) 0
  if code.isValidChar then some (Char.ofNat code) else none

/-- The two kinds of strings, with the quote that delimits them. -/
structure Quote where
  /-- Whether a backslash begins an escape. -/
  escapes : Bool
  multiline : Bool

def Quote.mark (q : Quote) : Char := if q.escapes then '"' else '\''

/-- What a backslash at the end of a line leaves out: blanks up to a newline, and then blanks and
newlines. -/
inductive Gap where
  | none
  | toNewline
  | toText
  deriving DecidableEq

/-- The rest of a string behind its opening quotes, and the text behind the string. What is read so
far is kept in `seen`, the last character first. -/
def string (q : Quote) (gap : Gap) (seen : List Char) :
    List Char → Option (List Char × List Char)
  | [] => .none
  | c :: rest =>
    if gap = .toNewline then
      if isBlank c then string q .toNewline seen rest
      else if c = '\n' then string q .toText seen rest
      else .none
    else if gap = .toText && (isBlank c || c == '\n') then string q .toText seen rest
    else if c = q.mark then
      if !q.multiline then some (seen.reverse, rest)
      else
        match rest with
        | c1 :: c2 :: rest2 =>
          if c1 = c && c2 = c then
            match rest2 with
            | c3 :: c4 :: rest4 =>
              if c3 = c && c4 = c then some ((c :: c :: seen).reverse, rest4)
              else if c3 = c then some ((c :: seen).reverse, c4 :: rest4)
              else some (seen.reverse, rest2)
            | [c3] => if c3 = c then some ((c :: seen).reverse, []) else some (seen.reverse, rest2)
            | [] => some (seen.reverse, [])
          else string q .none (c :: seen) rest
        | _ => string q .none (c :: seen) rest
    else if c = '\n' then
      if q.multiline then string q .none (c :: seen) rest else .none
    else if c = '\\' && q.escapes then
      match rest with
      | '"' :: rest => string q .none ('"' :: seen) rest
      | '\\' :: rest => string q .none ('\\' :: seen) rest
      | 'b' :: rest => string q .none ('\x08' :: seen) rest
      | 'f' :: rest => string q .none ('\x0c' :: seen) rest
      | 'n' :: rest => string q .none ('\n' :: seen) rest
      | 'r' :: rest => string q .none ('\r' :: seen) rest
      | 't' :: rest => string q .none ('\t' :: seen) rest
      | 'u' :: x1 :: x2 :: x3 :: x4 :: rest => do
        let x ← ofHex? [x1, x2, x3, x4]
        string q .none (x :: seen) rest
      | 'U' :: x1 :: x2 :: x3 :: x4 :: x5 :: x6 :: x7 :: x8 :: rest => do
        let x ← ofHex? [x1, x2, x3, x4, x5, x6, x7, x8]
        string q .none (x :: seen) rest
      | ' ' :: rest => if q.multiline then string q .toNewline seen rest else .none
      | '\t' :: rest => if q.multiline then string q .toNewline seen rest else .none
      | '\n' :: rest => if q.multiline then string q .toText seen rest else .none
      | _ => .none
    else if isStringChar c then string q .none (c :: seen) rest
    else .none

/-- A string behind its first quote. A newline right behind three quotes is not part of it. -/
def quotedToken (escapes : Bool) (s : List Char) : Option (Token × List Char) :=
  let mark := Quote.mark ⟨escapes, false⟩
  let finish (multiline : Bool) (s : List Char) : Option (Token × List Char) :=
    (string ⟨escapes, multiline⟩ .none [] s).map fun r => (quoted r.1 multiline, r.2)
  match s with
  | c1 :: c2 :: rest =>
    if c1 = mark && c2 = mark then
      match rest with
      | '\n' :: rest => finish true rest
      | _ => finish true rest
    else if c1 = mark then some (quoted [] false, c2 :: rest)
    else finish false s
  | [c1] => if c1 = mark then some (quoted [] false, []) else .none
  | [] => .none

/-- The first token of a text, and what is behind it. -/
def next : List Char → Option (Token × List Char)
  | [] => .none
  | '\n' :: rest => some (newline, rest)
  | '#' :: rest => some (comment, rest.dropWhile isCommentChar)
  | '=' :: rest => some (equals, rest)
  | '.' :: rest => some (period, rest)
  | ',' :: rest => some (comma, rest)
  | ':' :: rest => some (colon, rest)
  | '+' :: rest => some (plus, rest)
  | '{' :: rest => some (leftBrace, rest)
  | '}' :: rest => some (rightBrace, rest)
  | '[' :: rest => some (leftBracket, rest)
  | ']' :: rest => some (rightBracket, rest)
  | '"' :: rest => quotedToken true rest
  | '\'' :: rest => quotedToken false rest
  | c :: rest =>
    if isBlank c then some (blanks (c :: rest.takeWhile isBlank), rest.dropWhile isBlank)
    else if isBare c then some (bare (c :: rest.takeWhile isBare), rest.dropWhile isBare)
    else .none

/-- The tokens of a text, if there are at most `limit` of them. -/
def scanWithin : (limit : Nat) → List Char → Option (List Token)
  | _, [] => some []
  | 0, _ => .none
  | limit + 1, s => do
    let (t, rest) ← next s
    return t :: (← scanWithin limit rest)

/-- A text without the carriage returns in front of its newlines. -/
def foldLines : List Char → List Char
  | '\r' :: '\n' :: rest => '\n' :: foldLines rest
  | c :: rest => c :: foldLines rest
  | [] => []

/-- The tokens of a document, which may begin with a byte order mark. A token has at least one
character, so there are no more tokens than characters. -/
def scan (document : String) : Option (List Token) :=
  let s := match document.toList with
    | '\ufeff' :: rest => foldLines rest
    | s => foldLines s
  scanWithin s.length s

end Token

end DiceEngine.Toml
