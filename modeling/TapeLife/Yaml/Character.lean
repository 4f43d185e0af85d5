/-!
# Yaml/Character — classes of characters in a document

Which characters end a line, which separate words, which a document may hold at all, and which can
be written without an escape.
-/

namespace TapeLife.Yaml

/-- The separators of lines and of paragraphs, which end a line and are kept as they are. -/
def isSeparator (c : Char) : Bool := c == '\u2028' || c == '\u2029'

/-- Whether a character ends a line.  The other ways to end a line are replaced by a line feed
before a document is read. -/
def isBreak (c : Char) : Bool := c == '\n' || isSeparator c

/-- Whether a character separates words on a line. -/
def isBlank (c : Char) : Bool := c == ' ' || c == '\t'

/-- Whether a list of characters starts with something that ends a word, or is at its end. -/
def startsBlank : List Char → Bool
  | [] => true
  | c :: _ => isBlank c || isBreak c

/-- Whether a document may hold a character. -/
def isAllowed (c : Char) : Bool :=
  c == '\t' || c == '\n' || c == '\r' || (' ' ≤ c && c ≤ '~') || c == '\u0085'
    || ('\u00a0' ≤ c && c ≤ '\ud7ff') || ('\ue000' ≤ c && c ≤ '\ufffd') || '\uffff' < c

/-- Whether a character is written as itself outside double quotes.  Characters beyond the first
plane are not. -/
def isPlainlyWritten (c : Char) : Bool :=
  c == '\n' || (' ' ≤ c && c ≤ '~') || ('\u00a0' ≤ c && c ≤ '\ufffd' && c != '\ufeff')

/-- The characters that have a meaning of their own at the start of a word. -/
def indicators : List Char :=
  ['#', ',', '[', ']', '\x7b', '\x7d', '&', '*', '!', '|', '>', '\x27', '\x22', '%', '@', '\x60']

/-- The characters that end a word inside brackets. -/
def flowIndicators : List Char := [',', '[', ']', '\x7b', '\x7d']

/-- All ways to end a line as line feeds: a carriage return, alone or before a line feed, and the
next-line character. -/
def normalizeBreaks : List Char → List Char
  | [] => []
  | '\r' :: '\n' :: rest => '\n' :: normalizeBreaks rest
  | c :: rest => (if c == '\r' || c == '\u0085' then '\n' else c) :: normalizeBreaks rest

end TapeLife.Yaml
