/-!
Tokens of JSON text. A string token keeps what stands between the quotes as it is written, and a
word is any run of other characters up to the next mark, quote or blank.
-/

namespace Roster.Json

inductive Token where
  | mark (c : Char)
  | text (raw : List Char)
  | word (chars : List Char)
  /-- A string that the end of the text cuts off. -/
  | unclosed
  deriving DecidableEq, Repr

/-- Where in a token the scan is; what it has so far of one is kept in reverse. -/
inductive Scan where
  | between
  | inText (raw : List Char)
  | escaped (raw : List Char)
  | inWord (chars : List Char)
  deriving DecidableEq, Repr

def isSpace (c : Char) : Bool := c = ' ' || c = '\t' || c = '\n' || c = '\r'

def isMark (c : Char) : Bool :=
  c = '\x7b' || c = '\x7d' || c = '[' || c = ']' || c = ',' || c = ':'

/-- What `c` does between two tokens. -/
def Scan.enter (c : Char) : List Token × Scan :=
  if isSpace c then ([], .between)
  else if c = '"' then ([], .inText [])
  else if isMark c then ([.mark c], .between)
  else ([], .inWord [c])

def Scan.step (c : Char) : Scan → List Token × Scan
  | .between => enter c
  | .inText raw =>
    if c = '"' then ([.text raw.reverse], .between)
    else if c = '\\' then ([], .escaped (c :: raw))
    else ([], .inText (c :: raw))
  | .escaped raw => ([], .inText (c :: raw))
  | .inWord chars =>
    if isSpace c || c = '"' || isMark c then
      let (tokens, scan) := enter c
      (.word chars.reverse :: tokens, scan)
    else ([], .inWord (c :: chars))

def Scan.finish : Scan → List Token
  | .between => []
  | .inText _ | .escaped _ => [.unclosed]
  | .inWord chars => [.word chars.reverse]

def scan (s : Scan) : List Char → List Token
  | [] => s.finish
  | c :: cs => (s.step c).1 ++ scan (s.step c).2 cs

def tokens (text : String) : List Token := scan .between text.toList

end Roster.Json
