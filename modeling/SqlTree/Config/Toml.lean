import SqlTree.Text.Hex

/-!
# Settings files

The part of TOML in which settings are written: strings under keys, tables without content, and
tables that hold one of these.  `Toml.entries?` reads the ends of all paths of keys in such a text;
a text with other values has no such reading.  It is the same whether a table is written as a
section, with dotted keys or in braces.  A line ends in a line feed, with or without a carriage
return in front, and in a string of several lines it is a line feed.
-/

namespace SqlTree.Toml

/-- Whether a character may stand in comments and strings: a tab or no control character. -/
def isPrintable (c : Char) : Bool := c == '\t' || (0x20 ≤ c.toNat && c.toNat != 0x7f)

/-- Whether a character is blank inside a line. -/
def isInlineBlank (c : Char) : Bool := c == ' ' || c == '\t'

/-- The text after blanks inside a line. -/
def skipBlanks (cs : List Char) : List Char := cs.dropWhile isInlineBlank

/-- The text after the end of a line, which may come after blanks and a comment.  The end of the
text ends a line too. -/
def afterLine? (cs : List Char) : Option (List Char) :=
  let cs := skipBlanks cs
  let cs := match cs with
    | '#' :: rest => rest.dropWhile isPrintable
    | rest => rest
  match cs with
  | [] => some []
  | '\n' :: rest => some rest
  | '\r' :: '\n' :: rest => some rest
  | _ => none

/-! ### Strings -/

/-- The character of a code point in hexadecimal digits, unless it is a surrogate or too large. -/
def charOfHex? (cs : List Char) : Option Char := do
  let ds ← cs.mapM Text.Hex.digit?
  let n := ds.foldl (fun n d => 16 * n + d.val) 0
  if n.isValidChar then some (Char.ofNat n) else none

/-- The character of an escape after its backslash, and the text after it. -/
def escape? : List Char → Option (Char × List Char)
  | 'b' :: rest => some ('\x08', rest)
  | 't' :: rest => some ('\t', rest)
  | 'n' :: rest => some ('\n', rest)
  | 'f' :: rest => some ('\x0c', rest)
  | 'r' :: rest => some ('\r', rest)
  | '"' :: rest => some ('"', rest)
  | '\\' :: rest => some ('\\', rest)
  | 'u' :: rest => digits 4 rest
  | 'U' :: rest => digits 8 rest
  | _ => none
where
  /-- The character of a code point of a given number of digits. -/
  digits (count : Nat) (cs : List Char) : Option (Char × List Char) :=
    if (cs.take count).length = count then
      (charOfHex? (cs.take count)).map fun c => (c, cs.drop count)
    else none

/-- The text after blanks and line breaks. -/
def skipBreaks : List Char → List Char
  | '\n' :: rest => skipBreaks rest
  | '\r' :: '\n' :: rest => skipBreaks rest
  | c :: rest => if isInlineBlank c then skipBreaks rest else c :: rest
  | [] => []

/-- The text after a line break at the end of a line of a string, and after the blanks and line
breaks that follow it. -/
def afterContinuation? (cs : List Char) : Option (List Char) :=
  match skipBlanks cs with
  | '\n' :: rest => some (skipBreaks rest)
  | '\r' :: '\n' :: rest => some (skipBreaks rest)
  | _ => none

/-- The content of a string after its opening quotes, and the text after its closing ones.  In a
string of several lines up to two quotes may stand in front of the closing three; without `escapes`
a backslash stands for itself.  `fuel` bounds the length of the text. -/
def quoted? (quote : Char) (multiline escapes : Bool) :
    (fuel : Nat) → List Char → Option (List Char × List Char)
  | 0, _ => none
  | fuel + 1, cs => do
    match cs with
    | [] => none
    | c :: rest =>
      if c = quote then
        let run := (cs.takeWhile (· = quote)).length
        if !multiline then return ([], rest)
        else if 3 ≤ run then
          let kept := min (run - 3) 2
          return (List.replicate kept quote, cs.drop (kept + 3))
        else
          let (content, tail) ← quoted? quote multiline escapes fuel rest
          return (c :: content, tail)
      else if escapes && c = '\\' then
        match escape? rest with
        | some (c, rest) =>
          let (content, tail) ← quoted? quote multiline escapes fuel rest
          return (c :: content, tail)
        | none =>
          if multiline then quoted? quote multiline escapes fuel (← afterContinuation? rest)
          else none
      else if multiline && c = '\n' then
        let (content, tail) ← quoted? quote multiline escapes fuel rest
        return ('\n' :: content, tail)
      else if multiline && cs.take 2 = ['\r', '\n'] then
        let (content, tail) ← quoted? quote multiline escapes fuel (cs.drop 2)
        return ('\n' :: content, tail)
      else if isPrintable c then
        let (content, tail) ← quoted? quote multiline escapes fuel rest
        return (c :: content, tail)
      else none

/-- The text after a line break, if it starts with one. -/
def withoutFirstBreak : List Char → List Char
  | '\n' :: rest => rest
  | '\r' :: '\n' :: rest => rest
  | cs => cs

/-- A string of one line, and the text after it. -/
def lineString? : List Char → Option (List Char × List Char)
  | '"' :: rest => quoted? '"' false true (rest.length + 1) rest
  | '\'' :: rest => quoted? '\'' false false (rest.length + 1) rest
  | _ => none

/-- A string of any form, and the text after it. -/
def string? : List Char → Option (List Char × List Char)
  | '"' :: '"' :: '"' :: rest =>
    quoted? '"' true true (rest.length + 1) (withoutFirstBreak rest)
  | '\'' :: '\'' :: '\'' :: rest =>
    quoted? '\'' true false (rest.length + 1) (withoutFirstBreak rest)
  | cs => lineString? cs

/-! ### Keys -/

/-- Whether a character may stand in a key without quotes. -/
def isBareKey (c : Char) : Bool := c.isAlphanum || c == '_' || c == '-'

/-- A key, with or without quotes, and the text after it. -/
def key? (cs : List Char) : Option (String × List Char) :=
  match cs.takeWhile isBareKey with
  | [] => (lineString? cs).map fun (key, rest) => (String.ofList key, rest)
  | key => some (String.ofList key, cs.dropWhile isBareKey)

/-- Keys with dots between them, and the text after them and the blanks that follow; `fuel` bounds
their number. -/
def path? : (fuel : Nat) → List Char → Option (List String × List Char)
  | 0, _ => none
  | fuel + 1, cs => do
    let (key, rest) ← key? (skipBlanks cs)
    match skipBlanks rest with
    | '.' :: rest =>
      let (path, rest) ← path? fuel rest
      return (key :: path, rest)
    | rest => return ([key], rest)

/-! ### Values -/

/-- What a path of keys leads to. -/
inductive Content where
  /-- A string. -/
  | text (s : String)
  /-- A table or an array without content. -/
  | empty
  deriving DecidableEq, Repr

/-- The end of a path of keys. -/
structure Entry where
  /-- The keys from the outermost table on. -/
  path : List String
  /-- What they lead to. -/
  content : Content
  deriving DecidableEq, Repr

/-- The text after blanks, line breaks and comments; `fuel` bounds the number of lines. -/
def skipLines : (fuel : Nat) → List Char → List Char
  | 0, cs => cs
  | fuel + 1, cs =>
    match afterLine? cs with
    | some rest => skipLines fuel rest
    | none => skipBlanks cs

/-- A string, or a table or an array without content, and the text after it. -/
def content? (cs : List Char) : Option (Content × List Char) :=
  match cs with
  | '{' :: rest =>
    match skipBlanks rest with
    | '}' :: rest => some (.empty, rest)
    | _ => none
  | '[' :: rest =>
    match skipLines rest.length rest with
    | ']' :: rest => some (.empty, rest)
    | _ => none
  | _ => (string? cs).map fun (s, rest) => (.text (String.ofList s), rest)

/-- A path, an equals sign and what `read?` finds after it. -/
def assignment? {α : Type} (read? : List Char → Option (α × List Char)) (cs : List Char) :
    Option ((List String × α) × List Char) := do
  let (path, rest) ← path? cs.length cs
  match rest with
  | '=' :: rest =>
    let (a, rest) ← read? (skipBlanks rest)
    return ((path, a), rest)
  | _ => none

/-- A table in braces with one entry, and the text after it. -/
def inlineTable? : List Char → Option (Entry × List Char)
  | '{' :: rest => do
    let ((path, content), rest) ← assignment? content? rest
    match skipBlanks rest with
    | '}' :: rest => return (⟨path, content⟩, rest)
    | _ => none
  | _ => none

/-- The end of the path in a value, and the text after the value. -/
def value? (cs : List Char) : Option (Entry × List Char) :=
  match content? cs with
  | some (content, rest) => some (⟨[], content⟩, rest)
  | none => inlineTable? cs

/-! ### Lines -/

/-- A line that is not blank. -/
inductive Line where
  /-- The start of the section of a table. -/
  | header (path : List String)
  /-- An entry of the section. -/
  | entry (e : Entry)
  deriving DecidableEq, Repr

/-- A line without its end, and the text after it. -/
def line? (cs : List Char) : Option (Line × List Char) :=
  match cs with
  | '[' :: rest => do
    let (path, rest) ← path? rest.length rest
    match rest with
    | ']' :: rest => return (.header path, rest)
    | _ => none
  | _ => do
    let ((path, inner), rest) ← assignment? value? cs
    return (.entry ⟨path ++ inner.path, inner.content⟩, rest)

/-- The lines of a text; `fuel` bounds its length. -/
def lines? : (fuel : Nat) → List Char → Option (List Line)
  | _, [] => some []
  | 0, _ => none
  | fuel + 1, cs =>
    match afterLine? cs with
    | some rest => lines? fuel rest
    | none => do
      let (line, rest) ← line? (skipBlanks cs)
      return line :: (← lines? fuel (← afterLine? rest))

/-- The tables that have a section. -/
def headers (lines : List Line) : List (List String) :=
  lines.filterMap fun line => match line with
    | .header path => some path
    | .entry _ => none

/-- The ends of the paths in a section and in those after it.  A section without entries is a table
without content, unless one of `tables` is inside it. -/
def sectionEntries (tables : List (List String)) (current : List String) : List Line → List Entry
  | [] => []
  | .entry e :: rest => ⟨current ++ e.path, e.content⟩ :: sectionEntries tables current rest
  | .header path :: rest =>
    let hasEntry := match rest with
      | .entry _ :: _ => true
      | _ => false
    let hasTable := tables.any fun table => table != path && path.isPrefixOf table
    if hasEntry || hasTable then sectionEntries tables path rest
    else ⟨path, .empty⟩ :: sectionEntries tables path rest

/-- The ends of all paths in a text, which may start with a byte order mark.  No table has two
sections. -/
def entries? (text : String) : Option (List Entry) := do
  let cs := text.toList
  let cs := if cs.head? = some '\ufeff' then cs.drop 1 else cs
  let lines ← lines? (cs.length + 1) cs
  if (headers lines).Nodup then some (sectionEntries (headers lines) [] lines) else none

end SqlTree.Toml
