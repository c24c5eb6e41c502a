import SqlTree.Text.Blank

/-!
# Writing with tidy blanks

A `Writer` grows a text at its end.  It knows nothing about SQL; it only keeps blanks tidy: no
doubled spaces, no space after an opening parenthesis, no space in front of a closing one or of a
comma.  What a call adds depends on the end of the text alone, so the text is held last character
first; `Writer.text` is the text in reading order, and each call has a lemma that says what it does
to it.
-/

namespace SqlTree

/-- How line breaks and indentation are written. -/
inductive Layout where
  /-- Clauses stand on lines of their own, and groups of conditions are indented by tabs. -/
  | pretty
  /-- Everything stands on one line. -/
  | compact
  deriving DecidableEq, Repr, Inhabited

namespace Layout

/-- The name of a layout. -/
def name : Layout → String
  | pretty => "pretty"
  | compact => "compact"

/-- The layout of a name. -/
def ofName? (s : String) : Option Layout :=
  [pretty, compact].find? fun layout => layout.name == s

theorem ofName?_name (layout : Layout) : ofName? layout.name = some layout := by
  cases layout <;> decide

end Layout

/-- A text that grows at its end. -/
structure Writer where
  /-- How line breaks are written. -/
  layout : Layout
  /-- The text, last character first. -/
  reversed : List Char := []
  deriving DecidableEq, Repr

namespace Writer

/-- The text. -/
def text (w : Writer) : List Char := w.reversed.reverse

/-- Adds a character. -/
def push (w : Writer) (c : Char) : Writer := { w with reversed := c :: w.reversed }

/-- Adds a text as it is. -/
def write (w : Writer) (s : String) : Writer :=
  { w with reversed := s.toList.reverse ++ w.reversed }

/-- Drops the spaces at the end. -/
def trimSpaces (w : Writer) : Writer :=
  { w with reversed := w.reversed.dropWhile (· == ' ') }

/-- Whether a space after a character would be one too many. -/
def endsTidily (c : Char) : Bool := c == ' ' || c == '\n' || c == '\t' || c == '('

/-- Adds a space, unless the text is empty or ends in a space, a line break, a tab or an opening
parenthesis. -/
def blank (w : Writer) : Writer :=
  match w.reversed with
  | [] => w
  | c :: _ => if endsTidily c then w else w.push ' '

/-- Adds a comma and a space in place of the spaces at the end. -/
def comma (w : Writer) : Writer := (w.trimSpaces.push ',').push ' '

/-- Starts a new line in place of the spaces at the end, or adds a space if all stands on one line.
-/
def lineBreak (w : Writer) : Writer :=
  match w.layout with
  | .pretty =>
    let trimmed := w.trimSpaces
    if trimmed.reversed = [] then trimmed else trimmed.push '\n'
  | .compact => w.blank

/-- Adds tabs, unless all stands on one line. -/
def indent (w : Writer) (depth : Nat) : Writer :=
  match w.layout with
  | .pretty => { w with reversed := List.replicate depth '\t' ++ w.reversed }
  | .compact => w

/-- Adds an opening parenthesis. -/
def openParenthesis (w : Writer) : Writer := w.push '('

/-- Adds a closing parenthesis in place of the spaces at the end. -/
def closeParenthesis (w : Writer) : Writer := w.trimSpaces.push ')'

/-- Ends the statement: a terminator takes the place of all blank characters at the end. -/
def terminate (w : Writer) (terminator : String) : Writer :=
  ({ w with reversed := w.reversed.dropWhile Text.isBlank } : Writer).write terminator

/-- A call to a writer. -/
inductive Step where
  /-- Adds a text. -/
  | write (s : String)
  /-- Adds several texts. -/
  | print (parts : List String)
  /-- Adds a space where one is due. -/
  | blank
  /-- Adds a comma. -/
  | comma
  /-- Starts a new line. -/
  | lineBreak
  /-- Indents. -/
  | indent (depth : Nat)
  /-- Opens a parenthesis. -/
  | openParenthesis
  /-- Closes a parenthesis. -/
  | closeParenthesis
  /-- Ends the statement. -/
  | terminate (terminator : String)
  deriving DecidableEq, Repr

/-- Makes a call. -/
def apply (w : Writer) : Step → Writer
  | .write s => w.write s
  | .print parts => parts.foldl write w
  | .blank => w.blank
  | .comma => w.comma
  | .lineBreak => w.lineBreak
  | .indent depth => w.indent depth
  | .openParenthesis => w.openParenthesis
  | .closeParenthesis => w.closeParenthesis
  | .terminate terminator => w.terminate terminator

/-! ### What the calls do to the text -/

@[simp] theorem text_push (w : Writer) (c : Char) : (w.push c).text = w.text ++ [c] := by
  simp [text, push]

@[simp] theorem text_write (w : Writer) (s : String) : (w.write s).text = w.text ++ s.toList := by
  simp [text, write]

@[simp] theorem text_openParenthesis (w : Writer) : w.openParenthesis.text = w.text ++ ['('] := by
  simp [openParenthesis]

/-- A closing parenthesis drops the spaces in front of it. -/
@[simp] theorem text_closeParenthesis (w : Writer) :
    w.closeParenthesis.text = w.trimSpaces.text ++ [')'] := by
  simp [closeParenthesis]

/-- A comma drops the spaces in front of it, and has one behind. -/
@[simp] theorem text_comma (w : Writer) : w.comma.text = w.trimSpaces.text ++ [',', ' '] := by
  simp [comma]

/-- A terminator drops all blanks in front of it. -/
@[simp] theorem text_terminate (w : Writer) (terminator : String) :
    (w.terminate terminator).text = Text.trimEnd w.text ++ terminator.toList := by
  simp [terminate, text, write, Text.trimEnd]

/-- Dropping spaces leaves a text that is empty or ends in something else. -/
theorem head_trimSpaces {w : Writer} {c : Char} {rest : List Char}
    (h : w.trimSpaces.reversed = c :: rest) : c ≠ ' ' := by
  have aux : ∀ cs : List Char, cs.dropWhile (· == ' ') = c :: rest → c ≠ ' ' := by
    intro cs
    induction cs with
    | nil => simp
    | cons d ds ih =>
      -- A space is dropped, and anything else ends the dropping.
      by_cases hd : d = ' '
      · simpa [hd] using ih
      · intro h
        simp [hd] at h
        exact h.1 ▸ hd
  exact aux w.reversed h

/-- What holds of a text both with and without one more space holds of it behind a blank. -/
@[elab_as_elim]
theorem blank_induction {P : Writer → Prop} {w : Writer} (same : P w) (space : P (w.push ' ')) :
    P w.blank := by
  unfold blank
  split
  · exact same
  · split
    · exact same
    · exact space

/-- What holds of a text without its spaces at the end, of that with a line break, and of the text
with a blank holds of it behind a line break. -/
@[elab_as_elim]
theorem lineBreak_induction {P : Writer → Prop} {w : Writer} (trimmed : P w.trimSpaces)
    (line : P (w.trimSpaces.push '\n')) (space : P w.blank) : P w.lineBreak := by
  unfold lineBreak
  split
  · dsimp only
    split
    · exact trimmed
    · exact line
  · exact space

/-- What holds of a text both with and without more tabs holds of it behind an indentation. -/
@[elab_as_elim]
theorem indent_induction {P : Writer → Prop} {w : Writer} {depth : Nat} (same : P w)
    (tabs : P { w with reversed := List.replicate depth '\t' ++ w.reversed }) :
    P (w.indent depth) := by
  unfold indent
  split
  · exact tabs
  · exact same

end Writer

end SqlTree
