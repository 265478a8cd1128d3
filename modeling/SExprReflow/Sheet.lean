import SExprReflow.Piece

/-!
# The sheet

A `Sheet` is what has to be known of the printed text to go on printing: the lists that
are open, the place reached, and the settings in force. It answers two questions.
`Sheet.gap?` says what belongs before a lexeme. It answers every lexeme but one: an opener
inside a compact list, whose place depends on how wide the list turns out to be.
`Sheet.pieces` and `Sheet.put` then print the lexeme after a gap.

Each open list keeps the settings that were in force when it was opened, and its style is
settled by its first child and stays. Indentation follows the settings in force now.
-/

namespace SExprReflow

/-- What separates a lexeme from the one before it. -/
inductive Gap where
  /-- Nothing at all. -/
  | hug
  /-- One space. -/
  | space
  /-- A line break and the indentation of the new line. -/
  | line
deriving DecidableEq, Repr

/-- A list that has been opened and not yet closed. -/
structure OpenList where
  settings : Settings
  /-- The line that the list was opened on. -/
  openedOn : Nat
  /-- Whether the list stands on one line, for being shortform or inside such a list. -/
  onOneLine : Bool := false
  /-- The style, once the first child is known. -/
  style : Option Style := none
  /-- The number of children that have been begun. -/
  children : Nat := 0
  /-- The number of atoms that follow one another on the current line. -/
  streak : Nat := 0
deriving DecidableEq

namespace OpenList

/-- Settles the style by the head of the list; a list that has none is normal. -/
def settleStyle (o : OpenList) (head : Option (List Char)) : OpenList :=
  let style := match head with
    | none => .normal
    | some h => o.settings.styleOf h
  { o with style := some style, onOneLine := o.onOneLine || style = .shortform }

/-- Whether atoms are counted: only in a normal list that may take several lines. -/
def counts (o : OpenList) : Bool := !o.onOneLine && o.style = some .normal

/-- The list after one more child that is an atom. -/
def afterAtom (o : OpenList) (g : Gap) (text : List Char) : OpenList :=
  if o.children = 0 then { o.settleStyle (some text) with children := 1, streak := 1 }
  else if o.counts then
    { o with children := o.children + 1, streak := if g = .line then 1 else o.streak + 1 }
  else { o with children := o.children + 1 }

/-- The list after one more child that is a list. -/
def afterList (o : OpenList) : OpenList :=
  if o.children = 0 then { o.settleStyle none with children := 1 }
  else if o.counts then { o with children := o.children + 1, streak := 0 }
  else { o with children := o.children + 1 }

/-- Whether the closer starts a line, given the line reached: it does in a normal list
that has come to span lines. A list that ends before its style is settled is normal. -/
def closesOnNewLine (o : OpenList) (line : Nat) : Bool :=
  !o.onOneLine && (o.style = none || o.style = some .normal) && line ≠ o.openedOn

end OpenList

/-- The state of the printed text. -/
structure Sheet where
  settings : Settings
  /-- The open lists, innermost first. -/
  lists : List OpenList := []
  cursor : Cursor := {}
deriving DecidableEq

namespace Sheet

/-- The closers that may still come to stand on the current line: one for each of the
innermost lists that are compact. -/
def closersDue (s : Sheet) : Nat :=
  (s.lists.takeWhile fun o => o.style = some .compact).length

/-- Whether a child of the given width fits after a space on the current line of the
innermost list, with the closers that may follow it; `none` if no list is open. -/
def hasRoom? (s : Sheet) (width : Int) : Option Bool :=
  s.lists.head?.map fun o =>
    decide (s.cursor.column + 1 + width + s.closersDue ≤ (o.settings.columnLimit : Int))

/-- Whether a list is open and a child of the given width fits in it. -/
def hasRoom (s : Sheet) (width : Nat) : Bool := s.hasRoom? width = some true

/-- What goes before a child of a compact list that is as wide as given. -/
def compactGap (s : Sheet) (width : Nat) : Gap := if s.hasRoom width then .space else .line

/-- What goes before a lexeme; `none` if it opens a list whose width decides. -/
def gap? (s : Sheet) (l : Lexeme) : Option Gap :=
  match s.lists, l.role with
  | [], .closer => some .hug
  | [], _ => some (if 0 < s.cursor.column then .line else .hug)
  | o :: _, .closer => some (if o.closesOnNewLine s.cursor.line then .line else .hug)
  | o :: _, .atom =>
    if o.children = 0 then some .hug
    else if o.onOneLine then some .space
    else if o.style = some .compact then some (s.compactGap l.width)
    else some (if o.streak < o.settings.wrapThreshold then .space else .line)
  | o :: _, .opener =>
    if o.children = 0 then some .hug
    else if o.onOneLine then some .space
    else if o.style = some .compact then none
    else some .line

/-- A line break before something that stands inside `depth` lists. -/
def lineBreak (s : Sheet) (depth : Nat) : Piece := .lineBreak (s.settings.indent depth)

/-- The pieces of a gap before something that stands inside `depth` lists. -/
def gapPieces (s : Sheet) (depth : Nat) : Gap → List Piece
  | .hug => []
  | .space => [.space]
  | .line => [s.lineBreak depth]

/-- The pieces printed for a lexeme after a gap. A closer stands inside the lists around
the one that it closes, and when there are none its line ends. -/
def pieces (s : Sheet) (g : Gap) (l : Lexeme) : List Piece :=
  match l.role with
  | .opener => s.gapPieces s.lists.length g ++ [.lexeme .opener]
  | .atom => s.gapPieces s.lists.length g ++ [.lexeme l]
  | .closer =>
    s.gapPieces (s.lists.length - 1) g ++
      .lexeme .closer :: (if s.lists.length = 1 then [s.lineBreak 0] else [])

/-- The sheet with its cursor after the given pieces. -/
def advance (s : Sheet) (ps : List Piece) : Sheet :=
  { s with cursor := s.cursor.advancePieces ps }

/-- The innermost list changed. -/
def modifyTop (s : Sheet) (f : OpenList → OpenList) : Sheet :=
  match s.lists with
  | [] => s
  | o :: os => { s with lists := f o :: os }

/-- Opens a list at the cursor. It stands on one line if the list around it does. -/
def push (s : Sheet) : Sheet :=
  { s with lists :=
      { settings := s.settings
        openedOn := s.cursor.line
        onOneLine := s.lists.head?.any OpenList.onOneLine } :: s.lists }

/-- The sheet after a lexeme has been printed after a gap. -/
def put (s : Sheet) (g : Gap) (l : Lexeme) : Sheet :=
  let s' := s.advance (s.pieces g l)
  match l.role with
  | .opener => (s'.modifyTop OpenList.afterList).push
  | .atom => s'.modifyTop fun o => o.afterAtom g l.text
  | .closer => { s' with lists := s'.lists.tail }

end Sheet

end SExprReflow
