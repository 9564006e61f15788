import WidgetLint.Text.Digit
import WidgetLint.Markup.Name
import WidgetLint.Markup.Node
import WidgetLint.Markup.Problem

/-!
# Pieces of markup

A source text is first cut into pieces: open tags, close tags and whole nodes. What is no other
piece is text, and a run of it makes one node. Pieces do not depend on how elements nest; only the
raw bodies of scripts and styles are told apart by the name of their tag, and only in html.
-/

namespace WidgetLint.Markup

open Text

/-- What a piece of the source is. -/
inductive PieceKind where
  /-- An open tag that awaits its close tag. -/
  | opening (tag : Tag)
  | closing (name : String)
  /-- A node that is complete as it stands. -/
  | whole (node : Node)

/-- A piece of the source, its place and what was wrong with it. -/
structure Piece where
  kind : PieceKind
  span : Span
  problems : List Problem

/-! ## Attributes -/

/-- The problem at every opening angle bracket among the characters. -/
def angleProblems (position : Position) : List Char → List Problem
  | [] => []
  | c :: rest =>
    let later := angleProblems (position.next c) rest
    if c = '<' then ⟨.angleInValue, position⟩ :: later else later

/-- An attribute value after its opening quote, the cursor after it and its problems. -/
def quotedValue (quote : Char) (c : Cursor) : AttributeValue × Cursor × List Problem :=
  let text := c.run (· != quote)
  let stop := c.skip (· != quote)
  let unterminated := if stop.rest.isEmpty then [⟨.unterminatedValue, c.position⟩] else []
  (⟨String.ofList text, some quote, c.spanTo stop⟩, stop.drop 1,
    angleProblems c.position text ++ unterminated)

/-- The characters of an unquoted attribute value: up to a blank, an angle bracket or the slash of
a self-closing tag. -/
def bareText : List Char → List Char
  | [] => []
  | '/' :: '>' :: _ => []
  | c :: rest => if isBlank c || c == '<' || c == '>' then [] else c :: bareText rest

def attributeValue (c : Cursor) : AttributeValue × Cursor × List Problem :=
  match c.rest with
  | '"' :: _ => quotedValue '"' (c.drop 1)
  | '\'' :: _ => quotedValue '\'' (c.drop 1)
  | rest =>
    let text := bareText rest
    let stop := c.drop text.length
    (⟨String.ofList text, none, c.spanTo stop⟩, stop, [])

def attribute? (c : Cursor) : Option (Attribute × Cursor × List Problem) :=
  match name? c with
  | none => none
  | some (name, afterName) =>
    let next := skipBlanks afterName
    if next.startsWith ['='] then
      let (value, stop, problems) := attributeValue (skipBlanks (next.drop 1))
      some (⟨name, c.spanTo afterName, some value⟩, stop, problems)
    else
      some (⟨name, c.spanTo afterName, none⟩, next, [])

/-- How an open tag ends. -/
inductive TagEnd where
  | selfClosed
  | closed
  | missing
deriving DecidableEq, Repr

/-- What stands between the name of an open tag and its end. -/
structure TagRest where
  attributes : List Attribute
  ending : TagEnd
  problems : List Problem
  cursor : Cursor

/-- The attributes of a tag and its end, read in at most `fuel` steps. A character that starts no
attribute is passed over. -/
def tagRest : Nat → Cursor → TagRest
  | 0, c => ⟨[], .missing, [], c⟩
  | fuel + 1, c =>
    match c.rest with
    | [] => ⟨[], .missing, [], c⟩
    | '/' :: '>' :: _ => ⟨[], .selfClosed, [], c.drop 2⟩
    | '>' :: _ => ⟨[], .closed, [], c.drop 1⟩
    | _ =>
      match attribute? c with
      | some (found, next, problems) =>
        let others := tagRest fuel (skipBlanks next)
        { others with
          attributes := found :: others.attributes
          problems := problems ++ others.problems }
      | none => tagRest fuel (skipBlanks (c.drop 1))

/-! ## Tags -/

/-- The problem at every character that is not a blank. -/
def strayProblems (position : Position) : List Char → List Problem
  | [] => []
  | c :: rest =>
    let later := strayProblems (position.next c) rest
    if isBlank c then later else ⟨.strayInClose c, position⟩ :: later

/-- The end of a close tag after its name: the cursor after it and the problems before it. -/
def closeTagEnd (c : Cursor) : Cursor × List Problem :=
  ((c.skip (· != '>')).drop 1, strayProblems c.position (c.run (· != '>')))

/-- The characters of a raw body: up to the first close tag that begins with the given name. -/
def rawText (closing : List Char) : List Char → List Char
  | [] => []
  | c :: rest =>
    if beginsIgnoringCase closing (c :: rest) then []
    else c :: rawText closing rest

/-- A script or style element whose open tag ends at the cursor. -/
def rawElement (tag : Tag) (c : Cursor) : Piece × Cursor :=
  let closing := '<' :: '/' :: tag.name.toList
  let body := rawText closing c.rest
  let stop := c.drop body.length
  let text := String.ofList body
  let content := if isScript tag.name then Leaf.script text else Leaf.style text
  let child := Node.leaf content (c.spanTo stop)
  if stop.rest.isEmpty then
    let span := ⟨tag.span.start, stop.position⟩
    (⟨.whole (.element { tag with unclosed := true, span := span } [child]), span,
      [⟨.missingClose tag.name, tag.span.start⟩]⟩, stop)
  else
    let (next, problems) := closeTagEnd (stop.drop closing.length)
    let span := ⟨tag.span.start, next.position⟩
    (⟨.whole (.element { tag with span := span } [child]), span, problems⟩, next)

/-- The open tag at a cursor, if one starts there. In html a void element is complete without a
close tag, and the body of a script or style element belongs to the piece. -/
def openTag? (html : Bool) (c : Cursor) : Option (Piece × Cursor) :=
  match name? (c.drop 1) with
  | none => none
  | some (name, afterName) =>
    let start := skipBlanks afterName
    let rest := tagRest (start.rest.length + 1) start
    let span := c.spanTo rest.cursor
    let tag : Tag := ⟨name, rest.attributes, rest.ending == .selfClosed, false, span⟩
    let problems := rest.problems ++
      (if rest.ending = .missing then [⟨.unterminatedTag name, c.position⟩] else [])
    if tag.selfClosing || html && isVoid name then
      some (⟨.whole (.element tag []), span, problems⟩, rest.cursor)
    else if html && (isScript name || isStyle name) then
      let (piece, next) := rawElement tag rest.cursor
      some ({ piece with problems := problems ++ piece.problems }, next)
    else some (⟨.opening tag, span, problems⟩, rest.cursor)

def closeTag? (c : Cursor) : Option (Piece × Cursor) :=
  match name? (c.drop 2) with
  | none => none
  | some (name, afterName) =>
    let (next, problems) := closeTagEnd afterName
    some (⟨.closing name, c.spanTo next, problems⟩, next)

/-! ## Other nodes -/

/-- The characters before the first occurrence of `word`, or all of them. -/
def textBefore (word : List Char) : List Char → List Char
  | [] => []
  | c :: rest => if word.isPrefixOf (c :: rest) then [] else c :: textBefore word rest

/-- A node between two delimiters, the first `opening` characters long. At the end of the source
the closing delimiter may be missing. -/
def delimited (content : String → Leaf) (opening : Nat) (closing : List Char) (fault : Fault)
    (c : Cursor) : Piece × Cursor :=
  let inner := c.drop opening
  let value := textBefore closing inner.rest
  let stop := inner.drop value.length
  let next := stop.drop closing.length
  let span := c.spanTo next
  (⟨.whole (.leaf (content (String.ofList value)) span), span,
    if stop.rest.isEmpty then [⟨fault, c.position⟩] else []⟩, next)

/-- The numeric reference at a cursor, whose two opening characters are known to be there. Its code
has to fit 32 bits. -/
def charRef? (c : Cursor) : Option (Leaf × Cursor) :=
  let start := c.drop 2
  let hex := start.startsWith ['x']
  let radix := if hex then 16 else 10
  let first := if hex then start.drop 1 else start
  let digits := first.run (isDigitIn radix)
  let stop := first.skip (isDigitIn radix)
  let code := numeralValue radix digits
  if digits.isEmpty || !stop.startsWith [';'] || 0x100000000 ≤ code then none
  else some (.charRef (String.ofList (if hex then 'x' :: digits else digits)) code, stop.drop 1)

def entityRef? (c : Cursor) : Option (Leaf × Cursor) :=
  match name? (c.drop 1) with
  | some (name, stop) => if stop.startsWith [';'] then some (.entityRef name, stop.drop 1) else none
  | none => none

def reference? (c : Cursor) : Option (Piece × Cursor) :=
  let found := if c.startsWith ['&', '#'] then charRef? c else entityRef? c
  found.map fun (content, next) =>
    let span := c.spanTo next
    (⟨.whole (.leaf content span), span, []⟩, next)

/-! ## Cutting a source into pieces -/

/-- The piece that starts at a cursor, if the cursor is not at text. -/
def piece? (html : Bool) (c : Cursor) : Option (Piece × Cursor) :=
  if c.startsWith ['<', '/'] then closeTag? c
  else if c.startsWith ['<', '!', '-', '-'] then
    some (delimited .comment 4 ['-', '-', '>'] .unterminatedComment c)
  else if c.startsWith ['<', '!', '[', 'C', 'D', 'A', 'T', 'A', '['] then
    some (delimited .cdata 9 [']', ']', '>'] .unterminatedCData c)
  else if c.startsWith ['<', '!'] then
    some (delimited .declaration 2 ['>'] .unterminatedDeclaration c)
  else if c.startsWith ['<'] then openTag? html c
  else if c.startsWith ['&'] then reference? c
  else none

/-- The text of a run that ends at `stop`, newest character first; an empty run is no piece. -/
def textPiece (start : Position) (text : List Char) (stop : Position) : List Piece :=
  if text.isEmpty then []
  else
    let span := ⟨start, stop⟩
    [⟨.whole (.leaf (.text (String.ofList text.reverse)) span), span, []⟩]

/-- The pieces from a cursor on, where `text`, newest character first, is the run of text that
began at `start` and goes on at the cursor. -/
def piecesFrom (html : Bool) : Nat → Position → List Char → Cursor → List Piece
  | 0, start, text, c => textPiece start text c.position
  | fuel + 1, start, text, c =>
    match c.rest with
    | [] => textPiece start text c.position
    | char :: _ =>
      match piece? html c with
      | some (piece, next) =>
        textPiece start text c.position ++ piece :: piecesFrom html fuel next.position [] next
      | none => piecesFrom html fuel start (char :: text) (c.drop 1)

def pieces (html : Bool) (source : String) : List Piece :=
  piecesFrom html source.length .first [] (.ofString source)

end WidgetLint.Markup
