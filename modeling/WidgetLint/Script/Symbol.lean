/-!
# Punctuators

The operators, brackets and separators of scripts. Of two punctuators that both match, the longer
one is meant, so the list of all of them starts with the longest.
-/

namespace WidgetLint.Script

/-- A punctuator. -/
inductive Symbol where
  | ushrEq | ellipsis | eqEqEq | notEqEq | starStarEq | shlEq | shrEq | ushr | andAndEq | orOrEq
  | questionQuestionEq
  | arrow | eqEq | notEq | lessEq | greaterEq | andAnd | orOr | questionQuestion | questionDot
  | plusPlus | minusMinus | plusEq | minusEq | starEq | slashEq | percentEq | andEq | orEq
  | caretEq | starStar | shl | shr
  | plus | minus | star | slash | percent | less | greater | and | or | caret | tilde | not | eq
  | lparen | rparen | lbracket | rbracket | lbrace | rbrace | dot | comma | colon | semicolon
  | question
deriving DecidableEq, Repr

namespace Symbol

def text : Symbol → String
  | ushrEq => ">>>="
  | ellipsis => "..."
  | eqEqEq => "==="
  | notEqEq => "!=="
  | starStarEq => "**="
  | shlEq => "<<="
  | shrEq => ">>="
  | ushr => ">>>"
  | andAndEq => "&&="
  | orOrEq => "||="
  | questionQuestionEq => "??="
  | arrow => "=>"
  | eqEq => "=="
  | notEq => "!="
  | lessEq => "<="
  | greaterEq => ">="
  | andAnd => "&&"
  | orOr => "||"
  | questionQuestion => "??"
  | questionDot => "?."
  | plusPlus => "++"
  | minusMinus => "--"
  | plusEq => "+="
  | minusEq => "-="
  | starEq => "*="
  | slashEq => "/="
  | percentEq => "%="
  | andEq => "&="
  | orEq => "|="
  | caretEq => "^="
  | starStar => "**"
  | shl => "<<"
  | shr => ">>"
  | plus => "+"
  | minus => "-"
  | star => "*"
  | slash => "/"
  | percent => "%"
  | less => "<"
  | greater => ">"
  | and => "&"
  | or => "|"
  | caret => "^"
  | tilde => "~"
  | not => "!"
  | eq => "="
  | lparen => "("
  | rparen => ")"
  | lbracket => "["
  | rbracket => "]"
  | lbrace => "\x7b"
  | rbrace => "\x7d"
  | dot => "."
  | comma => ","
  | colon => ":"
  | semicolon => ";"
  | question => "?"

/-- All punctuators, longer ones before shorter ones. -/
def all : List Symbol :=
  [ushrEq, ellipsis, eqEqEq, notEqEq, starStarEq, shlEq, shrEq, ushr, andAndEq, orOrEq,
   questionQuestionEq, arrow, eqEq, notEq, lessEq, greaterEq, andAnd, orOr, questionQuestion,
   questionDot, plusPlus, minusMinus, plusEq, minusEq, starEq, slashEq, percentEq, andEq, orEq,
   caretEq, starStar, shl, shr, plus, minus, star, slash, percent, less, greater, and, or, caret,
   tilde, not, eq, lparen, rparen, lbracket, rbracket, lbrace, rbrace, dot, comma, colon,
   semicolon, question]

/-- Whether a punctuator is meant at the beginning of a text. In `a?.5:b` the question mark belongs
to a conditional and the point to a number. -/
def opens (s : Symbol) (cs : List Char) : Bool :=
  s.text.toList.isPrefixOf cs && !(s == questionDot && (cs[2]?).any Char.isDigit)

/-- The punctuator at the beginning of a text. -/
def read? (cs : List Char) : Option Symbol :=
  all.find? (·.opens cs)

end Symbol

end WidgetLint.Script
