import WidgetLint.Script.Printer

/-!
# Printed scripts as tokens

The layout of a printed tree is a list of tokens, each with the blanks before it. Here the layout is
computed alongside the text, and writing it out gives the text (`Expr.written_printed`,
`Stmt.written_printed`). Whatever is said about reading printed text is said about these tokens.
-/

namespace WidgetLint.Script

open Text Number

/-! ## Tokens as they are written -/

/-- What stands before a printed token. -/
inductive Spacing where
  | joined
  | spaced
  /-- A new line with the given indentation. -/
  | line (indent : Nat)
deriving DecidableEq, Repr

/-- The characters before a printed token. -/
def Spacing.chars : Spacing → List Char
  | joined => []
  | spaced => [' ']
  | line indent => '\n' :: List.replicate (4 * indent) ' '

/-- Whether a line ends before a printed token. -/
def Spacing.breaks : Spacing → Bool
  | line _ => true
  | _ => false

/-- The spelling of a token in printed text. -/
def TokenBody.spelling : TokenBody → String
  | number value => value.render
  | string value => quote value
  | template raw => "\x60" ++ raw ++ "\x60"
  | regex pattern flags => "/" ++ pattern ++ "/" ++ flags
  | boolean value => if value then "true" else "false"
  | null => "null"
  | word name => name
  | symbol s => s.text
  | eof => ""

/-- A printed token and what stands before it. -/
structure Printed where
  spacing : Spacing
  body : TokenBody
deriving DecidableEq, Repr

namespace Printed

def symbol (lead : Spacing) (s : Symbol) : Printed :=
  ⟨lead, .symbol s⟩

/-- A word of the grammar. -/
def keyword (lead : Spacing) (name : String) : Printed :=
  ⟨lead, .word name⟩

/-- A name of the script; the literal words have tokens of their own. -/
def name (lead : Spacing) (name : String) : Printed :=
  ⟨lead, wordBody name name.toList⟩

def chars (p : Printed) : List Char :=
  p.spacing.chars ++ p.body.spelling.toList

end Printed

def written (ts : List Printed) : List Char :=
  ts.flatMap Printed.chars

/-! ## Operators -/

/-- The token of a binary operator. -/
def BinaryOp.body : BinaryOp → TokenBody
  | add => .symbol .plus
  | sub => .symbol .minus
  | mul => .symbol .star
  | div => .symbol .slash
  | mod => .symbol .percent
  | exp => .symbol .starStar
  | eq => .symbol .eqEq
  | notEq => .symbol .notEq
  | strictEq => .symbol .eqEqEq
  | strictNotEq => .symbol .notEqEq
  | less => .symbol .less
  | greater => .symbol .greater
  | lessEq => .symbol .lessEq
  | greaterEq => .symbol .greaterEq
  | shl => .symbol .shl
  | shr => .symbol .shr
  | ushr => .symbol .ushr
  | bitAnd => .symbol .and
  | bitOr => .symbol .or
  | bitXor => .symbol .caret
  | and => .symbol .andAnd
  | or => .symbol .orOr
  | nullish => .symbol .questionQuestion
  | within => .word "in"
  | instanceOf => .word "instanceof"

def UnaryOp.body : UnaryOp → TokenBody
  | not => .symbol .not
  | neg => .symbol .minus
  | plus => .symbol .plus
  | bitNot => .symbol .tilde
  | typeOf => .word "typeof"
  | void => .word "void"
  | delete => .word "delete"

def UpdateOp.symbol : UpdateOp → Symbol
  | increment => .plusPlus
  | decrement => .minusMinus

def AssignOp.symbol : AssignOp → Symbol
  | assign => .eq
  | add => .plusEq
  | sub => .minusEq
  | mul => .starEq
  | div => .slashEq
  | mod => .percentEq
  | exp => .starStarEq
  | shl => .shlEq
  | shr => .shrEq
  | ushr => .ushrEq
  | bitAnd => .andEq
  | bitOr => .orEq
  | bitXor => .caretEq
  | and => .andAndEq
  | or => .orOrEq
  | nullish => .questionQuestionEq

/-- The least strengths with which the operands of a binary operator stand without parentheses. -/
def BinaryOp.operandStrengths (op : BinaryOp) : Strength × Strength :=
  if op = .exp then (op.strength + 1, op.strength) else (op.strength, op.strength + 1)

/-- Whether a unary operator has to be kept apart from the text of its operand. -/
def UnaryOp.parts (op : UnaryOp) (operand : String) : Bool :=
  op.isWord ||
    (op == .neg && operand.startsWith "-" || op == .plus && operand.startsWith "+")

/-- Whether an expression that starts a statement has to stand in parentheses. -/
def startsStatement (text : String) : Bool :=
  text.startsWith "\x7b" || text.startsWith "function"

/-! ## Layout -/

/-- Tokens in parentheses. -/
def fence (tokens : Spacing → List Printed) (lead : Spacing) : List Printed :=
  .symbol lead .lparen :: (tokens .joined ++ [.symbol .joined .rparen])

/-- Tokens in parentheses if the expression they print binds looser than `least`. -/
def Expr.fenced (e : Expr) (least : Strength) (tokens : Spacing → List Printed) (lead : Spacing) :
    List Printed :=
  if e.strength < least then fence tokens lead else tokens lead

/-- The lines of a block between braces. -/
def inBraces (indent : Nat) (body : List Stmt) (lines : List Printed) (lead : Spacing) :
    List Printed :=
  .symbol lead .lbrace ::
    (lines ++ [.symbol (if body.isEmpty then .joined else .line indent) .rbrace])

/-- A jump and its label. -/
def printedJump (keyword : String) (label : Option String) (lead : Spacing) : List Printed :=
  .keyword lead keyword :: ((label.map (.name .spaced)).toList ++ [.symbol .joined .semicolon])

mutual

/-- The tokens of an expression in a block of the given indentation. -/
def Expr.printed (indent : Nat) : Expr → Spacing → List Printed
  | .number _ value, lead => [⟨lead, .number value⟩]
  | .string _ value, lead => [⟨lead, .string value⟩]
  | .template _ raw, lead => [⟨lead, .template raw⟩]
  | .regex _ pattern flags, lead => [⟨lead, .regex pattern flags⟩]
  | .boolean _ value, lead => [⟨lead, .boolean value⟩]
  | .null _, lead => [⟨lead, .null⟩]
  | .ident _ name, lead => [.name lead name]
  | .this _, lead => [.keyword lead "this"]
  | .array _ items, lead =>
    .symbol lead .lbracket :: (printedItems indent items .joined ++ [.symbol .joined .rbracket])
  | .object _ members, lead =>
    .symbol lead .lbrace :: (printedMembers indent members .spaced ++
      [.symbol (if members.isEmpty then .joined else .spaced) .rbrace])
  | .function _ name params body, lead =>
    .keyword lead "function" :: ((name.map (.name .spaced)).toList ++
      .symbol .joined .lparen :: (printedAll indent params .joined ++
        .symbol .joined .rparen :: inBraces indent body (printedLines (indent + 1) body) .spaced))
  | .arrow _ params body, lead =>
    .symbol lead .lparen :: (printedAll indent params .joined ++
      .symbol .joined .rparen :: .symbol .spaced .arrow :: body.printed indent)
  | .unary _ op operand, lead =>
    ⟨lead, op.body⟩ :: operand.fenced .unary (operand.printed indent)
      (if op.parts (operand.guard .unary (operand.render indent)) then .spaced else .joined)
  | .update _ op .before operand, lead =>
    .symbol lead op.symbol :: operand.fenced .unary (operand.printed indent) .joined
  | .update _ op .behind operand, lead =>
    operand.fenced .call (operand.printed indent) lead ++ [.symbol .joined op.symbol]
  | .binary _ op left right, lead =>
    left.fenced op.operandStrengths.1 (left.printed indent) lead ++
      ⟨.spaced, op.body⟩ :: right.fenced op.operandStrengths.2 (right.printed indent) .spaced
  | .assign _ op target value, lead =>
    target.fenced .call (target.printed indent) lead ++
      .symbol .spaced op.symbol :: value.fenced .assignment (value.printed indent) .spaced
  | .conditional _ test whenTrue whenFalse, lead =>
    test.fenced (Strength.conditional + 1) (test.printed indent) lead ++
      .symbol .spaced .question ::
        (whenTrue.fenced .assignment (whenTrue.printed indent) .spaced ++
          .symbol .spaced .colon ::
            whenFalse.fenced .assignment (whenFalse.printed indent) .spaced)
  | .dot _ object optional name _, lead =>
    (if object.isNumber then fence (object.printed indent) lead
      else object.fenced .call (object.printed indent) lead) ++
      [.symbol .joined (if optional then .questionDot else .dot), .name .joined name]
  | .index _ object optional key, lead =>
    object.fenced .call (object.printed indent) lead ++
      ((if optional then [.symbol .joined .questionDot] else []) ++
        .symbol .joined .lbracket :: (key.printed indent .joined ++ [.symbol .joined .rbracket]))
  | .call _ callee optional arguments, lead =>
    callee.fenced .call (callee.printed indent) lead ++
      ((if optional then [.symbol .joined .questionDot] else []) ++
        .symbol .joined .lparen ::
          (printedAll indent arguments .joined ++ [.symbol .joined .rparen]))
  | .new _ callee arguments, lead =>
    .keyword lead "new" :: (callee.fenced .member (callee.printed indent) .spaced ++
      .symbol .joined .lparen ::
        (printedAll indent arguments .joined ++ [.symbol .joined .rparen]))
  | .sequence _ items, lead =>
    if items.isEmpty then [⟨lead, .eof⟩] else printedAll indent items lead
  | .spread _ argument, lead =>
    .symbol lead .ellipsis :: argument.fenced .assignment (argument.printed indent) .joined

def printedAll (indent : Nat) : List Expr → Spacing → List Printed
  | [], _ => []
  | [e], lead => e.fenced .assignment (e.printed indent) lead
  | e :: rest, lead =>
    e.fenced .assignment (e.printed indent) lead ++
      .symbol .joined .comma :: printedAll indent rest .spaced

def printedItems (indent : Nat) : List (Option Expr) → Spacing → List Printed
  | [], _ => []
  | none :: rest, lead => .symbol lead .comma :: printedItems indent rest .spaced
  | [some e], lead => e.fenced .assignment (e.printed indent) lead
  | some e :: rest, lead =>
    e.fenced .assignment (e.printed indent) lead ++
      .symbol .joined .comma :: printedItems indent rest .spaced

def printedMembers (indent : Nat) : List Member → Spacing → List Printed
  | [], _ => []
  | [member], lead => member.printed indent lead
  | member :: rest, lead =>
    member.printed indent lead ++ .symbol .joined .comma :: printedMembers indent rest .spaced

def Member.printed (indent : Nat) : Member → Spacing → List Printed
  | .spread argument, lead =>
    .symbol lead .ellipsis :: argument.fenced .assignment (argument.printed indent) .joined
  | .named _ .shorthand key (.assign _ _ _ value), lead =>
    key.printed indent lead ++
      .symbol .spaced .eq :: value.fenced .assignment (value.printed indent) .spaced
  | .named _ .shorthand key _, lead => key.printed indent lead
  | .named _ .pair key value, lead =>
    key.printed indent lead ++
      .symbol .joined .colon :: value.fenced .assignment (value.printed indent) .spaced
  | .named _ .getter key (.function _ _ params body), lead =>
    .keyword lead "get" :: (key.printed indent .spaced ++
      .symbol .joined .lparen :: (printedAll indent params .joined ++
        .symbol .joined .rparen :: inBraces indent body (printedLines (indent + 1) body) .spaced))
  | .named _ .setter key (.function _ _ params body), lead =>
    .keyword lead "set" :: (key.printed indent .spaced ++
      .symbol .joined .lparen :: (printedAll indent params .joined ++
        .symbol .joined .rparen :: inBraces indent body (printedLines (indent + 1) body) .spaced))
  | .named _ .method key (.function _ _ params body), lead =>
    key.printed indent lead ++
      .symbol .joined .lparen :: (printedAll indent params .joined ++
        .symbol .joined .rparen :: inBraces indent body (printedLines (indent + 1) body) .spaced)
  | .named _ _ key value, lead =>
    key.printed indent lead ++
      .symbol .joined .colon :: value.fenced .assignment (value.printed indent) .spaced

def Key.printed (indent : Nat) : Key → Spacing → List Printed
  | .ident name, lead => [.name lead name]
  | .string value, lead => [if isWordText value then .name lead value else ⟨lead, .string value⟩]
  | .number value, lead => [⟨lead, .number value⟩]
  | .computed key, lead =>
    .symbol lead .lbracket ::
      (key.fenced .assignment (key.printed indent) .joined ++ [.symbol .joined .rbracket])

def ArrowBody.printed (indent : Nat) : ArrowBody → List Printed
  | .expression value =>
    if value.isObject then fence (value.printed indent) .spaced
    else value.fenced .assignment (value.printed indent) .spaced
  | .block body => inBraces indent body (printedLines (indent + 1) body) .spaced

/-- The tokens of statements, each on a line of its own. -/
def printedLines (indent : Nat) : List Stmt → List Printed
  | [] => []
  | s :: rest => s.printed indent (.line indent) ++ printedLines indent rest

/-- The tokens of a statement. -/
def Stmt.printed (indent : Nat) : Stmt → Spacing → List Printed
  | .expression _ value, lead =>
    (if startsStatement (value.render indent) then fence (value.printed indent) lead
      else value.printed indent lead) ++ [.symbol .joined .semicolon]
  | .declaration _ kind declarators, lead =>
    .keyword lead kind.text ::
      (printedDeclarators indent declarators ++ [.symbol .joined .semicolon])
  | .function _ name params body, lead =>
    .keyword lead "function" :: .name .spaced name ::
      .symbol .joined .lparen :: (printedAll indent params .joined ++
        .symbol .joined .rparen :: inBraces indent body (printedLines (indent + 1) body) .spaced)
  | .returning _ value, lead =>
    .keyword lead "return" :: (printedOption indent value ++ [.symbol .joined .semicolon])
  | .branch _ test whenTrue whenFalse, lead =>
    .keyword lead "if" :: (fence (test.printed indent) .spaced ++
      (whenTrue.printed indent .spaced ++ printedElse indent whenFalse))
  | .forLoop _ init test update body, lead =>
    .keyword lead "for" :: .symbol .spaced .lparen :: (printedInit indent init ++
      .symbol .joined .semicolon :: (printedOption indent test ++
        .symbol .joined .semicolon :: (printedOption indent update ++
          .symbol .joined .rparen :: body.printed indent .spaced)))
  | .forEach _ left right body of, lead =>
    .keyword lead "for" :: .symbol .spaced .lparen :: (left.printed indent ++
      .keyword .spaced (if of then "of" else "in") :: (right.printed indent .spaced ++
        .symbol .joined .rparen :: body.printed indent .spaced))
  | .whileLoop _ test body, lead =>
    .keyword lead "while" ::
      (fence (test.printed indent) .spaced ++ body.printed indent .spaced)
  | .doWhile _ body test, lead =>
    .keyword lead "do" :: (body.printed indent .spaced ++
      .keyword .spaced "while" ::
        (fence (test.printed indent) .spaced ++ [.symbol .joined .semicolon]))
  | .block _ body, lead => inBraces indent body (printedLines (indent + 1) body) lead
  | .breaking _ label, lead => printedJump "break" label lead
  | .continuing _ label, lead => printedJump "continue" label lead
  | .throwing _ value, lead =>
    .keyword lead "throw" :: (value.printed indent .spaced ++ [.symbol .joined .semicolon])
  | .trying _ body handler finalizer, lead =>
    .keyword lead "try" :: (inBraces indent body (printedLines (indent + 1) body) .spaced ++
      (printedHandler indent handler ++ printedFinalizer indent finalizer))
  | .switch _ subject cases, lead =>
    .keyword lead "switch" :: (fence (subject.printed indent) .spaced ++
      .symbol .spaced .lbrace ::
        (printedCases (indent + 1) cases ++ [.symbol (.line indent) .rbrace]))
  | .labeled _ label body, lead =>
    .name lead label :: .symbol .joined .colon :: body.printed indent .spaced
  | .empty _, lead => [.symbol lead .semicolon]
  | .debugger _, lead => [.keyword lead "debugger", .symbol .joined .semicolon]

def printedOption (indent : Nat) : Option Expr → List Printed
  | none => []
  | some e => e.printed indent .spaced

def printedElse (indent : Nat) : Option Stmt → List Printed
  | none => []
  | some s => .keyword .spaced "else" :: s.printed indent .spaced

def printedDeclarators (indent : Nat) : List Declarator → List Printed
  | [] => [⟨.spaced, .eof⟩]
  | [d] => d.printed indent
  | d :: rest => d.printed indent ++ .symbol .joined .comma :: printedDeclarators indent rest

def Declarator.printed (indent : Nat) : Declarator → List Printed
  | .mk target none => target.printed indent .spaced
  | .mk target (some value) =>
    target.printed indent .spaced ++
      .symbol .spaced .eq :: value.fenced .assignment (value.printed indent) .spaced

def ForInit.printed (indent : Nat) : ForInit → List Printed
  | .declaration kind declarators =>
    .keyword .joined kind.text :: printedDeclarators indent declarators
  | .expression value => value.printed indent .joined

def printedInit (indent : Nat) : Option ForInit → List Printed
  | none => []
  | some init => init.printed indent

def printedHandler (indent : Nat) : Option Handler → List Printed
  | none => []
  | some handler => .keyword .spaced "catch" :: handler.printed indent

def Handler.printed (indent : Nat) : Handler → List Printed
  | .mk none body => inBraces indent body (printedLines (indent + 1) body) .spaced
  | .mk (some param) body =>
    fence (param.printed indent) .spaced ++
      inBraces indent body (printedLines (indent + 1) body) .spaced

def printedFinalizer (indent : Nat) : Option (List Stmt) → List Printed
  | none => []
  | some body =>
    .keyword .spaced "finally" :: inBraces indent body (printedLines (indent + 1) body) .spaced

def printedCases (indent : Nat) : List Case → List Printed
  | [] => []
  | c :: rest => c.printed indent ++ printedCases indent rest

def Case.printed (indent : Nat) : Case → List Printed
  | .mk none body =>
    .keyword (.line indent) "default" :: .symbol .joined .colon :: printedLines (indent + 1) body
  | .mk (some test) body =>
    .keyword (.line indent) "case" :: (test.printed indent .spaced ++
      .symbol .joined .colon :: printedLines (indent + 1) body)

end

/-! ## The forms of members -/

section
variable {params : List Expr} {body : List Stmt}

/-- The tokens of the parameters and the body of a function. -/
def printedFunction (indent : Nat) (params : List Expr) (body : List Stmt) : List Printed :=
  .symbol .joined .lparen :: (printedAll indent params .joined ++
    .symbol .joined .rparen :: inBraces indent body (printedLines (indent + 1) body) .spaced)

theorem printedFunction_append (rest : List Printed) :
    printedFunction indent params body ++ rest =
      .symbol .joined .lparen :: (printedAll indent params .joined ++ .symbol .joined .rparen ::
        (inBraces indent body (printedLines (indent + 1) body) .spaced ++ rest)) := by
  simp [printedFunction]

end

/-- The key of a member, after the word that makes the member a getter or a setter. -/
def MemberKind.announce (kind : MemberKind) (key : Spacing → List Printed) (lead : Spacing) :
    List Printed :=
  match kind with
  | getter => .keyword lead "get" :: key .spaced
  | setter => .keyword lead "set" :: key .spaced
  | _ => key lead

/-- A named member is its key, its key and a default, a pair, or its key and the parameters and
body of a function, in the layout as in the text. -/
theorem Member.layout_cases {P : List Printed → String → Prop} {s : Span} {kind : MemberKind}
    {key : Key} {value : Expr} {lead : Spacing}
    (hname : P (key.printed indent lead) (key.render indent))
    (hdefault : ∀ t op target inner, value = .assign t op target inner →
      P (key.printed indent lead ++
          .symbol .spaced .eq :: inner.fenced .assignment (inner.printed indent) .spaced)
        (key.render indent ++ " = " ++ inner.guard .assignment (inner.render indent)))
    (hpair : P (key.printed indent lead ++
          .symbol .joined .colon :: value.fenced .assignment (value.printed indent) .spaced)
        (key.render indent ++ ": " ++ value.guard .assignment (value.render indent)))
    (hfunction : ∀ t name params body, value = .function t name params body →
      P (kind.announce (key.printed indent) lead ++ printedFunction indent params body)
        (kind.lead ++ key.render indent ++ "(" ++ commas (renderAll indent params) ++ ") " ++
          braced indent (renderLines (indent + 1) body))) :
    P ((Member.named s kind key value).printed indent lead)
      ((Member.named s kind key value).render indent) := by
  cases kind with
  | pair => exact hpair
  | shorthand =>
    cases value with
    | assign t op target inner => exact hdefault t op target inner rfl
    | _ => exact hname
  | _ =>
    cases value with
    | function t name params body => exact hfunction t name params body rfl
    | _ => exact hpair

/-! ## The layout spells the text -/

@[simp] theorem written_nil : written [] = [] := rfl

@[simp] theorem written_cons (p : Printed) (ts : List Printed) :
    written (p :: ts) = p.chars ++ written ts := rfl

@[simp] theorem written_append (ts us : List Printed) :
    written (ts ++ us) = written ts ++ written us := by
  simp [written]

theorem spelling_wordBody (name : String) : (wordBody name name.toList).spelling = name := by
  unfold wordBody
  split
  · rename_i h; rw [h]; rfl
  · split
    · rename_i h; rw [h]; rfl
    · split
      · rename_i h; rw [h]; rfl
      · simp [TokenBody.spelling]

@[simp] theorem Printed.chars_symbol (lead : Spacing) (s : Symbol) :
    (Printed.symbol lead s).chars = lead.chars ++ s.text.toList := rfl

@[simp] theorem Printed.chars_keyword (lead : Spacing) (name : String) :
    (Printed.keyword lead name).chars = lead.chars ++ name.toList := rfl

@[simp] theorem Printed.chars_name (lead : Spacing) (name : String) :
    (Printed.name lead name).chars = lead.chars ++ name.toList := by
  rw [Printed.chars, Printed.name, spelling_wordBody]

@[simp] theorem Printed.chars_mk (lead : Spacing) (body : TokenBody) :
    (⟨lead, body⟩ : Printed).chars = lead.chars ++ body.spelling.toList := rfl

@[simp] theorem Spacing.chars_joined : Spacing.joined.chars = [] := rfl

@[simp] theorem Spacing.chars_spaced : Spacing.spaced.chars = [' '] := rfl

theorem Spacing.chars_line (indent : Nat) :
    (Spacing.line indent).chars = '\n' :: (pad indent).toList := by
  simp [Spacing.chars, pad]

@[simp] theorem BinaryOp.spelling_body (op : BinaryOp) : op.body.spelling = op.text := by
  cases op <;> rfl

@[simp] theorem UnaryOp.spelling_body (op : UnaryOp) : op.body.spelling = op.text := by
  cases op <;> rfl

@[simp] theorem UpdateOp.text_symbol (op : UpdateOp) : op.symbol.text = op.text := by
  cases op <;> rfl

@[simp] theorem AssignOp.text_symbol (op : AssignOp) : op.symbol.text = op.text := by
  cases op <;> rfl

theorem Expr.guard_of_isNumber {e : Expr} (h : e.isNumber = true) (text : String) :
    e.guard .call text = text := by
  cases e with
  | number s value => rfl
  | _ => cases h

theorem Expr.guard_of_isObject {e : Expr} (h : e.isObject = true) (text : String) :
    e.guard .assignment text = text := by
  cases e with
  | object s members => rfl
  | _ => cases h

/-- The tokens are laid out as the text, after what stands before them. -/
def Spells (tokens : Spacing → List Printed) (text : String) : Prop :=
  ∀ lead, written (tokens lead) = lead.chars ++ text.toList

theorem Spells.fence {tokens : Spacing → List Printed} {text : String} (h : Spells tokens text) :
    Spells (fence tokens) (parens text) := by
  intro lead
  simp [Script.fence, parens, h .joined, Symbol.text]

theorem Spells.fenced {tokens : Spacing → List Printed} {text : String} (h : Spells tokens text)
    (e : Expr) (least : Strength) : Spells (e.fenced least tokens) (e.guard least text) := by
  intro lead
  unfold Expr.fenced Expr.guard
  split
  · exact h.fence lead
  · exact h lead

theorem unaryText_eq (op : UnaryOp) (operand : String) :
    unaryText op operand = op.text ++ (if op.parts operand then " " else "") ++ operand := rfl

theorem expressionLine_eq (text : String) :
    expressionLine text = (if startsStatement text then parens text else text) ++ ";" := by
  unfold expressionLine startsStatement
  split <;> rfl

/-- Lines, each after an end of line. -/
def onLines (lines : List String) : List Char :=
  lines.flatMap fun line => '\n' :: line.toList

theorem cons_intercalate_eq_onLines (line : String) (lines : List String) :
    '\n' :: ("\n".intercalate (line :: lines)).toList = onLines (line :: lines) := by
  induction lines generalizing line with
  | nil => simp [onLines]
  | cons next lines ih =>
    have hnext := ih next
    rw [String.intercalate_cons_cons, String.toList_append, String.toList_append]
    have hbreak : "\n".toList = ['\n'] := rfl
    rw [hbreak, List.append_assoc, List.singleton_append, hnext]
    simp [onLines]

theorem cons_join_eq_onLines (lines : List String) :
    '\n' :: (String.join (lines.map (· ++ "\n"))).toList = onLines lines ++ ['\n'] := by
  induction lines with
  | nil => rfl
  | cons line lines ih =>
    have hbreak : "\n".toList = ['\n'] := rfl
    rw [List.map_cons, String.join_cons, String.toList_append, String.toList_append, hbreak,
      List.append_assoc, List.singleton_append, ih]
    simp [onLines]

theorem Spells.inBraces {indent : Nat} {body : List Stmt}
    (h : written (printedLines (indent + 1) body) = onLines (renderLines (indent + 1) body)) :
    Spells (inBraces indent body (printedLines (indent + 1) body))
      (braced indent (renderLines (indent + 1) body)) := by
  intro lead
  cases body with
  | nil => simp [Script.inBraces, printedLines, renderLines, braced, Symbol.text]
  | cons s rest =>
    have hlines := cons_intercalate_eq_onLines (pad (indent + 1) ++ s.render (indent + 1))
      (renderLines (indent + 1) rest)
    rw [renderLines] at h ⊢
    simp only [Script.inBraces, written_cons, written_append, h, ← hlines, Printed.chars_symbol,
      List.isEmpty_cons, Bool.false_eq_true, if_false, Spacing.chars_line, written_nil, braced,
      String.toList_append]
    simp [Symbol.text]

mutual

theorem Expr.spells (indent : Nat) : (e : Expr) → Spells (e.printed indent) (e.render indent)
  | .number .. | .string .. | .template .. | .regex .. | .boolean .. | .null _ => by
    intro lead; simp [Expr.printed, Expr.render, TokenBody.spelling]
  | .ident .. | .this _ => by intro lead; simp [Expr.printed, Expr.render]
  | .array _ items => by
    intro lead
    cases h : endsWithHole items <;>
      simp [Expr.printed, Expr.render, printedItems_spells, Symbol.text, h]
  | .object _ members => by
    intro lead
    cases members with
    | nil => simp [Expr.printed, Expr.render, printedMembers, Symbol.text]
    | cons member rest =>
      simp [Expr.printed, Expr.render, printedMembers_spells, Symbol.text]
  | .function _ name params body => by
    intro lead
    have hbody := (Spells.inBraces (printedLines_spells (indent + 1) body)) .spaced
    cases name <;>
      simp [Expr.printed, Expr.render, printedAll_spells, Symbol.text, hbody]
  | .arrow _ params body => by
    intro lead
    simp [Expr.printed, Expr.render, printedAll_spells, Symbol.text, body.spells]
  | .unary _ op operand => by
    intro lead
    have hoperand := (operand.spells indent).fenced operand .unary
    rw [Expr.printed, Expr.render, unaryText_eq]
    cases op.parts (operand.guard .unary (operand.render indent)) <;> simp [hoperand _]
  | .update _ op .before operand => by
    intro lead
    have hoperand := (operand.spells indent).fenced operand .unary
    simp [Expr.printed, Expr.render, hoperand _]
  | .update _ op .behind operand => by
    intro lead
    have hoperand := (operand.spells indent).fenced operand .call
    simp [Expr.printed, Expr.render, hoperand _]
  | .binary _ op left right => by
    intro lead
    have hleft := (left.spells indent).fenced left
    have hright := (right.spells indent).fenced right
    simp [Expr.printed, Expr.render, hleft _ _, hright _ _, BinaryOp.operandStrengths]
  | .assign _ op target value => by
    intro lead
    have htarget := (target.spells indent).fenced target .call
    have hvalue := (value.spells indent).fenced value .assignment
    simp [Expr.printed, Expr.render, htarget _, hvalue _]
  | .conditional _ test whenTrue whenFalse => by
    intro lead
    have htest := (test.spells indent).fenced test (Strength.conditional + 1)
    have htrue := (whenTrue.spells indent).fenced whenTrue .assignment
    have hfalse := (whenFalse.spells indent).fenced whenFalse .assignment
    simp [Expr.printed, Expr.render, htest _, htrue _, hfalse _, Symbol.text]
  | .dot _ object optional name _ => by
    intro lead
    have hobject := (object.spells indent).fenced object .call
    have hnumber := (object.spells indent).fence
    rw [Expr.printed, Expr.render]
    by_cases h : object.isNumber
    · rw [if_pos h]
      simp only [if_pos h, Expr.guard_of_isNumber h]
      cases optional <;> simp [hnumber _, Symbol.text]
    · rw [if_neg h]
      simp only [if_neg h]
      cases optional <;> simp [hobject _, Symbol.text]
  | .index _ object optional key => by
    intro lead
    have hobject := (object.spells indent).fenced object .call
    cases optional <;>
      simp [Expr.printed, Expr.render, hobject _, key.spells indent _, Symbol.text]
  | .call _ callee optional arguments => by
    intro lead
    have hcallee := (callee.spells indent).fenced callee .call
    cases optional <;>
      simp [Expr.printed, Expr.render, hcallee _, printedAll_spells, Symbol.text]
  | .new _ callee arguments => by
    intro lead
    have hcallee := (callee.spells indent).fenced callee .member
    simp [Expr.printed, Expr.render, hcallee _, printedAll_spells, Symbol.text]
  | .sequence _ items => by
    intro lead
    cases items with
    | nil => simp [Expr.printed, Expr.render, renderAll, commas, TokenBody.spelling]
    | cons e rest => simp [Expr.printed, Expr.render, printedAll_spells]
  | .spread _ argument => by
    intro lead
    have hargument := (argument.spells indent).fenced argument .assignment
    simp [Expr.printed, Expr.render, hargument _, Symbol.text]

theorem printedAll_spells (indent : Nat) : (es : List Expr) → (lead : Spacing) →
    written (printedAll indent es lead) =
      (if es.isEmpty then [] else lead.chars) ++ (commas (renderAll indent es)).toList
  | [], lead => by simp [printedAll, renderAll, commas]
  | [e], lead => by
    have he := (e.spells indent).fenced e .assignment
    simp [printedAll, renderAll, commas, he _]
  | e :: next :: rest, lead => by
    have he := (e.spells indent).fenced e .assignment
    have hrest := printedAll_spells indent (next :: rest) .spaced
    rw [printedAll, written_append, he lead, written_cons, hrest]
    · simp [renderAll, commas, Symbol.text]
    · simp

theorem printedItems_spells (indent : Nat) : (items : List (Option Expr)) → (lead : Spacing) →
    written (printedItems indent items lead) =
      (if items.isEmpty then [] else lead.chars) ++ (commas (renderItems indent items)).toList ++
        (if endsWithHole items then [','] else [])
  | [], lead => by simp [printedItems, renderItems, commas, endsWithHole]
  | [none], lead => by simp [printedItems, renderItems, commas, endsWithHole, Symbol.text]
  | none :: next :: rest, lead => by
    have hrest := printedItems_spells indent (next :: rest) .spaced
    have hhole : endsWithHole (none :: next :: rest) = endsWithHole (next :: rest) := rfl
    rw [printedItems, written_cons, hrest, hhole]
    cases next <;> simp [renderItems, commas, Symbol.text]
  | [some e], lead => by
    have he := (e.spells indent).fenced e .assignment
    simp [printedItems, renderItems, commas, endsWithHole, he _]
  | some e :: next :: rest, lead => by
    have he := (e.spells indent).fenced e .assignment
    have hrest := printedItems_spells indent (next :: rest) .spaced
    have hhole : endsWithHole (some e :: next :: rest) = endsWithHole (next :: rest) := rfl
    rw [printedItems, written_append, he lead, written_cons, hrest, hhole]
    · cases next <;> simp [renderItems, commas, Symbol.text]
    · simp

theorem printedMembers_spells (indent : Nat) : (members : List Member) → (lead : Spacing) →
    written (printedMembers indent members lead) =
      (if members.isEmpty then [] else lead.chars) ++
        (commas (renderMembers indent members)).toList
  | [], lead => by simp [printedMembers, renderMembers, commas]
  | [member], lead => by
    have hmember := member.spells indent lead
    simp [printedMembers, renderMembers, commas, hmember]
  | member :: next :: rest, lead => by
    have hmember := member.spells indent lead
    have hrest := printedMembers_spells indent (next :: rest) .spaced
    rw [printedMembers, written_append, hmember, written_cons, hrest]
    · simp [renderMembers, commas, Symbol.text]
    · simp

theorem Member.spells (indent : Nat) :
    (member : Member) → Spells (member.printed indent) (member.render indent)
  | .spread argument => by
    intro lead
    have hargument := (argument.spells indent).fenced argument .assignment
    simp [Member.printed, Member.render, hargument _, Symbol.text]
  | .named _ kind key value => by
    intro lead
    have hkey := key.spells indent
    have hvalue := (value.spells indent).fenced value .assignment
    have hdefault : ∀ t op target inner, value = .assign t op target inner →
        Spells (inner.fenced .assignment (inner.printed indent))
          (inner.guard .assignment (inner.render indent)) := by
      cases value with
      | assign t op target inner =>
        rintro _ _ _ _ ⟨⟩
        exact (inner.spells indent).fenced inner .assignment
      | _ => rintro _ _ _ _ ⟨⟩
    have hfunction : ∀ t name params body, value = .function t name params body →
        written (printedFunction indent params body) =
          ("(" ++ commas (renderAll indent params) ++ ") " ++
            braced indent (renderLines (indent + 1) body)).toList := by
      cases value with
      | function t name params body =>
        rintro _ _ _ _ ⟨⟩
        have hbody := (Spells.inBraces (printedLines_spells (indent + 1) body)) .spaced
        simp [printedFunction, printedAll_spells, hbody, Symbol.text]
      | _ => rintro _ _ _ _ ⟨⟩
    refine Member.layout_cases (P := fun ts text => written ts = lead.chars ++ text.toList)
      (hkey lead) (fun t op target inner h => ?_) ?_ (fun t name params body h => ?_)
    · simp [hkey _, hdefault _ _ _ _ h _, Symbol.text]
    · simp [hkey _, hvalue _, Symbol.text]
    · rw [written_append, hfunction _ _ _ _ h]
      cases kind <;> simp [MemberKind.announce, MemberKind.lead, hkey _]

theorem Key.spells (indent : Nat) : (key : Key) → Spells (key.printed indent) (key.render indent)
  | .ident name => by intro lead; simp [Key.printed, Key.render]
  | .string value => by
    intro lead
    cases h : isWordText value <;> simp [Key.printed, Key.render, h, TokenBody.spelling]
  | .number value => by intro lead; simp [Key.printed, Key.render, TokenBody.spelling]
  | .computed key => by
    intro lead
    have hkey := (key.spells indent).fenced key .assignment
    simp [Key.printed, Key.render, hkey _, Symbol.text]

theorem ArrowBody.spells (indent : Nat) : (body : ArrowBody) →
    written (body.printed indent) = ' ' :: (body.render indent).toList
  | .expression value => by
    have hvalue := (value.spells indent).fenced value .assignment
    have hobject := (value.spells indent).fence
    rw [ArrowBody.printed, ArrowBody.render]
    by_cases h : value.isObject
    · rw [if_pos h]
      simp only [if_pos h, Expr.guard_of_isObject h]
      exact hobject .spaced
    · rw [if_neg h]
      simp only [if_neg h]
      exact hvalue .spaced
  | .block body => by
    have hbody := (Spells.inBraces (printedLines_spells (indent + 1) body)) .spaced
    simp [ArrowBody.printed, ArrowBody.render, hbody]

theorem printedLines_spells (indent : Nat) : (body : List Stmt) →
    written (printedLines indent body) = onLines (renderLines indent body)
  | [] => by simp [printedLines, renderLines, onLines]
  | s :: rest => by
    have hs := s.spells indent (.line indent)
    have hrest := printedLines_spells indent rest
    simp [printedLines, renderLines, hs, hrest, Spacing.chars_line, onLines]

theorem Stmt.spells (indent : Nat) : (s : Stmt) → Spells (s.printed indent) (s.render indent)
  | .expression _ value => by
    intro lead
    have hvalue := value.spells indent
    rw [Stmt.printed, Stmt.render, expressionLine_eq]
    split
    · simp [hvalue.fence _, Symbol.text]
    · simp [hvalue _, Symbol.text]
  | .declaration _ kind declarators => by
    intro lead
    simp [Stmt.printed, Stmt.render, printedDeclarators_spells, Symbol.text]
  | .function _ name params body => by
    intro lead
    have hbody := (Spells.inBraces (printedLines_spells (indent + 1) body)) .spaced
    simp [Stmt.printed, Stmt.render, printedAll_spells, Symbol.text, hbody]
  | .returning _ value => by
    intro lead
    simp [Stmt.printed, Stmt.render, printedOption_spells, Symbol.text]
  | .branch _ test whenTrue whenFalse => by
    intro lead
    simp [Stmt.printed, Stmt.render, (test.spells indent).fence _, parens,
      whenTrue.spells indent _, printedElse_spells]
  | .forLoop _ init test update body => by
    intro lead
    simp [Stmt.printed, Stmt.render, printedInit_spells, printedOption_spells,
      body.spells indent _, Symbol.text]
  | .forEach _ left right body of => by
    intro lead
    cases of <;>
      simp [Stmt.printed, Stmt.render, left.spells, right.spells indent _, body.spells indent _,
        Symbol.text]
  | .whileLoop _ test body => by
    intro lead
    simp [Stmt.printed, Stmt.render, (test.spells indent).fence _, parens, body.spells indent _]
  | .doWhile _ body test => by
    intro lead
    simp [Stmt.printed, Stmt.render, (test.spells indent).fence _, parens, body.spells indent _,
      Symbol.text]
  | .block _ body => by
    intro lead
    have hbody := (Spells.inBraces (printedLines_spells (indent + 1) body)) lead
    simp [Stmt.printed, Stmt.render, hbody]
  | .breaking _ label => by
    intro lead
    cases label <;> simp [Stmt.printed, Stmt.render, printedJump, jumpText, Symbol.text]
  | .continuing _ label => by
    intro lead
    cases label <;> simp [Stmt.printed, Stmt.render, printedJump, jumpText, Symbol.text]
  | .throwing _ value => by
    intro lead
    simp [Stmt.printed, Stmt.render, value.spells indent _, Symbol.text]
  | .trying _ body handler finalizer => by
    intro lead
    have hbody := (Spells.inBraces (printedLines_spells (indent + 1) body)) .spaced
    simp [Stmt.printed, Stmt.render, hbody, printedHandler_spells, printedFinalizer_spells]
  | .switch _ subject cases => by
    intro lead
    have hlines := cons_join_eq_onLines (renderCases (indent + 1) cases)
    simp only [Stmt.printed, Stmt.render, written_cons, written_append,
      (subject.spells indent).fence _, printedCases_spells, Printed.chars_keyword,
      Printed.chars_symbol, Spacing.chars_line, String.toList_append]
    have hclose (tail : List Char) : onLines (renderCases (indent + 1) cases) ++
        ('\n' :: (pad indent).toList ++ tail) =
          '\n' :: (String.join ((renderCases (indent + 1) cases).map (· ++ "\n"))).toList ++
            (pad indent).toList ++ tail := by
      rw [hlines]
      simp
    rw [List.append_assoc ('\n' :: _), hclose]
    simp [parens, Symbol.text]
  | .labeled _ label body => by
    intro lead
    simp [Stmt.printed, Stmt.render, body.spells indent _, Symbol.text]
  | .empty _ => by intro lead; simp [Stmt.printed, Stmt.render, Symbol.text]
  | .debugger _ => by intro lead; simp [Stmt.printed, Stmt.render, Symbol.text]

theorem printedOption_spells (indent : Nat) : (e : Option Expr) →
    written (printedOption indent e) = (renderSpaced indent e).toList
  | none => by simp [printedOption, renderSpaced]
  | some e => by simp [printedOption, renderSpaced, e.spells indent _]

theorem printedElse_spells (indent : Nat) : (s : Option Stmt) →
    written (printedElse indent s) = (renderElse indent s).toList
  | none => by simp [printedElse, renderElse]
  | some s => by simp [printedElse, renderElse, s.spells indent _]

theorem printedDeclarators_spells (indent : Nat) : (declarators : List Declarator) →
    written (printedDeclarators indent declarators) =
      ' ' :: (commas (renderDeclarators indent declarators)).toList
  | [] => by simp [printedDeclarators, renderDeclarators, commas, TokenBody.spelling]
  | [d] => by simp [printedDeclarators, renderDeclarators, commas, d.spells]
  | d :: next :: rest => by
    have hrest := printedDeclarators_spells indent (next :: rest)
    rw [printedDeclarators, written_append, written_cons, hrest, d.spells]
    · simp [renderDeclarators, commas, Symbol.text]
    · simp

theorem Declarator.spells (indent : Nat) : (d : Declarator) →
    written (d.printed indent) = ' ' :: (d.render indent).toList
  | .mk target none => by simp [Declarator.printed, Declarator.render, target.spells indent _]
  | .mk target (some value) => by
    have hvalue := (value.spells indent).fenced value .assignment
    simp [Declarator.printed, Declarator.render, target.spells indent _, hvalue _, Symbol.text]

theorem ForInit.spells (indent : Nat) : (init : ForInit) →
    written (init.printed indent) = (init.render indent).toList
  | .declaration kind declarators => by
    simp [ForInit.printed, ForInit.render, printedDeclarators_spells]
  | .expression value => by simp [ForInit.printed, ForInit.render, value.spells indent _]

theorem printedInit_spells (indent : Nat) : (init : Option ForInit) →
    written (printedInit indent init) = (renderInit indent init).toList
  | none => by simp [printedInit, renderInit]
  | some init => by simp [printedInit, renderInit, init.spells]

theorem printedHandler_spells (indent : Nat) : (handler : Option Handler) →
    written (printedHandler indent handler) = (renderHandler indent handler).toList
  | none => by simp [printedHandler, renderHandler]
  | some handler => by simp [printedHandler, renderHandler, handler.spells]

theorem Handler.spells (indent : Nat) : (handler : Handler) →
    written (handler.printed indent) = ' ' :: (handler.render indent).toList
  | .mk none body => by
    have hbody := (Spells.inBraces (printedLines_spells (indent + 1) body)) .spaced
    simp [Handler.printed, Handler.render, hbody]
  | .mk (some param) body => by
    have hbody := (Spells.inBraces (printedLines_spells (indent + 1) body)) .spaced
    simp [Handler.printed, Handler.render, hbody, (param.spells indent).fence _, parens]

theorem printedFinalizer_spells (indent : Nat) : (finalizer : Option (List Stmt)) →
    written (printedFinalizer indent finalizer) = (renderFinalizer indent finalizer).toList
  | none => by simp [printedFinalizer, renderFinalizer]
  | some body => by
    have hbody := (Spells.inBraces (printedLines_spells (indent + 1) body)) .spaced
    simp [printedFinalizer, renderFinalizer, hbody]

theorem printedCases_spells (indent : Nat) : (cases : List Case) →
    written (printedCases indent cases) = onLines (renderCases indent cases)
  | [] => by simp [printedCases, renderCases, onLines]
  | c :: rest => by
    simp [printedCases, renderCases, c.spells, printedCases_spells indent rest, onLines]

theorem Case.spells (indent : Nat) : (c : Case) →
    written (c.printed indent) = onLines (c.render indent)
  | .mk none body => by
    have hbody := printedLines_spells (indent + 1) body
    simp [Case.printed, Case.render, hbody, Spacing.chars_line, onLines, Symbol.text]
  | .mk (some test) body => by
    have hbody := printedLines_spells (indent + 1) body
    simp [Case.printed, Case.render, hbody, Spacing.chars_line, onLines, Symbol.text,
      test.spells indent _]

end

end WidgetLint.Script
