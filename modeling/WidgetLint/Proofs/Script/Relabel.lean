import WidgetLint.Script.Parser.Basic

/-!
# Relabelled trees

A relabelling replaces every position in a tree and every key that is written as a string, and
leaves the rest of the tree alone. Moving a region inside a text, forgetting where a tree was read
and reading quoted names as plain ones are all relabellings.
-/

namespace WidgetLint.Text

/-- A stretch of text with both of its ends replaced. -/
def Span.move (f : Position → Position) (s : Span) : Span :=
  ⟨f s.start, f s.stop⟩

@[simp] theorem Span.move_start (f : Position → Position) (s : Span) :
    (s.move f).start = f s.start := rfl

@[simp] theorem Span.move_stop (f : Position → Position) (s : Span) :
    (s.move f).stop = f s.stop := rfl

end WidgetLint.Text

namespace WidgetLint.Script

open Text

/-- What becomes of the positions and of the string keys of a tree. -/
structure Relabeling where
  position : Position → Position
  stringKey : String → Key

/-- The relabelling that only replaces positions. -/
def Relabeling.moving (f : Position → Position) : Relabeling :=
  ⟨f, .string⟩

def Relabeling.span (r : Relabeling) (s : Span) : Span :=
  s.move r.position

@[simp] theorem Relabeling.moving_span (f : Position → Position) (s : Span) :
    (Relabeling.moving f).span s = s.move f := rfl

@[simp] theorem Relabeling.moving_stringKey (f : Position → Position) :
    (Relabeling.moving f).stringKey = .string := rfl

mutual

/-- An expression relabelled. -/
def Expr.relabel (r : Relabeling) : Expr → Expr
  | .number s value => .number (r.span s) value
  | .string s value => .string (r.span s) value
  | .template s raw => .template (r.span s) raw
  | .regex s pattern flags => .regex (r.span s) pattern flags
  | .boolean s value => .boolean (r.span s) value
  | .null s => .null (r.span s)
  | .ident s name => .ident (r.span s) name
  | .this s => .this (r.span s)
  | .array s items => .array (r.span s) (relabelItems r items)
  | .object s members => .object (r.span s) (relabelMembers r members)
  | .function s name params body =>
    .function (r.span s) name (relabelAll r params) (relabelBody r body)
  | .arrow s params body => .arrow (r.span s) (relabelAll r params) (body.relabel r)
  | .unary s op operand => .unary (r.span s) op (operand.relabel r)
  | .update s op side operand => .update (r.span s) op side (operand.relabel r)
  | .binary s op left right => .binary (r.span s) op (left.relabel r) (right.relabel r)
  | .assign s op target value => .assign (r.span s) op (target.relabel r) (value.relabel r)
  | .conditional s test whenTrue whenFalse =>
    .conditional (r.span s) (test.relabel r) (whenTrue.relabel r) (whenFalse.relabel r)
  | .dot s object optional name nameSpan =>
    .dot (r.span s) (object.relabel r) optional name (r.span nameSpan)
  | .index s object optional key => .index (r.span s) (object.relabel r) optional (key.relabel r)
  | .call s callee optional arguments =>
    .call (r.span s) (callee.relabel r) optional (relabelAll r arguments)
  | .new s callee arguments => .new (r.span s) (callee.relabel r) (relabelAll r arguments)
  | .sequence s items => .sequence (r.span s) (relabelAll r items)
  | .spread s argument => .spread (r.span s) (argument.relabel r)

def relabelAll (r : Relabeling) : List Expr → List Expr
  | [] => []
  | e :: rest => e.relabel r :: relabelAll r rest

def relabelOption (r : Relabeling) : Option Expr → Option Expr
  | none => none
  | some e => some (e.relabel r)

def relabelItems (r : Relabeling) : List (Option Expr) → List (Option Expr)
  | [] => []
  | item :: rest => relabelOption r item :: relabelItems r rest

def relabelMembers (r : Relabeling) : List Member → List Member
  | [] => []
  | member :: rest => member.relabel r :: relabelMembers r rest

def Member.relabel (r : Relabeling) : Member → Member
  | .named s kind key value => .named (r.span s) kind (key.relabel r) (value.relabel r)
  | .spread argument => .spread (argument.relabel r)

def Key.relabel (r : Relabeling) : Key → Key
  | .ident name => .ident name
  | .string value => r.stringKey value
  | .number value => .number value
  | .computed key => .computed (key.relabel r)

def ArrowBody.relabel (r : Relabeling) : ArrowBody → ArrowBody
  | .expression value => .expression (value.relabel r)
  | .block body => .block (relabelBody r body)

/-- A statement relabelled. -/
def Stmt.relabel (r : Relabeling) : Stmt → Stmt
  | .expression s value => .expression (r.span s) (value.relabel r)
  | .declaration s kind declarators =>
    .declaration (r.span s) kind (relabelDeclarators r declarators)
  | .function s name params body =>
    .function (r.span s) name (relabelAll r params) (relabelBody r body)
  | .returning s value => .returning (r.span s) (relabelOption r value)
  | .branch s test whenTrue whenFalse =>
    .branch (r.span s) (test.relabel r) (whenTrue.relabel r) (relabelElse r whenFalse)
  | .forLoop s init test update body =>
    .forLoop (r.span s) (relabelInit r init) (relabelOption r test) (relabelOption r update)
      (body.relabel r)
  | .forEach s left right body of =>
    .forEach (r.span s) (left.relabel r) (right.relabel r) (body.relabel r) of
  | .whileLoop s test body => .whileLoop (r.span s) (test.relabel r) (body.relabel r)
  | .doWhile s body test => .doWhile (r.span s) (body.relabel r) (test.relabel r)
  | .block s body => .block (r.span s) (relabelBody r body)
  | .breaking s label => .breaking (r.span s) label
  | .continuing s label => .continuing (r.span s) label
  | .throwing s value => .throwing (r.span s) (value.relabel r)
  | .trying s body handler finalizer =>
    .trying (r.span s) (relabelBody r body) (relabelHandler r handler)
      (relabelFinalizer r finalizer)
  | .switch s subject cases => .switch (r.span s) (subject.relabel r) (relabelCases r cases)
  | .labeled s label body => .labeled (r.span s) label (body.relabel r)
  | .empty s => .empty (r.span s)
  | .debugger s => .debugger (r.span s)

def relabelBody (r : Relabeling) : List Stmt → List Stmt
  | [] => []
  | s :: rest => s.relabel r :: relabelBody r rest

def relabelElse (r : Relabeling) : Option Stmt → Option Stmt
  | none => none
  | some s => some (s.relabel r)

def relabelDeclarators (r : Relabeling) : List Declarator → List Declarator
  | [] => []
  | d :: rest => d.relabel r :: relabelDeclarators r rest

def Declarator.relabel (r : Relabeling) : Declarator → Declarator
  | .mk target value => .mk (target.relabel r) (relabelOption r value)

def ForInit.relabel (r : Relabeling) : ForInit → ForInit
  | .declaration kind declarators => .declaration kind (relabelDeclarators r declarators)
  | .expression value => .expression (value.relabel r)

def relabelInit (r : Relabeling) : Option ForInit → Option ForInit
  | none => none
  | some init => some (init.relabel r)

def relabelHandler (r : Relabeling) : Option Handler → Option Handler
  | none => none
  | some handler => some (handler.relabel r)

def Handler.relabel (r : Relabeling) : Handler → Handler
  | .mk param body => .mk (relabelOption r param) (relabelBody r body)

def relabelFinalizer (r : Relabeling) : Option (List Stmt) → Option (List Stmt)
  | none => none
  | some body => some (relabelBody r body)

def relabelCases (r : Relabeling) : List Case → List Case
  | [] => []
  | c :: rest => c.relabel r :: relabelCases r rest

def Case.relabel (r : Relabeling) : Case → Case
  | .mk test body => .mk (relabelOption r test) (relabelBody r body)

end

@[simp] theorem Expr.relabel_span (r : Relabeling) (e : Expr) :
    (e.relabel r).span = r.span e.span := by
  cases e <;> simp [Expr.relabel, Expr.span]

theorem relabelAll_eq (r : Relabeling) (es : List Expr) :
    relabelAll r es = es.map (Expr.relabel r) := by
  induction es with
  | nil => rfl
  | cons e rest ih => simp [relabelAll, ih]

theorem relabelOption_eq (r : Relabeling) (e : Option Expr) :
    relabelOption r e = e.map (Expr.relabel r) := by
  cases e <;> rfl

theorem relabelItems_eq (r : Relabeling) (items : List (Option Expr)) :
    relabelItems r items = items.map (Option.map (Expr.relabel r)) := by
  induction items with
  | nil => rfl
  | cons item rest ih => simp [relabelItems, relabelOption_eq, ih]

theorem relabelMembers_eq (r : Relabeling) (members : List Member) :
    relabelMembers r members = members.map (Member.relabel r) := by
  induction members with
  | nil => rfl
  | cons member rest ih => simp [relabelMembers, ih]

theorem relabelBody_eq (r : Relabeling) (body : List Stmt) :
    relabelBody r body = body.map (Stmt.relabel r) := by
  induction body with
  | nil => rfl
  | cons s rest ih => simp [relabelBody, ih]

theorem relabelDeclarators_eq (r : Relabeling) (ds : List Declarator) :
    relabelDeclarators r ds = ds.map (Declarator.relabel r) := by
  induction ds with
  | nil => rfl
  | cons d rest ih => simp [relabelDeclarators, ih]

theorem relabelInit_eq (r : Relabeling) (init : Option ForInit) :
    relabelInit r init = init.map (ForInit.relabel r) := by
  cases init <;> rfl

theorem relabelHandler_eq (r : Relabeling) (handler : Option Handler) :
    relabelHandler r handler = handler.map (Handler.relabel r) := by
  cases handler <;> rfl

theorem relabelFinalizer_eq (r : Relabeling) (finalizer : Option (List Stmt)) :
    relabelFinalizer r finalizer = finalizer.map (List.map (Stmt.relabel r)) := by
  cases finalizer <;> simp [relabelFinalizer, relabelBody_eq]

theorem relabelCases_eq (r : Relabeling) (cases : List Case) :
    relabelCases r cases = cases.map (Case.relabel r) := by
  induction cases with
  | nil => rfl
  | cons c rest ih => simp [relabelCases, ih]

/-! ## Moved trees -/

/-- An expression with its positions replaced. -/
abbrev Expr.move (f : Position → Position) (e : Expr) : Expr :=
  e.relabel (.moving f)

abbrev Stmt.move (f : Position → Position) (s : Stmt) : Stmt :=
  s.relabel (.moving f)

def ScriptError.move (f : Position → Position) (e : ScriptError) : ScriptError :=
  ⟨e.cause, f e.position⟩

def Token.move (f : Position → Position) (t : Token) : Token :=
  { t with span := t.span.move f }

def Tokens.move (f : Position → Position) (ts : Tokens) : Tokens :=
  ⟨ts.items.map (Token.move f), ts.last.move f⟩

def Input.move (f : Position → Position) (i : Input) : Input :=
  ⟨i.rest.map (Token.move f), i.last.move f, f i.prevEnd⟩

@[simp] theorem Token.move_body (f : Position → Position) (t : Token) : (t.move f).body = t.body :=
  rfl

/-! ## Respelled tokens -/

/-- What becomes of the positions and the spellings of tokens. -/
structure Respelling where
  position : Position → Position
  lexeme : String → String

/-- The respelling that only replaces positions. -/
def Respelling.moving (f : Position → Position) : Respelling :=
  ⟨f, id⟩

/-- A cause with the spelling it quotes replaced. -/
def Cause.respell (f : Respelling) : Cause → Cause
  | .unexpectedToken lexeme => .unexpectedToken (f.lexeme lexeme)
  | cause => cause

def ScriptError.respell (f : Respelling) (e : ScriptError) : ScriptError :=
  ⟨e.cause.respell f, f.position e.position⟩

/-- A token respelled; what it is and the value it carries stay. -/
def Token.respell (f : Respelling) (t : Token) : Token :=
  { t with lexeme := f.lexeme t.lexeme, span := t.span.move f.position }

def Tokens.respell (f : Respelling) (ts : Tokens) : Tokens :=
  ⟨ts.items.map (Token.respell f), ts.last.respell f⟩

def Input.respell (f : Respelling) (i : Input) : Input :=
  ⟨i.rest.map (Token.respell f), i.last.respell f, f.position i.prevEnd⟩

theorem Input.respell_moving (f : Position → Position) (i : Input) :
    i.respell (.moving f) = i.move f := rfl

theorem ScriptError.respell_moving (f : Position → Position) (e : ScriptError) :
    e.respell (.moving f) = e.move f := by
  obtain ⟨cause, position⟩ := e
  cases cause <;> rfl

section
variable (f : Respelling)

@[simp] theorem Token.respell_body (t : Token) : (t.respell f).body = t.body := rfl

@[simp] theorem Token.respell_span (t : Token) :
    (t.respell f).span = t.span.move f.position := rfl

@[simp] theorem Token.respell_newlineBefore (t : Token) :
    (t.respell f).newlineBefore = t.newlineBefore := rfl

@[simp] theorem Token.respell_name? (t : Token) : (t.respell f).name? = t.name? := rfl

@[simp] theorem Token.respell_isSymbol (t : Token) (s : Symbol) :
    (t.respell f).isSymbol s = t.isSymbol s := rfl

@[simp] theorem Token.respell_isAnyWord (t : Token) :
    (t.respell f).isAnyWord = t.isAnyWord := rfl

theorem Token.respell_complaint (t : Token) :
    (t.respell f).complaint = t.complaint.respell f := by
  obtain ⟨body, lexeme, span, newlineBefore⟩ := t
  cases body with
  | word name =>
    unfold Token.complaint ScriptError.respell
    by_cases hreserved : isReserved name = true <;> simp [Token.respell, hreserved, Cause.respell]
  | _ => rfl

@[simp] theorem Input.respell_ahead (i : Input) (n : Nat) :
    (i.respell f).ahead n = (i.ahead n).respell f := by
  simp only [Input.ahead, Input.respell, List.getElem?_map]
  cases i.rest[n]? <;> rfl

@[simp] theorem Input.respell_current (i : Input) :
    (i.respell f).current = i.current.respell f :=
  Input.respell_ahead f i 0

@[simp] theorem Input.respell_rest_length (i : Input) :
    (i.respell f).rest.length = i.rest.length := by
  simp [Input.respell]

theorem Input.respell_advance (i : Input) : (i.respell f).advance = i.advance.respell f := by
  rw [Input.advance, Input.respell_current]
  simp [Input.advance, Input.respell]

end

end WidgetLint.Script
