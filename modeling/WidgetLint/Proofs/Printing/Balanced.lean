import WidgetLint.Proofs.Printing.Printed
import WidgetLint.Script.Parser.Expr

/-!
# Brackets of printed scripts

Every bracket in a printed tree is closed in it. So a reader that looks for the bracket that closes
an open one passes over a printed tree as if it were not there.
-/

namespace WidgetLint.Script

open Text WidgetLint.Script.Parser

/-- A printed token as the reader sees it, with nothing known about its place. -/
def Printed.token (p : Printed) : Token :=
  ⟨p.body, p.body.spelling, ⟨.first, .first⟩, p.spacing.breaks⟩

def asTokens (ts : List Printed) : List Token :=
  ts.map Printed.token

@[simp] theorem asTokens_nil : asTokens [] = [] := rfl

@[simp] theorem asTokens_cons (p : Printed) (ts : List Printed) :
    asTokens (p :: ts) = p.token :: asTokens ts := rfl

@[simp] theorem asTokens_append (ts us : List Printed) :
    asTokens (ts ++ us) = asTokens ts ++ asTokens us := by
  simp [asTokens]

/-- Every bracket that is opened in the tokens is closed in them, and no other. -/
def Balanced (ts : List Printed) : Prop :=
  ∀ depth us, afterClose (depth + 1) (asTokens ts ++ us) = afterClose (depth + 1) us

def TokenBody.isBracket : TokenBody → Bool
  | .symbol .lparen | .symbol .lbracket | .symbol .lbrace => true
  | .symbol .rparen | .symbol .rbracket | .symbol .rbrace => true
  | _ => false

theorem balanced_nil : Balanced [] := fun _ _ => rfl

theorem Balanced.append {ts us : List Printed} (ht : Balanced ts) (hu : Balanced us) :
    Balanced (ts ++ us) := by
  intro depth rest
  rw [asTokens_append, List.append_assoc, ht, hu]

theorem Balanced.cons {p : Printed} {ts : List Printed} (hp : p.body.isBracket = false)
    (ht : Balanced ts) : Balanced (p :: ts) := by
  intro depth rest
  rw [asTokens_cons, List.cons_append, afterClose]
  split <;> simp_all [Printed.token, TokenBody.isBracket, ht depth rest]

theorem Balanced.enclose {opening close : Symbol} {l l' : Spacing} {ts us : List Printed}
    (hopening : opening = .lparen ∨ opening = .lbracket ∨ opening = .lbrace)
    (hclose : close = .rparen ∨ close = .rbracket ∨ close = .rbrace)
    (ht : Balanced ts) (hu : Balanced us) :
    Balanced (.symbol l opening :: (ts ++ .symbol l' close :: us)) := by
  intro depth rest
  have hopen : afterClose (depth + 1)
      (asTokens (.symbol l opening :: (ts ++ .symbol l' close :: us)) ++ rest) =
        afterClose (depth + 2) (asTokens ts ++ (asTokens (.symbol l' close :: us) ++ rest)) := by
    rw [asTokens_cons, List.cons_append, asTokens_append, List.append_assoc, afterClose]
    rcases hopening with rfl | rfl | rfl <;> rfl
  rw [hopen, ht, asTokens_cons, List.cons_append, afterClose]
  rcases hclose with rfl | rfl | rfl <;> exact hu depth rest

theorem isBracket_wordBody (lexeme : String) (name : List Char) :
    (wordBody lexeme name).isBracket = false := by
  unfold wordBody
  split
  · rfl
  · split
    · rfl
    · split <;> rfl

theorem Balanced.ite {c : Prop} [Decidable c] {ts us : List Printed} (ht : Balanced ts)
    (hu : Balanced us) : Balanced (if c then ts else us) := by
  split
  · exact ht
  · exact hu

theorem Balanced.name {l : Spacing} {name : String} {ts : List Printed} (ht : Balanced ts) :
    Balanced (.name l name :: ts) :=
  .cons (isBracket_wordBody _ _) ht

theorem Balanced.parens {l l' : Spacing} {ts us : List Printed} (ht : Balanced ts)
    (hu : Balanced us) : Balanced (.symbol l .lparen :: (ts ++ .symbol l' .rparen :: us)) :=
  .enclose (by decide) (by decide) ht hu

theorem Balanced.brackets {l l' : Spacing} {ts us : List Printed} (ht : Balanced ts)
    (hu : Balanced us) : Balanced (.symbol l .lbracket :: (ts ++ .symbol l' .rbracket :: us)) :=
  .enclose (by decide) (by decide) ht hu

theorem Balanced.braces {l l' : Spacing} {ts us : List Printed} (ht : Balanced ts)
    (hu : Balanced us) : Balanced (.symbol l .lbrace :: (ts ++ .symbol l' .rbrace :: us)) :=
  .enclose (by decide) (by decide) ht hu

theorem Balanced.fence {tokens : Spacing → List Printed} (h : ∀ lead, Balanced (tokens lead))
    (lead : Spacing) : Balanced (fence tokens lead) :=
  .parens (h _) balanced_nil

theorem Balanced.fenced {tokens : Spacing → List Printed} (h : ∀ lead, Balanced (tokens lead))
    (e : Expr) (least : Strength) (lead : Spacing) : Balanced (e.fenced least tokens lead) :=
  .ite (.fence h lead) (h lead)

theorem Balanced.inBraces {body : List Stmt} {lines : List Printed} (h : Balanced lines)
    (indent : Nat) (lead : Spacing) : Balanced (inBraces indent body lines lead) :=
  .braces h balanced_nil

theorem isBracket_binary (op : BinaryOp) : op.body.isBracket = false := by cases op <;> rfl

theorem isBracket_unary (op : UnaryOp) : op.body.isBracket = false := by cases op <;> rfl

theorem isBracket_update (op : UpdateOp) : (TokenBody.symbol op.symbol).isBracket = false := by
  cases op <;> rfl

theorem isBracket_assign (op : AssignOp) : (TokenBody.symbol op.symbol).isBracket = false := by
  cases op <;> rfl

theorem balanced_label (label : Option String) :
    Balanced (label.map (Printed.name .spaced)).toList := by
  cases label with
  | none => exact balanced_nil
  | some name => exact .name balanced_nil

theorem balanced_question (optional : Bool) :
    Balanced (if optional then [.symbol .joined .questionDot] else []) :=
  .ite (.cons rfl balanced_nil) balanced_nil

theorem balanced_pair {key value : List Printed} (hkey : Balanced key) (hvalue : Balanced value) :
    Balanced (key ++ .symbol .joined .colon :: value) :=
  .append hkey (.cons rfl hvalue)

theorem Balanced.announce {key : Spacing → List Printed} (h : ∀ lead, Balanced (key lead))
    (kind : MemberKind) (lead : Spacing) : Balanced (kind.announce key lead) := by
  cases kind with
  | getter | setter => exact .cons rfl (h _)
  | pair | shorthand | method => exact h _

mutual

theorem Expr.balanced (indent : Nat) : (e : Expr) → (lead : Spacing) →
    Balanced (e.printed indent lead)
  | .number .. , _ | .string .. , _ | .template .. , _ | .regex .. , _ | .boolean .. , _
  | .null _, _ | .this _, _ => by
    rw [Expr.printed]
    exact .cons rfl balanced_nil
  | .ident .., _ => by
    rw [Expr.printed]
    exact .name balanced_nil
  | .array _ items, _ => by
    rw [Expr.printed]
    exact .brackets (printedItems_balanced indent items _) balanced_nil
  | .object _ members, _ => by
    rw [Expr.printed]
    exact .braces (printedMembers_balanced indent members _) balanced_nil
  | .function _ name params body, _ => by
    rw [Expr.printed]
    exact .cons rfl (.append (balanced_label name) (.parens (printedAll_balanced indent params _)
      (.inBraces (printedLines_balanced _ body) _ _)))
  | .arrow _ params body, _ => by
    rw [Expr.printed]
    exact .parens (printedAll_balanced indent params _) (.cons rfl (body.balanced indent))
  | .unary _ op operand, _ => by
    rw [Expr.printed]
    exact .cons (isBracket_unary op) (.fenced (operand.balanced indent) _ _ _)
  | .update _ op .before operand, _ => by
    rw [Expr.printed]
    exact .cons (isBracket_update op) (.fenced (operand.balanced indent) _ _ _)
  | .update _ op .behind operand, _ => by
    rw [Expr.printed]
    exact .append (.fenced (operand.balanced indent) _ _ _)
      (.cons (isBracket_update op) balanced_nil)
  | .binary _ op left right, _ => by
    rw [Expr.printed]
    exact .append (.fenced (left.balanced indent) _ _ _)
      (.cons (isBracket_binary op) (.fenced (right.balanced indent) _ _ _))
  | .assign _ op target value, _ => by
    rw [Expr.printed]
    exact .append (.fenced (target.balanced indent) _ _ _)
      (.cons (isBracket_assign op) (.fenced (value.balanced indent) _ _ _))
  | .conditional _ test whenTrue whenFalse, _ => by
    rw [Expr.printed]
    exact .append (.fenced (test.balanced indent) _ _ _) (.cons rfl
      (.append (.fenced (whenTrue.balanced indent) _ _ _) (.cons rfl
        (.fenced (whenFalse.balanced indent) _ _ _))))
  | .dot _ object optional name _, _ => by
    rw [Expr.printed]
    refine .append (.ite (.fence (object.balanced indent) _)
      (.fenced (object.balanced indent) _ _ _)) (.cons ?_ (.name balanced_nil))
    cases optional <;> rfl
  | .index _ object optional key, _ => by
    rw [Expr.printed]
    exact .append (.fenced (object.balanced indent) _ _ _)
      (.append (balanced_question optional) (.brackets (key.balanced indent _) balanced_nil))
  | .call _ callee optional arguments, _ => by
    rw [Expr.printed]
    exact .append (.fenced (callee.balanced indent) _ _ _)
      (.append (balanced_question optional)
        (.parens (printedAll_balanced indent arguments _) balanced_nil))
  | .new _ callee arguments, _ => by
    rw [Expr.printed]
    exact .cons rfl (.append (.fenced (callee.balanced indent) _ _ _)
      (.parens (printedAll_balanced indent arguments _) balanced_nil))
  | .sequence _ items, _ => by
    rw [Expr.printed]
    exact .ite (.cons rfl balanced_nil) (printedAll_balanced indent items _)
  | .spread _ argument, _ => by
    rw [Expr.printed]
    exact .cons rfl (.fenced (argument.balanced indent) _ _ _)

theorem printedAll_balanced (indent : Nat) : (es : List Expr) → (lead : Spacing) →
    Balanced (printedAll indent es lead)
  | [], _ => balanced_nil
  | [e], _ => by
    rw [printedAll]
    exact .fenced (e.balanced indent) _ _ _
  | e :: next :: rest, _ => by
    rw [printedAll]
    · exact .append (.fenced (e.balanced indent) _ _ _)
        (.cons rfl (printedAll_balanced indent (next :: rest) _))
    · simp

theorem printedItems_balanced (indent : Nat) : (items : List (Option Expr)) → (lead : Spacing) →
    Balanced (printedItems indent items lead)
  | [], _ => balanced_nil
  | none :: rest, _ => by
    rw [printedItems]
    exact .cons rfl (printedItems_balanced indent rest _)
  | [some e], _ => by
    rw [printedItems]
    exact .fenced (e.balanced indent) _ _ _
  | some e :: next :: rest, _ => by
    rw [printedItems]
    · exact .append (.fenced (e.balanced indent) _ _ _)
        (.cons rfl (printedItems_balanced indent (next :: rest) _))
    · simp

theorem printedMembers_balanced (indent : Nat) : (members : List Member) → (lead : Spacing) →
    Balanced (printedMembers indent members lead)
  | [], _ => balanced_nil
  | [member], _ => by
    rw [printedMembers]
    exact member.balanced indent _
  | member :: next :: rest, _ => by
    rw [printedMembers]
    · exact .append (member.balanced indent _)
        (.cons rfl (printedMembers_balanced indent (next :: rest) _))
    · simp

theorem Member.balanced (indent : Nat) : (member : Member) → (lead : Spacing) →
    Balanced (member.printed indent lead)
  | .spread argument, _ => by
    rw [Member.printed]
    exact .cons rfl (.fenced (argument.balanced indent) _ _ _)
  | .named _ kind key value, lead => by
    have hkey := key.balanced indent
    refine Member.layout_cases (P := fun ts _ => Balanced ts) (hkey lead) ?_
      (balanced_pair (hkey lead) (.fenced (value.balanced indent) _ _ _)) ?_
    · cases value with
      | assign t op target inner =>
        rintro _ _ _ _ ⟨⟩
        exact .append (hkey lead) (.cons rfl (.fenced (inner.balanced indent) _ _ _))
      | _ => rintro _ _ _ _ ⟨⟩
    · cases value with
      | function t name params body =>
        rintro _ _ _ _ ⟨⟩
        exact .append (.announce hkey kind lead) (.parens (printedAll_balanced indent params _)
          (.inBraces (printedLines_balanced _ body) _ _))
      | _ => rintro _ _ _ _ ⟨⟩

theorem Key.balanced (indent : Nat) : (key : Key) → (lead : Spacing) →
    Balanced (key.printed indent lead)
  | .ident _, _ => by
    rw [Key.printed]
    exact .name balanced_nil
  | .string value, _ => by
    rw [Key.printed]
    split
    · exact .name balanced_nil
    · exact .cons rfl balanced_nil
  | .number _, _ => by
    rw [Key.printed]
    exact .cons rfl balanced_nil
  | .computed key, _ => by
    rw [Key.printed]
    exact .brackets (.fenced (key.balanced indent) _ _ _) balanced_nil

theorem ArrowBody.balanced (indent : Nat) : (body : ArrowBody) → Balanced (body.printed indent)
  | .expression value => by
    rw [ArrowBody.printed]
    exact .ite (.fence (value.balanced indent) _) (.fenced (value.balanced indent) _ _ _)
  | .block body => by
    rw [ArrowBody.printed]
    exact .inBraces (printedLines_balanced _ body) _ _

theorem printedLines_balanced (indent : Nat) : (body : List Stmt) →
    Balanced (printedLines indent body)
  | [] => balanced_nil
  | s :: rest => by
    rw [printedLines]
    exact .append (s.balanced indent _) (printedLines_balanced indent rest)

theorem Stmt.balanced (indent : Nat) : (s : Stmt) → (lead : Spacing) →
    Balanced (s.printed indent lead)
  | .expression _ value, _ => by
    rw [Stmt.printed]
    exact .append (.ite (.fence (value.balanced indent) _) (value.balanced indent _))
      (.cons rfl balanced_nil)
  | .declaration _ kind declarators, _ => by
    rw [Stmt.printed]
    exact .cons rfl (.append (printedDeclarators_balanced indent declarators)
      (.cons rfl balanced_nil))
  | .function _ name params body, _ => by
    rw [Stmt.printed]
    exact .cons rfl (.name (.parens (printedAll_balanced indent params _)
      (.inBraces (printedLines_balanced _ body) _ _)))
  | .returning _ value, _ => by
    rw [Stmt.printed]
    exact .cons rfl (.append (printedOption_balanced indent value) (.cons rfl balanced_nil))
  | .branch _ test whenTrue whenFalse, _ => by
    rw [Stmt.printed]
    exact .cons rfl (.append (.fence (test.balanced indent) _)
      (.append (whenTrue.balanced indent _) (printedElse_balanced indent whenFalse)))
  | .forLoop _ init test update body, _ => by
    have hhead : Balanced (printedInit indent init ++ .symbol .joined .semicolon ::
        (printedOption indent test ++ .symbol .joined .semicolon ::
          printedOption indent update)) :=
      .append (printedInit_balanced indent init) (.cons rfl (.append
        (printedOption_balanced indent test) (.cons rfl (printedOption_balanced indent update))))
    have hloop := @Balanced.parens .spaced .joined _ _ hhead (body.balanced indent .spaced)
    rw [Stmt.printed]
    refine .cons rfl ?_
    simpa using hloop
  | .forEach _ left right body of, _ => by
    have hhead : Balanced (left.printed indent ++
        .keyword .spaced (if of then "of" else "in") :: right.printed indent .spaced) :=
      .append (left.balanced indent) (.cons rfl (right.balanced indent _))
    have hloop := @Balanced.parens .spaced .joined _ _ hhead (body.balanced indent .spaced)
    rw [Stmt.printed]
    refine .cons rfl ?_
    simpa using hloop
  | .whileLoop _ test body, _ => by
    rw [Stmt.printed]
    exact .cons rfl (.append (.fence (test.balanced indent) _) (body.balanced indent _))
  | .doWhile _ body test, _ => by
    rw [Stmt.printed]
    exact .cons rfl (.append (body.balanced indent _) (.cons rfl
      (.append (.fence (test.balanced indent) _) (.cons rfl balanced_nil))))
  | .block _ body, _ => by
    rw [Stmt.printed]
    exact .inBraces (printedLines_balanced _ body) _ _
  | .breaking _ label, _ => by
    rw [Stmt.printed]
    exact .cons rfl (.append (balanced_label label) (.cons rfl balanced_nil))
  | .continuing _ label, _ => by
    rw [Stmt.printed]
    exact .cons rfl (.append (balanced_label label) (.cons rfl balanced_nil))
  | .throwing _ value, _ => by
    rw [Stmt.printed]
    exact .cons rfl (.append (value.balanced indent _) (.cons rfl balanced_nil))
  | .trying _ body handler finalizer, _ => by
    rw [Stmt.printed]
    exact .cons rfl (.append (.inBraces (printedLines_balanced _ body) _ _)
      (.append (printedHandler_balanced indent handler)
        (printedFinalizer_balanced indent finalizer)))
  | .switch _ subject cases, _ => by
    rw [Stmt.printed]
    exact .cons rfl (.append (.fence (subject.balanced indent) _)
      (.braces (printedCases_balanced _ cases) balanced_nil))
  | .labeled _ label body, _ => by
    rw [Stmt.printed]
    exact .name (.cons rfl (body.balanced indent _))
  | .empty _, _ => by
    rw [Stmt.printed]
    exact .cons rfl balanced_nil
  | .debugger _, _ => by
    rw [Stmt.printed]
    exact .cons rfl (.cons rfl balanced_nil)

theorem printedOption_balanced (indent : Nat) : (e : Option Expr) →
    Balanced (printedOption indent e)
  | none => balanced_nil
  | some e => by
    rw [printedOption]
    exact e.balanced indent _

theorem printedElse_balanced (indent : Nat) : (s : Option Stmt) → Balanced (printedElse indent s)
  | none => balanced_nil
  | some s => by
    rw [printedElse]
    exact .cons rfl (s.balanced indent _)

theorem printedDeclarators_balanced (indent : Nat) : (declarators : List Declarator) →
    Balanced (printedDeclarators indent declarators)
  | [] => .cons rfl balanced_nil
  | [d] => by
    rw [printedDeclarators]
    exact d.balanced indent
  | d :: next :: rest => by
    rw [printedDeclarators]
    · exact .append (d.balanced indent)
        (.cons rfl (printedDeclarators_balanced indent (next :: rest)))
    · simp

theorem Declarator.balanced (indent : Nat) : (d : Declarator) → Balanced (d.printed indent)
  | .mk target none => by
    rw [Declarator.printed]
    exact target.balanced indent _
  | .mk target (some value) => by
    rw [Declarator.printed]
    exact .append (target.balanced indent _) (.cons rfl (.fenced (value.balanced indent) _ _ _))

theorem ForInit.balanced (indent : Nat) : (init : ForInit) → Balanced (init.printed indent)
  | .declaration kind declarators => by
    rw [ForInit.printed]
    exact .cons rfl (printedDeclarators_balanced indent declarators)
  | .expression value => by
    rw [ForInit.printed]
    exact value.balanced indent _

theorem printedInit_balanced (indent : Nat) : (init : Option ForInit) →
    Balanced (printedInit indent init)
  | none => balanced_nil
  | some init => by
    rw [printedInit]
    exact init.balanced indent

theorem printedHandler_balanced (indent : Nat) : (handler : Option Handler) →
    Balanced (printedHandler indent handler)
  | none => balanced_nil
  | some handler => by
    rw [printedHandler]
    exact .cons rfl (handler.balanced indent)

theorem Handler.balanced (indent : Nat) : (handler : Handler) → Balanced (handler.printed indent)
  | .mk none body => by
    rw [Handler.printed]
    exact .inBraces (printedLines_balanced _ body) _ _
  | .mk (some param) body => by
    rw [Handler.printed]
    exact .append (.fence (param.balanced indent) _) (.inBraces (printedLines_balanced _ body) _ _)

theorem printedFinalizer_balanced (indent : Nat) : (finalizer : Option (List Stmt)) →
    Balanced (printedFinalizer indent finalizer)
  | none => balanced_nil
  | some body => by
    rw [printedFinalizer]
    exact .cons rfl (.inBraces (printedLines_balanced _ body) _ _)

theorem printedCases_balanced (indent : Nat) : (cases : List Case) →
    Balanced (printedCases indent cases)
  | [] => balanced_nil
  | c :: rest => by
    rw [printedCases]
    exact .append (c.balanced indent) (printedCases_balanced indent rest)

theorem Case.balanced (indent : Nat) : (c : Case) → Balanced (c.printed indent)
  | .mk none body => by
    rw [Case.printed]
    exact .cons rfl (.cons rfl (printedLines_balanced _ body))
  | .mk (some test) body => by
    rw [Case.printed]
    exact .cons rfl (.append (test.balanced indent _)
      (.cons rfl (printedLines_balanced _ body)))

end

end WidgetLint.Script
