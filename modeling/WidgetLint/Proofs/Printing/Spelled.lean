import WidgetLint.Proofs.Printing.Seams

/-!
# Trees whose tokens are plain

`Node.Spelled` says that the names, literals and lists of a node can be written as tokens. **If all
nodes of a tree are spelled, all of its printed tokens are plain** (`Expr.plain`, `Stmt.plain`).
-/

namespace WidgetLint.Script

open Text

variable {ts us : List Printed} {p : Printed} {lead : Spacing}

/-! ## Nodes -/

/-- The key of a member can be written. -/
def Key.Spelled : Key → Prop
  | .ident name => isWordText name
  | .string value => '\x00' ∉ value.toList
  | .number value => (TokenBody.number value).Plain
  | .computed _ => True

def Member.Spelled : Member → Prop
  | .named _ _ key _ => key.Spelled
  | .spread _ => True

/-- The literals and names of an expression's own node can be written. -/
def Expr.Spelled : Expr → Prop
  | .number _ value => (TokenBody.number value).Plain
  | .string _ value => (TokenBody.string value).Plain
  | .template _ raw => (TokenBody.template raw).Plain
  | .regex _ pattern flags => (TokenBody.regex pattern flags).Plain
  | .ident _ name => isWordText name
  | .function _ name _ _ => ∀ n, name = some n → isWordText n
  | .dot _ _ _ name _ => isWordText name
  | .object _ members => ∀ member ∈ members, member.Spelled
  | .sequence _ items => items ≠ []
  | _ => True

/-- What stands first in the head of a loop declares something, if it is a declaration. -/
def ForInit.Spelled : ForInit → Prop
  | .declaration _ declarators => declarators ≠ []
  | .expression _ => True

def Stmt.Spelled : Stmt → Prop
  | .declaration _ _ declarators => declarators ≠ []
  | .function _ name _ _ => isWordText name
  | .breaking _ label | .continuing _ label => ∀ n, label = some n → isWordText n
  | .labeled _ label _ => isWordText label
  | .forLoop _ init _ _ _ => ∀ i, init = some i → i.Spelled
  | .forEach _ left _ _ _ => left.Spelled
  | _ => True

/-- The literals, names and lists of a node can be written as tokens. -/
def Node.Spelled : Node → Prop
  | .expr e => e.Spelled
  | .stmt s => s.Spelled

/-! ## Tokens -/

/-- All tokens are plain. -/
def AllPlain (ts : List Printed) : Prop :=
  ∀ p ∈ ts, p.body.Plain

theorem allPlain_nil : AllPlain [] := nofun

theorem AllPlain.cons (hp : p.body.Plain) (h : AllPlain ts) : AllPlain (p :: ts) :=
  List.forall_mem_cons.2 ⟨hp, h⟩

theorem AllPlain.append (ht : AllPlain ts) (hu : AllPlain us) : AllPlain (ts ++ us) :=
  List.forall_mem_append.2 ⟨ht, hu⟩

theorem AllPlain.ite {c : Prop} [Decidable c] (ht : AllPlain ts) (hu : AllPlain us) :
    AllPlain (if c then ts else us) := by
  split
  · exact ht
  · exact hu

theorem AllPlain.symbol {l : Spacing} {s : Symbol} (h : AllPlain ts) :
    AllPlain (.symbol l s :: ts) :=
  .cons trivial h

theorem plain_wordBody {name : String} (h : isWordText name = true) :
    (wordBody name name.toList).Plain := by
  by_cases hliteral : isLiteralWord name = true
  · simp only [isLiteralWord, Bool.or_eq_true, beq_iff_eq] at hliteral
    rcases hliteral with (rfl | rfl) | rfl <;> trivial
  · rw [wordBody_eq (Bool.eq_false_iff.2 hliteral)]
    exact ⟨h, Bool.eq_false_iff.2 hliteral⟩

theorem AllPlain.name {l : Spacing} {name : String} (hname : isWordText name = true)
    (h : AllPlain ts) : AllPlain (.name l name :: ts) :=
  .cons (plain_wordBody hname) h

theorem AllPlain.fence {tokens : Spacing → List Printed} (h : ∀ lead, AllPlain (tokens lead)) :
    AllPlain (fence tokens lead) :=
  .symbol (.append (h _) (.symbol allPlain_nil))

theorem AllPlain.fenced {tokens : Spacing → List Printed} (h : ∀ lead, AllPlain (tokens lead))
    (e : Expr) (least : Strength) (lead : Spacing) : AllPlain (e.fenced least tokens lead) :=
  .ite (.fence h) (h lead)

theorem AllPlain.inBraces {body : List Stmt} {lines : List Printed} (h : AllPlain lines)
    (indent : Nat) (lead : Spacing) : AllPlain (inBraces indent body lines lead) :=
  .symbol (.append h (.symbol allPlain_nil))

/-- The words of the grammar that are printed. -/
def grammarWords : List String :=
  ["this", "function", "new", "get", "set", "var", "let", "const", "return", "if", "else", "for",
    "of", "in", "while", "do", "break", "continue", "throw", "try", "catch", "finally", "switch",
    "case", "default", "debugger", "typeof", "void", "delete", "instanceof"]

theorem grammarWords_plain : ∀ name ∈ grammarWords,
    isWordText name = true ∧ isLiteralWord name = false := by
  decide +kernel

theorem AllPlain.keyword {l : Spacing} {name : String} (hname : name ∈ grammarWords)
    (h : AllPlain ts) : AllPlain (.keyword l name :: ts) :=
  .cons (grammarWords_plain name hname) h

theorem AllPlain.announce {key : Spacing → List Printed} (h : ∀ lead, AllPlain (key lead))
    (kind : MemberKind) (lead : Spacing) : AllPlain (kind.announce key lead) := by
  cases kind with
  | getter | setter => exact .keyword (by decide) (h _)
  | pair | shorthand | method => exact h _

theorem plain_unary (op : UnaryOp) : op.body.Plain := by
  cases op with
  | typeOf | void | delete => exact grammarWords_plain _ (by decide)
  | _ => exact True.intro

theorem plain_binary (op : BinaryOp) : op.body.Plain := by
  cases op with
  | within | instanceOf => exact grammarWords_plain _ (by decide)
  | _ => exact True.intro

theorem allPlain_label {label : Option String} (h : ∀ n, label = some n → isWordText n) :
    AllPlain (label.map (Printed.name .spaced)).toList := by
  cases label with
  | none => exact allPlain_nil
  | some name => exact .name (h name rfl) allPlain_nil

theorem allPlain_question (optional : Bool) :
    AllPlain (if optional then [.symbol .joined .questionDot] else []) :=
  .ite (.symbol allPlain_nil) allPlain_nil

theorem allPlain_kind (kind : VarKind) (l : Spacing) (h : AllPlain ts) :
    AllPlain (.keyword l kind.text :: ts) :=
  .keyword (by cases kind <;> decide) h

/-! ## Trees -/

mutual

theorem Expr.plain (indent d : Nat) : (e : Expr) → (lead : Spacing) →
    Everywhere Node.Spelled (e.visit d (e.inside (d + 1))) → AllPlain (e.printed indent lead)
  | .number .., _, h | .string .., _, h | .template .., _, h | .regex .., _, h => by
    have hnode := (everywhere_expr.1 h).1
    rw [Expr.printed]
    exact .cons hnode allPlain_nil
  | .boolean .., _, _ | .null _, _, _ => by
    rw [Expr.printed]
    exact .cons trivial allPlain_nil
  | .this _, _, _ => by
    rw [Expr.printed]
    exact .keyword (by decide) allPlain_nil
  | .ident .., _, h => by
    rw [Expr.printed]
    exact .name (everywhere_expr.1 h).1 allPlain_nil
  | .array _ items, _, h => by
    have hinside := (everywhere_expr.1 h).2
    rw [Expr.inside] at hinside
    rw [Expr.printed]
    exact .symbol (.append (printedItems_plain indent _ items _ hinside) (.symbol allPlain_nil))
  | .object _ members, _, h => by
    obtain ⟨hnode, hinside⟩ := everywhere_expr.1 h
    rw [Expr.inside] at hinside
    rw [Expr.printed]
    exact .symbol (.append (printedMembers_plain indent _ members _ hnode hinside)
      (.symbol allPlain_nil))
  | .function _ name params body, _, h => by
    obtain ⟨hnode, hinside⟩ := everywhere_expr.1 h
    rw [Expr.inside] at hinside
    obtain ⟨hparams, hbody⟩ := everywhere_append.1 hinside
    rw [Expr.printed]
    exact .keyword (by decide) (.append (allPlain_label hnode)
      (.symbol (.append (printedAll_plain indent _ params _ hparams)
        (.symbol (.inBraces (printedLines_plain _ _ body hbody) _ _)))))
  | .arrow _ params body, _, h => by
    have hinside := (everywhere_expr.1 h).2
    rw [Expr.inside] at hinside
    obtain ⟨hparams, hbody⟩ := everywhere_append.1 hinside
    rw [Expr.printed]
    exact .symbol (.append (printedAll_plain indent _ params _ hparams)
      (.symbol (.symbol (body.plain indent _ hbody))))
  | .unary _ op operand, _, h => by
    have hinside := (everywhere_expr.1 h).2
    rw [Expr.inside] at hinside
    rw [Expr.printed]
    exact .cons (plain_unary op) (.fenced (operand.plain indent _ · hinside) _ _ _)
  | .update _ op .before operand, _, h => by
    have hinside := (everywhere_expr.1 h).2
    rw [Expr.inside] at hinside
    rw [Expr.printed]
    exact .symbol (.fenced (operand.plain indent _ · hinside) _ _ _)
  | .update _ op .behind operand, _, h => by
    have hinside := (everywhere_expr.1 h).2
    rw [Expr.inside] at hinside
    rw [Expr.printed]
    exact .append (.fenced (operand.plain indent _ · hinside) _ _ _) (.symbol allPlain_nil)
  | .binary _ op left right, _, h => by
    have hinside := (everywhere_expr.1 h).2
    rw [Expr.inside] at hinside
    obtain ⟨hleft, hright⟩ := everywhere_append.1 hinside
    rw [Expr.printed]
    exact .append (.fenced (left.plain indent _ · hleft) _ _ _)
      (.cons (plain_binary op) (.fenced (right.plain indent _ · hright) _ _ _))
  | .assign _ op target value, _, h => by
    have hinside := (everywhere_expr.1 h).2
    rw [Expr.inside] at hinside
    obtain ⟨htarget, hvalue⟩ := everywhere_append.1 hinside
    rw [Expr.printed]
    exact .append (.fenced (target.plain indent _ · htarget) _ _ _)
      (.symbol (.fenced (value.plain indent _ · hvalue) _ _ _))
  | .conditional _ test whenTrue whenFalse, _, h => by
    have hinside := (everywhere_expr.1 h).2
    rw [Expr.inside] at hinside
    obtain ⟨hfirst, hfalse⟩ := everywhere_append.1 hinside
    obtain ⟨htest, htrue⟩ := everywhere_append.1 hfirst
    rw [Expr.printed]
    exact .append (.fenced (test.plain indent _ · htest) _ _ _)
      (.symbol (.append (.fenced (whenTrue.plain indent _ · htrue) _ _ _)
        (.symbol (.fenced (whenFalse.plain indent _ · hfalse) _ _ _))))
  | .dot _ object optional name _, _, h => by
    obtain ⟨hnode, hinside⟩ := everywhere_expr.1 h
    rw [Expr.inside] at hinside
    rw [Expr.printed]
    exact .append (.ite (.fence (object.plain indent _ · hinside))
      (.fenced (object.plain indent _ · hinside) _ _ _)) (.symbol (.name hnode allPlain_nil))
  | .index _ object optional key, _, h => by
    have hinside := (everywhere_expr.1 h).2
    rw [Expr.inside] at hinside
    obtain ⟨hobject, hkey⟩ := everywhere_append.1 hinside
    rw [Expr.printed]
    exact .append (.fenced (object.plain indent _ · hobject) _ _ _)
      (.append (allPlain_question optional)
        (.symbol (.append (key.plain indent _ _ hkey) (.symbol allPlain_nil))))
  | .call _ callee optional arguments, _, h => by
    have hinside := (everywhere_expr.1 h).2
    rw [Expr.inside] at hinside
    obtain ⟨hcallee, harguments⟩ := everywhere_append.1 hinside
    rw [Expr.printed]
    exact .append (.fenced (callee.plain indent _ · hcallee) _ _ _)
      (.append (allPlain_question optional)
        (.symbol (.append (printedAll_plain indent _ arguments _ harguments) (.symbol allPlain_nil))))
  | .new _ callee arguments, _, h => by
    have hinside := (everywhere_expr.1 h).2
    rw [Expr.inside] at hinside
    obtain ⟨hcallee, harguments⟩ := everywhere_append.1 hinside
    rw [Expr.printed]
    exact .keyword (by decide) (.append (.fenced (callee.plain indent _ · hcallee) _ _ _)
      (.symbol (.append (printedAll_plain indent _ arguments _ harguments) (.symbol allPlain_nil))))
  | .sequence _ items, _, h => by
    obtain ⟨hnode, hinside⟩ := everywhere_expr.1 h
    have hsome : items.isEmpty = false := List.isEmpty_eq_false_iff.2 hnode
    rw [Expr.inside] at hinside
    rw [Expr.printed, hsome, if_neg Bool.false_ne_true]
    exact printedAll_plain indent _ items _ hinside
  | .spread _ argument, _, h => by
    have hinside := (everywhere_expr.1 h).2
    rw [Expr.inside] at hinside
    rw [Expr.printed]
    exact .symbol (.fenced (argument.plain indent _ · hinside) _ _ _)

theorem printedAll_plain (indent d : Nat) : (es : List Expr) → (lead : Spacing) →
    Everywhere Node.Spelled (visitAll d es) → AllPlain (printedAll indent es lead)
  | [], _, _ => allPlain_nil
  | [e], _, h => by
    rw [visitAll] at h
    rw [printedAll]
    exact .fenced (e.plain indent d · (everywhere_append.1 h).1) _ _ _
  | e :: next :: rest, _, h => by
    rw [visitAll] at h
    obtain ⟨he, hrest⟩ := everywhere_append.1 h
    rw [printedAll]
    · exact .append (.fenced (e.plain indent d · he) _ _ _)
        (.symbol (printedAll_plain indent d (next :: rest) _ hrest))
    · simp

theorem printedItems_plain (indent d : Nat) : (items : List (Option Expr)) → (lead : Spacing) →
    Everywhere Node.Spelled (visitItems d items) → AllPlain (printedItems indent items lead)
  | [], _, _ => allPlain_nil
  | none :: rest, _, h => by
    rw [visitItems] at h
    rw [printedItems]
    exact .symbol (printedItems_plain indent d rest _ (everywhere_append.1 h).2)
  | [some e], _, h => by
    rw [visitItems] at h
    rw [printedItems]
    exact .fenced (e.plain indent d · (everywhere_append.1 h).1) _ _ _
  | some e :: next :: rest, _, h => by
    rw [visitItems] at h
    obtain ⟨he, hrest⟩ := everywhere_append.1 h
    rw [printedItems]
    · exact .append (.fenced (e.plain indent d · he) _ _ _)
        (.symbol (printedItems_plain indent d (next :: rest) _ hrest))
    · simp

theorem printedMembers_plain (indent d : Nat) : (members : List Member) → (lead : Spacing) →
    (∀ member ∈ members, member.Spelled) → Everywhere Node.Spelled (visitMembers d members) →
      AllPlain (printedMembers indent members lead)
  | [], _, _, _ => allPlain_nil
  | [member], _, hspelled, h => by
    rw [visitMembers] at h
    rw [printedMembers]
    exact member.plain indent d _ (hspelled member (by simp)) (everywhere_append.1 h).1
  | member :: next :: rest, _, hspelled, h => by
    rw [visitMembers] at h
    obtain ⟨hmember, hrest⟩ := everywhere_append.1 h
    obtain ⟨hfirst, hothers⟩ := List.forall_mem_cons.1 hspelled
    rw [printedMembers]
    · exact .append (member.plain indent d _ hfirst hmember)
        (.symbol (printedMembers_plain indent d (next :: rest) _ hothers hrest))
    · simp

theorem Member.plain (indent d : Nat) : (member : Member) → (lead : Spacing) → member.Spelled →
    Everywhere Node.Spelled (member.inside d) → AllPlain (member.printed indent lead)
  | .spread argument, _, _, h => by
    rw [Member.inside] at h
    rw [Member.printed]
    exact .symbol (.fenced (argument.plain indent d · h) _ _ _)
  | .named _ kind key value, lead, hspelled, h => by
    rw [Member.inside] at h
    obtain ⟨hkeyNodes, hvalue⟩ := everywhere_append.1 h
    have hkey := (key.plain indent d · hspelled hkeyNodes)
    refine Member.layout_cases (P := fun ts _ => AllPlain ts) (hkey lead) ?_
      (.append (hkey lead) (.symbol (.fenced (value.plain indent d · hvalue) _ _ _))) ?_
    · cases value with
      | assign t op target inner =>
        rintro _ _ _ _ ⟨⟩
        have hinside := (everywhere_expr.1 hvalue).2
        rw [Expr.inside] at hinside
        exact .append (hkey lead)
          (.symbol (.fenced (inner.plain indent _ · (everywhere_append.1 hinside).2) _ _ _))
      | _ => rintro _ _ _ _ ⟨⟩
    · cases value with
      | function t name params body =>
        rintro _ _ _ _ ⟨⟩
        have hinside := (everywhere_expr.1 hvalue).2
        rw [Expr.inside] at hinside
        obtain ⟨hparams, hbody⟩ := everywhere_append.1 hinside
        exact .append (.announce hkey kind lead)
          (.symbol (.append (printedAll_plain indent _ params _ hparams)
            (.symbol (.inBraces (printedLines_plain _ _ body hbody) _ _))))
      | _ => rintro _ _ _ _ ⟨⟩

theorem Key.plain (indent d : Nat) : (key : Key) → (lead : Spacing) → key.Spelled →
    Everywhere Node.Spelled (key.inside d) → AllPlain (key.printed indent lead)
  | .ident _, _, hspelled, _ => by
    rw [Key.printed]
    exact .name hspelled allPlain_nil
  | .string value, _, hspelled, _ => by
    rw [Key.printed]
    split
    · rename_i hword
      exact .name hword allPlain_nil
    · exact .cons hspelled allPlain_nil
  | .number _, _, hspelled, _ => by
    rw [Key.printed]
    exact .cons hspelled allPlain_nil
  | .computed key, _, _, h => by
    rw [Key.inside] at h
    rw [Key.printed]
    exact .symbol (.append (.fenced (key.plain indent d · h) _ _ _) (.symbol allPlain_nil))

theorem ArrowBody.plain (indent d : Nat) : (body : ArrowBody) →
    Everywhere Node.Spelled (body.inside d) → AllPlain (body.printed indent)
  | .expression value, h => by
    rw [ArrowBody.inside] at h
    rw [ArrowBody.printed]
    exact .ite (.fence (value.plain indent d · h)) (.fenced (value.plain indent d · h) _ _ _)
  | .block body, h => by
    rw [ArrowBody.inside] at h
    rw [ArrowBody.printed]
    exact .inBraces (printedLines_plain _ d body h) _ _

theorem printedLines_plain (indent d : Nat) : (body : List Stmt) →
    Everywhere Node.Spelled (visitBody d body) → AllPlain (printedLines indent body)
  | [], _ => allPlain_nil
  | s :: rest, h => by
    rw [visitBody] at h
    obtain ⟨hs, hrest⟩ := everywhere_append.1 h
    rw [printedLines]
    exact .append (s.plain indent d _ hs) (printedLines_plain indent d rest hrest)

theorem Stmt.plain (indent d : Nat) : (s : Stmt) → (lead : Spacing) →
    Everywhere Node.Spelled (s.visit d (s.inside (d + 1))) → AllPlain (s.printed indent lead)
  | .expression _ value, _, h => by
    have hinside := (everywhere_stmt.1 h).2
    rw [Stmt.inside] at hinside
    rw [Stmt.printed]
    exact .append (.ite (.fence (value.plain indent _ · hinside)) (value.plain indent _ _ hinside))
      (.symbol allPlain_nil)
  | .declaration _ kind declarators, _, h => by
    obtain ⟨hnode, hinside⟩ := everywhere_stmt.1 h
    rw [Stmt.inside] at hinside
    rw [Stmt.printed]
    exact allPlain_kind kind _ (.append (printedDeclarators_plain indent _ declarators hnode hinside)
      (.symbol allPlain_nil))
  | .function _ name params body, _, h => by
    obtain ⟨hnode, hinside⟩ := everywhere_stmt.1 h
    rw [Stmt.inside] at hinside
    obtain ⟨hparams, hbody⟩ := everywhere_append.1 hinside
    rw [Stmt.printed]
    exact .keyword (by decide) (.name hnode (.symbol (.append
      (printedAll_plain indent _ params _ hparams)
      (.symbol (.inBraces (printedLines_plain _ _ body hbody) _ _)))))
  | .returning _ value, _, h => by
    have hinside := (everywhere_stmt.1 h).2
    rw [Stmt.inside] at hinside
    rw [Stmt.printed]
    exact .keyword (by decide) (.append (printedOption_plain indent _ value hinside)
      (.symbol allPlain_nil))
  | .branch _ test whenTrue whenFalse, _, h => by
    have hinside := (everywhere_stmt.1 h).2
    rw [Stmt.inside] at hinside
    obtain ⟨hfirst, hfalse⟩ := everywhere_append.1 hinside
    obtain ⟨htest, htrue⟩ := everywhere_append.1 hfirst
    rw [Stmt.printed]
    exact .keyword (by decide) (.append (.fence (test.plain indent _ · htest))
      (.append (whenTrue.plain indent _ _ htrue) (printedElse_plain indent _ whenFalse hfalse)))
  | .forLoop _ init test update body, _, h => by
    obtain ⟨hnode, hinside⟩ := everywhere_stmt.1 h
    rw [Stmt.inside] at hinside
    obtain ⟨hhead, hbody⟩ := everywhere_append.1 hinside
    obtain ⟨hfirst, hupdate⟩ := everywhere_append.1 hhead
    obtain ⟨hinit, htest⟩ := everywhere_append.1 hfirst
    rw [Stmt.printed]
    exact .keyword (by decide) (.symbol (.append (printedInit_plain indent _ init hnode hinit)
      (.symbol (.append (printedOption_plain indent _ test htest)
        (.symbol (.append (printedOption_plain indent _ update hupdate)
          (.symbol (body.plain indent _ _ hbody))))))))
  | .forEach _ left right body of, _, h => by
    obtain ⟨hnode, hinside⟩ := everywhere_stmt.1 h
    rw [Stmt.inside] at hinside
    obtain ⟨hhead, hbody⟩ := everywhere_append.1 hinside
    obtain ⟨hleft, hright⟩ := everywhere_append.1 hhead
    rw [Stmt.printed]
    exact .keyword (by decide) (.symbol (.append (left.plain indent _ hnode hleft)
      (.keyword (by cases of <;> decide) (.append (right.plain indent _ _ hright)
        (.symbol (body.plain indent _ _ hbody))))))
  | .whileLoop _ test body, _, h => by
    have hinside := (everywhere_stmt.1 h).2
    rw [Stmt.inside] at hinside
    obtain ⟨htest, hbody⟩ := everywhere_append.1 hinside
    rw [Stmt.printed]
    exact .keyword (by decide) (.append (.fence (test.plain indent _ · htest))
      (body.plain indent _ _ hbody))
  | .doWhile _ body test, _, h => by
    have hinside := (everywhere_stmt.1 h).2
    rw [Stmt.inside] at hinside
    obtain ⟨htest, hbody⟩ := everywhere_append.1 hinside
    rw [Stmt.printed]
    exact .keyword (by decide) (.append (body.plain indent _ _ hbody) (.keyword (by decide)
      (.append (.fence (test.plain indent _ · htest)) (.symbol allPlain_nil))))
  | .block _ body, _, h => by
    have hinside := (everywhere_stmt.1 h).2
    rw [Stmt.inside] at hinside
    rw [Stmt.printed]
    exact .inBraces (printedLines_plain _ _ body hinside) _ _
  | .breaking _ label, _, h | .continuing _ label, _, h => by
    rw [Stmt.printed]
    exact .keyword (by decide) (.append (allPlain_label (everywhere_stmt.1 h).1)
      (.symbol allPlain_nil))
  | .throwing _ value, _, h => by
    have hinside := (everywhere_stmt.1 h).2
    rw [Stmt.inside] at hinside
    rw [Stmt.printed]
    exact .keyword (by decide) (.append (value.plain indent _ _ hinside) (.symbol allPlain_nil))
  | .trying _ body handler finalizer, _, h => by
    have hinside := (everywhere_stmt.1 h).2
    rw [Stmt.inside] at hinside
    obtain ⟨hfirst, hfinalizer⟩ := everywhere_append.1 hinside
    obtain ⟨hbody, hhandler⟩ := everywhere_append.1 hfirst
    rw [Stmt.printed]
    exact .keyword (by decide) (.append (.inBraces (printedLines_plain _ _ body hbody) _ _)
      (.append (printedHandler_plain indent _ handler hhandler)
        (printedFinalizer_plain indent _ finalizer hfinalizer)))
  | .switch _ subject cases, _, h => by
    have hinside := (everywhere_stmt.1 h).2
    rw [Stmt.inside] at hinside
    obtain ⟨hsubject, hcases⟩ := everywhere_append.1 hinside
    rw [Stmt.printed]
    exact .keyword (by decide) (.append (.fence (subject.plain indent _ · hsubject))
      (.symbol (.append (printedCases_plain _ _ cases hcases) (.symbol allPlain_nil))))
  | .labeled _ label body, _, h => by
    obtain ⟨hnode, hinside⟩ := everywhere_stmt.1 h
    rw [Stmt.inside] at hinside
    rw [Stmt.printed]
    exact .name hnode (.symbol (body.plain indent _ _ hinside))
  | .empty _, _, _ => by
    rw [Stmt.printed]
    exact .symbol allPlain_nil
  | .debugger _, _, _ => by
    rw [Stmt.printed]
    exact .keyword (by decide) (.symbol allPlain_nil)

theorem printedOption_plain (indent d : Nat) : (e : Option Expr) →
    Everywhere Node.Spelled (visitOptional d e) → AllPlain (printedOption indent e)
  | none, _ => allPlain_nil
  | some e, h => by
    rw [visitOptional] at h
    rw [printedOption]
    exact e.plain indent d _ h

theorem printedElse_plain (indent d : Nat) : (s : Option Stmt) →
    Everywhere Node.Spelled (visitElse d s) → AllPlain (printedElse indent s)
  | none, _ => allPlain_nil
  | some s, h => by
    rw [visitElse] at h
    rw [printedElse]
    exact .keyword (by decide) (s.plain indent d _ h)

theorem printedDeclarators_plain (indent d : Nat) : (declarators : List Declarator) →
    declarators ≠ [] → Everywhere Node.Spelled (visitDeclarators d declarators) →
      AllPlain (printedDeclarators indent declarators)
  | [], hne, _ => absurd rfl hne
  | [declarator], _, h => by
    rw [printedDeclarators]
    exact declarator.plain indent d h
  | declarator :: next :: rest, _, h => by
    obtain ⟨hfirst, hrest⟩ : Everywhere Node.Spelled (visitDeclarators d [declarator]) ∧
        Everywhere Node.Spelled (visitDeclarators d (next :: rest)) := by
      obtain ⟨target, value⟩ := declarator
      rw [visitDeclarators] at h
      rw [visitDeclarators, visitDeclarators, List.append_nil]
      exact everywhere_append.1 h
    rw [printedDeclarators]
    · exact .append (declarator.plain indent d hfirst)
        (.symbol (printedDeclarators_plain indent d (next :: rest) (by simp) hrest))
    · simp

theorem Declarator.plain (indent d : Nat) : (declarator : Declarator) →
    Everywhere Node.Spelled (visitDeclarators d [declarator]) → AllPlain (declarator.printed indent)
  | .mk target none, h => by
    rw [visitDeclarators] at h
    obtain ⟨htarget, -⟩ := everywhere_append.1 (everywhere_append.1 h).1
    rw [Declarator.printed]
    exact target.plain indent d _ htarget
  | .mk target (some value), h => by
    rw [visitDeclarators] at h
    obtain ⟨htarget, hvalue⟩ := everywhere_append.1 (everywhere_append.1 h).1
    rw [Declarator.printed]
    exact .append (target.plain indent d _ htarget)
      (.symbol (.fenced (value.plain indent d · hvalue) _ _ _))

theorem ForInit.plain (indent d : Nat) : (init : ForInit) → init.Spelled →
    Everywhere Node.Spelled (init.inside d) → AllPlain (init.printed indent)
  | .declaration kind declarators, hspelled, h => by
    rw [ForInit.inside] at h
    rw [ForInit.printed]
    exact allPlain_kind kind _ (printedDeclarators_plain indent d declarators hspelled h)
  | .expression value, _, h => by
    rw [ForInit.inside] at h
    rw [ForInit.printed]
    exact value.plain indent d _ h

theorem printedInit_plain (indent d : Nat) : (init : Option ForInit) →
    (∀ i, init = some i → i.Spelled) → Everywhere Node.Spelled (visitInit d init) →
      AllPlain (printedInit indent init)
  | none, _, _ => allPlain_nil
  | some init, hspelled, h => by
    rw [visitInit] at h
    rw [printedInit]
    exact init.plain indent d (hspelled init rfl) h

theorem printedHandler_plain (indent d : Nat) : (handler : Option Handler) →
    Everywhere Node.Spelled (visitHandler d handler) → AllPlain (printedHandler indent handler)
  | none, _ => allPlain_nil
  | some handler, h => by
    rw [printedHandler]
    exact .keyword (by decide) (handler.plain indent d h)

theorem Handler.plain (indent d : Nat) : (handler : Handler) →
    Everywhere Node.Spelled (visitHandler d (some handler)) → AllPlain (handler.printed indent)
  | .mk none body, h => by
    rw [visitHandler] at h
    rw [Handler.printed]
    exact .inBraces (printedLines_plain _ d body (everywhere_append.1 h).2) _ _
  | .mk (some param) body, h => by
    rw [visitHandler] at h
    obtain ⟨hparam, hbody⟩ := everywhere_append.1 h
    rw [Handler.printed]
    exact .append (.fence (param.plain indent d · hparam))
      (.inBraces (printedLines_plain _ d body hbody) _ _)

theorem printedFinalizer_plain (indent d : Nat) : (finalizer : Option (List Stmt)) →
    Everywhere Node.Spelled (visitFinalizer d finalizer) →
      AllPlain (printedFinalizer indent finalizer)
  | none, _ => allPlain_nil
  | some body, h => by
    rw [visitFinalizer] at h
    rw [printedFinalizer]
    exact .keyword (by decide) (.inBraces (printedLines_plain _ d body h) _ _)

theorem printedCases_plain (indent d : Nat) : (cases : List Case) →
    Everywhere Node.Spelled (visitCases d cases) → AllPlain (printedCases indent cases)
  | [], _ => allPlain_nil
  | c :: rest, h => by
    obtain ⟨hfirst, hrest⟩ : Everywhere Node.Spelled (visitCases d [c]) ∧
        Everywhere Node.Spelled (visitCases d rest) := by
      obtain ⟨test, body⟩ := c
      rw [visitCases] at h
      rw [visitCases, visitCases, List.append_nil]
      exact everywhere_append.1 h
    rw [printedCases]
    exact .append (c.plain indent d hfirst) (printedCases_plain indent d rest hrest)

theorem Case.plain (indent d : Nat) : (c : Case) → Everywhere Node.Spelled (visitCases d [c]) →
    AllPlain (c.printed indent)
  | .mk none body, h => by
    rw [visitCases] at h
    obtain ⟨-, hbody⟩ := everywhere_append.1 (everywhere_append.1 h).1
    rw [Case.printed]
    exact .keyword (by decide) (.symbol (printedLines_plain _ d body hbody))
  | .mk (some test) body, h => by
    rw [visitCases] at h
    obtain ⟨htest, hbody⟩ := everywhere_append.1 (everywhere_append.1 h).1
    rw [Case.printed]
    exact .keyword (by decide) (.append (test.plain indent d _ htest)
      (.symbol (printedLines_plain _ d body hbody)))

end

end WidgetLint.Script
