import WidgetLint.Proofs.Printing.Reparse

/-!
# The operator language

The operator language has names, simple literals, arrays, objects, and all operators, assignments,
accesses, calls and comma expressions over them. Every tree of it is fit, its tokens are plain, and
a slash is printed only where it divides. So **printing puts parentheses wherever the grammar needs
them** (`parse_text_of_operatorLanguage`): whatever tree of the language is printed, the text is
parsed as that tree.
-/

namespace WidgetLint.Script

open Text Number WidgetLint.Script.Parser

variable {e : Expr} {ts us : List Printed} {p : Printed} {lead : Spacing} {indent d : Nat}

/-! ## The language -/

/-- A word after which a slash divides. -/
def IsSteadyWord (name : String) : Prop :=
  isWordText name = true ∧ name ∉ regexAfterWords

/-- A whole number of at most fifteen digits. -/
def IsSmallWhole (value : Binary64) : Prop :=
  ∃ n, n < 10 ^ 15 ∧ value = .ofNat n

/-- The key of a pair in the operator language, apart from what is computed in it. -/
def Key.IsOperator : Key → Prop
  | .ident name => isWordText name = true
  | .string value => '\x00' ∉ value.toList
  | .number value => IsSmallWhole value
  | .computed key => key.isOrdinary

/-- A member of an object in the operator language, apart from the expressions in it. -/
def Member.IsOperator : Member → Prop
  | .named _ .pair key value => key.IsOperator ∧ value.isOrdinary
  | .spread argument => argument.isOrdinary
  | _ => False

/-- An expression of the operator language, apart from the expressions in it. -/
def Expr.IsOperator : Expr → Prop
  | .ident _ name => IsSteadyWord name ∧ isReserved name = false ∧ isLiteralWord name = false
  | .this _ | .null _ | .boolean .. => True
  | .string _ value => '\x00' ∉ value.toList
  | .number _ value => IsSmallWhole value
  | .array _ items => ∀ e, some e ∈ items → e.isElement
  | .object _ members => ∀ member ∈ members, member.IsOperator
  | .unary _ _ e | .update _ _ _ e | .spread _ e => e.isOrdinary
  | .binary _ _ left right => left.isOrdinary ∧ right.isOrdinary
  | .conditional _ test whenTrue whenFalse =>
    test.isOrdinary ∧ whenTrue.isOrdinary ∧ whenFalse.isOrdinary
  | .assign _ op target value => isTarget op target ∧ target.isOrdinary ∧ value.isOrdinary
  | .dot _ base _ name _ => base.isOrdinary ∧ IsSteadyWord name
  | .index _ base _ key => base.isOrdinary ∧ key.isOrdinary
  | .call _ callee _ arguments => callee.isOrdinary ∧ ∀ e ∈ arguments, e.isElement
  | .sequence _ items => 2 ≤ items.length ∧ ∀ e ∈ items, e.isOrdinary
  | .template .. | .regex .. | .function .. | .arrow .. | .new .. => False

/-- A node of the operator language. -/
def Node.IsOperator : Node → Prop
  | .expr e => e.IsOperator
  | .stmt _ => False

/-- An expression all of whose nodes are in the operator language. -/
def Expr.InOperatorLanguage (e : Expr) : Prop :=
  e.isOrdinary ∧ Everywhere Node.IsOperator (e.visit 0 (e.inside 1))

/-! ## Its trees are fit and spelled -/

theorem IsSmallWhole.plain {value : Binary64} (h : IsSmallWhole value) :
    (TokenBody.number value).Plain := by
  obtain ⟨n, hn, hvalue⟩ := h
  have hsmall : n < 2 ^ 53 := Nat.lt_trans hn (by decide)
  exact ⟨n * unitsPerOne, hvalue.trans (ofNat_whole hsmall), isDouble_whole hsmall,
    whole_lt_unitsLimit hsmall⟩

theorem Member.IsOperator.shaped {member : Member} (h : member.IsOperator) : member.Shaped := by
  cases member with
  | spread argument => exact h
  | named s kind key value =>
    cases kind with
    | pair =>
      obtain ⟨hkey, hvalue⟩ := h
      refine ⟨?_, hvalue⟩
      rintro e rfl
      exact hkey
    | _ => cases h

theorem Member.IsOperator.spelled {member : Member} (h : member.IsOperator) : member.Spelled := by
  cases member with
  | spread argument => exact True.intro
  | named s kind key value =>
    cases kind with
    | pair =>
      cases key with
      | ident name => exact h.1
      | string value => exact h.1
      | number value => exact IsSmallWhole.plain h.1
      | computed key => exact True.intro
    | _ => cases h

theorem Expr.IsOperator.shaped (h : e.IsOperator) : e.Shaped := by
  cases e with
  | ident s name => exact .inl h.2.1
  | object s members => exact fun member hmember => (h member hmember).shaped
  | dot s base optional name nameSpan => exact .inl h.1
  | template | regex | function | arrow | new => cases h
  | number | string | boolean | null | this => exact True.intro
  | _ => exact h

theorem Expr.IsOperator.faithful (h : e.IsOperator) : e.Faithful := by
  cases e with
  | ident s name => exact h.2.2
  | template | regex | function | arrow | new => cases h
  | _ => exact True.intro

theorem Expr.IsOperator.spelled (h : e.IsOperator) : e.Spelled := by
  cases e with
  | ident s name => exact h.1.1
  | number s value => exact IsSmallWhole.plain h
  | string s value => exact h
  | object s members => exact fun member hmember => (h member hmember).spelled
  | dot s base optional name nameSpan => exact h.2.1
  | sequence s items =>
    rintro rfl
    exact absurd h.1 (by decide)
  | template | regex | function | arrow | new => cases h
  | _ => exact True.intro

theorem Node.IsOperator.fit {n : Node} (h : n.IsOperator) : n.Fit := by
  cases n with
  | expr e => exact ⟨Expr.IsOperator.shaped h, Expr.IsOperator.faithful h⟩
  | stmt s => cases h

theorem Node.IsOperator.spelled {n : Node} (h : n.IsOperator) : n.Spelled := by
  cases n with
  | expr e => exact Expr.IsOperator.spelled h
  | stmt s => cases h

/-! ## Its slashes divide -/

/-- Whether a token begins with a slash neither as an operator nor as a regular expression. -/
def TokenBody.slashless (body : TokenBody) : Bool :=
  body.fitsSlash true && body.fitsSlash false

theorem slashed_of_slashless {q : Printed} (h : q.body.slashless = true) : p.Slashed q := by
  rw [TokenBody.slashless, Bool.and_eq_true] at h
  unfold Printed.Slashed
  cases regexAllowedAfter p.body p.body.spelling with
  | true => exact h.1
  | false => exact h.2

/-- Tokens that begin with no slash, have their slashes where they divide, and go on so if any
tokens follow but a regular expression. -/
structure Steady (ts : List Printed) : Prop where
  first : ∀ q ∈ ts.head?, q.body.slashless = true
  chain : ∀ us, us.IsChain Printed.Slashed → (∀ q ∈ us.head?, q.body.fitsSlash false = true) →
    (ts ++ us).IsChain Printed.Slashed

theorem steady_nil : Steady [] :=
  ⟨nofun, fun _ h _ => h⟩

theorem Steady.append (ht : Steady ts) (hu : Steady us) : Steady (ts ++ us) := by
  refine ⟨?_, fun vs hvs hfirst => ?_⟩
  · cases ts with
    | nil => exact hu.first
    | cons q ts => exact ht.first
  · rw [List.append_assoc]
    refine ht.chain _ (hu.chain vs hvs hfirst) ?_
    cases us with
    | nil => exact hfirst
    | cons q us =>
      intro r hr
      have hslashless := hu.first r hr
      rw [TokenBody.slashless, Bool.and_eq_true] at hslashless
      exact hslashless.2

theorem steady_singleton (hp : p.body.slashless = true)
    (hdivides : regexAllowedAfter p.body p.body.spelling = false) : Steady [p] := by
  refine ⟨?_, fun us hus hfirst => List.isChain_cons.2 ⟨fun q hq => ?_, hus⟩⟩
  · rintro q ⟨⟩
    exact hp
  · rw [Printed.Slashed, hdivides]
    exact hfirst q hq

theorem Steady.chain_cons (hu : Steady us) (hne : us ≠ []) {vs : List Printed}
    (hvs : vs.IsChain Printed.Slashed) (hfirst : ∀ q ∈ vs.head?, q.body.fitsSlash false = true) :
    (p :: (us ++ vs)).IsChain Printed.Slashed := by
  refine List.isChain_cons.2 ⟨fun q hq => slashed_of_slashless ?_, hu.chain vs hvs hfirst⟩
  rw [List.head?_append_of_ne_nil _ hne] at hq
  exact hu.first q hq

theorem Steady.cons (hp : p.body.slashless = true) (hne : us ≠ []) (hu : Steady us) :
    Steady (p :: us) := by
  refine ⟨?_, fun vs hvs hfirst => hu.chain_cons hne hvs hfirst⟩
  rintro q ⟨⟩
  exact hp

/-- An operator between operands; it may be a slash. -/
theorem Steady.operator {body : TokenBody} (ht : Steady ts) (hts : ts ≠ [])
    (hbody : body.fitsSlash false = true) (hu : Steady us) (hus : us ≠ []) :
    Steady (ts ++ ⟨lead, body⟩ :: us) := by
  refine ⟨?_, fun vs hvs hfirst => ?_⟩
  · rw [List.head?_append_of_ne_nil _ hts]
    exact ht.first
  · rw [List.append_assoc, List.cons_append]
    refine ht.chain _ (hu.chain_cons hus hvs hfirst) ?_
    rintro q ⟨⟩
    exact hbody

theorem Steady.enclose {opening close : Symbol} {l l' : Spacing}
    (hopening : (TokenBody.symbol opening).slashless = true) (hclose : close ∈ operandEnds)
    (ht : Steady ts) : Steady (.symbol l opening :: (ts ++ [Printed.symbol l' close])) := by
  have hend : Steady [.symbol l' close] := by
    simp only [operandEnds, List.mem_cons, List.not_mem_nil, or_false] at hclose
    rcases hclose with rfl | rfl | rfl | rfl | rfl <;> exact steady_singleton rfl rfl
  exact .cons hopening (by simp) (ht.append hend)

theorem Steady.fence {tokens : Spacing → List Printed} (h : Steady (tokens .joined))
    (lead : Spacing) : Steady (fence tokens lead) :=
  .enclose rfl (by decide) h

theorem Steady.fenced {tokens : Spacing → List Printed} (h : ∀ lead, Steady (tokens lead))
    (e : Expr) (least : Strength) (lead : Spacing) : Steady (e.fenced least tokens lead) := by
  unfold Expr.fenced
  split
  · exact .fence (h .joined) lead
  · exact h lead

theorem slashless_name (lead : Spacing) (name : String) :
    (Printed.name lead name).body.slashless = true := by
  unfold Printed.name wordBody
  repeat' split
  all_goals rfl

theorem steady_name {name : String} (h : name ∉ regexAfterWords) : Steady [.name lead name] := by
  refine steady_singleton (slashless_name lead name) ?_
  rw [show (Printed.name lead name).body.spelling = name from spelling_wordBody name]
  unfold Printed.name wordBody
  repeat' split
  iterate 3 rfl
  simpa [regexAllowedAfter] using h

theorem steady_access (optional : Bool) (hne : us ≠ []) (h : Steady us) :
    Steady ((if optional then [Printed.symbol .joined .questionDot] else []) ++ us) := by
  cases optional with
  | true => exact .cons rfl hne h
  | false => exact h

theorem printedAll_ne_nil (indent : Nat) (e : Expr) (rest : List Expr) (lead : Spacing) :
    printedAll indent (e :: rest) lead ≠ [] := by
  cases rest with
  | nil =>
    rw [printedAll]
    exact e.fenced_ne_nil _ _ _
  | cons next rest =>
    rw [printedAll]
    · simp
    · simp

mutual

theorem Expr.steady (indent d : Nat) : (e : Expr) → (lead : Spacing) →
    Everywhere Node.IsOperator (e.visit d (e.inside (d + 1))) → Steady (e.printed indent lead)
  | .number .., _, _ | .string .., _, _ | .boolean .., _, _ | .null _, _, _ | .this _, _, _ => by
    rw [Expr.printed]
    exact steady_singleton rfl rfl
  | .ident .., _, h => by
    rw [Expr.printed]
    exact steady_name (everywhere_expr.1 h).1.1.2
  | .array _ items, _, h => by
    have hinside := (everywhere_expr.1 h).2
    rw [Expr.inside] at hinside
    rw [Expr.printed]
    exact .cons rfl (by simp) (printedItems_steady indent _ items _ hinside)
  | .object _ members, _, h => by
    obtain ⟨hnode, hinside⟩ := everywhere_expr.1 h
    rw [Expr.inside] at hinside
    rw [Expr.printed]
    exact .cons rfl (by simp) (printedMembers_steady indent _ members _ _ hnode hinside)
  | .unary _ op operand, _, h => by
    have hinside := (everywhere_expr.1 h).2
    rw [Expr.inside] at hinside
    rw [Expr.printed]
    exact .cons (by cases op <;> rfl) (operand.fenced_ne_nil _ _ _)
      (.fenced (operand.steady indent _ · hinside) _ _ _)
  | .update _ op .before operand, _, h => by
    have hinside := (everywhere_expr.1 h).2
    rw [Expr.inside] at hinside
    rw [Expr.printed]
    exact .cons (by cases op <;> rfl) (operand.fenced_ne_nil _ _ _)
      (.fenced (operand.steady indent _ · hinside) _ _ _)
  | .update _ op .behind operand, _, h => by
    have hinside := (everywhere_expr.1 h).2
    rw [Expr.inside] at hinside
    rw [Expr.printed]
    exact .append (.fenced (operand.steady indent _ · hinside) _ _ _)
      (steady_singleton (by cases op <;> rfl) (by cases op <;> rfl))
  | .binary _ op left right, _, h => by
    have hinside := (everywhere_expr.1 h).2
    rw [Expr.inside] at hinside
    obtain ⟨hleft, hright⟩ := everywhere_append.1 hinside
    rw [Expr.printed]
    exact .operator (.fenced (left.steady indent _ · hleft) _ _ _) (left.fenced_ne_nil _ _ _)
      (by cases op <;> rfl) (.fenced (right.steady indent _ · hright) _ _ _)
      (right.fenced_ne_nil _ _ _)
  | .assign _ op target value, _, h => by
    have hinside := (everywhere_expr.1 h).2
    rw [Expr.inside] at hinside
    obtain ⟨htarget, hvalue⟩ := everywhere_append.1 hinside
    rw [Expr.printed]
    exact .operator (.fenced (target.steady indent _ · htarget) _ _ _)
      (target.fenced_ne_nil _ _ _) (by cases op <;> rfl)
      (.fenced (value.steady indent _ · hvalue) _ _ _) (value.fenced_ne_nil _ _ _)
  | .conditional _ test whenTrue whenFalse, _, h => by
    have hinside := (everywhere_expr.1 h).2
    rw [Expr.inside] at hinside
    obtain ⟨hfirst, hfalse⟩ := everywhere_append.1 hinside
    obtain ⟨htest, htrue⟩ := everywhere_append.1 hfirst
    have hbranches : Steady (whenTrue.fenced .assignment (whenTrue.printed indent) .spaced ++
        .symbol .spaced .colon :: whenFalse.fenced .assignment (whenFalse.printed indent) .spaced) :=
      .operator (.fenced (whenTrue.steady indent _ · htrue) _ _ _) (whenTrue.fenced_ne_nil _ _ _) rfl
        (.fenced (whenFalse.steady indent _ · hfalse) _ _ _) (whenFalse.fenced_ne_nil _ _ _)
    rw [Expr.printed]
    exact .operator (.fenced (test.steady indent _ · htest) _ _ _) (test.fenced_ne_nil _ _ _) rfl
      hbranches (by simp)
  | .dot _ base optional name _, lead, h => by
    obtain ⟨hnode, hinside⟩ := everywhere_expr.1 h
    rw [Expr.inside] at hinside
    have hbase : Steady (if base.isNumber then fence (base.printed indent) lead
        else base.fenced .call (base.printed indent) lead) := by
      split
      · exact .fence (base.steady indent _ _ hinside) _
      · exact .fenced (base.steady indent _ · hinside) _ _ _
    rw [Expr.printed]
    exact hbase.append (.cons (by cases optional <;> rfl) (by simp) (steady_name hnode.2.2))
  | .index _ base optional key, _, h => by
    have hinside := (everywhere_expr.1 h).2
    rw [Expr.inside] at hinside
    obtain ⟨hbase, hkey⟩ := everywhere_append.1 hinside
    rw [Expr.printed]
    exact .append (.fenced (base.steady indent _ · hbase) _ _ _)
      (steady_access optional (by simp) (.enclose rfl (by decide) (key.steady indent _ _ hkey)))
  | .call _ callee optional arguments, _, h => by
    have hinside := (everywhere_expr.1 h).2
    rw [Expr.inside] at hinside
    obtain ⟨hcallee, harguments⟩ := everywhere_append.1 hinside
    rw [Expr.printed]
    exact .append (.fenced (callee.steady indent _ · hcallee) _ _ _)
      (steady_access optional (by simp)
        (.enclose rfl (by decide) (printedAll_steady indent _ arguments _ harguments)))
  | .sequence _ items, _, h => by
    obtain ⟨hnode, hinside⟩ := everywhere_expr.1 h
    rw [Expr.inside] at hinside
    have hitems := List.ne_nil_of_length_pos (Nat.lt_of_lt_of_le Nat.two_pos hnode.1)
    rw [Expr.printed, if_neg (by simpa using hitems)]
    exact printedAll_steady indent _ items _ hinside
  | .spread _ argument, _, h => by
    have hinside := (everywhere_expr.1 h).2
    rw [Expr.inside] at hinside
    rw [Expr.printed]
    exact .cons rfl (argument.fenced_ne_nil _ _ _) (.fenced (argument.steady indent _ · hinside) _ _ _)
  | .template .., _, h | .regex .., _, h | .function .., _, h | .arrow .., _, h | .new .., _, h =>
    (everywhere_expr.1 h).1.elim

theorem printedAll_steady (indent d : Nat) : (es : List Expr) → (lead : Spacing) →
    Everywhere Node.IsOperator (visitAll d es) → Steady (printedAll indent es lead)
  | [], _, _ => steady_nil
  | [e], _, h => by
    rw [visitAll] at h
    rw [printedAll]
    exact .fenced (e.steady indent d · (everywhere_append.1 h).1) _ _ _
  | e :: next :: rest, _, h => by
    rw [visitAll] at h
    obtain ⟨he, hrest⟩ := everywhere_append.1 h
    rw [printedAll]
    · exact .append (.fenced (e.steady indent d · he) _ _ _)
        (.cons rfl (printedAll_ne_nil _ _ _ _) (printedAll_steady indent d (next :: rest) _ hrest))
    · simp

-- A hole leaves a comma before the bracket, so the bracket is part of the statement.
theorem printedItems_steady (indent d : Nat) : (items : List (Option Expr)) → (lead : Spacing) →
    Everywhere Node.IsOperator (visitItems d items) →
      Steady (printedItems indent items lead ++ [Printed.symbol .joined .rbracket])
  | [], _, _ => steady_singleton rfl rfl
  | none :: rest, _, h => by
    rw [visitItems] at h
    rw [printedItems]
    exact .cons rfl (by simp) (printedItems_steady indent d rest _ (everywhere_append.1 h).2)
  | [some e], _, h => by
    rw [visitItems] at h
    rw [printedItems]
    exact .append (.fenced (e.steady indent d · (everywhere_append.1 h).1) _ _ _)
      (steady_singleton rfl rfl)
  | some e :: next :: rest, _, h => by
    rw [visitItems] at h
    obtain ⟨he, hrest⟩ := everywhere_append.1 h
    rw [printedItems]
    · rw [List.append_assoc]
      exact .append (.fenced (e.steady indent d · he) _ _ _)
        (.cons rfl (by simp) (printedItems_steady indent d (next :: rest) _ hrest))
    · simp

theorem printedMembers_steady (indent d : Nat) : (members : List Member) → (lead close : Spacing) →
    (∀ member ∈ members, member.IsOperator) → Everywhere Node.IsOperator (visitMembers d members) →
      Steady (printedMembers indent members lead ++ [Printed.symbol close .rbrace])
  | [], _, _, _, _ => steady_singleton rfl rfl
  | [member], _, _, hmembers, h => by
    rw [visitMembers] at h
    rw [printedMembers]
    exact .append (member.steady indent d _ (hmembers member (by simp)) (everywhere_append.1 h).1)
      (steady_singleton rfl rfl)
  | member :: next :: rest, _, close, hmembers, h => by
    rw [visitMembers] at h
    obtain ⟨hmember, hrest⟩ := everywhere_append.1 h
    obtain ⟨hfirst, hothers⟩ := List.forall_mem_cons.1 hmembers
    rw [printedMembers]
    · rw [List.append_assoc]
      exact .append (member.steady indent d _ hfirst hmember)
        (.cons rfl (by simp) (printedMembers_steady indent d (next :: rest) _ close hothers hrest))
    · simp

theorem Member.steady (indent d : Nat) : (member : Member) → (lead : Spacing) →
    member.IsOperator → Everywhere Node.IsOperator (member.inside d) →
      Steady (member.printed indent lead)
  | .spread argument, _, _, h => by
    rw [Member.inside] at h
    rw [Member.printed]
    exact .cons rfl (argument.fenced_ne_nil _ _ _) (.fenced (argument.steady indent d · h) _ _ _)
  | .named _ .pair key value, _, _, h => by
    rw [Member.inside] at h
    obtain ⟨hkey, hvalue⟩ := everywhere_append.1 h
    rw [Member.printed]
    exact key.steady indent d _ hkey (.cons rfl (value.fenced_ne_nil _ _ _)
      (.fenced (value.steady indent d · hvalue) _ _ _)) (by simp)
  | .named _ .shorthand _ _, _, hmember, _ | .named _ .getter _ _, _, hmember, _
  | .named _ .setter _ _, _, hmember, _ | .named _ .method _ _, _, hmember, _ => hmember.elim

-- Any word can be a key, and a slash after some words is a regular expression, so what is behind
-- the key is part of the statement.
theorem Key.steady (indent d : Nat) : (key : Key) → (lead : Spacing) →
    Everywhere Node.IsOperator (key.inside d) → ∀ {us}, Steady us → us ≠ [] →
      Steady (key.printed indent lead ++ us)
  | .ident name, _, _, _, hu, hne => by
    rw [Key.printed]
    exact .cons (slashless_name _ name) hne hu
  | .string value, _, _, _, hu, hne => by
    rw [Key.printed]
    split
    · exact .cons (slashless_name _ value) hne hu
    · exact .cons rfl hne hu
  | .number _, _, _, _, hu, hne => by
    rw [Key.printed]
    exact .cons rfl hne hu
  | .computed key, _, h, _, hu, _ => by
    rw [Key.inside] at h
    rw [Key.printed]
    exact .append (.enclose rfl (by decide) (.fenced (key.steady indent d · h) _ _ _)) hu

end

/-! ## Printing and parsing -/

/-- **Printing puts parentheses wherever the grammar needs them**: a tree of the operator language
is parsed back from its text, unless it nests too deep. -/
theorem parse_text_of_operatorLanguage (h : e.InOperatorLanguage) :
    TooDeep (parseExpression e.text) ∨ ∃ found, parseExpression e.text = .ok found ∧
      e.Rereads found := by
  obtain ⟨hordinary, hnodes⟩ := h
  have hsteady : Steady (e.printed 0 .joined) := e.steady 0 0 .joined hnodes
  have hslashed := hsteady.chain [] .nil nofun
  rw [List.append_nil] at hslashed
  refine Expr.reparse (hnodes.imp fun _ => Node.IsOperator.fit) hordinary
    (hnodes.imp fun _ => Node.IsOperator.spelled) (fun p hp => ?_) hslashed
  have hfirst := hsteady.first p hp
  rw [TokenBody.slashless, Bool.and_eq_true] at hfirst
  exact hfirst.1

/-- The tree of `(a, 1)[b] / -(-x.y)`; it prints as `(a, 1)[b] / - -x.y`. -/
def dividedTree : Expr :=
  .binary default .div
    (.index default (.sequence default [.ident default "a", .number default (.ofNat 1)]) false
      (.ident default "b"))
    (.unary default .neg
      (.unary default .neg (.dot default (.ident default "x") false "y" default)))

theorem dividedTree_inOperatorLanguage : dividedTree.InOperatorLanguage := by
  have hone : IsSmallWhole (.ofNat 1) := ⟨1, by decide, rfl⟩
  refine ⟨rfl, ?_⟩
  simp only [dividedTree, Expr.inside, visitAll, everywhere_expr, everywhere_append, everywhere_nil,
    Node.IsOperator, Expr.IsOperator, hone, IsSteadyWord, and_true]
  decide

theorem parse_text_dividedTree : dividedTree.InOperatorLanguage ∧
    (TooDeep (parseExpression dividedTree.text) ∨
      ∃ found, parseExpression dividedTree.text = .ok found ∧ dividedTree.Rereads found) :=
  ⟨dividedTree_inOperatorLanguage, parse_text_of_operatorLanguage dividedTree_inOperatorLanguage⟩

end WidgetLint.Script
