import WidgetLint.Proofs.Nesting.Weight
import WidgetLint.Proofs.Printing.ParsedStmt

/-!
# The budget bounds the trees

Every reader returns trees whose paths are short, except for what their functions' parameters add
(`Bounded`): a pattern that is a parameter of a method costs no budget, so each step of a path from a
function into a parameter allows for three more nodes. Each level of the grammar adds as many nodes
as its chains have links, and three more; there are as many levels as the budget pays descents. That a
parser with a counter gives back whatever it spends, so that the budget left is the one that is
handed down, and never goes on with more spent than there is, are facts about that parser
(`Counting.level_counts`, `Counting.le_of_nest`).

**The trees that are read are bounded** (`parse_depth_lt`).
-/

namespace WidgetLint.Script

open Text

/-- The paths of a tree have at most `n` nodes, and three more for every step into a parameter. -/
def Bounded (n : Nat) (heaviest : Toll → Nat) : Prop :=
  heaviest .nodes ≤ n + 3 * heaviest .params

abbrev Expr.Bounded (n : Nat) (e : Expr) : Prop :=
  Script.Bounded n (Expr.heaviest · e)

abbrev Stmt.Bounded (n : Nat) (s : Stmt) : Prop :=
  Script.Bounded n (Stmt.heaviest · s)

section
variable {m n : Nat} {f g : Toll → Nat}

theorem Bounded.mono (h : Bounded m f) (hmn : m ≤ n) : Bounded n f :=
  h.trans (Nat.add_le_add_right hmn _)

theorem bounded_zero : Bounded n fun _ => 0 :=
  Nat.zero_le _

theorem Bounded.max (hf : Bounded n f) (hg : Bounded n g) : Bounded n fun w => max (f w) (g w) := by
  unfold Bounded at *
  dsimp only
  omega

theorem Bounded.node (h : Bounded n f) : Bounded (n + 1) fun w => w.node + f w := by
  unfold Bounded at *
  simp only [Toll.nodes_node, Toll.params_node]
  omega

theorem bounded_leaf : Bounded (n + 1) fun w => w.node :=
  Nat.le_add_left _ _

theorem Bounded.step (h : Bounded (n + 3) f) : Bounded n fun w => w.param + f w := by
  unfold Bounded at *
  simp only [Toll.nodes_param, Toll.params_param]
  omega

end

section
variable {n : Nat}

theorem bounded_all {es : List Expr} (h : ∀ e ∈ es, e.Bounded n) :
    Bounded n (heaviestOf · 0 es) := by
  induction es with
  | nil => exact bounded_zero
  | cons e rest ih =>
    obtain ⟨he, hrest⟩ := List.forall_mem_cons.1 h
    have hstep : Bounded n fun w => 0 + e.heaviest w := by simpa only [Nat.zero_add] using he
    exact hstep.max (ih hrest)

theorem bounded_params {ps : List Expr} (h : ∀ p ∈ ps, p.Bounded (n + 3)) :
    Bounded n fun w => heaviestOf w w.param ps := by
  induction ps with
  | nil => exact bounded_zero
  | cons p rest ih =>
    obtain ⟨hp, hrest⟩ := List.forall_mem_cons.1 h
    exact hp.step.max (ih hrest)

/-- An expression has a node of its own, so a leaf beside it makes no path longer. -/
theorem Expr.Bounded.leaf_max {e : Expr} (h : e.Bounded n) :
    Script.Bounded n fun w => max w.node (e.heaviest w) := by
  have hone : 1 ≤ e.heaviest .nodes := by
    cases e <;> simp only [Expr.heaviest, Toll.nodes_node] <;> omega
  have hbound : e.heaviest .nodes ≤ n + 3 * e.heaviest .params := h
  show max (Toll.node .nodes) _ ≤ n + 3 * max (Toll.node .params) _
  simp only [Toll.nodes_node, Toll.params_node]
  omega

theorem bounded_items {items : List (Option Expr)}
    (h : ∀ item ∈ items, ∀ e, item = some e → e.Bounded n) : Bounded n (heaviestItem · items) := by
  induction items with
  | nil => exact bounded_zero
  | cons item rest ih =>
    obtain ⟨hitem, hrest⟩ := List.forall_mem_cons.1 h
    cases item with
    | none => exact bounded_zero.max (ih hrest)
    | some e => exact (hitem e rfl).max (ih hrest)

theorem bounded_optional {o : Option Expr} (h : ∀ e, o = some e → e.Bounded n) :
    Bounded n (heaviestOptional · o) := by
  cases o with
  | none => exact bounded_zero
  | some e => exact h e rfl

theorem bounded_members {members : List Member}
    (h : ∀ member ∈ members, Bounded n (Member.heaviest · member)) :
    Bounded n (heaviestMember · members) := by
  induction members with
  | nil => exact bounded_zero
  | cons member rest ih =>
    obtain ⟨hmember, hrest⟩ := List.forall_mem_cons.1 h
    exact hmember.max (ih hrest)

theorem bounded_body {body : List Stmt} (h : ∀ s ∈ body, s.Bounded n) :
    Bounded n (heaviestBody · body) := by
  induction body with
  | nil => exact bounded_zero
  | cons s rest ih =>
    obtain ⟨hs, hrest⟩ := List.forall_mem_cons.1 h
    exact hs.max (ih hrest)

end

namespace Parser

structure Level.Bounded (n : Nat) (l : Level) : Prop where
  statement : Gets l.statement (Stmt.Bounded n)
  assignment : ∀ noIn, Gets (l.assignment noIn) (Expr.Bounded n)
  binary : ∀ noIn least, Gets (l.binary noIn least) (Expr.Bounded n)
  unary : Gets l.unary (Expr.Bounded n)
  construction : Gets l.construction (Expr.Bounded n)

theorem identifier_bounded {n : Nat} : Gets identifier (Expr.Bounded (n + 1)) := by
  refine here_gets.bind fun start _ => peek_gets.bind fun t ht => ?_
  cases t.name? with
  | none => exact unexpected_yields
  | some name =>
    exact advance_gets.bind fun _ _ => (spanFrom_gets start).bind fun _ _ => .pure bounded_leaf

/-! ## Lists of expressions -/

section
variable {n : Nat} {sub : Level} (hsub : sub.Bounded n)
include hsub

theorem sequence_bounded (noIn : Bool) : Gets (sequence sub noIn) (Expr.Bounded (n + 1)) := by
  refine here_gets.bind fun start _ => (hsub.assignment noIn).bind fun first hfirst => ?_
  refine (check_gets .comma).bind fun b _ => .ite (fun _ => ?_) fun _ =>
    .pure (hfirst.mono (Nat.le_succ n))
  have hitem : Gets (do if ← eat .comma then return some (← sub.assignment noIn) else return none)
      fun o => ∀ e, o = some e → e.Bounded n :=
    (eat_gets .comma).bind fun _ _ => .ite (fun _ => (hsub.assignment noIn).some)
      fun _ => .pure nofun
  refine (many_gets hitem).bind fun others hothers => (spanFrom_gets start).bind fun _ _ => ?_
  exact .pure (bounded_all (List.forall_mem_cons.2 ⟨hfirst, hothers⟩)).node

theorem parenthesized_bounded : Gets (parenthesized sub) (Expr.Bounded (n + 1)) :=
  (expect_gets .lparen).bind fun _ _ => (sequence_bounded hsub false).bind fun _ he =>
    (expect_gets .rparen).bind fun _ _ => .pure he

theorem spreadOrAssignment_bounded : Gets (spreadOrAssignment sub) (Expr.Bounded (n + 1)) := by
  refine here_gets.bind fun start _ => (eat_gets .ellipsis).bind fun _ _ => ?_
  refine .ite (fun _ => ?_) fun _ =>
    (hsub.assignment false).imp fun _ _ he => he.mono (Nat.le_succ n)
  exact (hsub.assignment false).bind fun _ he => (spanFrom_gets start).bind fun _ _ =>
    .pure he.node

theorem arguments_bounded : Gets (arguments sub) fun es => ∀ e ∈ es, e.Bounded (n + 1) :=
  bracketed_gets .lparen .rparen (spreadOrAssignment_bounded hsub)

theorem array_bounded : Gets (array sub) (Expr.Bounded (n + 2)) := by
  refine here_gets.bind fun start _ => (expect_gets .lbracket).bind fun _ _ => ?_
  have hitem : Gets
      (do
        if ← check .rbracket then return none
        if ← eat .comma then return some none
        let item ← spreadOrAssignment sub
        unless ← check .rbracket do expect .comma
        return some (some item))
      fun o => ∀ item, o = some item → ∀ e, item = some e → e.Bounded (n + 1) := by
    refine (check_gets .rbracket).bind fun _ _ => .ite (fun _ => .pure nofun) fun _ => ?_
    refine (eat_gets .comma).bind fun _ _ => .ite (fun _ => .pure ?_) fun _ => ?_
    · rintro _ ⟨⟩ _ ⟨⟩
    refine (spreadOrAssignment_bounded hsub).bind fun e he => ?_
    have hsome : ∀ item, some (some e) = some item → ∀ e, item = some e → e.Bounded (n + 1) := by
      rintro _ ⟨⟩ _ ⟨⟩
      exact he
    refine (check_gets .rbracket).bind fun _ _ => .ite (fun _ => .pure hsome) fun _ => ?_
    exact (expect_gets .comma).bind fun _ _ => .pure hsome
  refine (many_gets hitem).bind fun items hitems => (expect_gets .rbracket).bind fun _ _ => ?_
  exact (spanFrom_gets start).bind fun _ _ => .pure (bounded_items hitems).node

/-! ## Functions and objects -/

theorem block_bounded : Gets (block sub) fun body => Bounded n (heaviestBody · body) := by
  refine (expect_gets .lbrace).bind fun _ _ => ?_
  have hitem : Gets
      (do
        if ← check .rbrace then return none
        if ← atEnd then unexpected
        return some (← sub.statement))
      fun o => ∀ s, o = some s → s.Bounded n := by
    refine (check_gets .rbrace).bind fun _ _ => .ite (fun _ => .pure nofun) fun _ => ?_
    exact atEnd_gets.bind fun _ _ => .unless hsub.statement.some unexpected_yields
  exact (many_gets hitem).bind fun _ hbody => advance_gets.bind fun _ _ =>
    .pure (bounded_body hbody)

theorem memberKey_bounded : Gets (memberKey sub) fun key => Bounded n (Key.heaviest · key) := by
  refine peek_gets.bind fun t _ => ?_
  split
  · exact advance_gets.bind fun _ _ => .pure bounded_zero
  · exact advance_gets.bind fun _ _ => .pure bounded_zero
  · exact advance_gets.bind fun _ _ => (hsub.assignment false).bind fun _ he =>
      (expect_gets .rbracket).bind fun _ _ => .pure he
  · split
    · exact advance_gets.bind fun _ _ => .pure bounded_zero
    · exact unexpected_yields

section
variable {target : Parser Expr} (htarget : Gets target (Expr.Bounded (n + 2)))
include htarget

theorem bindingElement_bounded : Gets (bindingElement sub target) (Expr.Bounded (n + 3)) := by
  refine here_gets.bind fun start _ => htarget.bind fun name hname => ?_
  refine (eat_gets .eq).bind fun _ _ => .ite (fun _ => ?_) fun _ =>
    .pure (hname.mono (Nat.le_succ _))
  refine (hsub.assignment false).bind fun value hvalue => (spanFrom_gets start).bind fun _ _ => ?_
  exact .pure (hname.max (hvalue.mono (Nat.le_add_right n 2))).node

theorem param_bounded : Gets (param sub target) (Expr.Bounded (n + 3)) := by
  refine here_gets.bind fun start _ => (eat_gets .ellipsis).bind fun _ _ => ?_
  refine .ite (fun _ => ?_) fun _ => bindingElement_bounded hsub htarget
  exact htarget.bind fun _ hname => (spanFrom_gets start).bind fun _ _ => .pure hname.node

/-- A parameter may have three nodes more than the budget pays, one step into it allows for them. -/
theorem paramsWith_bounded : Gets (paramsWith sub target) fun ps =>
    Bounded n fun w => heaviestOf w w.param ps :=
  (bracketed_gets .lparen .rparen (param_bounded hsub htarget)).imp fun _ _ hps => bounded_params hps

theorem methodValue_bounded : Gets (methodValue sub target) (Expr.Bounded (n + 1)) := by
  refine here_gets.bind fun start _ => (paramsWith_bounded hsub htarget).bind fun _ hparams => ?_
  exact (block_bounded hsub).bind fun _ hbody => (spanFrom_gets start).bind fun _ _ =>
    .pure (hparams.max hbody).node

theorem memberValue_bounded (start : Position) (generator : Bool) (keyToken : Token) :
    Gets (memberValue sub target start generator keyToken) fun found =>
      found.2.Bounded (n + 1) := by
  refine peek_gets.bind fun t _ => ?_
  split
  · exact advance_gets.bind fun _ _ => (hsub.assignment false).bind fun _ hvalue =>
      .pure (hvalue.mono (Nat.le_succ n))
  · exact (methodValue_bounded hsub htarget).bind fun _ hvalue => .pure hvalue
  · exact .pure bounded_leaf
  · exact .pure bounded_leaf
  · refine advance_gets.bind fun _ _ => (hsub.assignment false).bind fun _ hvalue => ?_
    exact (spanFrom_gets start).bind fun _ _ => .pure (Expr.Bounded.leaf_max hvalue).node
  · exact unexpected_yields

theorem memberWith_bounded : Gets (memberWith sub target) fun member =>
    Bounded (n + 1) (Member.heaviest · member) := by
  refine here_gets.bind fun start _ => (eat_gets .ellipsis).bind fun _ _ => ?_
  refine .ite (fun _ => ?_) fun _ => ?_
  · exact (hsub.assignment false).bind fun _ he => .pure (he.mono (Nat.le_succ n))
  refine peek_gets.bind fun t _ => peekSecond_gets.bind fun next _ => ?_
  cases announcedKind? t next with
  | some kind =>
    refine advance_gets.bind fun _ _ => (memberKey_bounded hsub).bind fun key hkey => ?_
    refine (methodValue_bounded hsub htarget).bind fun value hvalue => ?_
    exact (spanFrom_gets start).bind fun _ _ => .pure ((hkey.mono (Nat.le_succ n)).max hvalue)
  | none =>
    refine (eat_gets .star).bind fun generator _ => peek_gets.bind fun keyToken _ => ?_
    refine (memberKey_bounded hsub).bind fun key hkey => ?_
    refine (memberValue_bounded hsub htarget start generator keyToken).bind fun _ hfound => ?_
    exact (spanFrom_gets start).bind fun _ _ => .pure ((hkey.mono (Nat.le_succ n)).max hfound)

theorem objectWith_bounded : Gets (objectWith sub target) (Expr.Bounded (n + 2)) := by
  refine here_gets.bind fun start _ => ?_
  refine (bracketed_gets .lbrace .rbrace (memberWith_bounded hsub htarget)).bind fun _ h => ?_
  exact (spanFrom_gets start).bind fun _ _ => .pure (bounded_members h).node

end

theorem bindingTargetWith_bounded {object : Parser Expr}
    (hobject : Gets object (Expr.Bounded (n + 2))) :
    Gets (bindingTargetWith sub object) (Expr.Bounded (n + 2)) := by
  refine peek_gets.bind fun t _ => ?_
  split
  · exact hobject
  · exact array_bounded hsub
  · exact identifier_bounded

/-- However deep objects nest as parameters, the bound is the same: the step into each of them
allows for its nodes. -/
theorem objectUpTo_bounded (fuel : Nat) : Gets (objectUpTo sub fuel) (Expr.Bounded (n + 2)) := by
  induction fuel with
  | zero => exact unexpected_yields
  | succ fuel ih => exact objectWith_bounded hsub (bindingTargetWith_bounded hsub ih)

theorem object_bounded : Gets (object sub) (Expr.Bounded (n + 2)) :=
  .get_bind fun _ => objectUpTo_bounded hsub _

theorem bindingTarget_bounded : Gets (bindingTarget sub) (Expr.Bounded (n + 2)) :=
  bindingTargetWith_bounded hsub (object_bounded hsub)

theorem params_bounded : Gets (params sub) fun ps => Bounded n fun w => heaviestOf w w.param ps :=
  paramsWith_bounded hsub (bindingTarget_bounded hsub)

theorem functionRest_bounded : Gets (functionRest sub) fun found =>
    Bounded n fun w => max (heaviestOf w w.param found.1) (heaviestBody w found.2) :=
  (params_bounded hsub).bind fun _ hparams => (block_bounded hsub).bind fun _ hbody =>
    .pure (hparams.max hbody)

theorem functionExpr_bounded (start : Position) :
    Gets (functionExpr sub start) (Expr.Bounded (n + 1)) :=
  (eat_gets .star).bind fun _ _ => functionName?_gets.bind fun _ _ =>
    (functionRest_bounded hsub).bind fun _ hrest => (spanFrom_gets start).bind fun _ _ =>
      .pure hrest.node

/-! ## Operands -/

omit hsub in
theorem atom_bounded {make : Span → Expr} (h : ∀ s, (make s).Bounded n) :
    Gets (atom make) (Expr.Bounded n) :=
  here_gets.bind fun start _ => advance_gets.bind fun _ _ => (spanFrom_gets start).bind fun s _ =>
    .pure (h s)

theorem wordOperand_bounded (name : String) : Gets (wordOperand sub name) (Expr.Bounded (n + 1)) := by
  have hrest : Gets (if isReserved name = true then unexpected else atom (.ident · name))
      (Expr.Bounded (n + 1)) :=
    .ite (fun _ => unexpected_yields) fun _ => atom_bounded fun _ => bounded_leaf
  refine here_gets.bind fun start _ => .ite (fun _ => ?_) fun _ => .ite (fun _ => ?_) fun _ => ?_
  · exact atom_bounded fun _ => bounded_leaf
  · exact advance_gets.bind fun _ _ => functionExpr_bounded hsub start
  · refine asyncFunctionAhead_gets.bind fun _ _ => .ite (fun _ => ?_) fun _ => hrest
    exact advance_gets.bind fun _ _ => advance_gets.bind fun _ _ => functionExpr_bounded hsub start

theorem primary_bounded : Gets (primary sub) (Expr.Bounded (n + 2)) := by
  refine peek_gets.bind fun t _ => ?_
  split
  iterate 6 exact atom_bounded fun _ => bounded_leaf
  · exact (wordOperand_bounded hsub _).imp fun _ _ he => he.mono (Nat.le_succ _)
  · exact (parenthesized_bounded hsub).imp fun _ _ he => he.mono (Nat.le_succ _)
  · exact array_bounded hsub
  · exact object_bounded hsub
  · exact unexpected_yields

theorem indexKey_bounded : Gets (indexKey sub) (Expr.Bounded (n + 1)) :=
  (expect_gets .lbracket).bind fun _ _ => (sequence_bounded hsub false).bind fun _ he =>
    (expect_gets .rbracket).bind fun _ _ => .pure he

section
variable {m : Nat} {e : Expr} (hnm : n + 1 ≤ m) (he : e.Bounded m)
include he

omit hsub in
theorem dot_bounded (start : Position) (optional : Bool) : Gets (do
      let (name, nameSpan) ← memberName
      return .dot (← spanFrom start) e optional name nameSpan) (Expr.Bounded (m + 1)) :=
  memberName_gets.bind fun _ _ => (spanFrom_gets start).bind fun _ _ => .pure he.node

include hnm

theorem access_bounded (start : Position) (optional : Bool) :
    Gets (access sub start e optional) (Expr.Bounded (m + 1)) := by
  refine (check_gets .lbracket).bind fun _ _ => ?_
  refine .ite (fun _ => ?_) fun _ => dot_bounded he start optional
  exact (indexKey_bounded hsub).bind fun _ hkey => (spanFrom_gets start).bind fun _ _ =>
    .pure (he.max (hkey.mono hnm)).node

theorem callOf_bounded (start : Position) (optional : Bool) :
    Gets (callOf sub start e optional) (Expr.Bounded (m + 1)) :=
  (arguments_bounded hsub).bind fun _ harguments => (spanFrom_gets start).bind fun _ _ =>
    .pure (he.max ((bounded_all harguments).mono hnm)).node

theorem chainLink_bounded (start : Position) (s : Symbol) :
    Gets (chainLink sub start e s) (Expr.Bounded (m + 1)) := by
  unfold chainLink
  split
  · exact advance_gets.bind fun _ _ => dot_bounded he start false
  · exact advance_gets.bind fun _ _ => (check_gets .lparen).bind fun _ _ =>
      .ite (fun _ => callOf_bounded hsub hnm he start true)
        fun _ => access_bounded hsub hnm he start true
  · exact callOf_bounded hsub hnm he start false
  · exact access_bounded hsub hnm he start false

end

end

/-! ## Chains -/

/-- The nodes that the links of a chain add. -/
def chainNodes : Nat := nestingBudget / linkCost

/-- The nodes that a level adds: those of a chain, of the operand it starts with and of the
operator on it. -/
def levelNodes : Nat := chainNodes + 3

section
variable {n : Nat} {lower : Nat → Level}
  (hlower : ∀ budget, budget ≤ nestingBudget → (lower budget).Bounded n)
include hlower

/-- What a chain has become is bounded by the budget that its links have spent. -/
def ChainBounded (n : Nat) (state : Nat × Expr) : Prop :=
  state.1 ≤ nestingBudget ∧ state.2.Bounded (n + (nestingBudget - state.1) / linkCost)

omit hlower in
theorem ChainBounded.expr {state : Nat × Expr} (h : ChainBounded n state) :
    state.2.Bounded (n + chainNodes) :=
  h.2.mono (Nat.add_le_add_left (Nat.div_le_div_right (Nat.sub_le _ _)) n)

omit hlower in
theorem chainBounded_start {budget : Nat} {e : Expr} (hbudget : budget ≤ nestingBudget)
    (he : e.Bounded n) : ChainBounded n (budget, e) :=
  ⟨hbudget, he.mono (Nat.le_add_right _ _)⟩

omit hlower in
theorem ChainBounded.link {budget : Nat} {left e : Expr}
    (h : ChainBounded n (budget + linkCost, left))
    (he : e.Bounded (n + (nestingBudget - (budget + linkCost)) / linkCost + 1)) :
    ChainBounded n (budget, e) := by
  obtain ⟨hbudget, -⟩ := h
  refine ⟨Nat.le_of_add_right_le hbudget, he.mono ?_⟩
  simp only [linkCost] at *
  omega

theorem chainStep_bounded (start : Position) (links : List Symbol) (state : Nat × Expr)
    (hstate : ChainBounded (n + 2) state) : Gets (chainStep lower start links state)
      (Sum.elim (ChainBounded (n + 2)) (ChainBounded (n + 2))) := by
  obtain ⟨available, e⟩ := state
  refine peek_gets.bind fun t _ => ?_
  split
  · refine .ite (fun _ => ?_) fun _ => .pure hstate
    refine link_gets _ fun budget hpaid => ?_
    subst hpaid
    have hsub := hlower budget (Nat.le_of_add_right_le hstate.1)
    have hsmaller := (Nat.le_succ (n + 1)).trans
      (Nat.le_add_right (n + 2) ((nestingBudget - (budget + linkCost)) / linkCost))
    exact (chainLink_bounded hsub hsmaller hstate.2 start _).bind fun _ he =>
      .pure (hstate.link he)
  · exact .pure hstate

theorem chain_bounded (start : Position) (links : List Symbol) {budget : Nat}
    (hbudget : budget ≤ nestingBudget) {e : Expr} (he : e.Bounded (n + 2)) :
    Gets (iterate (chainStep lower start links) (budget, e)) (ChainBounded (n + 2)) :=
  iterate_gets (chainStep_bounded hlower start links) (chainBounded_start hbudget he)

variable {budget : Nat} (hbudget : budget ≤ nestingBudget)
include hbudget

theorem newRest_bounded (start : Position) :
    Gets (newRest lower budget start) (Expr.Bounded (n + levelNodes)) := by
  have hrest {callee : Expr} (hcallee : callee.Bounded (n + 2)) : Gets (do
      let state ← iterate (chainStep lower start [.dot, .lbracket]) (budget, callee)
      let arguments ← if ← check .lparen then arguments (lower state.1) else pure []
      return .new (← spanFrom start) state.2 arguments) (Expr.Bounded (n + levelNodes)) := by
    refine (chain_bounded hlower start [.dot, .lbracket] hbudget hcallee).bind fun state hstate => ?_
    have hend {arguments : List Expr} (harguments : ∀ e ∈ arguments, e.Bounded (n + 1)) :
        Gets (do return .new (← spanFrom start) state.2 arguments)
          (Expr.Bounded (n + levelNodes)) := by
      refine (spanFrom_gets start).bind fun _ _ => .pure ?_
      have hall := (bounded_all harguments).mono
        (show n + 1 ≤ n + 2 + chainNodes by omega)
      exact (hstate.expr.max hall).node.mono (by unfold levelNodes; omega)
    refine (check_gets .lparen).bind fun _ _ => .ite (fun _ => ?_) fun _ => hend (by simp)
    exact (arguments_bounded (hlower state.1 hstate.1)).bind fun _ harguments => hend harguments
  refine (checkWord_gets "new").bind fun _ _ => .ite (fun _ => ?_) fun _ => ?_
  · exact (hlower budget hbudget).construction.bind fun _ hcallee =>
      hrest (hcallee.mono (Nat.le_add_right n 2))
  · exact (primary_bounded (hlower budget hbudget)).bind fun _ hcallee => hrest hcallee

theorem constructionAt_bounded :
    Gets (constructionAt lower budget) (Expr.Bounded (n + levelNodes)) := by
  refine here_gets.bind fun start _ => advance_gets.bind fun _ _ => ?_
  refine (eat_gets .dot).bind fun _ _ => ?_
  refine .ite (fun _ => ?_) fun _ => newRest_bounded hlower hbudget start
  refine (spanFrom_gets start).bind fun s _ => memberName_gets.bind fun _ _ => ?_
  refine (spanFrom_gets start).bind fun _ _ => .pure ?_
  exact (bounded_leaf (n := n)).node.mono (by unfold levelNodes; omega)

theorem callMember_bounded :
    Gets (callMember lower budget) (Expr.Bounded (n + 2 + chainNodes)) := by
  have hrest {first : Expr} (start : Position) (hfirst : first.Bounded (n + 2)) : Gets (do
      let state ← iterate (chainStep lower start [.dot, .questionDot, .lbracket, .lparen])
        (budget, first)
      return state.2) (Expr.Bounded (n + 2 + chainNodes)) :=
    (chain_bounded hlower start _ hbudget hfirst).bind fun _ hstate => .pure hstate.expr
  refine here_gets.bind fun start _ => (checkWord_gets "new").bind fun _ _ => ?_
  refine .ite (fun _ => ?_) fun _ => ?_
  · exact (hlower budget hbudget).construction.bind fun _ hfirst =>
      hrest start (hfirst.mono (Nat.le_add_right n 2))
  · exact (primary_bounded (hlower budget hbudget)).bind fun _ hfirst => hrest start hfirst

theorem postfixed_bounded : Gets (postfixed lower budget) (Expr.Bounded (n + levelNodes)) := by
  refine here_gets.bind fun start _ => (callMember_bounded hlower hbudget).bind fun e he => ?_
  refine peek_gets.bind fun t _ => ?_
  split
  · refine advance_gets.bind fun _ _ => (spanFrom_gets start).bind fun _ _ => .pure ?_
    exact he.node.mono (by unfold levelNodes; omega)
  · exact .pure (he.mono (by unfold levelNodes; omega))

theorem unaryAt_bounded : Gets (unaryAt lower budget) (Expr.Bounded (n + levelNodes)) := by
  have hone : n + 1 ≤ n + levelNodes := by unfold levelNodes; omega
  refine here_gets.bind fun start _ => peek_gets.bind fun t _ => ?_
  split
  · exact advance_gets.bind fun _ _ => (hlower budget hbudget).unary.bind fun _ he =>
      (spanFrom_gets start).bind fun _ _ => .pure (he.node.mono hone)
  · exact advance_gets.bind fun _ _ => (hlower budget hbudget).unary.bind fun _ he =>
      (spanFrom_gets start).bind fun _ _ => .pure (he.node.mono hone)
  · exact postfixed_bounded hlower hbudget

/-! ## Operators -/

omit hbudget in
theorem binaryStep_bounded (noIn : Bool) (least : Nat) (start : Position) (state : Nat × Expr)
    (hstate : ChainBounded n state) : Gets (binaryStep lower noIn least start state)
      (Sum.elim (ChainBounded n) (Expr.Bounded (n + chainNodes))) := by
  obtain ⟨available, left⟩ := state
  refine peek_gets.bind fun t _ => ?_
  split
  · exact .pure hstate.expr
  · refine .ite (fun _ => .pure hstate.expr) fun _ => link_gets _ fun budget hpaid => ?_
    subst hpaid
    have hsub := hlower budget (Nat.le_of_add_right_le hstate.1)
    exact advance_gets.bind fun _ _ => (hsub.binary noIn _).bind fun _ hright =>
      (spanFrom_gets start).bind fun _ _ =>
        .pure (hstate.link (hstate.2.max (hright.mono (Nat.le_add_right n _))).node)

theorem binaryAt_bounded (noIn : Bool) (least : Nat) :
    Gets (binaryAt lower budget noIn least) (Expr.Bounded (n + levelNodes)) := by
  refine here_gets.bind fun start _ => (hlower budget hbudget).unary.bind fun left hleft => ?_
  refine (iterate_gets (binaryStep_bounded hlower noIn least start)
    (chainBounded_start hbudget hleft)).imp fun _ _ he => he.mono ?_
  unfold levelNodes
  omega

end

section
variable {n : Nat} {sub : Level} (hsub : sub.Bounded n)
include hsub

theorem conditional_bounded (noIn : Bool) : Gets (conditional sub noIn) (Expr.Bounded (n + 1)) := by
  refine here_gets.bind fun start _ => (hsub.binary noIn 0).bind fun test htest => ?_
  refine (eat_gets .question).bind fun _ _ => .ite (fun _ => ?_) fun _ =>
    .pure (htest.mono (Nat.le_succ n))
  refine (hsub.assignment false).bind fun _ htrue => (expect_gets .colon).bind fun _ _ => ?_
  exact (hsub.assignment noIn).bind fun _ hfalse => (spanFrom_gets start).bind fun _ _ =>
    .pure (htest.max (htrue.max hfalse)).node

/-! ## Arrow functions and assignments -/

theorem arrow_bounded (noIn : Bool) (start : Position) :
    Gets (arrow sub noIn start) (Expr.Bounded (n + 1)) := by
  have hrest {params : List Expr} (hparams : Script.Bounded n fun w => heaviestOf w w.param params) :
      Gets (do
        expect .arrow
        let body ←
          if ← check .lbrace then pure (ArrowBody.block (← block sub))
          else pure (ArrowBody.expression (← sub.assignment noIn))
        return .arrow (← spanFrom start) params body) (Expr.Bounded (n + 1)) := by
    refine (expect_gets .arrow).bind fun _ _ => (check_gets .lbrace).bind fun _ _ => ?_
    refine .ite (fun _ => ?_) fun _ => ?_
    · refine (block_bounded hsub).bind fun body hbody => ?_
      rw [pure_bind]
      exact (spanFrom_gets start).bind fun _ _ => .pure (hparams.max hbody).node
    · refine (hsub.assignment noIn).bind fun value hvalue => ?_
      rw [pure_bind]
      exact (spanFrom_gets start).bind fun _ _ => .pure (hparams.max hvalue).node
  refine peek_gets.bind fun _ _ => .ite (fun _ => ?_) fun _ => ?_
  · refine (identifier_bounded (n := n + 2)).bind fun name hname => hrest (bounded_params ?_)
    simpa only [List.mem_singleton, forall_eq] using hname
  · exact (params_bounded hsub).bind fun _ hparams => hrest hparams

theorem plainAssignment_bounded (noIn : Bool) :
    Gets (plainAssignment sub noIn) (Expr.Bounded (n + 2)) := by
  refine here_gets.bind fun start _ => (conditional_bounded hsub noIn).bind fun left hleft => ?_
  refine peek_gets.bind fun t _ => ?_
  split
  · exact .pure (hleft.mono (Nat.le_succ _))
  · refine .ite (fun htarget => ?_) fun _ => yields_throw
    exact advance_gets.bind fun _ _ => (hsub.assignment noIn).bind fun _ hvalue =>
      (spanFrom_gets start).bind fun _ _ => .pure (hleft.max (hvalue.mono (Nat.le_succ n))).node

theorem assignmentAt_bounded (noIn : Bool) :
    Gets (assignmentAt sub noIn) (Expr.Bounded (n + 2)) := by
  have harrow (start : Position) : Gets (arrow sub noIn start) (Expr.Bounded (n + 2)) :=
    (arrow_bounded hsub noIn start).imp fun _ _ he => he.mono (Nat.le_succ _)
  refine .get_bind fun input => here_gets.bind fun start _ => .ite (fun _ => ?_) fun _ => ?_
  · exact advance_gets.bind fun _ _ => harrow start
  · exact .ite (fun _ => harrow start) fun _ => plainAssignment_bounded hsub noIn

end

/-! ## Statements -/

/-- A statement whose place is still to be given is bounded wherever it stands. -/
abbrev MakesBounded (n : Nat) (make : Span → Stmt) : Prop :=
  ∀ s, (make s).Bounded n

section
variable {n : Nat} {sub : Level} (hsub : sub.Bounded n)
include hsub

theorem declarator_bounded (noIn : Bool) : Gets (declarator sub noIn) fun d =>
    Bounded (n + 2) (heaviestDeclarator · [d]) := by
  refine (bindingTarget_bounded hsub).bind fun target htarget => (eat_gets .eq).bind fun _ _ => ?_
  refine .ite (fun _ => ?_) fun _ => .pure ((htarget.max bounded_zero).max bounded_zero)
  exact (hsub.assignment noIn).bind fun value hvalue =>
    .pure ((htarget.max (hvalue.mono (Nat.le_add_right n 2))).max bounded_zero)

omit hsub in
theorem bounded_declarators {ds : List Declarator}
    (h : ∀ d ∈ ds, Bounded n (heaviestDeclarator · [d])) : Bounded n (heaviestDeclarator · ds) := by
  induction ds with
  | nil => exact bounded_zero
  | cons d rest ih =>
    obtain ⟨hd, hrest⟩ := List.forall_mem_cons.1 h
    obtain ⟨target, value⟩ := d
    have hfirst : Bounded n fun w => max (target.heaviest w) (heaviestOptional w value) := by
      simpa only [heaviestDeclarator, Nat.max_zero] using hd
    exact hfirst.max (ih hrest)

theorem declarators_bounded (noIn : Bool) : Gets (declarators sub noIn) fun ds =>
    Bounded (n + 2) (heaviestDeclarator · ds) := by
  refine advance_gets.bind fun _ _ => (declarator_bounded hsub noIn).bind fun first hfirst => ?_
  have hitem : Gets (do if ← eat .comma then return some (← declarator sub noIn) else return none)
      fun o => ∀ d, o = some d → Bounded (n + 2) (heaviestDeclarator · [d]) :=
    (eat_gets .comma).bind fun _ _ => .ite (fun _ => (declarator_bounded hsub noIn).some)
      fun _ => .pure nofun
  exact (many_gets hitem).bind fun others hothers =>
    .pure (bounded_declarators (List.forall_mem_cons.2 ⟨hfirst, hothers⟩))

theorem declaration_bounded (kind : VarKind) :
    Gets (declaration sub kind) (MakesBounded (n + 3)) :=
  (declarators_bounded hsub false).bind fun _ hdeclared => endStatement_gets.bind fun _ _ =>
    .pure fun _ => hdeclared.node

theorem functionDeclaration_bounded :
    Gets (functionDeclaration sub) (MakesBounded (n + 3)) := by
  refine (eat_gets .star).bind fun _ _ => functionName?_gets.bind fun o _ => ?_
  cases o with
  | none => exact unexpected_yields
  | some name =>
    exact (functionRest_bounded hsub).bind fun _ hrest =>
      .pure fun _ => hrest.node.mono (Nat.le_add_right _ 2)

/-! ## Loops -/

theorem forInit_bounded : Gets (forInit sub) fun init =>
    Bounded (n + 2) (ForInit.heaviest · init) := by
  refine declarationKind?_gets.bind fun o _ => ?_
  cases o with
  | none => exact (sequence_bounded hsub true).bind fun _ he => .pure (he.mono (Nat.le_succ _))
  | some kind => exact (declarators_bounded hsub true).bind fun _ hdeclared => .pure hdeclared

theorem unlessAt_bounded (s : Symbol) : Gets (unlessAt sub s) fun o =>
    Bounded (n + 1) (heaviestOptional · o) :=
  (check_gets s).bind fun _ _ => .ite (fun _ => .pure bounded_zero) fun _ =>
    (sequence_bounded hsub false).bind fun _ he => .pure he

theorem body_bounded : Gets sub.statement (Stmt.Bounded (n + 2)) :=
  hsub.statement.imp fun _ _ hs => hs.mono (Nat.le_add_right n 2)

theorem test_bounded : Gets (parenthesized sub) (Expr.Bounded (n + 2)) :=
  (parenthesized_bounded hsub).imp fun _ _ he => he.mono (Nat.le_succ _)

theorem forEachRest_bounded {left : ForInit}
    (hleft : Bounded (n + 2) (ForInit.heaviest · left)) :
    Gets (forEachRest sub left) (MakesBounded (n + 3)) := by
  have hrest {right : Expr} (of : Bool) (hright : right.Bounded (n + 1)) : Gets (do
      expect .rparen
      let body ← sub.statement
      return fun span => Stmt.forEach span left right body of) (MakesBounded (n + 3)) :=
    (expect_gets .rparen).bind fun _ _ => (body_bounded hsub).bind fun _ hbody =>
      .pure fun _ => (hleft.max ((hright.mono (Nat.le_succ _)).max hbody)).node
  refine (checkWord_gets "of").bind fun of _ => advance_gets.bind fun _ _ => ?_
  refine .ite (fun _ => ?_) fun _ => ?_
  · exact (hsub.assignment false).bind fun _ hright => hrest of (hright.mono (Nat.le_succ n))
  · exact (sequence_bounded hsub false).bind fun _ hright => hrest of hright

theorem forLoopRest_bounded {init : Option ForInit}
    (hinit : Bounded (n + 2) (heaviestInit · init)) :
    Gets (forLoopRest sub init) (MakesBounded (n + 3)) := by
  refine (expect_gets .semicolon).bind fun _ _ => (unlessAt_bounded hsub .semicolon).bind
    fun _ htest => (expect_gets .semicolon).bind fun _ _ => ?_
  refine (unlessAt_bounded hsub .rparen).bind fun _ hupdate => (expect_gets .rparen).bind
    fun _ _ => (body_bounded hsub).bind fun _ hbody => .pure fun _ => ?_
  exact ((hinit.max (htest.mono (Nat.le_succ _))).max
    ((hupdate.mono (Nat.le_succ _)).max hbody)).node

theorem forStatement_bounded : Gets (forStatement sub) (MakesBounded (n + 3)) := by
  refine advance_gets.bind fun _ _ => (expect_gets .lparen).bind fun _ _ => ?_
  refine (check_gets .semicolon).bind fun _ _ => .ite (fun _ => ?_) fun _ => ?_
  · exact forLoopRest_bounded hsub bounded_zero
  · refine (forInit_bounded hsub).bind fun left hleft => peek_gets.bind fun t _ => ?_
    exact .ite (fun _ => forEachRest_bounded hsub hleft) fun _ => forLoopRest_bounded hsub hleft

theorem whileStatement_bounded : Gets (whileStatement sub) (MakesBounded (n + 3)) :=
  advance_gets.bind fun _ _ => (test_bounded hsub).bind fun _ htest =>
    (body_bounded hsub).bind fun _ hbody => .pure fun _ => (htest.max hbody).node

theorem doStatement_bounded : Gets (doStatement sub) (MakesBounded (n + 3)) :=
  advance_gets.bind fun _ _ => (body_bounded hsub).bind fun _ hbody =>
    (expectWord_gets "while").bind fun _ _ => (test_bounded hsub).bind fun _ htest =>
      (eat_gets .semicolon).bind fun _ _ => .pure fun _ => (htest.max hbody).node

/-! ## Branches and jumps -/

theorem ifStatement_bounded : Gets (ifStatement sub) (MakesBounded (n + 3)) := by
  refine advance_gets.bind fun _ _ => (test_bounded hsub).bind fun _ htest => ?_
  refine (body_bounded hsub).bind fun _ htrue => (eatWord_gets "else").bind fun b _ => ?_
  refine .ite (fun _ => ?_) fun _ => .pure fun _ => (htest.max (htrue.max bounded_zero)).node
  exact (body_bounded hsub).bind fun _ hfalse =>
    .pure fun _ => (htest.max (htrue.max hfalse)).node

theorem returnStatement_bounded : Gets (returnStatement sub) (MakesBounded (n + 3)) := by
  have hrest {value : Option Expr} (hvalue : ∀ e, value = some e → e.Bounded (n + 1)) : Gets (do
      endStatement
      return fun span => Stmt.returning span value) (MakesBounded (n + 3)) :=
    endStatement_gets.bind fun _ _ =>
      .pure fun _ => (bounded_optional hvalue).node.mono (Nat.le_succ _)
  refine advance_gets.bind fun _ _ => atStatementEnd_gets.bind fun _ _ => ?_
  refine .ite (fun _ => hrest nofun) fun _ => ?_
  exact (sequence_bounded hsub false).map_some.bind fun _ hvalue => hrest hvalue

omit hsub in
theorem jumpStatement_bounded {make : Span → Option String → Stmt}
    (h : ∀ s label, (make s label).Bounded (n + 3)) :
    Gets (jumpStatement make) (MakesBounded (n + 3)) :=
  advance_gets.bind fun _ _ => jumpLabel?_gets.bind fun label _ =>
    endStatement_gets.bind fun _ _ => .pure fun s => h s label

theorem throwStatement_bounded : Gets (throwStatement sub) (MakesBounded (n + 3)) := by
  have hrest : Gets (do
      let value ← sequence sub false
      endStatement
      return fun span => Stmt.throwing span value) (MakesBounded (n + 3)) :=
    (sequence_bounded hsub false).bind fun _ hvalue => endStatement_gets.bind fun _ _ =>
      .pure fun _ => hvalue.node.mono (Nat.le_succ _)
  exact advance_gets.bind fun _ _ => peek_gets.bind fun _ _ => .unless hrest fail_yields

theorem handlerParam?_bounded : Gets (handlerParam? sub) fun o =>
    Bounded (n + 2) (heaviestOptional · o) := by
  refine (eat_gets .lparen).bind fun _ _ => .ite (fun _ => ?_) fun _ => .pure bounded_zero
  exact (bindingTarget_bounded hsub).bind fun _ hparam => (expect_gets .rparen).bind fun _ _ =>
    .pure hparam

theorem tryStatement_bounded : Gets (tryStatement sub) (MakesBounded (n + 3)) := by
  refine advance_gets.bind fun _ _ => (block_bounded hsub).bind fun body hbody => ?_
  have hend {handler : Option Handler} {finalizer : Option (List Stmt)}
      (hhandler : Bounded (n + 2) (heaviestHandler · handler))
      (hfinalizer : Bounded (n + 2) (heaviestFinalizer · finalizer)) : Gets (do
        if handler.isNone && finalizer.isNone then fail .missingHandler
        return fun span => Stmt.trying span body handler finalizer) (MakesBounded (n + 3)) := by
    refine .unless (.pure fun _ => ?_) fail_yields
    exact ((hbody.mono (Nat.le_add_right n 2)).max (hhandler.max hfinalizer)).node
  have hfinally {handler : Option Handler}
      (hhandler : Bounded (n + 2) (heaviestHandler · handler)) : Gets (do
        let finalizer ← if ← eatWord "finally" then some <$> block sub else pure none
        if handler.isNone && finalizer.isNone then fail .missingHandler
        return fun span => Stmt.trying span body handler finalizer) (MakesBounded (n + 3)) := by
    refine (eatWord_gets "finally").bind fun _ _ => .ite (fun _ => ?_) fun _ =>
      hend hhandler bounded_zero
    refine (block_bounded hsub).map_some.bind fun finalizer hfinalizer => hend hhandler ?_
    cases finalizer with
    | none => exact bounded_zero
    | some rest => exact (hfinalizer rest rfl).mono (Nat.le_add_right n 2)
  refine (eatWord_gets "catch").bind fun _ _ => .ite (fun _ => ?_) fun _ => hfinally bounded_zero
  refine (handlerParam?_bounded hsub).bind fun _ hparam => (block_bounded hsub).bind fun _ hrest => ?_
  exact hfinally (hparam.max (hrest.mono (Nat.le_add_right n 2)))

theorem caseTest_bounded : Gets (caseTest sub) fun o =>
    Bounded (n + 1) (heaviestOptional · o) :=
  (eatWord_gets "case").bind fun _ _ => .ite (fun _ => (sequence_bounded hsub false).bind
    fun _ he => .pure he) fun _ => (eatWord_gets "default").bind fun _ _ =>
      .ite (fun _ => .pure bounded_zero) fun _ => unexpected_yields

theorem caseBody_bounded : Gets (caseBody sub) fun body => Bounded n (heaviestBody · body) :=
  (many_gets (peek_gets.bind fun _ _ => .ite (fun _ => .pure nofun) fun _ =>
    .unless hsub.statement.some unexpected_yields)).imp fun _ _ h => bounded_body h

omit hsub in
theorem bounded_cases {cases : List Case} (h : ∀ c ∈ cases, Bounded n (heaviestCase · [c])) :
    Bounded n (heaviestCase · cases) := by
  induction cases with
  | nil => exact bounded_zero
  | cons c rest ih =>
    obtain ⟨hc, hrest⟩ := List.forall_mem_cons.1 h
    obtain ⟨test, body⟩ := c
    have hfirst : Bounded n fun w => max (heaviestOptional w test) (heaviestBody w body) := by
      simpa only [heaviestCase, Nat.max_zero] using hc
    exact hfirst.max (ih hrest)

theorem switchStatement_bounded : Gets (switchStatement sub) (MakesBounded (n + 3)) := by
  refine advance_gets.bind fun _ _ => (test_bounded hsub).bind fun _ hsubject => ?_
  refine (expect_gets .lbrace).bind fun _ _ => ?_
  refine (many_gets (S := fun c => Bounded (n + 2) (heaviestCase · [c])) ?_).bind fun _ hcases =>
    .pure fun _ => (hsubject.max (bounded_cases hcases)).node
  refine (eat_gets .rbrace).bind fun _ _ => .ite (fun _ => .pure nofun) fun _ => ?_
  refine (caseTest_bounded hsub).bind fun _ htest => (expect_gets .colon).bind fun _ _ => ?_
  refine (caseBody_bounded hsub).bind fun _ hbody => .pure ?_
  rintro _ ⟨⟩
  exact ((htest.mono (Nat.le_succ _)).max (hbody.mono (Nat.le_add_right n 2))).max bounded_zero

/-! ## All statements -/

theorem expressionStatement_bounded : Gets (expressionStatement sub) (MakesBounded (n + 3)) :=
  (sequence_bounded hsub false).bind fun _ hvalue => endStatement_gets.bind fun _ _ =>
    .pure fun _ => hvalue.node.mono (Nat.le_succ _)

theorem labeledOrExpression_bounded (name : String) :
    Gets (labeledOrExpression sub name) (MakesBounded (n + 3)) := by
  refine peekSecond_gets.bind fun _ _ => .ite (fun _ => ?_) fun _ =>
    expressionStatement_bounded hsub
  exact advance_gets.bind fun _ _ => advance_gets.bind fun _ _ => (body_bounded hsub).bind
    fun _ hbody => .pure fun _ => hbody.node

theorem wordStatement_bounded (name : String) :
    Gets (wordStatement sub name) (MakesBounded (n + 3)) := by
  refine declarationKind?_gets.bind fun o _ => ?_
  cases o with
  | some kind => exact declaration_bounded hsub kind
  | none =>
    dsimp only
    split
    · exact advance_gets.bind fun _ _ => functionDeclaration_bounded hsub
    · refine asyncFunctionAhead_gets.bind fun _ _ => .ite (fun _ => ?_) fun _ =>
        labeledOrExpression_bounded hsub _
      exact advance_gets.bind fun _ _ => advance_gets.bind fun _ _ =>
        functionDeclaration_bounded hsub
    · exact ifStatement_bounded hsub
    · exact forStatement_bounded hsub
    · exact whileStatement_bounded hsub
    · exact doStatement_bounded hsub
    · exact returnStatement_bounded hsub
    · exact jumpStatement_bounded fun _ _ => bounded_leaf
    · exact jumpStatement_bounded fun _ _ => bounded_leaf
    · exact throwStatement_bounded hsub
    · exact tryStatement_bounded hsub
    · exact switchStatement_bounded hsub
    · exact advance_gets.bind fun _ _ => endStatement_gets.bind fun _ _ =>
        .pure fun _ => bounded_leaf
    · exact labeledOrExpression_bounded hsub _

theorem statementAt_bounded : Gets (statementAt sub) (Stmt.Bounded (n + 3)) := by
  have hplace {make : Span → Stmt} (start : Position) (hmake : MakesBounded (n + 3) make) :
      Gets (do return make (← spanFrom start)) (Stmt.Bounded (n + 3)) :=
    (spanFrom_gets start).bind fun s _ => .pure (hmake s)
  refine here_gets.bind fun start _ => peek_gets.bind fun t _ => ?_
  dsimp only
  split
  · refine (block_bounded hsub).bind fun body hbody => ?_
    rw [pure_bind]
    exact hplace start fun _ => hbody.node.mono (Nat.le_add_right _ 2)
  · refine advance_gets.bind fun _ _ => ?_
    rw [pure_bind]
    exact hplace start fun _ => bounded_leaf
  · exact (wordStatement_bounded hsub _).bind fun _ => hplace start
  · exact (expressionStatement_bounded hsub).bind fun _ => hplace start

end

/-! ## Levels and texts -/

theorem exhausted_bounded {n : Nat} : Level.exhausted.Bounded n :=
  ⟨fail_yields, fun _ => fail_yields, fun _ _ => fail_yields, fail_yields, fail_yields⟩

theorem level_bounded (descents : Nat) {budget : Nat} (hbudget : budget ≤ nestingBudget) :
    (level descents budget).Bounded (descents * levelNodes) := by
  induction descents generalizing budget with
  | zero => exact exhausted_bounded
  | succ descents ih =>
    rw [level, Nat.succ_mul]
    split
    · exact exhausted_bounded
    · have hleft : budget - nestCost ≤ nestingBudget := (Nat.sub_le _ _).trans hbudget
      have hlevel : descents * levelNodes + 3 ≤ descents * levelNodes + levelNodes := by
        unfold levelNodes
        omega
      refine ⟨?_, fun noIn => ?_, fun noIn least => ?_, ?_, ?_⟩
      · exact (statementAt_bounded (ih hleft)).imp fun _ _ hs => hs.mono hlevel
      · exact (assignmentAt_bounded (ih hleft) noIn).imp fun _ _ he =>
          he.mono (Nat.le_of_succ_le hlevel)
      · exact binaryAt_bounded (fun _ => ih) hleft noIn least
      · exact unaryAt_bounded (fun _ => ih) hleft
      · exact constructionAt_bounded (fun _ => ih) hleft

/-- The nodes that the budget pays: those of as many levels as there are descents. -/
def paidNodes : Nat := nestingBudget / nestCost * levelNodes

theorem top_bounded : top.Bounded paidNodes :=
  level_bounded _ (Nat.le_refl _)

theorem statements_bounded : Gets statements fun body => Bounded paidNodes (heaviestBody · body) :=
  (many_gets (atEnd_gets.bind fun _ _ => .ite (fun _ => .pure nofun) fun _ =>
    top_bounded.statement.some)).imp fun _ _ h => bounded_body h

theorem wholeExpression_bounded : Gets wholeExpression (Expr.Bounded (paidNodes + 1)) :=
  (sequence_bounded top_bounded false).bind fun _ he => atEnd_gets.bind fun _ _ =>
    .ite (fun _ => .pure he) fun _ => Gets.bind (S := fun _ => False) unexpected_yields
      fun _ => False.elim

end Parser

open WidgetLint.Script.Parser

/-- The paths of a parsed expression have at most 65,921 nodes, and three more for each parameter
that they go into. -/
theorem parseExpressionAt_bounded {text : String} {origin : Position} {e : Expr}
    (h : parseExpressionAt text origin = .ok e) : e.Bounded 65921 := by
  rw [parseExpressionAt_eq] at h
  split at h
  · cases h
  · rename_i tokens hlex
    split at h
    · cases h
    · rename_i hread
      cases h
      exact (wholeExpression_bounded _ _ _ (inputOf_lexed hlex) True.intro hread).2

/-- The paths of a parsed script have at most 65,920 nodes, and three more for each parameter that
they go into. -/
theorem parseProgram_bounded {text : String} {p : Program} (h : parseProgram text = .ok p) :
    Script.Bounded 65920 (heaviestBody · p.body) := by
  rw [parseProgram_eq] at h
  split at h
  · cases h
  · rename_i tokens hlex
    split at h
    · cases h
    · rename_i hread
      cases h
      exact (statements_bounded _ _ _ (inputOf_lexed hlex) True.intro hread).2

/-- **The budget bounds the depth of the trees that are read**, save for the parameters of
functions: fewer than 65,921 nodes are around a node, and three more for each parameter on the
way. -/
theorem parse_depth_lt (text : String) (origin : Position) :
    (∀ e, parseExpressionAt text origin = .ok e →
      ∀ v ∈ e.visit 0 (e.inside 1), v.depth < 65921 + 3 * e.heaviest .params) ∧
    ∀ p, parseProgram text = .ok p →
      ∀ v ∈ p.visits, v.depth < 65920 + 3 * heaviestBody .params p.body := by
  refine ⟨fun e h => e.visit_shallow ?_, fun p h => visitBody_shallow p.body ?_⟩
  · rw [Nat.zero_add]
    exact parseExpressionAt_bounded h
  · rw [Nat.zero_add]
    exact parseProgram_bounded h

/-- The bounds of a script with a pattern that is a parameter of a method. -/
theorem parse_depth_lt_method :
    (∃ e, parseExpressionAt "\x7ba(\x7bb\x7d) \x7b\x7d\x7d" .first = .ok e ∧
      ∀ v ∈ e.visit 0 (e.inside 1), v.depth < 65921 + 3 * e.heaviest .params) ∧
    ∃ p, parseProgram "x = \x7ba(\x7bb\x7d) \x7b\x7d\x7d" = .ok p ∧
      ∀ v ∈ p.visits, v.depth < 65920 + 3 * heaviestBody .params p.body := by
  obtain ⟨hexpression, hprogram⟩ :
      (parseExpressionAt "\x7ba(\x7bb\x7d) \x7b\x7d\x7d" .first).isOk = true ∧
        (parseProgram "x = \x7ba(\x7bb\x7d) \x7b\x7d\x7d").isOk = true := by
    decide +kernel
  obtain ⟨e, he⟩ := exists_ok_of_isOk hexpression
  obtain ⟨p, hp⟩ := exists_ok_of_isOk hprogram
  exact ⟨⟨e, he, (parse_depth_lt _ .first).1 e he⟩, p, hp, (parse_depth_lt _ .first).2 p hp⟩

end WidgetLint.Script
