import WidgetLint.Proofs.Printing.Lexed
import WidgetLint.Proofs.Printing.Spelled

/-!
# Well-formed trees

A node is formed if it is shaped as the grammar shapes it, and spelled if its strings and numbers
are tame. A tree all of whose nodes are formed is sound. Here are the rules by which sound parts make
sound trees; they say for each kind of node what its parts have to be.
-/

namespace WidgetLint.Script

open Text Number WidgetLint.Script.Parser

variable {e : Expr} {s : Span} {d : Nat}

/-! ## Nodes -/

/-- The string of a token has no null character, and its number is finite. -/
def TokenBody.Tame : TokenBody → Prop
  | .string value => '\x00' ∉ value.toList
  | .number value => ∃ negative units, value = .finite negative units
  | _ => True

def Member.Tame : Member → Prop
  | .named _ _ (.string value) _ => (TokenBody.string value).Tame
  | .named _ _ (.number value) _ => (TokenBody.number value).Tame
  | _ => True

/-- The strings and numbers of an expression's own node are tame. -/
def Expr.Tame : Expr → Prop
  | .string _ value => (TokenBody.string value).Tame
  | .number _ value => (TokenBody.number value).Tame
  | .object _ members => ∀ member ∈ members, member.Tame
  | _ => True

def Node.Tame : Node → Prop
  | .expr e => e.Tame
  | .stmt _ => True

/-- The name after a point, also that of a method that is called, does not end before it starts. -/
def Node.Ordered : Node → Prop
  | .expr (.dot _ _ _ _ nameSpan) => nameSpan.start.offset ≤ nameSpan.stop.offset
  | .expr (.call _ (.dot _ _ _ _ nameSpan) _ _) =>
    nameSpan.start.offset ≤ nameSpan.stop.offset
  | _ => True

/-- What holds of a node that was read from a text. -/
def Node.Formed (n : Node) : Prop :=
  (n.Shaped ∧ (n.Tame → n.Spelled)) ∧ n.Ordered

/-- All nodes of an expression are formed. -/
def Expr.Sound (e : Expr) : Prop :=
  ∀ d, Everywhere Node.Formed (e.visit d (e.inside (d + 1)))

def Stmt.Sound (s : Stmt) : Prop :=
  ∀ d, Everywhere Node.Formed (s.visit d (s.inside (d + 1)))

theorem TokenBody.Lexed.number_plain {value : Binary64} (h : (TokenBody.number value).Lexed)
    (htame : (TokenBody.number value).Tame) : (TokenBody.number value).Plain := by
  rcases h with rfl | h
  · obtain ⟨negative, units, hvalue⟩ := htame
    cases hvalue
  · exact h

theorem Expr.sound_of (hnode : e.Shaped ∧ (e.Tame → e.Spelled)) (hordered : (Node.expr e).Ordered)
    (hinside : ∀ d, Everywhere Node.Formed (e.inside d)) : e.Sound :=
  fun d => everywhere_expr.2 ⟨⟨hnode, hordered⟩, hinside (d + 1)⟩

theorem Stmt.sound_of {s : Stmt} (hnode : s.Shaped ∧ ((Node.stmt s).Tame → s.Spelled))
    (hinside : ∀ d, Everywhere Node.Formed (s.inside d)) : s.Sound :=
  fun d => everywhere_stmt.2 ⟨⟨hnode, True.intro⟩, hinside (d + 1)⟩

/-! ## Roles of expressions -/

/-- A sound expression that stands by itself. -/
def Expr.Whole (e : Expr) : Prop :=
  e.Sound ∧ e.isOrdinary

def Expr.Element (e : Expr) : Prop :=
  e.Sound ∧ e.isElement

/-- A sound name or pattern. -/
def Expr.Pattern (e : Expr) : Prop :=
  e.Sound ∧ e.isPattern

def Expr.Param (e : Expr) : Prop :=
  e.Sound ∧ e.isParam

theorem Expr.Whole.element (h : e.Whole) : e.Element := by
  refine ⟨h.1, ?_⟩
  cases e with
  | ident s name => exact h.2
  | _ => rfl

theorem Expr.Pattern.whole (h : e.Pattern) : e.Whole := by
  refine ⟨h.1, ?_⟩
  cases e with
  | ident s name => exact h.2
  | array | object => rfl
  | _ => cases h.2

theorem Expr.Pattern.param (h : e.Pattern) : e.Param := by
  refine ⟨h.1, ?_⟩
  cases e with
  | ident s name => exact h.2
  | array | object => rfl
  | _ => cases h.2

theorem Expr.Pattern.isTarget (h : e.Pattern) : Parser.isTarget .assign e = true := by
  cases e with
  | ident | array | object => rfl
  | _ => cases h.2

/-! ## Lists -/

theorem visitAll_sound {es : List Expr} (h : ∀ e ∈ es, e.Sound) (d : Nat) :
    Everywhere Node.Formed (visitAll d es) := by
  induction es with
  | nil => exact everywhere_nil
  | cons e es ih =>
    obtain ⟨he, hes⟩ := List.forall_mem_cons.1 h
    rw [visitAll]
    exact everywhere_append.2 ⟨he d, ih hes⟩

theorem visitOptional_sound {value : Option Expr} (h : ∀ e, value = some e → e.Sound) (d : Nat) :
    Everywhere Node.Formed (visitOptional d value) := by
  cases value with
  | none => exact everywhere_nil
  | some e => exact h e rfl d

theorem visitItems_sound {items : List (Option Expr)} (h : ∀ e, some e ∈ items → e.Sound)
    (d : Nat) : Everywhere Node.Formed (visitItems d items) := by
  induction items with
  | nil => exact everywhere_nil
  | cons item items ih =>
    rw [visitItems]
    refine everywhere_append.2 ⟨visitOptional_sound (fun e he => h e ?_) d, ih fun e he => h e ?_⟩
    · exact he ▸ List.mem_cons_self
    · exact List.mem_cons_of_mem _ he

theorem visitMembers_sound {members : List Member}
    (h : ∀ member ∈ members, ∀ d, Everywhere Node.Formed (member.inside d)) (d : Nat) :
    Everywhere Node.Formed (visitMembers d members) := by
  induction members with
  | nil => exact everywhere_nil
  | cons member members ih =>
    obtain ⟨hmember, hmembers⟩ := List.forall_mem_cons.1 h
    rw [visitMembers]
    exact everywhere_append.2 ⟨hmember d, ih hmembers⟩

theorem visitBody_sound {body : List Stmt} (h : ∀ s ∈ body, s.Sound) (d : Nat) :
    Everywhere Node.Formed (visitBody d body) := by
  induction body with
  | nil => exact everywhere_nil
  | cons s body ih =>
    obtain ⟨hs, hbody⟩ := List.forall_mem_cons.1 h
    rw [visitBody]
    exact everywhere_append.2 ⟨hs d, ih hbody⟩

/-! ## Expressions -/

/-- A name that can be used: a word that is not reserved. -/
def IsUsable (name : String) : Prop :=
  isWordText name = true ∧ isReserved name = false

theorem IsUsable.ne_new {name : String} (h : IsUsable name) : (name != "new") = true := by
  rw [bne_iff_ne]
  rintro rfl
  exact absurd h.2 (by decide)

namespace Expr

theorem whole_leaf (hnode : e.Shaped ∧ (e.Tame → e.Spelled)) (hordered : (Node.expr e).Ordered)
    (hleaf : ∀ d, e.inside d = []) (hordinary : e.isOrdinary) : e.Whole :=
  ⟨sound_of hnode hordered fun d => by rw [hleaf]; exact everywhere_nil, hordinary⟩

theorem pattern_ident {name : String} (h : IsUsable name) : (Expr.ident s name).Pattern :=
  ⟨sound_of ⟨.inl h.2, fun _ => h.1⟩ True.intro fun _ => everywhere_nil, h.ne_new⟩

theorem pattern_array {items : List (Option Expr)} (h : ∀ e, some e ∈ items → e.Element) :
    (Expr.array s items).Pattern := by
  refine ⟨sound_of ⟨fun e he => (h e he).2, fun _ => True.intro⟩ True.intro fun d => ?_, rfl⟩
  rw [Expr.inside]
  exact visitItems_sound (fun e he => (h e he).1) d

theorem sound_function {name : Option String} {params : List Expr} {body : List Stmt}
    (hname : ∀ n, name = some n → IsUsable n) (hparams : ∀ p ∈ params, p.Param)
    (hbody : ∀ s ∈ body, s.Sound) : (Expr.function s name params body).Sound := by
  refine sound_of ⟨⟨fun n hn => (hname n hn).2, fun p hp => (hparams p hp).2⟩,
    fun _ n hn => (hname n hn).1⟩ True.intro fun d => ?_
  rw [Expr.inside]
  exact everywhere_append.2
    ⟨visitAll_sound (fun p hp => (hparams p hp).1) d, visitBody_sound hbody d⟩

theorem whole_arrow {params : List Expr} {body : ArrowBody} (hparams : ∀ p ∈ params, p.Param)
    (hvalue : ∀ value, body = .expression value → value.isOrdinary)
    (hbody : ∀ d, Everywhere Node.Formed (body.inside d)) : (Expr.arrow s params body).Whole := by
  refine ⟨sound_of ⟨⟨fun p hp => (hparams p hp).2, hvalue⟩, fun _ => True.intro⟩ True.intro fun d => ?_, rfl⟩
  rw [Expr.inside]
  exact everywhere_append.2 ⟨visitAll_sound (fun p hp => (hparams p hp).1) d, hbody d⟩

theorem Whole.unary (op : UnaryOp) (h : e.Whole) : (Expr.unary s op e).Whole :=
  ⟨sound_of ⟨h.2, fun _ => True.intro⟩ True.intro fun d => by rw [Expr.inside]; exact h.1 d, rfl⟩

theorem Whole.update (op : UpdateOp) (side : UpdateSide) (h : e.Whole) :
    (Expr.update s op side e).Whole :=
  ⟨sound_of ⟨h.2, fun _ => True.intro⟩ True.intro fun d => by rw [Expr.inside]; exact h.1 d, rfl⟩

theorem Whole.binary (op : BinaryOp) {left right : Expr} (hleft : left.Whole)
    (hright : right.Whole) : (Expr.binary s op left right).Whole := by
  refine ⟨sound_of ⟨⟨hleft.2, hright.2⟩, fun _ => True.intro⟩ True.intro fun d => ?_, rfl⟩
  rw [Expr.inside]
  exact everywhere_append.2 ⟨hleft.1 d, hright.1 d⟩

theorem Whole.assign {op : AssignOp} {target value : Expr} (hop : isTarget op target = true)
    (htarget : target.Whole) (hvalue : value.Whole) : (Expr.assign s op target value).Whole := by
  refine ⟨sound_of ⟨⟨hop, htarget.2, hvalue.2⟩, fun _ => True.intro⟩ True.intro fun d => ?_, rfl⟩
  rw [Expr.inside]
  exact everywhere_append.2 ⟨htarget.1 d, hvalue.1 d⟩

theorem Whole.conditional {test whenTrue whenFalse : Expr} (htest : test.Whole)
    (htrue : whenTrue.Whole) (hfalse : whenFalse.Whole) :
    (Expr.conditional s test whenTrue whenFalse).Whole := by
  refine ⟨sound_of ⟨⟨htest.2, htrue.2, hfalse.2⟩, fun _ => True.intro⟩ True.intro fun d => ?_, rfl⟩
  rw [Expr.inside]
  exact everywhere_append.2 ⟨everywhere_append.2 ⟨htest.1 d, htrue.1 d⟩, hfalse.1 d⟩

theorem whole_dot {base : Expr} {optional : Bool} {name : String} {nameSpan : Span}
    (hbase : base.Sound)
    (hshape : base.isOrdinary = true ∨ (∃ s, base = .ident s "new") ∧ optional = false)
    (hname : isWordText name = true) (hordered : nameSpan.start.offset ≤ nameSpan.stop.offset) :
    (Expr.dot s base optional name nameSpan).Whole :=
  ⟨sound_of ⟨hshape, fun _ => hname⟩ hordered fun d => by rw [Expr.inside]; exact hbase d, rfl⟩

theorem Whole.index {base key : Expr} (optional : Bool) (hbase : base.Whole) (hkey : key.Whole) :
    (Expr.index s base optional key).Whole := by
  refine ⟨sound_of ⟨⟨hbase.2, hkey.2⟩, fun _ => True.intro⟩ True.intro fun d => ?_, rfl⟩
  rw [Expr.inside]
  exact everywhere_append.2 ⟨hbase.1 d, hkey.1 d⟩

theorem Whole.call {callee : Expr} {arguments : List Expr} (optional : Bool)
    (hcallee : callee.Whole) (harguments : ∀ e ∈ arguments, e.Element) :
    (Expr.call s callee optional arguments).Whole := by
  have hordered : (Node.expr (.call s callee optional arguments)).Ordered := by
    have hnode := (everywhere_expr.1 (hcallee.1 0)).1.2
    cases callee with
    | dot => exact hnode
    | _ => exact True.intro
  refine ⟨sound_of ⟨⟨hcallee.2, fun e he => (harguments e he).2⟩, fun _ => True.intro⟩
    hordered fun d => ?_, rfl⟩
  rw [Expr.inside]
  exact everywhere_append.2
    ⟨hcallee.1 d, visitAll_sound (fun e he => (harguments e he).1) d⟩

theorem Whole.new {callee : Expr} {arguments : List Expr} (hcallee : callee.Whole)
    (harguments : ∀ e ∈ arguments, e.Element) : (Expr.new s callee arguments).Whole := by
  refine ⟨sound_of ⟨⟨hcallee.2, fun e he => (harguments e he).2⟩, fun _ => True.intro⟩ True.intro
    fun d => ?_, rfl⟩
  rw [Expr.inside]
  exact everywhere_append.2
    ⟨hcallee.1 d, visitAll_sound (fun e he => (harguments e he).1) d⟩

theorem whole_sequence {items : List Expr} (hlength : 2 ≤ items.length)
    (h : ∀ e ∈ items, e.Whole) : (Expr.sequence s items).Whole := by
  refine ⟨sound_of ⟨⟨hlength, fun e he => (h e he).2⟩, fun _ => ?_⟩ True.intro fun d => ?_, rfl⟩
  · exact List.ne_nil_of_length_pos (Nat.lt_of_lt_of_le Nat.two_pos hlength)
  · rw [Expr.inside]
    exact visitAll_sound (fun e he => (h e he).1) d

theorem Whole.spread (h : e.Whole) : (Expr.spread s e).Sound :=
  sound_of ⟨h.2, fun _ => True.intro⟩ True.intro fun d => by rw [Expr.inside]; exact h.1 d

end Expr

/-! ## Members of objects -/

/-- A key that was read from a text. -/
structure Key.Sound (key : Key) : Prop where
  spelled : ∀ s kind value, (Member.named s kind key value).Tame → key.Spelled
  ordinary : ∀ e, key = .computed e → e.isOrdinary
  inside : ∀ d, Everywhere Node.Formed (key.inside d)

structure Member.Sound (member : Member) : Prop where
  shaped : member.Shaped
  spelled : member.Tame → member.Spelled
  inside : ∀ d, Everywhere Node.Formed (member.inside d)

theorem Key.sound_computed (h : e.Whole) : (Key.computed e).Sound where
  spelled _ _ _ _ := True.intro
  ordinary := by
    rintro _ ⟨⟩
    exact h.2
  inside d := by rw [Key.inside]; exact h.1 d

theorem Key.sound_ident {name : String} (h : isWordText name = true) : (Key.ident name).Sound :=
  ⟨fun _ _ _ _ => h, nofun, fun _ => everywhere_nil⟩

theorem Key.sound_string (value : String) : (Key.string value).Sound :=
  ⟨fun _ _ _ h => h, nofun, fun _ => everywhere_nil⟩

theorem Key.sound_number {value : Binary64} (h : (TokenBody.number value).Lexed) :
    (Key.number value).Sound :=
  ⟨fun _ _ _ htame => h.number_plain htame, nofun, fun _ => everywhere_nil⟩

theorem Member.sound_spread (h : e.Whole) : (Member.spread e).Sound :=
  ⟨h.2, fun _ => True.intro, fun d => by rw [Member.inside]; exact h.1 d⟩

theorem Member.sound_named {kind : MemberKind} {key : Key} {value : Expr} (hkey : key.Sound)
    (hvalue : value.Sound) (hshaped : (Member.named s kind key value).Shaped) :
    (Member.named s kind key value).Sound where
  shaped := hshaped
  spelled := hkey.spelled s kind value
  inside d := by
    rw [Member.inside]
    exact everywhere_append.2 ⟨hkey.inside d, hvalue d⟩

theorem Expr.pattern_object {members : List Member} (h : ∀ member ∈ members, member.Sound) :
    (Expr.object s members).Pattern := by
  refine ⟨sound_of ⟨fun member hmember => (h member hmember).shaped,
    fun htame member hmember => (h member hmember).spelled (htame member hmember)⟩ True.intro
    fun d => ?_, rfl⟩
  rw [Expr.inside]
  exact visitMembers_sound (fun member hmember => (h member hmember).inside) d

/-! ## Parts of statements -/

def Declarator.Sound : Declarator → Prop
  | .mk target value => target.Pattern ∧ ∀ e, value = some e → e.Whole

def ForInit.Sound : ForInit → Prop
  | .declaration _ declarators => declarators ≠ [] ∧ ∀ d ∈ declarators, d.Sound
  | .expression value => value.Whole

def Case.Sound : Case → Prop
  | .mk test body => (∀ e, test = some e → e.Whole) ∧ ∀ s ∈ body, s.Sound

theorem Declarator.Sound.shaped {declarator : Declarator} (h : declarator.Sound) :
    declarator.Shaped := by
  cases declarator with
  | mk target value => exact ⟨h.1.2, fun e he => (h.2 e he).2⟩

theorem visitDeclarators_sound {declarators : List Declarator} (h : ∀ d ∈ declarators, d.Sound)
    (d : Nat) : Everywhere Node.Formed (visitDeclarators d declarators) := by
  induction declarators with
  | nil => exact everywhere_nil
  | cons declarator declarators ih =>
    obtain ⟨hfirst, hrest⟩ := List.forall_mem_cons.1 h
    cases declarator with
    | mk target value =>
      have hvalue := visitOptional_sound (fun e he => (hfirst.2 e he).1) d
      rw [visitDeclarators]
      exact everywhere_append.2 ⟨everywhere_append.2 ⟨hfirst.1.1 d, hvalue⟩, ih hrest⟩

theorem visitCases_sound {cases : List Case} (h : ∀ c ∈ cases, c.Sound) (d : Nat) :
    Everywhere Node.Formed (visitCases d cases) := by
  induction cases with
  | nil => exact everywhere_nil
  | cons c cases ih =>
    obtain ⟨hfirst, hrest⟩ := List.forall_mem_cons.1 h
    cases c with
    | mk test body =>
      have htest := visitOptional_sound (fun e he => (hfirst.1 e he).1) d
      rw [visitCases]
      exact everywhere_append.2
        ⟨everywhere_append.2 ⟨htest, visitBody_sound hfirst.2 d⟩, ih hrest⟩

namespace ForInit.Sound

variable {init : ForInit}

theorem shaped (h : init.Sound) : init.Shaped := by
  cases init with
  | declaration kind declarators => exact ⟨h.1, fun d hd => (h.2 d hd).shaped⟩
  | expression value => exact h.2

theorem spelled (h : init.Sound) : init.Spelled := by
  cases init with
  | declaration kind declarators => exact h.1
  | expression value => exact True.intro

theorem inside (h : init.Sound) (d : Nat) : Everywhere Node.Formed (init.inside d) := by
  cases init with
  | declaration kind declarators =>
    rw [ForInit.inside]
    exact visitDeclarators_sound h.2 d
  | expression value =>
    rw [ForInit.inside]
    exact h.1 d

end ForInit.Sound

/-! ## Statements -/

namespace Stmt

variable {value test : Expr} {body : List Stmt} {loop : Stmt}

theorem sound_expression (h : value.Whole) : (Stmt.expression s value).Sound :=
  sound_of ⟨h.2, fun _ => True.intro⟩ fun d => by rw [Stmt.inside]; exact h.1 d

theorem sound_declaration {declarators : List Declarator} (kind : VarKind)
    (hne : declarators ≠ []) (h : ∀ d ∈ declarators, d.Sound) :
    (Stmt.declaration s kind declarators).Sound :=
  sound_of ⟨⟨hne, fun d hd => (h d hd).shaped⟩, fun _ => hne⟩ fun d => by
    rw [Stmt.inside]
    exact visitDeclarators_sound h d

theorem sound_function {name : String} {params : List Expr} (hname : IsUsable name)
    (hparams : ∀ p ∈ params, p.Param) (hbody : ∀ s ∈ body, s.Sound) :
    (Stmt.function s name params body).Sound := by
  refine sound_of ⟨⟨hname.2, fun p hp => (hparams p hp).2⟩, fun _ => hname.1⟩ fun d => ?_
  rw [Stmt.inside]
  exact everywhere_append.2
    ⟨visitAll_sound (fun p hp => (hparams p hp).1) d, visitBody_sound hbody d⟩

theorem sound_returning {value : Option Expr} (h : ∀ e, value = some e → e.Whole) :
    (Stmt.returning s value).Sound :=
  sound_of ⟨fun e he => (h e he).2, fun _ => True.intro⟩ fun d => by
    rw [Stmt.inside]
    exact visitOptional_sound (fun e he => (h e he).1) d

theorem sound_branch {whenTrue : Stmt} {whenFalse : Option Stmt} (htest : test.Whole)
    (htrue : whenTrue.Sound) (hfalse : ∀ s, whenFalse = some s → s.Sound)
    (hopen : whenFalse.isSome → whenTrue.endsOpen = false) :
    (Stmt.branch s test whenTrue whenFalse).Sound := by
  have helse (d : Nat) : Everywhere Node.Formed (visitElse d whenFalse) := by
    cases whenFalse with
    | none => exact everywhere_nil
    | some s => exact hfalse s rfl d
  refine sound_of ⟨⟨htest.2, hopen⟩, fun _ => True.intro⟩ fun d => ?_
  rw [Stmt.inside]
  exact everywhere_append.2 ⟨everywhere_append.2 ⟨htest.1 d, htrue d⟩, helse d⟩

theorem sound_forLoop {init : Option ForInit} {test update : Option Expr}
    (hinit : ∀ i, init = some i → i.Sound) (htest : ∀ e, test = some e → e.Whole)
    (hupdate : ∀ e, update = some e → e.Whole) (hbody : loop.Sound) :
    (Stmt.forLoop s init test update loop).Sound := by
  have hhead (d : Nat) : Everywhere Node.Formed (visitInit d init) := by
    cases init with
    | none => exact everywhere_nil
    | some init => exact (hinit init rfl).inside d
  refine sound_of ⟨⟨fun i hi => (hinit i hi).shaped, fun e he => (htest e he).2,
    fun e he => (hupdate e he).2⟩, fun _ i hi => (hinit i hi).spelled⟩ fun d => ?_
  rw [Stmt.inside]
  exact everywhere_append.2 ⟨everywhere_append.2 ⟨everywhere_append.2 ⟨hhead d,
    visitOptional_sound (fun e he => (htest e he).1) d⟩,
    visitOptional_sound (fun e he => (hupdate e he).1) d⟩, hbody d⟩

theorem sound_forEach {left : ForInit} {right : Expr} (of : Bool) (hleft : left.Sound)
    (hright : right.Whole) (hbody : loop.Sound) : (Stmt.forEach s left right loop of).Sound := by
  refine sound_of ⟨⟨hleft.shaped, hright.2⟩, fun _ => hleft.spelled⟩ fun d => ?_
  rw [Stmt.inside]
  exact everywhere_append.2 ⟨everywhere_append.2 ⟨hleft.inside d, hright.1 d⟩, hbody d⟩

theorem sound_whileLoop (htest : test.Whole) (hbody : loop.Sound) :
    (Stmt.whileLoop s test loop).Sound := by
  refine sound_of ⟨htest.2, fun _ => True.intro⟩ fun d => ?_
  rw [Stmt.inside]
  exact everywhere_append.2 ⟨htest.1 d, hbody d⟩

theorem sound_doWhile (hbody : loop.Sound) (htest : test.Whole) :
    (Stmt.doWhile s loop test).Sound := by
  refine sound_of ⟨htest.2, fun _ => True.intro⟩ fun d => ?_
  rw [Stmt.inside]
  exact everywhere_append.2 ⟨htest.1 d, hbody d⟩

theorem sound_block (h : ∀ s ∈ body, s.Sound) : (Stmt.block s body).Sound :=
  sound_of ⟨True.intro, fun _ => True.intro⟩ fun d => by
    rw [Stmt.inside]
    exact visitBody_sound h d

theorem sound_breaking {label : Option String} (h : ∀ n, label = some n → IsUsable n) :
    (Stmt.breaking s label).Sound :=
  sound_of ⟨fun n hn => (h n hn).2, fun _ n hn => (h n hn).1⟩ fun _ => everywhere_nil

theorem sound_continuing {label : Option String} (h : ∀ n, label = some n → IsUsable n) :
    (Stmt.continuing s label).Sound :=
  sound_of ⟨fun n hn => (h n hn).2, fun _ n hn => (h n hn).1⟩ fun _ => everywhere_nil

theorem sound_throwing (h : value.Whole) : (Stmt.throwing s value).Sound :=
  sound_of ⟨h.2, fun _ => True.intro⟩ fun d => by rw [Stmt.inside]; exact h.1 d

theorem sound_trying {handler : Option Handler} {finalizer : Option (List Stmt)}
    (hbody : ∀ s ∈ body, s.Sound) (hsome : handler.isSome ∨ finalizer.isSome)
    (hhandler : ∀ param rest, handler = some (.mk param rest) →
      (∀ e, param = some e → e.Pattern) ∧ ∀ s ∈ rest, s.Sound)
    (hfinalizer : ∀ rest, finalizer = some rest → ∀ s ∈ rest, s.Sound) :
    (Stmt.trying s body handler finalizer).Sound := by
  have hcatch (d : Nat) : Everywhere Node.Formed (visitHandler d handler) := by
    match handler with
    | none => exact everywhere_nil
    | some (.mk param rest) =>
      obtain ⟨hparam, hrest⟩ := hhandler param rest rfl
      rw [visitHandler]
      exact everywhere_append.2
        ⟨visitOptional_sound (fun e he => (hparam e he).1) d, visitBody_sound hrest d⟩
  have hfinally (d : Nat) : Everywhere Node.Formed (visitFinalizer d finalizer) := by
    cases finalizer with
    | none => exact everywhere_nil
    | some rest => exact visitBody_sound (hfinalizer rest rfl) d
  refine sound_of ⟨⟨hsome, fun param rest h => ((hhandler _ rest h).1 param rfl).2⟩,
    fun _ => True.intro⟩ fun d => ?_
  rw [Stmt.inside]
  exact everywhere_append.2
    ⟨everywhere_append.2 ⟨visitBody_sound hbody d, hcatch d⟩, hfinally d⟩

theorem sound_switch {subject : Expr} {cases : List Case} (hsubject : subject.Whole)
    (hcases : ∀ c ∈ cases, c.Sound) : (Stmt.switch s subject cases).Sound := by
  refine sound_of ⟨⟨hsubject.2, fun test rest h => ((hcases _ h).1 test rfl).2⟩,
    fun _ => True.intro⟩ fun d => ?_
  rw [Stmt.inside]
  exact everywhere_append.2 ⟨hsubject.1 d, visitCases_sound hcases d⟩

theorem sound_labeled {label : String} (hlabel : IsUsable label) (hbody : loop.Sound) :
    (Stmt.labeled s label loop).Sound :=
  sound_of ⟨hlabel.2, fun _ => hlabel.1⟩ fun d => by rw [Stmt.inside]; exact hbody d

theorem sound_empty : (Stmt.empty s).Sound :=
  sound_of ⟨True.intro, fun _ => True.intro⟩ fun _ => everywhere_nil

theorem sound_debugger : (Stmt.debugger s).Sound :=
  sound_of ⟨True.intro, fun _ => True.intro⟩ fun _ => everywhere_nil

end Stmt

end WidgetLint.Script
