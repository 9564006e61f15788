import WidgetLint.Script.Walk

/-!
# Paths through trees

How long the paths of a tree are, from its root to its leaves, and how often they go from a
function into one of its parameters. Both are found in one way: a `Toll` says what a node counts
and what the step into a parameter counts, and `Expr.heaviest` is the most that any path counts.

**No visit of a walk is deeper than the longest path** (`Expr.visit_shallow`,
`visitBody_shallow`).
-/

namespace WidgetLint.Script

/-- What is counted along a path: so much for every node, and so much for every step from a
function to one of its parameters. -/
structure Toll where
  node : Nat
  param : Nat

namespace Toll

def nodes : Toll := ⟨1, 0⟩

def params : Toll := ⟨0, 1⟩

@[simp] theorem nodes_node : nodes.node = 1 := rfl
@[simp] theorem nodes_param : nodes.param = 0 := rfl
@[simp] theorem params_node : params.node = 0 := rfl
@[simp] theorem params_param : params.param = 1 := rfl

end Toll

section
variable (w : Toll)

mutual

/-- The most that a path through an expression counts. -/
def Expr.heaviest : Expr → Nat
  | .number .. | .string .. | .template .. | .regex .. | .boolean .. | .null _ | .ident ..
  | .this _ => w.node
  | .array _ items => w.node + heaviestItem items
  | .object _ members => w.node + heaviestMember members
  | .function _ _ params body => w.node + max (heaviestOf w.param params) (heaviestBody body)
  | .arrow _ params body => w.node + max (heaviestOf w.param params) body.heaviest
  | .unary _ _ operand => w.node + operand.heaviest
  | .update _ _ _ operand => w.node + operand.heaviest
  | .binary _ _ left right => w.node + max left.heaviest right.heaviest
  | .assign _ _ target value => w.node + max target.heaviest value.heaviest
  | .conditional _ test whenTrue whenFalse =>
    w.node + max test.heaviest (max whenTrue.heaviest whenFalse.heaviest)
  | .dot _ object _ _ _ => w.node + object.heaviest
  | .index _ object _ key => w.node + max object.heaviest key.heaviest
  | .call _ callee _ arguments => w.node + max callee.heaviest (heaviestOf 0 arguments)
  | .new _ callee arguments => w.node + max callee.heaviest (heaviestOf 0 arguments)
  | .sequence _ items => w.node + heaviestOf 0 items
  | .spread _ argument => w.node + argument.heaviest

/-- The most that a path through one of several expressions counts, if the step to it counts as
given. -/
def heaviestOf (step : Nat) : List Expr → Nat
  | [] => 0
  | e :: rest => max (step + e.heaviest) (heaviestOf step rest)

def heaviestOptional : Option Expr → Nat
  | none => 0
  | some e => e.heaviest

def heaviestItem : List (Option Expr) → Nat
  | [] => 0
  | item :: rest => max (heaviestOptional item) (heaviestItem rest)

def heaviestMember : List Member → Nat
  | [] => 0
  | member :: rest => max member.heaviest (heaviestMember rest)

def Member.heaviest : Member → Nat
  | .named _ _ key value => max key.heaviest value.heaviest
  | .spread argument => argument.heaviest

def Key.heaviest : Key → Nat
  | .computed key => key.heaviest
  | .ident _ | .string _ | .number _ => 0

def ArrowBody.heaviest : ArrowBody → Nat
  | .expression value => value.heaviest
  | .block body => heaviestBody body

def Stmt.heaviest : Stmt → Nat
  | .breaking .. | .continuing .. | .empty _ | .debugger _ => w.node
  | .expression _ value => w.node + value.heaviest
  | .declaration _ _ declarators => w.node + heaviestDeclarator declarators
  | .function _ _ params body => w.node + max (heaviestOf w.param params) (heaviestBody body)
  | .returning _ value => w.node + heaviestOptional value
  | .branch _ test whenTrue whenFalse =>
    w.node + max test.heaviest (max whenTrue.heaviest (heaviestElse whenFalse))
  | .forLoop _ init test update body =>
    w.node + max (max (heaviestInit init) (heaviestOptional test))
      (max (heaviestOptional update) body.heaviest)
  | .forEach _ left right body _ =>
    w.node + max left.heaviest (max right.heaviest body.heaviest)
  | .whileLoop _ test body => w.node + max test.heaviest body.heaviest
  | .doWhile _ body test => w.node + max test.heaviest body.heaviest
  | .block _ body => w.node + heaviestBody body
  | .throwing _ value => w.node + value.heaviest
  | .trying _ body handler finalizer =>
    w.node + max (heaviestBody body) (max (heaviestHandler handler) (heaviestFinalizer finalizer))
  | .switch _ subject cases => w.node + max subject.heaviest (heaviestCase cases)
  | .labeled _ _ body => w.node + body.heaviest

def heaviestBody : List Stmt → Nat
  | [] => 0
  | s :: rest => max s.heaviest (heaviestBody rest)

def heaviestElse : Option Stmt → Nat
  | none => 0
  | some s => s.heaviest

def heaviestDeclarator : List Declarator → Nat
  | [] => 0
  | .mk target value :: rest =>
    max (max target.heaviest (heaviestOptional value)) (heaviestDeclarator rest)

def ForInit.heaviest : ForInit → Nat
  | .declaration _ declarators => heaviestDeclarator declarators
  | .expression value => value.heaviest

def heaviestInit : Option ForInit → Nat
  | none => 0
  | some init => init.heaviest

def heaviestHandler : Option Handler → Nat
  | none => 0
  | some (.mk param body) => max (heaviestOptional param) (heaviestBody body)

def heaviestFinalizer : Option (List Stmt) → Nat
  | none => 0
  | some body => heaviestBody body

def heaviestCase : List Case → Nat
  | [] => 0
  | .mk test body :: rest =>
    max (max (heaviestOptional test) (heaviestBody body)) (heaviestCase rest)

end

end

/-! ## Walks -/

/-- All visits are less deep than a bound. -/
def Shallow (n : Nat) (vs : List Visit) : Prop :=
  ∀ v ∈ vs, v.depth < n

section
variable {n d : Nat} {vs ws : List Visit}

theorem shallow_nil : Shallow n [] :=
  nofun

theorem Shallow.append (hv : Shallow n vs) (hw : Shallow n ws) : Shallow n (vs ++ ws) :=
  List.forall_mem_append.2 ⟨hv, hw⟩

theorem Shallow.visitExpr {e : Expr} (hd : d < n) (h : Shallow n vs) : Shallow n (e.visit d vs) :=
  List.forall_mem_cons.2 ⟨hd, h⟩

theorem Shallow.visitStmt {s : Stmt} (hd : d < n) (h : Shallow n vs) : Shallow n (s.visit d vs) :=
  List.forall_mem_cons.2 ⟨hd, h⟩

end

section
variable {n : Nat}

mutual

theorem Expr.visit_shallow {d : Nat} (e : Expr) (h : d + e.heaviest .nodes ≤ n) :
    Shallow n (e.visit d (e.inside (d + 1))) := by
  cases e with
  | number | string | template | regex | boolean | null | ident | this =>
    rw [Expr.inside]
    exact .visitExpr h shallow_nil
  | array s items =>
    simp only [Expr.heaviest, Toll.nodes_node] at h
    rw [Expr.inside]
    exact .visitExpr (by omega) (visitItems_shallow items (by omega))
  | object s members =>
    simp only [Expr.heaviest, Toll.nodes_node] at h
    rw [Expr.inside]
    exact .visitExpr (by omega) (visitMembers_shallow members (by omega))
  | function s name params body =>
    simp only [Expr.heaviest, Toll.nodes_node, Toll.nodes_param] at h
    rw [Expr.inside]
    exact .visitExpr (by omega)
      (.append (visitAll_shallow params (by omega)) (visitBody_shallow body (by omega)))
  | arrow s params body =>
    simp only [Expr.heaviest, Toll.nodes_node, Toll.nodes_param] at h
    rw [Expr.inside]
    exact .visitExpr (by omega)
      (.append (visitAll_shallow params (by omega)) (body.inside_shallow (by omega)))
  | unary s op e =>
    simp only [Expr.heaviest, Toll.nodes_node] at h
    rw [Expr.inside]
    exact .visitExpr (by omega) (e.visit_shallow (by omega))
  | update s op side e =>
    simp only [Expr.heaviest, Toll.nodes_node] at h
    rw [Expr.inside]
    exact .visitExpr (by omega) (e.visit_shallow (by omega))
  | spread s e =>
    simp only [Expr.heaviest, Toll.nodes_node] at h
    rw [Expr.inside]
    exact .visitExpr (by omega) (e.visit_shallow (by omega))
  | dot s e optional name nameSpan =>
    simp only [Expr.heaviest, Toll.nodes_node] at h
    rw [Expr.inside]
    exact .visitExpr (by omega) (e.visit_shallow (by omega))
  | binary s op left right =>
    simp only [Expr.heaviest, Toll.nodes_node] at h
    rw [Expr.inside]
    exact .visitExpr (by omega)
      (.append (left.visit_shallow (by omega)) (right.visit_shallow (by omega)))
  | assign s op target value =>
    simp only [Expr.heaviest, Toll.nodes_node] at h
    rw [Expr.inside]
    exact .visitExpr (by omega)
      (.append (target.visit_shallow (by omega)) (value.visit_shallow (by omega)))
  | index s object optional key =>
    simp only [Expr.heaviest, Toll.nodes_node] at h
    rw [Expr.inside]
    exact .visitExpr (by omega)
      (.append (object.visit_shallow (by omega)) (key.visit_shallow (by omega)))
  | conditional s test whenTrue whenFalse =>
    simp only [Expr.heaviest, Toll.nodes_node] at h
    rw [Expr.inside]
    refine .visitExpr (by omega) (.append (.append ?_ ?_) ?_)
    · exact test.visit_shallow (by omega)
    · exact whenTrue.visit_shallow (by omega)
    · exact whenFalse.visit_shallow (by omega)
  | call s callee optional arguments =>
    simp only [Expr.heaviest, Toll.nodes_node] at h
    rw [Expr.inside]
    exact .visitExpr (by omega)
      (.append (callee.visit_shallow (by omega)) (visitAll_shallow arguments (by omega)))
  | new s callee arguments =>
    simp only [Expr.heaviest, Toll.nodes_node] at h
    rw [Expr.inside]
    exact .visitExpr (by omega)
      (.append (callee.visit_shallow (by omega)) (visitAll_shallow arguments (by omega)))
  | sequence s items =>
    simp only [Expr.heaviest, Toll.nodes_node] at h
    rw [Expr.inside]
    exact .visitExpr (by omega) (visitAll_shallow items (by omega))

theorem visitAll_shallow {d : Nat} (es : List Expr) (h : d + heaviestOf .nodes 0 es ≤ n) :
    Shallow n (visitAll d es) := by
  cases es with
  | nil => exact shallow_nil
  | cons e rest =>
    simp only [heaviestOf] at h
    rw [visitAll]
    exact .append (e.visit_shallow (by omega)) (visitAll_shallow rest (by omega))

theorem visitOptional_shallow {d : Nat} (o : Option Expr)
    (h : d + heaviestOptional .nodes o ≤ n) : Shallow n (visitOptional d o) := by
  cases o with
  | none => exact shallow_nil
  | some e => exact e.visit_shallow h

theorem visitItems_shallow {d : Nat} (items : List (Option Expr))
    (h : d + heaviestItem .nodes items ≤ n) : Shallow n (visitItems d items) := by
  cases items with
  | nil => exact shallow_nil
  | cons item rest =>
    simp only [heaviestItem] at h
    rw [visitItems]
    exact .append (visitOptional_shallow item (by omega)) (visitItems_shallow rest (by omega))

theorem visitMembers_shallow {d : Nat} (members : List Member)
    (h : d + heaviestMember .nodes members ≤ n) : Shallow n (visitMembers d members) := by
  cases members with
  | nil => exact shallow_nil
  | cons member rest =>
    simp only [heaviestMember] at h
    rw [visitMembers]
    exact .append (member.inside_shallow (by omega)) (visitMembers_shallow rest (by omega))

theorem Member.inside_shallow {d : Nat} (member : Member) (h : d + member.heaviest .nodes ≤ n) :
    Shallow n (member.inside d) := by
  cases member with
  | named s kind key value =>
    simp only [Member.heaviest] at h
    rw [Member.inside]
    exact .append (key.inside_shallow (by omega)) (value.visit_shallow (by omega))
  | spread argument => exact argument.visit_shallow h

theorem Key.inside_shallow {d : Nat} (key : Key) (h : d + key.heaviest .nodes ≤ n) :
    Shallow n (key.inside d) := by
  cases key with
  | ident | string | number => exact shallow_nil
  | computed key => exact key.visit_shallow h

theorem ArrowBody.inside_shallow {d : Nat} (body : ArrowBody) (h : d + body.heaviest .nodes ≤ n) :
    Shallow n (body.inside d) := by
  cases body with
  | expression value => exact value.visit_shallow h
  | block body => exact visitBody_shallow body h

theorem Stmt.visit_shallow {d : Nat} (s : Stmt) (h : d + s.heaviest .nodes ≤ n) :
    Shallow n (s.visit d (s.inside (d + 1))) := by
  cases s with
  | breaking | continuing | empty | debugger =>
    rw [Stmt.inside]
    exact .visitStmt h shallow_nil
  | expression s value =>
    simp only [Stmt.heaviest, Toll.nodes_node] at h
    rw [Stmt.inside]
    exact .visitStmt (by omega) (value.visit_shallow (by omega))
  | throwing s value =>
    simp only [Stmt.heaviest, Toll.nodes_node] at h
    rw [Stmt.inside]
    exact .visitStmt (by omega) (value.visit_shallow (by omega))
  | declaration s kind declarators =>
    simp only [Stmt.heaviest, Toll.nodes_node] at h
    rw [Stmt.inside]
    exact .visitStmt (by omega) (visitDeclarators_shallow declarators (by omega))
  | function s name params body =>
    simp only [Stmt.heaviest, Toll.nodes_node, Toll.nodes_param] at h
    rw [Stmt.inside]
    exact .visitStmt (by omega)
      (.append (visitAll_shallow params (by omega)) (visitBody_shallow body (by omega)))
  | returning s value =>
    simp only [Stmt.heaviest, Toll.nodes_node] at h
    rw [Stmt.inside]
    exact .visitStmt (by omega) (visitOptional_shallow value (by omega))
  | branch s test whenTrue whenFalse =>
    simp only [Stmt.heaviest, Toll.nodes_node] at h
    rw [Stmt.inside]
    refine .visitStmt (by omega) (.append (.append ?_ ?_) ?_)
    · exact test.visit_shallow (by omega)
    · exact whenTrue.visit_shallow (by omega)
    · exact visitElse_shallow whenFalse (by omega)
  | forLoop s init test update body =>
    simp only [Stmt.heaviest, Toll.nodes_node] at h
    rw [Stmt.inside]
    refine .visitStmt (by omega) (.append (.append (.append ?_ ?_) ?_) ?_)
    · exact visitInit_shallow init (by omega)
    · exact visitOptional_shallow test (by omega)
    · exact visitOptional_shallow update (by omega)
    · exact body.visit_shallow (by omega)
  | forEach s left right body of =>
    simp only [Stmt.heaviest, Toll.nodes_node] at h
    rw [Stmt.inside]
    refine .visitStmt (by omega) (.append (.append ?_ ?_) ?_)
    · exact left.inside_shallow (by omega)
    · exact right.visit_shallow (by omega)
    · exact body.visit_shallow (by omega)
  | whileLoop s test body =>
    simp only [Stmt.heaviest, Toll.nodes_node] at h
    rw [Stmt.inside]
    exact .visitStmt (by omega)
      (.append (test.visit_shallow (by omega)) (body.visit_shallow (by omega)))
  | doWhile s body test =>
    simp only [Stmt.heaviest, Toll.nodes_node] at h
    rw [Stmt.inside]
    exact .visitStmt (by omega)
      (.append (test.visit_shallow (by omega)) (body.visit_shallow (by omega)))
  | block s body =>
    simp only [Stmt.heaviest, Toll.nodes_node] at h
    rw [Stmt.inside]
    exact .visitStmt (by omega) (visitBody_shallow body (by omega))
  | trying s body handler finalizer =>
    simp only [Stmt.heaviest, Toll.nodes_node] at h
    rw [Stmt.inside]
    refine .visitStmt (by omega) (.append (.append ?_ ?_) ?_)
    · exact visitBody_shallow body (by omega)
    · exact visitHandler_shallow handler (by omega)
    · exact visitFinalizer_shallow finalizer (by omega)
  | switch s subject cases =>
    simp only [Stmt.heaviest, Toll.nodes_node] at h
    rw [Stmt.inside]
    exact .visitStmt (by omega)
      (.append (subject.visit_shallow (by omega)) (visitCases_shallow cases (by omega)))
  | labeled s label body =>
    simp only [Stmt.heaviest, Toll.nodes_node] at h
    rw [Stmt.inside]
    exact .visitStmt (by omega) (body.visit_shallow (by omega))

theorem visitBody_shallow {d : Nat} (body : List Stmt) (h : d + heaviestBody .nodes body ≤ n) :
    Shallow n (visitBody d body) := by
  cases body with
  | nil => exact shallow_nil
  | cons s rest =>
    simp only [heaviestBody] at h
    rw [visitBody]
    exact .append (s.visit_shallow (by omega)) (visitBody_shallow rest (by omega))

theorem visitElse_shallow {d : Nat} (o : Option Stmt) (h : d + heaviestElse .nodes o ≤ n) :
    Shallow n (visitElse d o) := by
  cases o with
  | none => exact shallow_nil
  | some s => exact s.visit_shallow h

theorem visitDeclarators_shallow {d : Nat} (ds : List Declarator)
    (h : d + heaviestDeclarator .nodes ds ≤ n) : Shallow n (visitDeclarators d ds) := by
  match ds with
  | [] => exact shallow_nil
  | .mk target value :: rest =>
    simp only [heaviestDeclarator] at h
    rw [visitDeclarators]
    refine .append (.append ?_ ?_) ?_
    · exact target.visit_shallow (by omega)
    · exact visitOptional_shallow value (by omega)
    · exact visitDeclarators_shallow rest (by omega)

theorem ForInit.inside_shallow {d : Nat} (init : ForInit) (h : d + init.heaviest .nodes ≤ n) :
    Shallow n (init.inside d) := by
  cases init with
  | declaration kind ds => exact visitDeclarators_shallow ds h
  | expression value => exact value.visit_shallow h

theorem visitInit_shallow {d : Nat} (o : Option ForInit) (h : d + heaviestInit .nodes o ≤ n) :
    Shallow n (visitInit d o) := by
  cases o with
  | none => exact shallow_nil
  | some init => exact init.inside_shallow h

theorem visitHandler_shallow {d : Nat} (o : Option Handler)
    (h : d + heaviestHandler .nodes o ≤ n) : Shallow n (visitHandler d o) := by
  match o with
  | none => exact shallow_nil
  | some (.mk param body) =>
    simp only [heaviestHandler] at h
    rw [visitHandler]
    exact .append (visitOptional_shallow param (by omega)) (visitBody_shallow body (by omega))

theorem visitFinalizer_shallow {d : Nat} (o : Option (List Stmt))
    (h : d + heaviestFinalizer .nodes o ≤ n) : Shallow n (visitFinalizer d o) := by
  cases o with
  | none => exact shallow_nil
  | some body => exact visitBody_shallow body h

theorem visitCases_shallow {d : Nat} (cases : List Case) (h : d + heaviestCase .nodes cases ≤ n) :
    Shallow n (visitCases d cases) := by
  match cases with
  | [] => exact shallow_nil
  | .mk test body :: rest =>
    simp only [heaviestCase] at h
    rw [visitCases]
    refine .append (.append ?_ ?_) ?_
    · exact visitOptional_shallow test (by omega)
    · exact visitBody_shallow body (by omega)
    · exact visitCases_shallow rest (by omega)

end

end

end WidgetLint.Script
