import WidgetLint.Proofs.Markup.Rereading

/-!
# What a tree gathers from its pieces

The builder neither loses nor repeats anything: what is gathered from the elements of a tree, in
source order, is what is gathered from the pieces of its source (`parse_gatherAll`). This holds of
everything that an element shows when its open tag is read, such as its attributes
(`parse_attributes`), and of everything that only elements that are pieces themselves show.
-/

namespace WidgetLint.Markup

open Text

variable {α : Type} (f : Tag → List Node → List α)

mutual

/-- What the elements of a node show, in source order. -/
def Node.gather : Node → List α
  | .element tag children => f tag children ++ gatherAll children
  | .leaf .. => []

def gatherAll : List Node → List α
  | [] => []
  | node :: rest => node.gather ++ gatherAll rest

end

def PieceKind.gather : PieceKind → List α
  | opening tag => f tag []
  | closing _ => []
  | whole node => node.gather f

/-- The element shows the same however it goes on after its open tag. -/
def Tag.Steady (t : Tag) : Prop :=
  ∀ unclosed span children, f { t with unclosed := unclosed, span := span } children = f t []

theorem gatherAll_append (nodes more : List Node) :
    gatherAll f (nodes ++ more) = gatherAll f nodes ++ gatherAll f more := by
  induction nodes with
  | nil => rfl
  | cons node nodes ih => rw [List.cons_append, gatherAll, gatherAll, ih, List.append_assoc]

theorem gatherAll_singleton (node : Node) : gatherAll f [node] = node.gather f := by
  rw [gatherAll, gatherAll, List.append_nil]

theorem Tag.Steady.ended {t : Tag} (h : t.Steady f) (unclosed : Bool) (span : Span)
    (children : List Node) :
    (Node.element { t with unclosed := unclosed, span := span } children).gather f =
      f t [] ++ gatherAll f children := by
  rw [Node.gather, h]

namespace Builder

/-- What the elements in a stack of open elements show, in source order. The root is no element of
the source. -/
def gatherIn (top : Element) : List Element → List α
  | [] => gatherAll f top.children
  | parent :: around => gatherIn parent around ++ (f top.tag [] ++ gatherAll f top.children)

/-- All open elements but the root are steady. -/
def AllSteady (top : Element) : List Element → Prop
  | [] => True
  | parent :: around => top.tag.Steady f ∧ AllSteady parent around

variable {f} {b : Builder} {piece : Piece}

theorem gatherIn_push (top : Element) (around : List Element) (node : Node) :
    gatherIn f { top with children := top.children ++ [node] } around =
      gatherIn f top around ++ node.gather f := by
  cases around with
  | nil => rw [gatherIn, gatherIn, gatherAll_append, gatherAll_singleton]
  | cons parent around =>
    rw [gatherIn, gatherIn, gatherAll_append, gatherAll_singleton]
    simp only [List.append_assoc]

theorem AllSteady.push {top : Element} {around : List Element} (h : AllSteady f top around)
    (children : List Node) : AllSteady f { top with children := children } around := by
  cases around with
  | nil => trivial
  | cons parent around => exact h

theorem leave_gatherIn (h : AllSteady f b.top b.around) (unclosed : Bool) (stop : Position) :
    AllSteady f (b.leave unclosed stop).top (b.leave unclosed stop).around ∧
      gatherIn f (b.leave unclosed stop).top (b.leave unclosed stop).around =
        gatherIn f b.top b.around := by
  unfold leave
  split
  · exact ⟨h, rfl⟩
  · rename_i parent around haround
    rw [haround] at h ⊢
    refine ⟨h.2.push _, (gatherIn_push parent around _).trans ?_⟩
    rw [h.1.ended, gatherIn]

theorem enter_gatherIn (h : AllSteady f b.top b.around) {tag : Tag} (htag : tag.Steady f) :
    AllSteady f (b.enter tag).top (b.enter tag).around ∧
      gatherIn f (b.enter tag).top (b.enter tag).around = gatherIn f b.top b.around ++ f tag [] := by
  unfold enter
  split
  · have hpush := gatherIn_push (f := f) b.top b.around (.element tag [])
    rw [Node.gather, gatherAll, List.append_nil] at hpush
    rw [← hpush]
    split <;> exact ⟨h.push _, rfl⟩
  · exact ⟨⟨htag, h⟩, by rw [gatherIn, gatherAll, List.append_nil]⟩

theorem close_gatherIn (h : AllSteady f b.top b.around) (html : Bool) (name : String)
    (span : Span) :
    AllSteady f (b.close html name span).top (b.close html name span).around ∧
      gatherIn f (b.close html name span).top (b.close html name span).around =
        gatherIn f b.top b.around := by
  unfold close
  split
  · exact ⟨h, rfl⟩
  · split
    · exact ⟨h, rfl⟩
    · simp only
      split
      · exact leave_gatherIn h false span.stop
      · exact leave_gatherIn (b := b.report _ _) h true span.stop

theorem step_gatherIn (h : AllSteady f b.top b.around) (html : Bool)
    (hpiece : ∀ tag, piece.kind = .opening tag → tag.Steady f) :
    AllSteady f (b.step html piece).top (b.step html piece).around ∧
      gatherIn f (b.step html piece).top (b.step html piece).around =
        gatherIn f b.top b.around ++ piece.kind.gather f := by
  unfold step
  simp only
  split
  · rename_i tag hkind
    rw [hkind]
    exact enter_gatherIn (b := { b with problems := b.problems ++ piece.problems }) h
      (hpiece tag hkind)
  · rename_i name hkind
    rw [hkind, PieceKind.gather, List.append_nil]
    exact close_gatherIn (b := { b with problems := b.problems ++ piece.problems }) h html name _
  · rename_i node hkind
    rw [hkind]
    exact ⟨h.push _, gatherIn_push b.top b.around node⟩

theorem foldl_step_gatherIn (h : AllSteady f b.top b.around) (html : Bool) {pieces : List Piece}
    (hpieces : ∀ piece ∈ pieces, ∀ tag, piece.kind = .opening tag → tag.Steady f) :
    AllSteady f (pieces.foldl (step html) b).top (pieces.foldl (step html) b).around ∧
      gatherIn f (pieces.foldl (step html) b).top (pieces.foldl (step html) b).around =
        gatherIn f b.top b.around ++ pieces.flatMap (·.kind.gather f) := by
  induction pieces generalizing b with
  | nil => simpa using h
  | cons piece pieces ih =>
    obtain ⟨hpiece, hrest⟩ := List.forall_mem_cons.1 hpieces
    obtain ⟨hsteady, hstep⟩ := step_gatherIn h html hpiece
    obtain ⟨hall, hgather⟩ := ih hsteady hrest
    refine ⟨hall, ?_⟩
    rw [List.foldl_cons, List.flatMap_cons, hgather, hstep, List.append_assoc]

theorem closeAll_gatherAll (stop : Position) {top : Element} {around : List Element}
    (h : AllSteady f top around) :
    gatherAll f (closeAll stop top around).children = gatherIn f top around := by
  induction around generalizing top with
  | nil => rfl
  | cons parent around ih =>
    rw [closeAll, ih (h.2.push _), gatherIn_push, h.1.ended, gatherIn]

end Builder

theorem parse_gatherAll (options : Options) (source : String)
    (h : ∀ piece ∈ pieces options.html (options.prepare source),
      ∀ tag, piece.kind = .opening tag → tag.Steady f) :
    gatherAll f (parse options source).root.children =
      (pieces options.html (options.prepare source)).flatMap (·.kind.gather f) := by
  obtain ⟨hsteady, hgather⟩ :=
    Builder.foldl_step_gatherIn (f := f) (b := .empty) trivial options.html h
  exact (Builder.closeAll_gatherAll _ hsteady).trans hgather

/-! ## Attributes -/

mutual

theorem Node.attributes_eq_gather : (node : Node) →
    node.attributes = node.gather fun tag _ => tag.attributes
  | .element tag children => by
    rw [Node.attributes, Node.gather, attributesAll_eq_gatherAll children]
  | .leaf .. => rfl

theorem attributesAll_eq_gatherAll : (nodes : List Node) →
    attributesAll nodes = gatherAll (fun tag _ => tag.attributes) nodes
  | [] => rfl
  | node :: rest => by
    rw [attributesAll, gatherAll, node.attributes_eq_gather, attributesAll_eq_gatherAll rest]

end

theorem PieceKind.attributes_eq_gather (k : PieceKind) :
    k.attributes = k.gather fun tag _ => tag.attributes := by
  cases k with
  | opening | closing => rfl
  | whole node => exact node.attributes_eq_gather

theorem parse_attributes (options : Options) (source : String) :
    attributesAll (parse options source).root.children =
      (pieces options.html (options.prepare source)).flatMap (·.kind.attributes) := by
  simp only [PieceKind.attributes_eq_gather]
  rw [attributesAll_eq_gatherAll]
  exact parse_gatherAll _ options source fun _ _ tag _ _ _ _ => rfl

end WidgetLint.Markup
