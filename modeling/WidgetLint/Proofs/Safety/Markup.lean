import WidgetLint.Markup.Document
import WidgetLint.Proofs.Markup.Blanking
import WidgetLint.Proofs.Safety.Checked

/-!
# Pages are read without slips

Server blocks are blanked out by cutting the text at bytes, and a tree is built on a plain stack of
open elements, from which an element can only be taken if there is one. **Neither cuts a character
nor finds the stack empty** (`parse?_eq`), and the result is the document.
-/

namespace WidgetLint.Markup

open Text

/-! ## Server blocks -/

/-- The byte at which a word first occurs. -/
def find? (word : List Char) : List Char → Option Nat
  | [] => none
  | c :: rest =>
    if word.isPrefixOf (c :: rest) then some 0 else (find? word rest).map (c.utf8Size + ·)

/-- The text with its server blocks blanked out, cut at the bytes where they begin and end; at most
`fuel` blocks are looked for. -/
def blankSlices? : (fuel : Nat) → List Char → Option (List Char)
  | 0, cs => some cs
  | fuel + 1, cs =>
    match find? ['<', '%'] cs with
    | none => some cs
    | some opening => do
      let body := opening + 2
      let (_, behind) ← cut? cs body
      let lineEnd := ((find? ['\n'] behind).map (body + ·)).getD (byteSize cs)
      let line ← slice? cs body lineEnd
      match find? ['%', '>'] line with
      | some closing => do
        let inner ← slice? cs body (body + closing)
        let before ← slice? cs 0 opening
        let (_, rest) ← cut? cs (body + closing + 2)
        return before ++ ['/', '*'] ++ inner.map blankChar ++ ['*', '/'] ++ (← blankSlices? fuel rest)
      | none => do
        let before ← slice? cs 0 body
        let (_, rest) ← cut? cs body
        return before ++ (← blankSlices? fuel rest)

theorem blankFrom_of_find? {cs : List Char} {n : Nat} (h : find? ['<', '%'] cs = some n) :
    ∃ before behind, cs = before ++ '<' :: '%' :: behind ∧ n = byteSize before ∧
      blankFrom false cs = before ++ blankFrom false ('<' :: '%' :: behind) := by
  induction cs generalizing n with
  | nil => cases h
  | cons c rest ih =>
    rw [find?] at h
    split at h
    · rename_i hopens
      cases h
      obtain ⟨behind, hbehind⟩ := List.isPrefixOf_iff_prefix.1 hopens
      exact ⟨[], behind, hbehind.symm, rfl, by rw [← hbehind]; rfl⟩
    · rename_i hopens
      obtain ⟨m, hm, rfl⟩ := Option.map_eq_some_iff.1 h
      obtain ⟨before, behind, hrest, rfl, hblank⟩ := ih hm
      refine ⟨c :: before, behind, by rw [hrest]; rfl, rfl, ?_⟩
      rw [blankFrom_cons hopens, hblank, List.cons_append]

theorem blankFrom_of_find?_eq_none {cs : List Char} (h : find? ['<', '%'] cs = none) :
    blankFrom false cs = cs := by
  induction cs with
  | nil => rfl
  | cons c rest ih =>
    rw [find?] at h
    split at h
    · cases h
    · rename_i hopens
      rw [blankFrom_cons hopens, ih (Option.map_eq_none_iff.1 h)]

theorem line_of_find? (behind : List Char) : ∃ line tail, behind = line ++ tail ∧
    '\n' ∉ line ∧ (∀ c ∈ tail.head?, c = '\n') ∧
      (find? ['\n'] behind).getD (byteSize behind) = byteSize line := by
  induction behind with
  | nil => exact ⟨[], [], rfl, List.not_mem_nil, nofun, rfl⟩
  | cons c rest ih =>
    rw [find?]
    by_cases hc : c = '\n'
    · refine ⟨[], c :: rest, rfl, List.not_mem_nil, ?_, by simp [hc]⟩
      rintro _ ⟨⟩
      exact hc
    · obtain ⟨line, tail, rfl, hline, htail, hsize⟩ := ih
      refine ⟨c :: line, tail, rfl, by simp [hline, Ne.symm hc], htail, ?_⟩
      have hbegins : ['\n'].isPrefixOf (c :: (line ++ tail)) = false := by
        rw [List.isPrefixOf_cons_cons, beq_false_of_ne (Ne.symm hc), Bool.false_and]
      rw [hbegins, if_neg Bool.false_ne_true, byteSize_cons, byteSize_cons, ← hsize]
      cases find? ['\n'] (line ++ tail) with
      | none => rfl
      | some n => rfl

section
variable {c : Char} {line rest tail : List Char}

theorem closes_append (htail : ∀ d ∈ tail.head?, d = '\n') :
    ['%', '>'].isPrefixOf (c :: (rest ++ tail)) = ['%', '>'].isPrefixOf (c :: rest) := by
  cases rest with
  | cons d rest => rfl
  | nil =>
    cases tail with
    | nil => rfl
    | cons d tail =>
      obtain rfl := htail d rfl
      rfl

theorem blankFrom_of_find?_close {n : Nat} (hline : '\n' ∉ line)
    (htail : ∀ d ∈ tail.head?, d = '\n')
    (h : find? ['%', '>'] line = some n) : ∃ inner rest, line = inner ++ '%' :: '>' :: rest ∧
      n = byteSize inner ∧ blockCloses (line ++ tail) = true ∧
      blankFrom true (line ++ tail) =
        inner.map blankChar ++ '*' :: '/' :: blankFrom false (rest ++ tail) := by
  induction line generalizing n with
  | nil => cases h
  | cons c rest ih =>
    rw [find?] at h
    split at h
    · rename_i hcloses
      cases h
      obtain ⟨behind, hbehind⟩ := List.isPrefixOf_iff_prefix.1 hcloses
      exact ⟨[], behind, hbehind.symm, rfl, by rw [← hbehind]; rfl, by rw [← hbehind]; rfl⟩
    · rename_i hcloses
      obtain ⟨m, hm, rfl⟩ := Option.map_eq_some_iff.1 h
      obtain ⟨inner, behind, hrest, rfl, hblock, hblank⟩ :=
        ih (fun hmem => hline (List.mem_cons_of_mem _ hmem)) hm
      have hmore : ¬['%', '>'].isPrefixOf (c :: (rest ++ tail)) = true := by
        rwa [closes_append htail]
      refine ⟨c :: inner, behind, by rw [hrest]; rfl, rfl, ?_, ?_⟩
      · rw [List.cons_append, blockCloses_cons (List.ne_of_not_mem_cons hline).symm hmore, hblock]
      · rw [List.cons_append, blankFrom_true_cons hmore, hblank]
        rfl

theorem blockCloses_of_find?_eq_none (hline : '\n' ∉ line)
    (htail : ∀ d ∈ tail.head?, d = '\n') (h : find? ['%', '>'] line = none) :
    blockCloses (line ++ tail) = false := by
  induction line with
  | nil =>
    cases tail with
    | nil => rfl
    | cons d tail =>
      obtain rfl := htail d rfl
      rfl
  | cons c rest ih =>
    rw [find?] at h
    split at h
    · cases h
    · rename_i hcloses
      rw [← closes_append htail] at hcloses
      rw [List.cons_append, blockCloses_cons (List.ne_of_not_mem_cons hline).symm hcloses]
      exact ih (fun hmem => hline (List.mem_cons_of_mem _ hmem)) (Option.map_eq_none_iff.1 h)

end

theorem blankSlices?_eq {fuel : Nat} {cs : List Char} (h : cs.length ≤ fuel) :
    blankSlices? fuel cs = some (blankFrom false cs) := by
  induction fuel generalizing cs with
  | zero =>
    rw [List.eq_nil_of_length_eq_zero (Nat.le_zero.1 h)]
    rfl
  | succ fuel ih =>
    rw [blankSlices?]
    cases hopening : find? ['<', '%'] cs with
    | none => rw [blankFrom_of_find?_eq_none hopening]
    | some opening =>
      obtain ⟨before, behind, rfl, rfl, hblank⟩ := blankFrom_of_find? hopening
      obtain ⟨line, tail, rfl, hline, htail, hsize⟩ := line_of_find? behind
      generalize hcs : before ++ '<' :: '%' :: (line ++ tail) = cs at *
      -- the opening is two bytes long, so no character is cut behind it
      have hopen : byteSize (before ++ ['<', '%']) = byteSize before + 2 := byteSize_append _ _
      have hsplit : cs = before ++ ['<', '%'] ++ line ++ tail := by simp [← hcs]
      have hbehind : cut? cs (byteSize before + 2) = some (before ++ ['<', '%'], line ++ tail) := by
        rw [hsplit, List.append_assoc, ← hopen]
        exact cut?_append _ _
      have hlineEnd : ((find? ['\n'] (line ++ tail)).map (byteSize before + 2 + ·)).getD
          (byteSize cs) = byteSize before + 2 + byteSize line := by
        rw [← hsize, hsplit, List.append_assoc, byteSize_append, hopen]
        cases find? ['\n'] (line ++ tail) with
        | none => rfl
        | some n => rfl
      have hline' : slice? cs (byteSize before + 2) (byteSize before + 2 + byteSize line) =
          some line := by
        rw [hsplit]
        exact slice?_append hopen.symm rfl
      simp only [Option.bind_eq_bind, hbehind, Option.bind_some, hlineEnd, hline']
      cases hclosing : find? ['%', '>'] line with
      | none =>
        have hkept : slice? cs 0 (byteSize before + 2) = some (before ++ ['<', '%']) := by
          rw [hsplit, List.append_assoc]
          exact slice?_prefix hopen.symm
        have hrest : (line ++ tail).length ≤ fuel := by
          rw [← hcs, List.length_append, List.length_cons, List.length_cons] at h
          omega
        have hopens : blankFrom false ('<' :: '%' :: (line ++ tail)) =
            '<' :: '%' :: blankFrom false (line ++ tail) := by
          rw [blankFrom, blockCloses_of_find?_eq_none hline htail hclosing,
            if_neg Bool.false_ne_true]
        simp only [hkept, Option.bind_some, ih hrest, hblank, hopens]
        simp
      | some closing =>
        obtain ⟨inner, rest, rfl, rfl, hblock, hinner⟩ :=
          blankFrom_of_find?_close hline htail hclosing
        have hpart : cs = before ++ ['<', '%'] ++ inner ++ ('%' :: '>' :: rest ++ tail) := by
          simp [hsplit]
        have hwhole : cs = before ++ ['<', '%'] ++ inner ++ ['%', '>'] ++ (rest ++ tail) := by
          simp [hsplit]
        have hbody : slice? cs (byteSize before + 2) (byteSize before + 2 + byteSize inner) =
            some inner := by
          rw [hpart]
          exact slice?_append hopen.symm rfl
        have hkept : slice? cs 0 (byteSize before) = some before := by
          rw [← hcs]
          exact slice?_prefix rfl
        have hafter : cut? cs (byteSize before + 2 + byteSize inner + 2) =
            some (before ++ ['<', '%'] ++ inner ++ ['%', '>'], rest ++ tail) := by
          have hsize : byteSize (before ++ ['<', '%'] ++ inner ++ ['%', '>']) =
              byteSize before + 2 + byteSize inner + 2 := by
            rw [byteSize_append, byteSize_append, hopen]
            rfl
          rw [hwhole, ← hsize]
          exact cut?_append _ _
        have hrest : (rest ++ tail).length ≤ fuel := by
          rw [hwhole] at h
          simp only [List.length_append, List.length_cons] at h ⊢
          omega
        have hopens : blankFrom false ('<' :: '%' :: (inner ++ '%' :: '>' :: rest ++ tail)) =
            '/' :: '*' :: blankFrom true (inner ++ '%' :: '>' :: rest ++ tail) := by
          rw [blankFrom, hblock, if_pos rfl]
        simp only [hbody, hkept, hafter, Option.bind_some, ih hrest, hblank, hopens, hinner]
        simp

/-- `blankServerBlocks` by slices of the text. -/
def blankServerBlocks? (text : String) : Option String := do
  let cs ← blankSlices? text.length text.toList
  return String.ofList cs

/-- **Server blocks are cut between characters.** -/
theorem blankServerBlocks?_eq (text : String) :
    blankServerBlocks? text = some (blankServerBlocks text) := by
  rw [blankServerBlocks?, blankSlices?_eq (Nat.le_of_eq String.length_toList)]
  rfl

/-! ## Open elements -/

/-- The open elements on a plain stack, innermost first, and what was wrong so far. -/
structure ElementStack where
  elements : List Element
  flattened : Nat
  problems : List Problem

namespace ElementStack

/-- The stack with one more child of the element on top, which has to be there. -/
def push? (s : ElementStack) (node : Node) : Option ElementStack :=
  match s.elements with
  | [] => none
  | top :: around =>
    some { s with elements := { top with children := top.children ++ [node] } :: around }

/-- The element on top, which has to be there, and the stack without it. -/
def pop? (s : ElementStack) : Option (Element × ElementStack) :=
  match s.elements with
  | [] => none
  | top :: around => some (top, { s with elements := around })

def report (s : ElementStack) (fault : Fault) (position : Position) : ElementStack :=
  { s with problems := s.problems ++ [⟨fault, position⟩] }

def enter? (s : ElementStack) (tag : Tag) : Option ElementStack :=
  if s.elements.length = maxDepth then do
    let s := if s.flattened = 0 then s.report .nestedTooDeep tag.span.start else s
    let s ← s.push? (.element tag [])
    return { s with flattened := s.flattened + 1 }
  else some { s with elements := ⟨tag, []⟩ :: s.elements }

/-- An element that ends at a place. -/
def ended (e : Element) (unclosed : Bool) (stop : Position) : Node :=
  .element { e.tag with
    unclosed := e.tag.unclosed || unclosed, span := ⟨e.tag.span.start, stop⟩ } e.children

def close? (html : Bool) (s : ElementStack) (name : String) (span : Span) : Option ElementStack :=
  if 0 < s.flattened then do
    let flattened ← minus? s.flattened 1
    return { s with flattened := flattened }
  else if 1 < s.elements.length then do
    let (top, s) ← s.pop?
    if Builder.namesMatch html top.tag.name name then s.push? (ended top false span.stop)
    else
      (s.report (.misplacedClose name span.start top.tag.name top.tag.span.start) span.start).push?
        (ended top true span.stop)
  else some (s.report (.unexpectedClose name span.start) span.start)

def step? (html : Bool) (s : ElementStack) (piece : Piece) : Option ElementStack :=
  let s := { s with problems := s.problems ++ piece.problems }
  match piece.kind with
  | .opening tag => s.enter? tag
  | .closing name => s.close? html name piece.span
  | .whole node => s.push? node

/-- The root after every element above it has been closed at the end of the source, and is taken
from the stack as well; at most `fuel` elements are closed. -/
def closeAll? (stop : Position) : (fuel : Nat) → ElementStack → Option Element
  | 0, _ => none
  | fuel + 1, s => do
    if 1 < s.elements.length then
      let (top, s) ← s.pop?
      closeAll? stop fuel (← s.push? (ended top true stop))
    else
      let (root, _) ← s.pop?
      return { root with tag := { root.tag with span := ⟨root.tag.span.start, stop⟩ } }

end ElementStack

/-- The plain stack of a builder. -/
def Builder.stack (b : Builder) : ElementStack :=
  ⟨b.top :: b.around, b.flattened, b.problems⟩

namespace Builder

theorem stack_enter (b : Builder) (tag : Tag) : b.stack.enter? tag = some (b.enter tag).stack := by
  unfold ElementStack.enter? enter
  by_cases hfull : b.depth = maxDepth
  · have hlength : b.stack.elements.length = maxDepth := hfull
    rw [if_pos hlength, if_pos hfull]
    by_cases hflat : b.flattened = 0
    · have hflat' : b.stack.flattened = 0 := hflat
      simp only [if_pos hflat, if_pos hflat']
      rfl
    · have hflat' : ¬b.stack.flattened = 0 := hflat
      simp only [if_neg hflat, if_neg hflat']
      rfl
  · have hlength : ¬b.stack.elements.length = maxDepth := hfull
    rw [if_neg hlength, if_neg hfull]
    rfl

theorem stack_close (html : Bool) (b : Builder) (name : String) (span : Span) :
    b.stack.close? html name span = some (b.close html name span).stack := by
  unfold ElementStack.close? close
  by_cases hflat : 0 < b.flattened
  · have hflat' : 0 < b.stack.flattened := hflat
    rw [if_pos hflat', if_pos hflat, minus?_eq hflat']
    rfl
  · have hflat' : ¬0 < b.stack.flattened := hflat
    rw [if_neg hflat', if_neg hflat]
    obtain ⟨top, around, flattened, problems⟩ := b
    cases around with
    | nil => rfl
    | cons parent around =>
      have hopen : 1 < (top :: parent :: around).length := by simp
      rw [stack, if_pos hopen, if_neg (by simp)]
      by_cases hnames : namesMatch html top.tag.name name
      · simp only [ElementStack.pop?, Option.bind_eq_bind, Option.bind_some, if_pos hnames]
        rfl
      · simp only [ElementStack.pop?, Option.bind_eq_bind, Option.bind_some, if_neg hnames]
        rfl

theorem stack_step (html : Bool) (b : Builder) (piece : Piece) :
    b.stack.step? html piece = some (b.step html piece).stack := by
  unfold ElementStack.step? step
  cases piece.kind with
  | opening tag => exact stack_enter { b with problems := b.problems ++ piece.problems } tag
  | closing name =>
    exact stack_close html { b with problems := b.problems ++ piece.problems } name piece.span
  | whole node => rfl

theorem stack_foldl (html : Bool) (found : List Piece) (b : Builder) :
    found.foldlM (ElementStack.step? html) b.stack = some (found.foldl (step html) b).stack := by
  induction found generalizing b with
  | nil => rfl
  | cons piece found ih =>
    rw [List.foldlM_cons, stack_step, List.foldl_cons, ← ih]
    rfl

theorem stack_closeAll (stop : Position) (b : Builder) :
    b.stack.closeAll? stop b.depth = some (closeAll stop b.top b.around) := by
  obtain ⟨top, around, flattened, problems⟩ := b
  induction around generalizing top with
  | nil => rfl
  | cons parent around ih =>
    have hopen : 1 < (top :: parent :: around).length := by simp
    have hclosed : ElementStack.ended top true stop = .element { top.tag with
        unclosed := true, span := ⟨top.tag.span.start, stop⟩ } top.children := by
      rw [ElementStack.ended, Bool.or_true]
    have hnext := ih { parent with children := parent.children ++ [ElementStack.ended top true stop] }
    rw [closeAll, ← hclosed, ← hnext]
    show ElementStack.closeAll? stop (around.length + 1 + 1) ⟨top :: parent :: around, _, _⟩ = _
    rw [ElementStack.closeAll?, if_pos hopen]
    rfl

end Builder

/-- `Options.prepare` with server blocks cut at bytes. -/
def Options.prepare? (options : Options) (source : String) : Option String :=
  if options.asp then blankServerBlocks? source else some source

theorem Options.prepare?_eq (options : Options) (source : String) :
    options.prepare? source = some (options.prepare source) := by
  unfold prepare? prepare
  split
  · exact blankServerBlocks?_eq source
  · rfl

/-- `parse` with server blocks cut at bytes and a plain stack. -/
def parse? (options : Options) (source : String) : Option Document := do
  let text ← options.prepare? source
  let built ← (pieces options.html text).foldlM (ElementStack.step? options.html) Builder.empty.stack
  let root ← built.closeAll? (Position.first.after text.toList) built.elements.length
  return ⟨root, built.problems⟩

/-- **The stack is never empty when it is used**, and no subtraction becomes negative. -/
theorem parse?_eq (options : Options) (source : String) :
    parse? options source = some (parse options source) := by
  have hdepth (b : Builder) : b.stack.elements.length = b.depth := rfl
  simp only [parse?, Options.prepare?_eq, Builder.stack_foldl, hdepth, Builder.stack_closeAll,
    Option.bind_eq_bind, Option.bind_some]
  rfl

end WidgetLint.Markup
