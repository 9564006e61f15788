import WidgetLint.Proofs.Markup.Gathering
import WidgetLint.Proofs.Markup.Shape

/-!
# Where raw bodies end

The body of a script or style element begins where its open tag ends, and it ends before the first
close tag whose name begins with the name of the element, up to the case of ASCII letters. The rest
of that name is not looked at: a close tag `</scripty>` ends the body of a script. If there is no
such tag, the body reaches to the end of the source, the element is unclosed and its close tag is
reported as missing, once (`raw_bodies_cut`).
-/

namespace WidgetLint.Markup

open Text

/-! ## Close tags of raw bodies -/

/-- A close tag starts here, and its name begins with `name` up to the case of ASCII letters. -/
def ClosesRaw (name : String) (cs : List Char) : Prop :=
  ∃ tail written next, cs = '<' :: '/' :: tail ∧ name? ⟨tail, .first⟩ = some (written, next) ∧
    beginsIgnoringCase name.toList written.toList = true

theorem isNameStart_toLower (d : Char) : isNameStart d.toLower = isNameStart d := by
  cases h : d.isUpper with
  | false => rw [toLower_of_not_isUpper h]
  | true =>
    obtain ⟨n, rfl⟩ := isUpper_cases h
    clear h
    revert n
    decide

theorem isNameChar_toLower (d : Char) : isNameChar d.toLower = isNameChar d := by
  cases h : d.isUpper with
  | false => rw [toLower_of_not_isUpper h]
  | true =>
    obtain ⟨n, rfl⟩ := isUpper_cases h
    clear h
    revert n
    decide

theorem eq_of_toLower_eq {d e : Char} (hd : isNameStart d = false) (h : d.toLower = e.toLower) :
    e = d := by
  have hlower : d.toLower = d := by
    cases hupper : d.isUpper with
    | false => exact toLower_of_not_isUpper hupper
    | true =>
      obtain ⟨n, rfl⟩ := isUpper_cases hupper
      exact absurd hd (by clear h hupper hd; revert n; decide)
  have he : isNameStart e = false := by rw [← isNameStart_toLower, ← h, hlower, hd]
  cases hupper : e.isUpper with
  | false => rw [← hlower, h, toLower_of_not_isUpper hupper]
  | true =>
    obtain ⟨n, rfl⟩ := isUpper_cases hupper
    exact absurd he (by clear h hupper hd he hlower; revert n; decide)

theorem beginsIgnoringCase_takeWhile {name cs : List Char}
    (h : ∀ d ∈ name, isNameChar d = true) :
    beginsIgnoringCase name (cs.takeWhile isNameChar) = beginsIgnoringCase name cs := by
  induction name generalizing cs with
  | nil => rfl
  | cons d name ih =>
    obtain ⟨hd, hname⟩ := List.forall_mem_cons.1 h
    cases cs with
    | nil => rfl
    | cons e cs =>
      rw [List.takeWhile_cons]
      split
      · rw [beginsIgnoringCase, beginsIgnoringCase, ih hname]
      · rename_i he
        have hne : (d.toLower == e.toLower) = false := by
          rw [beq_eq_false_iff_ne]
          intro hsame
          rw [← isNameChar_toLower, hsame, isNameChar_toLower] at hd
          exact he hd
        rw [beginsIgnoringCase, beginsIgnoringCase, hne, Bool.false_and]

theorem beginsIgnoringCase_closing {name : String} (hname : IsName name.toList = true)
    {cs : List Char} :
    beginsIgnoringCase ('<' :: '/' :: name.toList) cs = true ↔ ClosesRaw name cs := by
  constructor
  · intro h
    obtain ⟨angle, cs, rfl⟩ : ∃ angle rest, cs = angle :: rest := by
      cases cs with
      | nil => cases h
      | cons angle rest => exact ⟨angle, rest, rfl⟩
    rw [beginsIgnoringCase, Bool.and_eq_true, beq_iff_eq] at h
    obtain ⟨slash, tail, rfl⟩ : ∃ slash rest, cs = slash :: rest := by
      cases cs with
      | nil => cases h.2
      | cons slash rest => exact ⟨slash, rest, rfl⟩
    rw [beginsIgnoringCase, Bool.and_eq_true, beq_iff_eq] at h
    obtain ⟨hangle, hslash, htail⟩ := h
    obtain rfl := eq_of_toLower_eq (by decide) hangle
    obtain rfl := eq_of_toLower_eq (by decide) hslash
    obtain ⟨first, others, hcons, hstart⟩ := IsName.cons hname
    obtain ⟨t, tail, rfl⟩ : ∃ t rest, tail = t :: rest := by
      cases tail with
      | nil =>
        rw [hcons] at htail
        cases htail
      | cons t rest => exact ⟨t, rest, rfl⟩
    have hsame : first.toLower = t.toLower := by
      rw [hcons, beginsIgnoringCase, Bool.and_eq_true, beq_iff_eq] at htail
      exact htail.1
    have ht : isNameStart t = true := by
      rw [← isNameStart_toLower, ← hsame, isNameStart_toLower, hstart]
    refine ⟨t :: tail, _, _, rfl, if_pos ht, ?_⟩
    rw [String.toList_ofList]
    exact (beginsIgnoringCase_takeWhile (IsName.chars hname)).trans htail
  · rintro ⟨tail, written, next, rfl, hwritten, hbegins⟩
    have htail : tail = written.toList ++ next.rest := (name?_takes hwritten).1
    rw [beginsIgnoringCase_iff] at hbegins ⊢
    rw [htail]
    exact List.cons_prefix_cons.2 ⟨rfl, List.cons_prefix_cons.2 ⟨rfl,
      hbegins.trans ((List.prefix_append _ _).map _)⟩⟩

/-! ## Raw bodies -/

/-- A raw body ends before the first close tag for it, or else at the end of the source. -/
structure EndsRaw (name : String) (unclosed : Bool) (body rest : List Char) : Prop where
  first : ∀ part, part <:+ body → part ≠ [] → ¬ClosesRaw name (part ++ rest)
  closed : unclosed = false → ClosesRaw name rest
  at_end : unclosed = true → rest = []

/-- The open tag at a cursor has this name and these attributes, and it ends at another cursor. -/
def OpensAs (tag : Tag) (c d : Cursor) : Prop :=
  ∃ afterName, name? (c.drop 1) = some (tag.name, afterName) ∧
    let read := tagRest ((skipBlanks afterName).rest.length + 1) (skipBlanks afterName)
    read.attributes = tag.attributes ∧ read.ending ≠ .selfClosed ∧ read.cursor = d

/-- The only child of the element is a raw body, which begins where the open tag ends and ends as
raw bodies do. -/
def Element.CutFrom (text : List Char) (e : Element) : Prop :=
  ∃ before opening body rest,
    let start := Position.first.after before
    let bodyStart := start.after opening
    text = before ++ (opening ++ (body ++ rest)) ∧ e.tag.span.start = start ∧
      OpensAs e.tag ⟨opening ++ (body ++ rest), start⟩ ⟨body ++ rest, bodyStart⟩ ∧
      e.children =
        [.leaf (rawLeaf e.tag.name (String.ofList body)) ⟨bodyStart, bodyStart.after body⟩] ∧
      EndsRaw e.tag.name e.tag.unclosed body rest

def Problem.isMissingClose (p : Problem) : Bool :=
  match p.fault with
  | .missingClose _ => true
  | _ => false

/-- The problem that the close tag of this element is missing. -/
def Element.missing (e : Element) : Problem :=
  ⟨.missingClose e.tag.name, e.tag.span.start⟩

/-- The element, if its body is raw. -/
def rawOf (tag : Tag) (children : List Node) : List Element :=
  if isRaw tag.name && !tag.selfClosing then [⟨tag, children⟩] else []

def Element.raws (root : Element) : List Element :=
  gatherAll rawOf root.children

/-- The body that is read is the text up to where the word begins for the first time. -/
theorem rawText_ends (closing cs : List Char) :
    let body := rawText closing cs
    let rest := cs.drop body.length
    (∀ part, part <:+ body → part ≠ [] → beginsIgnoringCase closing (part ++ rest) = false) ∧
      (rest = [] ∨ beginsIgnoringCase closing rest = true) := by
  induction cs with
  | nil => exact ⟨fun part hpart hne => absurd (List.suffix_nil.1 hpart) hne, .inl rfl⟩
  | cons c cs ih =>
    simp only
    rw [rawText]
    split
    · rename_i hbegins
      exact ⟨fun part hpart hne => absurd (List.suffix_nil.1 hpart) hne, .inr hbegins⟩
    · rename_i hnot
      refine ⟨fun part hpart hne => ?_, ih.2⟩
      rcases List.suffix_cons_iff.1 hpart with rfl | hpart
      · have hwhole : rawText closing cs ++ cs.drop (rawText closing cs).length = cs := by
          have happend := List.take_append_drop (rawText closing cs).length cs
          rwa [← rawText_eq_take] at happend
        rw [List.length_cons, List.drop_succ_cons, List.cons_append, hwhole]
        exact Bool.not_eq_true _ ▸ hnot
      · exact ih.1 part hpart hne

section
variable {text : List Char} {c : Cursor} {tag : Tag}

/-! ### Other problems -/

theorem strayProblems_missing (position : Position) (cs : List Char) :
    (strayProblems position cs).filter Problem.isMissingClose = [] := by
  induction cs generalizing position with
  | nil => rfl
  | cons d cs ih =>
    rw [strayProblems]
    split
    · exact ih _
    · exact ih _

theorem angleProblems_missing (position : Position) (cs : List Char) :
    (angleProblems position cs).filter Problem.isMissingClose = [] := by
  induction cs generalizing position with
  | nil => rfl
  | cons d cs ih =>
    rw [angleProblems]
    split
    · exact ih _
    · exact ih _

theorem quotedValue_missing (quote : Char) (c : Cursor) :
    (quotedValue quote c).2.2.filter Problem.isMissingClose = [] := by
  rw [quotedValue, List.filter_append, angleProblems_missing]
  split <;> rfl

theorem attributeValue_missing (c : Cursor) :
    (attributeValue c).2.2.filter Problem.isMissingClose = [] := by
  unfold attributeValue
  split
  · exact quotedValue_missing _ _
  · exact quotedValue_missing _ _
  · rfl

theorem tagRest_missing (fuel : Nat) (c : Cursor) :
    (tagRest fuel c).problems.filter Problem.isMissingClose = [] := by
  induction fuel generalizing c with
  | zero => rfl
  | succ fuel ih =>
    unfold tagRest
    split
    · rfl
    · rfl
    · rfl
    · split
      · rename_i found next problems hfound
        rw [List.filter_append, ih, List.append_nil]
        obtain ⟨-, -, ⟨-, rfl⟩ | ⟨d, -, rfl⟩⟩ := attribute?_eq_some hfound
        · rfl
        · exact attributeValue_missing d
      · exact ih _

/-! ### Pieces -/

/-- What a reader says about the raw bodies in a piece. -/
structure CutsRaw (text : List Char) (found : Piece × Cursor) : Prop where
  cut : ∀ e ∈ found.1.kind.gather rawOf, e.CutFrom text
  last : ∀ e ∈ found.1.kind.gather rawOf, e.tag.unclosed = true → found.2.rest = []
  few : (found.1.kind.gather rawOf).length ≤ 1
  missing : found.1.problems.filter Problem.isMissingClose =
    ((found.1.kind.gather rawOf).filter (·.tag.unclosed)).map Element.missing

theorem cutsRaw_of_none {found : Piece × Cursor} (h : found.1.kind.gather rawOf = [])
    (hmissing : found.1.problems.filter Problem.isMissingClose = []) : CutsRaw text found := by
  refine ⟨?_, ?_, ?_, ?_⟩ <;> simp [h, hmissing]

theorem rawElement_cuts {start : Cursor} {opening : List Char} (hstart : start.OnTail text)
    (hopens : OpensAs tag start c) (htakes : start.Takes opening c)
    (hspan : tag.span.start = start.position) (hraw : isRaw tag.name = true)
    (hself : tag.selfClosing = false) (hclosed : tag.unclosed = false) :
    CutsRaw text (rawElement tag c) := by
  have hname : IsName tag.name.toList = true := by
    obtain ⟨afterName, hname, -⟩ := hopens
    exact (name?_isName hname).1
  obtain ⟨hfirst, hends⟩ := rawText_ends ('<' :: '/' :: tag.name.toList) c.rest
  have hbody := c.takes_drop (rawText ('<' :: '/' :: tag.name.toList) c.rest).length
  rw [← rawText_eq_take] at hbody
  have hstop : (c.drop (rawText ('<' :: '/' :: tag.name.toList) c.rest).length).rest =
      c.rest.drop (rawText ('<' :: '/' :: tag.name.toList) c.rest).length := rfl
  unfold rawElement
  simp only
  rw [← hstop] at hfirst hends
  generalize rawText ('<' :: '/' :: tag.name.toList) c.rest = body at hfirst hends hbody ⊢
  generalize c.drop body.length = stop at hfirst hends hbody ⊢
  have helement (unclosed : Bool) (last : Position)
      (hends : EndsRaw tag.name unclosed body stop.rest) :
      Element.CutFrom text ⟨{ tag with unclosed := unclosed, span := ⟨tag.span.start, last⟩ },
        [.leaf (rawLeaf tag.name (String.ofList body)) (c.spanTo stop)]⟩ := by
    obtain ⟨before, htext, hposition⟩ := hstart
    have hstartAt : start =
        ⟨opening ++ (body ++ stop.rest), Position.first.after before⟩ := by
      rw [← hbody.1, ← htakes.1, ← hposition]
    have hbodyAt : c = ⟨body ++ stop.rest, (Position.first.after before).after opening⟩ := by
      rw [← hbody.1, ← hposition, ← htakes.2]
    refine ⟨before, opening, body, stop.rest, ?_, hspan.trans hposition, ?_, ?_, hends⟩
    · rw [htext, htakes.1, hbody.1]
    · rw [hstartAt, hbodyAt] at hopens
      exact hopens
    · rw [Cursor.spanTo, hbody.2, htakes.2, hposition]
  have hgather (unclosed : Bool) (span : Span) (child : Leaf) (childSpan : Span) :
      (PieceKind.whole (.element { tag with unclosed := unclosed, span := span }
        [.leaf child childSpan])).gather rawOf =
      [⟨{ tag with unclosed := unclosed, span := span }, [.leaf child childSpan]⟩] := by
    simp [PieceKind.gather, Node.gather, gatherAll, rawOf, hraw, hself]
  have hnever : ∀ part, part <:+ body → part ≠ [] → ¬ClosesRaw tag.name (part ++ stop.rest) := by
    intro part hpart hne
    rw [← beginsIgnoringCase_closing hname, hfirst part hpart hne]
    exact Bool.false_ne_true
  split
  · rename_i hempty
    rw [List.isEmpty_iff] at hempty
    have hcut := helement true stop.position ⟨hnever, fun h => (by cases h), fun _ => hempty⟩
    refine ⟨?_, ?_, ?_, ?_⟩ <;> rw [hgather]
    · exact List.forall_mem_singleton.2 hcut
    · exact fun _ _ _ => hempty
    · exact Nat.le_refl 1
    · rfl
  · rename_i hmore
    have hbegins := (beginsIgnoringCase_closing hname).1
      (hends.resolve_left fun hempty => hmore (List.isEmpty_iff.2 hempty))
    have hcut := helement tag.unclosed
      (closeTagEnd (stop.drop ('<' :: '/' :: tag.name.toList).length)).1.position
      ⟨hnever, fun _ => hbegins, fun h => (by cases hclosed.symm.trans h)⟩
    refine ⟨?_, ?_, ?_, ?_⟩ <;> rw [hgather]
    · exact List.forall_mem_singleton.2 hcut
    · intro e he hunclosed
      obtain rfl := List.mem_singleton.1 he
      cases hclosed.symm.trans hunclosed
    · exact Nat.le_refl 1
    · rw [List.filter_cons_of_neg (by simp [hclosed])]
      exact strayProblems_missing _ _

theorem openTag?_cuts (hc : c.OnTail text) (hangle : c.startsWith ['<'] = true)
    {found : Piece × Cursor} (h : openTag? true c = some found) : CutsRaw text found := by
  have hopen := Cursor.takes_word hangle
  unfold openTag? at h
  split at h
  · cases h
  · rename_i name afterName hname
    have hrest := tagRest_reaches ((skipBlanks afterName).rest.length + 1) (skipBlanks afterName)
    have hmissing := tagRest_missing ((skipBlanks afterName).rest.length + 1) (skipBlanks afterName)
    have hopens (selfClosing unclosed : Bool) (span : Span)
        (hself : (tagRest ((skipBlanks afterName).rest.length + 1)
          (skipBlanks afterName)).ending ≠ .selfClosed) :
        OpensAs ⟨name, (tagRest ((skipBlanks afterName).rest.length + 1)
            (skipBlanks afterName)).attributes, selfClosing, unclosed, span⟩ c
          (tagRest ((skipBlanks afterName).rest.length + 1) (skipBlanks afterName)).cursor :=
      ⟨afterName, hname, rfl, hself, rfl⟩
    simp only [Bool.true_and] at h
    generalize tagRest ((skipBlanks afterName).rest.length + 1) (skipBlanks afterName) = rest
      at h hrest hmissing hopens
    have hproblems : (rest.problems ++ if rest.ending = TagEnd.missing then
        [Problem.mk (.unterminatedTag name) c.position] else []).filter Problem.isMissingClose =
        [] := by
      rw [List.filter_append, hmissing]
      split <;> rfl
    obtain ⟨others, hothers⟩ := Reaches.trans (reaches_skip afterName isBlank) hrest
    split at h
    · rename_i hchildless
      cases h
      refine cutsRaw_of_none ?_ hproblems
      rw [Bool.or_eq_true] at hchildless
      have hnot : (isRaw name && !(rest.ending == .selfClosed)) = false := by
        rw [Bool.and_eq_false_iff]
        refine hchildless.symm.imp (fun hvoid => ?_) fun hself => by rw [hself]; rfl
        rw [← Bool.not_eq_true]
        intro hraw
        rw [isVoid_of_isRaw hraw] at hvoid
        cases hvoid
      simp [PieceKind.gather, Node.gather, gatherAll, rawOf, hnot]
    · rename_i hbody
      rw [Bool.or_eq_true, not_or, Bool.not_eq_true] at hbody
      split at h
      · rename_i hraw
        cases h
        have hself : rest.ending ≠ .selfClosed := by simpa using hbody.1
        have hcuts := @rawElement_cuts text rest.cursor
          ⟨name, rest.attributes, rest.ending == .selfClosed, false, c.spanTo rest.cursor⟩ c _ hc
          (hopens _ _ _ hself) ((hopen.trans (name?_takes hname)).trans hothers) rfl hraw hbody.1 rfl
        refine ⟨hcuts.cut, hcuts.last, hcuts.few, ?_⟩
        rw [List.filter_append, hproblems]
        exact hcuts.missing
      · rename_i hraw
        cases h
        refine cutsRaw_of_none ?_ hproblems
        have hnot : isRaw name = false := Bool.not_eq_true _ ▸ hraw
        simp [PieceKind.gather, rawOf, hnot]

theorem delimited_missing (content : String → Leaf) (opening : Nat) (closing : List Char)
    {fault : Fault} (h : Problem.isMissingClose ⟨fault, c.position⟩ = false) :
    (delimited content opening closing fault c).1.problems.filter Problem.isMissingClose = [] := by
  unfold delimited
  simp only
  split
  · simp [h]
  · rfl

theorem piece?_cuts (hc : c.OnTail text) {found : Piece × Cursor} (h : piece? true c = some found) :
    CutsRaw text found := by
  cases piece?_at h with
  | closeTag _ hread =>
    unfold closeTag? at hread
    split at hread
    · cases hread
    · cases hread
      exact cutsRaw_of_none rfl (strayProblems_missing _ _)
  | comment _ hread | cdata _ hread | declaration _ _ _ hread =>
    cases hread
    exact cutsRaw_of_none rfl (delimited_missing _ _ _ rfl)
  | openTag hangle hread => exact openTag?_cuts hc hangle hread
  | reference _ hread =>
    obtain ⟨piece, stop⟩ := found
    obtain ⟨content, rfl, -⟩ := reference?_cases hread
    exact cutsRaw_of_none rfl rfl

/-! ### All pieces of a source -/

theorem textPiece_raws (start : Position) (run : List Char) (stop : Position) :
    (textPiece start run stop).flatMap (·.kind.gather rawOf) = [] ∧
      (textPiece start run stop).flatMap (·.problems) = [] := by
  unfold textPiece
  split
  · exact ⟨rfl, rfl⟩
  · exact ⟨rfl, rfl⟩

theorem piecesFrom_raws (hc : c.OnTail text) (fuel : Nat) (start : Position) (run : List Char) :
    let read := piecesFrom true fuel start run c
    let raws := read.flatMap (·.kind.gather rawOf)
    (∀ e ∈ raws, e.CutFrom text) ∧
      (read.flatMap (·.problems)).filter Problem.isMissingClose =
        (raws.filter (·.tag.unclosed)).map Element.missing ∧
      (raws.filter (·.tag.unclosed)).length ≤ 1 := by
  have htext (start : Position) (run : List Char) (stop : Position) :
      let raws := (textPiece start run stop).flatMap (·.kind.gather rawOf)
      (∀ e ∈ raws, e.CutFrom text) ∧
        ((textPiece start run stop).flatMap (·.problems)).filter Problem.isMissingClose =
          (raws.filter (·.tag.unclosed)).map Element.missing ∧
        (raws.filter (·.tag.unclosed)).length ≤ 1 := by
    obtain ⟨hraws, hproblems⟩ := textPiece_raws start run stop
    simp [hraws, hproblems]
  induction fuel generalizing c start run with
  | zero => exact htext _ _ _
  | succ fuel ih =>
    unfold piecesFrom
    split
    · exact htext _ _ _
    · split
      · rename_i piece next hfound
        have hcuts := piece?_cuts hc hfound
        obtain ⟨hcut, hmissing, hfew⟩ := ih ((piece?_spelled hc hfound).2.2.onTail hc) next.position []
        obtain ⟨hraws, hproblems⟩ := textPiece_raws start run c.position
        simp only [List.flatMap_append, List.flatMap_cons, hraws, hproblems, List.nil_append,
          List.filter_append, List.map_append, hcuts.missing, hmissing]
        refine ⟨List.forall_mem_append.2 ⟨hcuts.cut, hcut⟩, trivial, ?_⟩
        cases hunclosed : (piece.kind.gather rawOf).filter (·.tag.unclosed) with
        | nil => exact hfew
        | cons e others =>
          obtain ⟨he, hopen⟩ := List.mem_filter.1 (hunclosed ▸ List.mem_cons_self (a := e))
          have hlast : next.rest = [] := hcuts.last e he hopen
          have hnone : piecesFrom true fuel next.position [] next = [] := by
            obtain ⟨rest, position⟩ := next
            obtain rfl : rest = [] := hlast
            exact piecesFrom_nil fuel position []
          rw [← hunclosed, hnone, List.flatMap_nil, List.filter_nil, List.append_nil]
          exact Nat.le_trans (List.length_filter_le _ _) hcuts.few
      · exact ih ((reaches_drop c 1).onTail hc) _ _

end

/-! ## The problems of a page -/

namespace Builder

variable {b : Builder}

theorem leave_missing (b : Builder) (unclosed : Bool) (stop : Position) :
    (b.leave unclosed stop).problems = b.problems := by
  unfold leave
  split <;> rfl

theorem step_missing (html : Bool) (b : Builder) (piece : Piece) :
    (b.step html piece).problems.filter Problem.isMissingClose =
      b.problems.filter Problem.isMissingClose ++ piece.problems.filter Problem.isMissingClose := by
  have hreport (b : Builder) {fault : Fault} {position : Position}
      (h : Problem.isMissingClose ⟨fault, position⟩ = false) :
      (b.report fault position).problems.filter Problem.isMissingClose =
        b.problems.filter Problem.isMissingClose := by
    simp [report, h]
  unfold step
  simp only
  rw [← List.filter_append]
  split
  · unfold enter
    split
    · split
      · exact hreport _ rfl
      · rfl
    · rfl
  · unfold close
    split
    · rfl
    · split
      · exact hreport _ rfl
      · simp only
        split
        · rw [leave_missing]
        · rw [leave_missing]
          exact hreport _ rfl
  · rfl

theorem foldl_step_missing (html : Bool) (b : Builder) (pieces : List Piece) :
    (pieces.foldl (step html) b).problems.filter Problem.isMissingClose =
      b.problems.filter Problem.isMissingClose ++
        (pieces.flatMap (·.problems)).filter Problem.isMissingClose := by
  induction pieces generalizing b with
  | nil => simp
  | cons piece pieces ih =>
    rw [List.foldl_cons, ih, step_missing, List.flatMap_cons, List.filter_append, List.append_assoc]

end Builder

/-- **Where raw bodies end.** In a page, the body of every script or style element that is not
self-closing begins where its open tag ends, and it ends before the first close tag whose name begins
with the name of the element. If there is none it ends with the source, and only then the element is
unclosed. One close tag is reported as missing for the unclosed element, if there is one, and none
otherwise. -/
theorem raw_bodies_cut (asp : Bool) (source : String) :
    (∀ e ∈ (parse ⟨true, asp⟩ source).root.raws,
        e.CutFrom (Options.prepare ⟨true, asp⟩ source).toList) ∧
      (parse ⟨true, asp⟩ source).problems.filter Problem.isMissingClose =
        ((parse ⟨true, asp⟩ source).root.raws.filter (·.tag.unclosed)).map Element.missing ∧
      ((parse ⟨true, asp⟩ source).root.raws.filter (·.tag.unclosed)).length ≤ 1 := by
  let text := Options.prepare ⟨true, asp⟩ source
  obtain ⟨hcut, hmissing, hfew⟩ :=
    piecesFrom_raws (Cursor.onTail_ofString text) text.length .first []
  have hraws : (parse ⟨true, asp⟩ source).root.raws =
      (pieces true text).flatMap (·.kind.gather rawOf) := by
    refine parse_gatherAll rawOf ⟨true, asp⟩ source fun piece hpiece tag hkind => ?_
    have hfits := piecesFrom_fits text.length .first [] (.ofString text) piece hpiece
    rw [hkind] at hfits
    cases hfits with
    | opening _ hplain =>
      intro unclosed span children
      simp [rawOf, hplain.raw]
  have hproblems := Builder.foldl_step_missing true .empty (pieces true text)
  refine ⟨fun e he => hcut e (hraws ▸ he), ?_, ?_⟩
  · exact hproblems.trans (hmissing.trans (by rw [← pieces, ← hraws]))
  · rw [← pieces, ← hraws] at hfew
    exact hfew

/-- The name of a close tag is compared with that of a script only as far as the latter goes: a body
ends before a close tag of another name, and what follows it is markup. -/
theorem scripty_ends_script :
    let page := parse {} "<script>a</scripty>b</script>"
    page.root.raws.map (fun e => (e.tag.name, e.tag.unclosed, e.rawBody?.map (·.1))) =
        [("script", false, some "a")] ∧
      (name? ⟨"scripty>b</script>".toList, .first⟩).map (·.1) = some "scripty" ∧
      sameIgnoringCase "scripty" "script" = false ∧
      page.root.children.length = 2 ∧ page.problems.map (·.message) =
        ["Unexpected character in close tag: y",
          "Unexpected close tag </script>[1:21] with no open element"] := by
  decide +kernel

end WidgetLint.Markup
