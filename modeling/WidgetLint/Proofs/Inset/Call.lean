import WidgetLint.Proofs.Inset.Config
import WidgetLint.Proofs.Printing.Reparse

/-!
# Calls that configure components

A script that calls the method of a component with a configuration written option by option is read
as that call (`parseProgram_callText`), unless it nests too deep.
-/

namespace WidgetLint.Script

open Text WidgetLint.Script.Parser

variable {os : List WrittenOption} {shapes : List Shape}

/-! ## Objects -/

/-- The object that options make, without places. -/
def configObject (os : List WrittenOption) : Expr :=
  .object nowhere (os.map WrittenOption.member)

/-- The tokens of an object, given those after its opening brace. -/
def objectTokens (shapes : List Shape) : List Printed :=
  .symbol .joined .lbrace :: printedShapes shapes

theorem ConfigTokens.primary_gives (h : ConfigTokens os shapes) (d b : Nat) (rest : List Printed) :
    Gives (primary (level d b)) (objectTokens shapes ++ rest) (configObject os) rest := by
  have hobject : Gives (objectUpTo (level d b) (objectTokens shapes ++ rest).length)
      (objectTokens shapes ++ rest) (configObject os) rest := by
    obtain ⟨space, hmembers⟩ := h.reads d b
      (bindingTargetWith (level d b) (objectUpTo (level d b) (printedShapes shapes ++ rest).length))
      rest
    have hlist := hmembers.gives (by decide)
    have hbracketed : Gives (bracketed .lbrace .rbrace (memberWith (level d b) _))
        (objectTokens shapes ++ rest) (os.map WrittenOption.member) rest :=
      (expect_gives _ _).bind (hlist.bind ((expect_gives _ _).bind (Leads.refl _ _)))
    exact here_gives.bind (hbracketed.bind ((spanFrom_gives _).bind (Leads.refl _ _)))
  exact peek_gives.bind (Leads.trans (.inl (object_run _ _)) hobject)

theorem ConfigTokens.assignment (h : ConfigTokens os shapes) (d b : Nat) {rest : List Printed}
    (hrest : Stops false .assignment rest) :
    Gives ((level d b).assignment false) (objectTokens shapes ++ rest) (configObject os) rest := by
  have hchain : ReadsChain .closed (objectTokens shapes) (configObject os) :=
    .ofPrimary (fun _ => rfl) fun d b rest _ => h.primary_gives d b rest
  have hcalm : Calm (objectTokens shapes) := fun _ _ =>
    ⟨arrowAhead_symbol (by decide) _, asyncArrowAhead_cons nofun⟩
  have hreads : Reads .closed (objectTokens shapes) (configObject os) :=
    .ofChain hchain (by decide) rfl rfl (fun _ => ⟨rfl, rfl⟩) hcalm
  exact hreads.assignment (by decide) false d b rest nofun hrest

/-! ## Calls -/

def methodName (component : String) : String :=
  "kendo" ++ component

/-- The call that creates and configures a component, without places. -/
def configCall (component : String) (os : List WrittenOption) : Expr :=
  .call nowhere (.dot nowhere (.ident nowhere "x") false (methodName component) nowhere) false
    [configObject os]

/-- The tokens of the call, given those after the opening brace of its object. -/
def callTokens (component : String) (shapes : List Shape) : List Printed :=
  [.name .joined "x", .symbol .joined .dot, .name .joined (methodName component)] ++
    .symbol .joined .lparen :: (objectTokens shapes ++ [.symbol .joined .rparen])

theorem ident_gives (d b : Nat) {rest : List Printed} (hrest : (ahead rest).isWord "function" = false) :
    Gives (primary (level d b)) (.name .joined "x" :: rest) (.ident nowhere "x") rest := by
  have hbody : (Printed.name .joined "x").token.body = .word "x" := by decide
  refine peek_gives.bind ?_
  rw [ahead_cons, hbody]
  refine here_gives.bind ?_
  rw [if_neg (by decide), if_neg (by decide)]
  refine (asyncFunctionAhead_gives _ hrest).bind ?_
  rw [if_neg (by simp), if_neg (by decide)]
  exact atom_gives _ _

theorem ConfigTokens.arguments_gives (h : ConfigTokens os shapes) (d b : Nat) (rest : List Printed) :
    Gives (arguments (level d b))
      (.symbol .joined .lparen :: (objectTokens shapes ++ .symbol .joined .rparen :: rest))
      [configObject os] rest := by
  have hstops : Stops false .assignment (.symbol .joined .rparen :: rest) :=
    (stops_close (by decide)).mono (by decide)
  have hspread : Gives (spreadOrAssignment (level d b))
      (objectTokens shapes ++ .symbol .joined .rparen :: rest) (configObject os)
      (.symbol .joined .rparen :: rest) := by
    refine here_gives.bind ((eat_passes rfl).bind ?_)
    rw [if_neg Bool.false_ne_true]
    exact h.assignment d b hstops
  have hlist : ListReads .rparen (spreadOrAssignment (level d b))
      (objectTokens shapes ++ .symbol .joined .rparen :: rest) [configObject os]
      (.symbol .joined .rparen :: rest) :=
    .last rfl hspread (by simp only [objectTokens, List.length_append, List.length_cons]; omega)
  exact (expect_gives _ _).bind ((hlist.gives (by decide)).bind ((expect_gives _ _).bind
    (Leads.refl _ _)))

def methodCall : Profile :=
  ⟨.call, true, .postfixed, fun links => links.contains .dot && links.contains .lparen⟩

theorem ConfigTokens.reads_call (h : ConfigTokens os shapes) (component : String) :
    Reads methodCall (callTokens component shapes) (configCall component os) := by
  let access : Profile := ⟨.call, true, .postfixed, fun links => links.contains .dot⟩
  have hident : ReadsChain .closed [Printed.name .joined "x"] (.ident nowhere "x") :=
    .ofPrimary (fun _ => rfl) fun d b rest hrest => ident_gives d b hrest
  have hdot : ReadsChain access ([Printed.name .joined "x"] ++
      .symbol .joined .dot :: [.name .joined (methodName component)])
      (.dot nowhere (.ident nowhere "x") false (methodName component) nowhere) := by
    refine hident.link (fun _ hlinks => ⟨rfl, hlinks⟩) (by decide) fun _ d b rest _ => ?_
    exact (advance_gives _).bind ((memberName_gives _ _).bind ((spanFrom_gives _).bind
      (Leads.refl _ _)))
  have hcall : ReadsChain methodCall (callTokens component shapes) (configCall component os) := by
    refine hdot.link (fun _ hlinks => Bool.and_eq_true_iff.1 hlinks) (by decide)
      fun _ d b rest _ => ?_
    rw [List.append_assoc]
    exact (h.arguments_gives d b rest).bind ((spanFrom_gives _).bind (Leads.refl _ _))
  have hname : (Printed.name .joined "x").body = .word "x" := by decide
  have hcalm : Calm (callTokens component shapes) :=
    calm_cons (by rw [hname]; simp) (by rw [hname]; simp) fun _ _ => noArrow_cons (by simp)
  have hoperator : NoOperator (Printed.name .joined "x").token := ⟨by decide, by decide⟩
  exact .ofChain hcall (by decide) (by decide) rfl (fun _ => hoperator) hcalm

/-! ## Scripts -/

def configScript (component : String) (os : List WrittenOption) : List Stmt :=
  [.expression nowhere (configCall component os)]

theorem ConfigTokens.statements_gives (h : ConfigTokens os shapes) (component : String) :
    Gives statements (callTokens component shapes) (configScript component os) [] := by
  have hend : Gives endStatement [] () [] :=
    (eat_passes rfl).bind (Leads.refl _ _)
  have hstatement (d b : Nat) : Gives (expressionStatement (level d b)) (callTokens component shapes)
      (fun span => .expression span (configCall component os)) [] := by
    have hread := (h.reads_call component).sequence false d b [] nofun stops_nil
    rw [List.append_nil] at hread
    exact hread.bind (hend.bind (Leads.refl _ _))
  have htop := statement_word (fun span => .expression span (configCall component os))
    (by decide : (Printed.name .joined "x").body = .word "x")
    (fun d b => wordStatement_gives (by decide) (by decide) rfl rfl nofun (hstatement d b))
  refine many_gives (.more (nextStatement_gives (by decide) (htop _ _)) ?_ (.done ?_))
  · exact Nat.zero_lt_succ _
  · exact atEnd_gives.bind (Leads.refl _ _)

/-! ## Texts -/

def WrittenOption.written (o : WrittenOption) : String :=
  o.name ++ ":\n" ++ o.value ++ "\n"

/-- A script that configures a component with the given options. -/
def callText (component : String) (os : List WrittenOption) : String :=
  "x." ++ methodName component ++ "(\x7b" ++ String.intercalate "," (os.map WrittenOption.written) ++
    "\x7d)"

theorem toList_callText (component : String) (os : List WrittenOption) :
    (callText component os).toList = "x".toList ++ '.' :: ((methodName component).toList ++
      '(' :: '\x7b' :: (configChars os ++ ['\x7d', ')'])) := by
  have hwritten : (os.map WrittenOption.written).map String.toList = os.map WrittenOption.chars := by
    rw [List.map_map]
    refine List.map_congr_left fun o _ => ?_
    simp [WrittenOption.written, WrittenOption.chars]
  simp [callText, configChars, hwritten]

theorem shapes_callTokens (component : String) (shapes : List Shape) :
    (asTokens (callTokens component shapes)).map Token.shape =
      [⟨wordBody "x" "x".toList, false⟩] ++ ([⟨.symbol .dot, false⟩] ++
        ([⟨wordBody (methodName component) (methodName component).toList, false⟩] ++
          ([⟨.symbol .lparen, false⟩] ++ ([⟨.symbol .lbrace, false⟩] ++
            (shapes ++ [⟨.symbol .rparen, false⟩]))))) := by
  rw [callTokens, objectTokens]
  simp only [asTokens_append, asTokens_cons, List.map_append, List.map_cons, map_shape_printed]
  rfl

theorem ConfigTokens.tokenize_callText (h : ConfigTokens os shapes) {component : String}
    (hname : isWordText (methodName component) = true) :
    ∃ tokens, tokenize (callText component os) .first = .ok tokens ∧
      tokens.shapes = (Tokens.mk (asTokens (callTokens component shapes)) endToken).shapes := by
  have hstart : (Lexer.start (callText component os) .first).Before
      ("x".toList ++ '.' :: ((methodName component).toList ++
        '(' :: '\x7b' :: (configChars os ++ ['\x7d', ')']))) false :=
    ⟨toList_callText component os, rfl, rfl⟩
  obtain ⟨_, hx, hl⟩ := hstart.cuts_word (by simp [isWordText, isWordStart_ascii])
    (by simp [isWordPart_ascii]) (by decide)
  obtain ⟨_, hdot, hl, -⟩ := Lexer.Before.cuts_symbol (s := .dot) hl
    (by simp [methodName]; decide) fun _ => rfl
  obtain ⟨_, hmethod, hl⟩ := hl.cuts_word hname (by simp [isWordPart_ascii]) (by decide)
  obtain ⟨_, hparen, hl, -⟩ := Lexer.Before.cuts_symbol (s := .lparen) hl
    (by rintro c ⟨⟩; decide) fun _ => rfl
  obtain ⟨_, hbrace, hl, -⟩ := Lexer.Before.cuts_symbol (s := .lbrace) hl
    (fun _ _ => stopsAt_lone (.inr rfl) _) fun _ => rfl
  obtain ⟨_, hconfig, hl⟩ := h.cuts (by decide) hl
  obtain ⟨last, hclose, hl, -⟩ := Lexer.Before.cuts_symbol (s := .rparen) hl (by rintro c ⟨⟩)
    fun _ => rfl
  have hcuts := hx.append (hdot.append (hmethod.append (hparen.append (hbrace.append
    (hconfig.append hclose)))))
  obtain ⟨next, hnext⟩ := Lexer.next_end hl.rest
  have hlast (fuel : Nat) : last.tokensFrom (fuel + 1) =
      .ok ⟨[], ⟨.eof, "", ⟨last.cursor.position, last.cursor.position⟩, false⟩⟩ := by
    rw [Lexer.tokensFrom, hnext, hl.newline]
    rfl
  rw [← shapes_callTokens] at hcuts
  have hfuel : ((asTokens (callTokens component shapes)).map Token.shape).length ≤
      (callText component os).length := by
    have hlength := h.length
    rw [← String.length_toList, toList_callText]
    simp only [callTokens, objectTokens, printedShapes, asTokens, methodName, List.length_map,
      List.length_append, List.length_cons, List.length_nil, String.toList_append]
    simp
    omega
  obtain ⟨fuel, hfuel⟩ := Nat.exists_eq_add_of_le hfuel
  obtain ⟨tokens, hrun, htokens⟩ := hcuts.tokensFrom (hlast fuel)
  refine ⟨tokens, ?_, ?_⟩
  · rw [tokenize, hfuel]
    exact hrun
  · rw [htokens]
    simp [Tokens.shapes]
    rfl

/-- **A call that configures a component is read as that call**, with what the texts of its options
spell alone, if its script is read at all. -/
theorem parseProgram_callText {component : String} {os : List WrittenOption} {p : Program}
    (hname : isWordText (methodName component) = true)
    (hparse : parseProgram (callText component os) = .ok p) :
    p.body.map (Stmt.move fun _ => .first) = configScript component os := by
  obtain ⟨shapes, h⟩ := exists_configTokens os
  obtain ⟨tokens, htokenize, hshapes⟩ := h.tokenize_callText hname
  rw [parseProgram_eq, htokenize] at hparse
  dsimp only at hparse
  have hsame := statements_alike.sameReading hshapes .first .first
  have hread := h.statements_gives component
  match hrun : statements (inputOf tokens .first) with
  | .error e =>
    rw [hrun] at hparse
    cases hparse
  | .ok (body, j) =>
    rw [hrun] at hparse hsame
    cases hparse
    have hreading : inputOf ⟨asTokens (callTokens component shapes), endToken⟩ .first =
        reading (callTokens component shapes) := rfl
    rw [hreading] at hsame
    rcases hread with hread | hread
    · rw [hread] at hsame
      have hfixed : (configScript component os).map (Stmt.move fun _ => .first) =
          configScript component os :=
        ((statements_alike.run_fixed (reading_move _)).1 _ _ hread).1
      exact Eq.trans hsame hfixed
    · rw [hread] at hsame
      exact hsame.elim

end WidgetLint.Script
