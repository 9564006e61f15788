import WidgetLint.Proofs.Nesting.Bounded
import WidgetLint.Proofs.Script.Walk

/-!
# Patterns that nest for free

An object that is a parameter of a method of an object that is a parameter of a method, and so on,
spends no budget beyond that of the outermost object. So such texts are read however long they are
(`parseExpression_nested`), and **the trees that are read are not bounded**.
-/

namespace WidgetLint.Script

open Text WidgetLint.Script.Parser

/-! ## Texts -/

/-- An object with one method, whose parameter is such an object again, so many times. -/
def nestedChars : Nat → List Char
  | 0 => ['\x7b', '\x7d']
  | n + 1 => ['\x7b', 'a', '(', '.', '.', '.'] ++ nestedChars n ++ [')', '\x7b', '\x7d', '\x7d']

def nestedText (n : Nat) : String :=
  String.ofList (nestedChars n)

def nestedTokens : Nat → List Printed → List Printed
  | 0, us => .symbol .joined .lbrace :: .symbol .joined .rbrace :: us
  | n + 1, us =>
    .symbol .joined .lbrace :: .keyword .joined "a" :: .symbol .joined .lparen ::
      .symbol .joined .ellipsis :: nestedTokens n (.symbol .joined .rparen ::
        .symbol .joined .lbrace :: .symbol .joined .rbrace :: .symbol .joined .rbrace :: us)

def nestedTree : Nat → Expr
  | 0 => .object nowhere []
  | n + 1 => .object nowhere [.named nowhere .method (.ident "a")
      (.function nowhere none [.spread nowhere (nestedTree n)] [])]

theorem written_nestedTokens (n : Nat) (us : List Printed) :
    written (nestedTokens n us) = nestedChars n ++ written us := by
  induction n generalizing us with
  | zero => rfl
  | succ n ih =>
    simp only [nestedTokens, nestedChars, written, List.flatMap_cons] at ih ⊢
    rw [ih]
    simp [Printed.chars, Printed.symbol, Printed.keyword, TokenBody.spelling, Symbol.text,
      Spacing.chars, List.flatMap_cons]

/-- The kinds of tokens of nested patterns. -/
def nestedKinds : List Printed :=
  .keyword .joined "a" ::
    [Symbol.lbrace, .rbrace, .lparen, .rparen, .ellipsis].map (.symbol .joined)

theorem nestedTokens_eq_cons (n : Nat) (us : List Printed) :
    ∃ tail, nestedTokens n us = .symbol .joined .lbrace :: tail := by
  cases n <;> exact ⟨_, rfl⟩

theorem mem_nestedTokens {n : Nat} {us : List Printed} (h : ∀ t ∈ us, t ∈ nestedKinds) :
    ∀ t ∈ nestedTokens n us, t ∈ nestedKinds := by
  induction n generalizing us with
  | zero => simpa [nestedTokens, nestedKinds] using h
  | succ n ih =>
    simp only [nestedTokens, List.forall_mem_cons]
    refine ⟨by decide, by decide, by decide, by decide, ih ?_⟩
    simp only [List.forall_mem_cons]
    exact ⟨by decide, by decide, by decide, by decide, h⟩

theorem nestedTokens_isChain {R : Printed → Printed → Prop}
    (hsymbol : ∀ s ∈ aloneSymbols, ∀ q ∈ nestedKinds, R (.symbol .joined s) q)
    (hname : R (.keyword .joined "a") (.symbol .joined .lparen)) (n : Nat) {us : List Printed}
    (h : (Printed.symbol .joined .rbrace :: us).IsChain R) : (nestedTokens n us).IsChain R := by
  induction n generalizing us with
  | zero => exact .cons_cons (hsymbol _ (by decide) _ (by decide)) h
  | succ n ih =>
    rw [nestedTokens]
    obtain ⟨tail, htail⟩ := nestedTokens_eq_cons n (.symbol .joined .rparen ::
      .symbol .joined .lbrace :: .symbol .joined .rbrace :: .symbol .joined .rbrace :: us)
    have hclosing : (Printed.symbol .joined .rbrace :: .symbol .joined .rparen ::
        .symbol .joined .lbrace :: .symbol .joined .rbrace :: .symbol .joined .rbrace ::
          us).IsChain R := by
      iterate 3 refine .cons_cons (hsymbol _ (by decide) _ (by decide)) ?_
      exact .cons_cons (hsymbol _ (by decide) _ (by decide)) h
    have hinner := ih hclosing
    rw [htail] at hinner ⊢
    refine .cons_cons (hsymbol _ (by decide) _ (by decide)) (.cons_cons hname ?_)
    refine .cons_cons (hsymbol _ (by decide) _ (by decide)) ?_
    exact .cons_cons (hsymbol _ (by decide) _ (by decide)) hinner

theorem nestedTokens_readable (n : Nat) : Readable (nestedTokens n []) := by
  have hkinds : ∀ t ∈ nestedTokens n [], t ∈ nestedKinds := mem_nestedTokens nofun
  have hslash : ∀ t ∈ nestedKinds, ∀ b, t.body.fitsSlash b = true := by
    simp [nestedKinds, Printed.symbol, Printed.keyword, TokenBody.fitsSlash]
  refine ⟨fun t ht => ?_, ?_, fun t ht => ?_, ?_⟩
  · have hplain : ∀ t ∈ nestedKinds, t.body.Plain := by
      simp only [nestedKinds, List.map_cons, List.map_nil, List.forall_mem_cons]
      have hword : isWordText "a" = true := by
        simp [isWordText, isWordStart_ascii]
      refine ⟨⟨hword, by decide⟩, ?_⟩
      exact ⟨True.intro, True.intro, True.intro, True.intro, True.intro, nofun⟩
    exact hplain t (hkinds t ht)
  · refine nestedTokens_isChain (fun s hs _ _ => apart_of_alone hs rfl) ?_ n (.singleton _)
    have hends : (TokenBody.word "a").endsOperand false = true := rfl
    exact apart_of_joins hends rfl
  · exact hslash t (hkinds t (List.mem_of_mem_head? ht)) true
  · refine nestedTokens_isChain (fun s _ q hq => hslash q hq _) ?_ n (.singleton _)
    exact hslash _ (by decide) _

theorem exists_visit_nestedTree (n d : Nat) :
    ∃ v ∈ (nestedTree n).visit d ((nestedTree n).inside (d + 1)), v.depth = d + 3 * n := by
  induction n generalizing d with
  | zero => exact ⟨_, List.mem_cons_self, rfl⟩
  | succ n ih =>
    obtain ⟨v, hv, hdepth⟩ := ih (d + 3)
    refine ⟨v, ?_, by omega⟩
    simp only [nestedTree, Expr.inside, visitMembers, Member.inside, Key.inside, visitAll,
      visitBody, List.nil_append, List.append_nil]
    exact List.mem_cons_of_mem _ (List.mem_cons_of_mem _ (List.mem_cons_of_mem _ hv))

/-! ## Runs -/

section
variable {α β : Type} {p : Parser α} {k : α → Parser β} {i j : Input} {a : α}

theorem run_bind (h : p i = .ok (a, j)) : (p >>= k) i = k a j := by
  show (p i).bind (fun x => k x.1 x.2) = k a j
  rw [h]
  rfl

variable {close : Symbol} {ts us : List Printed}

theorem check_run {b : Bool} (h : (ahead ts).isSymbol close = b) :
    (check close : Parser Bool) (reading ts) = .ok (b, reading ts) := by
  subst h
  rfl

theorem expect_run (s : Symbol) (ts : List Printed) :
    (expect s : Parser Unit) (reading (.symbol .joined s :: ts)) = .ok ((), reading ts) := by
  have hthere : (check s : Parser Bool) (reading (.symbol .joined s :: ts)) =
      .ok (true, reading (.symbol .joined s :: ts)) := check_run (beq_self_eq_true _)
  have heat : (eat s : Parser Bool) (reading (.symbol .joined s :: ts)) =
      .ok (true, reading ts) :=
    run_bind hthere
  exact run_bind heat

theorem manyUpTo_more_run {item : Parser (Option α)} {fuel : Nat} {as : List α} {l : Input}
    (hitem : item i = .ok (some a, j)) (hrest : manyUpTo item fuel j = .ok (as, l)) :
    manyUpTo item (fuel + 1) i = .ok (a :: as, l) :=
  (run_bind hitem).trans (run_bind hrest)

theorem manyUpTo_done_run {item : Parser (Option α)} {fuel : Nat}
    (hitem : item i = .ok (none, j)) : manyUpTo item (fuel + 1) i = .ok ([], j) :=
  run_bind hitem

theorem bracketed_one_run (opening close : Symbol) {t : Printed}
    (hopen : (t.body == .symbol close) = false)
    (hitem : p (reading (t :: ts)) = .ok (a, reading (.symbol .joined close :: us))) :
    bracketed opening close p (reading (.symbol .joined opening :: t :: ts)) =
      .ok ([a], reading us) := by
  have hclose : (check close : Parser Bool) (reading (.symbol .joined close :: us)) =
      .ok (true, reading (.symbol .joined close :: us)) := check_run (beq_self_eq_true _)
  have hlist : commaList close p (reading (t :: ts)) =
      .ok ([a], reading (.symbol .joined close :: us)) := by
    have hcheck : (check close : Parser Bool) (reading (t :: ts)) =
        .ok (false, reading (t :: ts)) :=
      check_run hopen
    show (manyUpTo _ ((asTokens ts).length + 1 + 1) : Parser _) _ = _
    refine manyUpTo_more_run ?_ (manyUpTo_done_run (run_bind hclose))
    exact (run_bind hcheck).trans ((run_bind hitem).trans (run_bind hclose))
  refine (run_bind (expect_run opening _)).trans ((run_bind hlist).trans ?_)
  exact run_bind (expect_run close us)

end

section
variable (sub : Level) {target : Parser Expr} {e : Expr} {t : Printed} {ts us : List Printed}

theorem methodValue_spread_run (htarget : target (reading ts) = .ok (e, reading
      (.symbol .joined .rparen :: .symbol .joined .lbrace :: .symbol .joined .rbrace :: us))) :
    methodValue sub target (reading (.symbol .joined .lparen :: .symbol .joined .ellipsis :: ts)) =
      .ok (.function nowhere none [.spread nowhere e] [], reading us) := by
  have hparam : param sub target (reading (.symbol .joined .ellipsis :: ts)) =
      .ok (.spread nowhere e, reading (.symbol .joined .rparen :: .symbol .joined .lbrace ::
        .symbol .joined .rbrace :: us)) := by
    show (target >>= fun name => spanFrom .first >>= fun s => pure (Expr.spread s name)) _ = _
    exact run_bind htarget
  show (paramsWith sub target >>= fun params => block sub >>= fun body => spanFrom .first >>=
    fun s => pure (Expr.function s none params body)) _ = _
  exact run_bind (bracketed_one_run .lparen .rparen rfl hparam)

theorem objectUpTo_nested_run (n : Nat) {fuel : Nat} (h : n < fuel) (us : List Printed) :
    objectUpTo sub fuel (reading (nestedTokens n us)) = .ok (nestedTree n, reading us) := by
  induction n generalizing fuel us with
  | zero =>
    obtain ⟨fuel, rfl⟩ := Nat.exists_eq_succ_of_ne_zero (Nat.ne_of_gt h)
    rfl
  | succ n ih =>
    obtain ⟨fuel, rfl⟩ := Nat.exists_eq_succ_of_ne_zero (Nat.ne_of_gt (Nat.zero_lt_of_lt h))
    set rest := Printed.symbol .joined .rparen :: .symbol .joined .lbrace ::
      .symbol .joined .rbrace :: .symbol .joined .rbrace :: us with hrest
    have htarget : bindingTargetWith sub (objectUpTo sub fuel) (reading (nestedTokens n rest)) =
        .ok (nestedTree n, reading rest) := by
      have hinner := ih (Nat.lt_of_succ_lt_succ h) rest
      obtain ⟨tail, htail⟩ := nestedTokens_eq_cons n rest
      rw [htail] at hinner ⊢
      exact hinner
    set value := Expr.function nowhere none [.spread nowhere (nestedTree n)] []
    have hvalue : memberValue sub (bindingTargetWith sub (objectUpTo sub fuel)) .first false
        (Printed.keyword .joined "a").token (reading (.symbol .joined .lparen ::
          .symbol .joined .ellipsis :: nestedTokens n rest)) =
        .ok ((.method, value), reading (.symbol .joined .rbrace :: us)) := by
      show (methodValue sub (bindingTargetWith sub (objectUpTo sub fuel)) >>= fun value =>
        pure (MemberKind.method, value)) _ = _
      exact run_bind (methodValue_spread_run sub htarget)
    have hmember : memberWith sub (bindingTargetWith sub (objectUpTo sub fuel)) (reading
        (.keyword .joined "a" :: .symbol .joined .lparen :: .symbol .joined .ellipsis ::
          nestedTokens n rest)) =
        .ok (.named nowhere .method (.ident "a") value,
          reading (.symbol .joined .rbrace :: us)) := by
      show (memberValue sub (bindingTargetWith sub (objectUpTo sub fuel)) .first false
        (Printed.keyword .joined "a").token >>= fun found => spanFrom .first >>= fun s =>
          pure (Member.named s found.1 (.ident "a") found.2)) (reading (.symbol .joined .lparen ::
            .symbol .joined .ellipsis :: nestedTokens n rest)) = _
      exact run_bind hvalue
    show (bracketed .lbrace .rbrace (memberWith sub (bindingTargetWith sub (objectUpTo sub fuel)))
      >>= fun members => spanFrom .first >>= fun s => pure (Expr.object s members)) _ = _
    exact run_bind (bracketed_one_run .lbrace .rbrace rfl hmember)

theorem length_nestedTokens (n : Nat) (us : List Printed) :
    n < (nestedTokens n us).length := by
  induction n generalizing us with
  | zero => exact Nat.zero_lt_succ _
  | succ n ih =>
    have := ih (.symbol .joined .rparen :: .symbol .joined .lbrace :: .symbol .joined .rbrace ::
      .symbol .joined .rbrace :: us)
    simp only [nestedTokens, List.length_cons]
    omega

theorem object_nested_run (n : Nat) :
    object sub (reading (nestedTokens n [])) = .ok (nestedTree n, reading []) := by
  refine objectUpTo_nested_run sub n ?_ []
  show n < (asTokens (nestedTokens n [])).length
  rw [asTokens, List.length_map]
  exact length_nestedTokens n []

end

theorem callMember_nested_run (lower : Nat → Level) (budget n : Nat) :
    callMember lower budget (reading (nestedTokens n [])) = .ok (nestedTree n, reading []) := by
  have hobject := object_nested_run (lower budget) n
  obtain ⟨tail, htail⟩ := nestedTokens_eq_cons n []
  rw [htail] at hobject ⊢
  show (object (lower budget) >>= fun first =>
    iterate (chainStep lower .first [.dot, .questionDot, .lbracket, .lparen]) (budget, first) >>=
      fun state => pure state.2) _ = _
  exact run_bind hobject

theorem unary_nested_run (descents budget n : Nat) (h : nestCost ≤ budget) :
    (level (descents + 1) budget).unary (reading (nestedTokens n [])) =
      .ok (nestedTree n, reading []) := by
  have hcall := callMember_nested_run (level descents) (budget - nestCost) n
  obtain ⟨tail, htail⟩ := nestedTokens_eq_cons n []
  rw [htail] at hcall ⊢
  rw [level, if_neg (Nat.not_lt.2 h)]
  show postfixed (level descents) (budget - nestCost) _ = _
  unfold postfixed
  exact (run_bind rfl).trans ((run_bind hcall).trans rfl)

theorem binary_nested_run (descents budget n : Nat) (noIn : Bool) (least : Nat)
    (h : 2 * nestCost ≤ budget) :
    (level (descents + 2) budget).binary noIn least (reading (nestedTokens n [])) =
      .ok (nestedTree n, reading []) := by
  have hunary := unary_nested_run descents (budget - nestCost) n (by omega)
  rw [level, if_neg (by omega)]
  show ((level (descents + 1) (budget - nestCost)).unary >>= fun left =>
    iterate (binaryStep (level (descents + 1)) noIn least _) (budget - nestCost, left)) _ = _
  exact run_bind hunary

theorem assignment_nested_run (descents budget n : Nat) (noIn : Bool)
    (h : 3 * nestCost ≤ budget) :
    (level (descents + 3) budget).assignment noIn (reading (nestedTokens n [])) =
      .ok (nestedTree n, reading []) := by
  have hbinary := binary_nested_run descents (budget - nestCost) n noIn 0 (by omega)
  obtain ⟨tail, htail⟩ := nestedTokens_eq_cons n []
  rw [htail] at hbinary ⊢
  rw [level, if_neg (by omega)]
  have hconditional : conditional (level (descents + 2) (budget - nestCost)) noIn
      (reading (.symbol .joined .lbrace :: tail)) = .ok (nestedTree n, reading []) := by
    unfold conditional
    exact (run_bind rfl).trans ((run_bind hbinary).trans rfl)
  show plainAssignment (level (descents + 2) (budget - nestCost)) noIn _ = _
  unfold plainAssignment
  exact (run_bind rfl).trans ((run_bind hconditional).trans rfl)

theorem wholeExpression_nested_run (n : Nat) :
    wholeExpression (reading (nestedTokens n [])) = .ok (nestedTree n, reading []) := by
  have hassignment := assignment_nested_run 125 nestingBudget n false (by decide)
  have hsequence : sequence top false (reading (nestedTokens n [])) =
      .ok (nestedTree n, reading []) := by
    unfold Parser.sequence
    exact (run_bind rfl).trans ((run_bind hassignment).trans rfl)
  exact run_bind hsequence

theorem parseExpression_nested (n : Nat) : ∃ e, parseExpression (nestedText n) = .ok e ∧
    e.move (fun _ => .first) = nestedTree n := by
  have htext : (nestedText n).toList = written (nestedTokens n []) := by
    rw [nestedText, String.toList_ofList, written_nestedTokens]
    exact (List.append_nil _).symm
  obtain ⟨tokens, htokenize, htokens⟩ := tokenize_written (nestedTokens_readable n) htext
  obtain ⟨e, input, hrun, he⟩ :=
    run_of_reading wholeExpression_alike htokens (wholeExpression_nested_run n)
  refine ⟨e, ?_, he⟩
  rw [parseExpression, parseExpressionAt_eq, htokenize]
  simp only [hrun]

/-- **No bound holds for all texts**: nested patterns are read as a tree as deep as they are. -/
theorem exists_visit_nested (n : Nat) : ∃ e, parseExpression (nestedText n) = .ok e ∧
    ∃ v ∈ e.visit 0 (e.inside 1), v.depth = 3 * n := by
  obtain ⟨e, hparse, hmove⟩ := parseExpression_nested n
  obtain ⟨v, hv, hdepth⟩ := exists_visit_nestedTree n 0
  rw [← hmove, Expr.inside_move, ← Expr.map_visit] at hv
  obtain ⟨u, hu, rfl⟩ := List.mem_map.1 hv
  refine ⟨e, hparse, u, hu, ?_⟩
  obtain ⟨depth, node⟩ := u
  cases node <;> simpa [Visit.move] using hdepth

/-- Enough nested patterns go beyond the square of the budget. -/
theorem nested_exceeds : ∃ e, parseExpression (nestedText 350000) = .ok e ∧
    ∃ v ∈ e.visit 0 (e.inside 1), 1024 * 1024 ≤ v.depth := by
  obtain ⟨e, hparse, v, hv, hdepth⟩ := exists_visit_nested 350000
  exact ⟨e, hparse, v, hv, by omega⟩

end WidgetLint.Script
