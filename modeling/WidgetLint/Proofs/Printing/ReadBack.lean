import WidgetLint.Proofs.Printing.Control

/-!
# Reading printed trees back

**Every fit tree is read back from its tokens** (`Expr.readBack`, `Stmt.readBack`): each rule of the
grammar reads what the printer writes for it, by induction over expressions, statements and their
parts.
-/

namespace WidgetLint.Script

open Text WidgetLint.Script.Parser

variable {e : Expr} {indent d : Nat}

/-- The printed expression is read back wherever it can stand. -/
structure Expr.ReadBack (indent : Nat) (e : Expr) : Prop where
  whole : e.isOrdinary → e.Back indent
  element : e.isElement → e.ElementBack indent
  pattern : e.isPattern → e.PatternBack indent
  param : e.isParam → e.ParamBack indent

theorem Expr.isOrdinary_of_isElement (hspread : ∀ s a, e ≠ .spread s a) (h : e.isElement) :
    e.isOrdinary := by
  cases e with
  | ident s name => exact h
  | spread s a => exact absurd rfl (hspread s a)
  | _ => rfl

theorem Expr.ReadBack.ofBack (hfit : e.FitAt d) (hparam : e.isParam = false)
    (hpattern : e.isPattern = false) (hspread : ∀ s a, e ≠ .spread s a)
    (h : e.isOrdinary → e.Back indent) : e.ReadBack indent where
  whole := h
  element helement :=
    element_of_back hfit (Expr.isOrdinary_of_isElement hspread helement)
      (h (Expr.isOrdinary_of_isElement hspread helement))
  pattern hp := by rw [hpattern] at hp; cases hp
  param hp := by rw [hparam] at hp; cases hp

theorem Expr.ReadBack.ofPattern (hfit : e.FitAt d) (hspread : ∀ s a, e ≠ .spread s a)
    (hparam : e.isParam = e.isPattern) (h : e.isOrdinary → e.Back indent)
    (hpattern : e.isPattern → e.PatternBack indent) : e.ReadBack indent where
  whole := h
  element helement :=
    element_of_back hfit (Expr.isOrdinary_of_isElement hspread helement)
      (h (Expr.isOrdinary_of_isElement hspread helement))
  pattern := hpattern
  param hp := by
    rw [hparam] at hp
    exact param_of_pattern hp (hpattern hp)

mutual

theorem Expr.readBack (indent d : Nat) : (e : Expr) → e.FitAt d → e.ReadBack indent
  | .number .., hfit => .ofBack hfit rfl rfl (by simp) fun _ => literal_back hfit rfl
  | .string .., hfit => .ofBack hfit rfl rfl (by simp) fun _ => literal_back hfit rfl
  | .template .., hfit => .ofBack hfit rfl rfl (by simp) fun _ => literal_back hfit rfl
  | .regex .., hfit => .ofBack hfit rfl rfl (by simp) fun _ => literal_back hfit rfl
  | .boolean .., hfit => .ofBack hfit rfl rfl (by simp) fun _ => literal_back hfit rfl
  | .null _, hfit => .ofBack hfit rfl rfl (by simp) fun _ => literal_back hfit rfl
  | .this _, hfit => .ofBack hfit rfl rfl (by simp) fun _ => literal_back hfit rfl
  | .ident s name, hfit =>
    .ofPattern hfit (by simp) rfl (ident_back hfit) (ident_pattern hfit)
  | .array s items, hfit => by
    obtain ⟨⟨hshaped, -⟩, hinside⟩ := allFit_expr.1 hfit
    rw [Expr.inside] at hinside
    have hitems (e : Expr) (he : some e ∈ items) : e.ElementBack indent :=
      (readBackItems indent (d + 1) items hinside e he).element (hshaped e he)
    exact .ofPattern hfit (by simp) rfl (fun _ => array_back hfit hitems)
      fun _ => array_pattern hfit hitems
  | .object s members, hfit => by
    obtain ⟨⟨hshaped, -⟩, hinside⟩ := allFit_expr.1 hfit
    rw [Expr.inside] at hinside
    have hmembers := readBackMembers indent (d + 1) members hinside hshaped
    exact .ofPattern hfit (by simp) rfl (fun _ => object_back hfit hmembers)
      fun _ => object_pattern hmembers
  | .function s name params body, hfit => by
    obtain ⟨⟨hshaped, -⟩, hinside⟩ := allFit_expr.1 hfit
    rw [Expr.inside] at hinside
    obtain ⟨hparamsFit, hbodyFit⟩ := allFit_append.1 hinside
    have hparams := readBackAll indent (d + 1) params hparamsFit
    have hbody := readBackBody (indent + 1) (d + 1) body hbodyFit
    exact .ofBack hfit rfl rfl (by simp) fun _ => function_back hfit
      (fun p hp => (hparams p hp).param (hshaped.2 p hp)) (block_back hbodyFit hbody)
  | .arrow s params body, hfit => by
    obtain ⟨⟨hshaped, -⟩, hinside⟩ := allFit_expr.1 hfit
    rw [Expr.inside] at hinside
    obtain ⟨hparamsFit, hbodyFit⟩ := allFit_append.1 hinside
    have hparams := readBackAll indent (d + 1) params hparamsFit
    have hbody := body.readBack indent (d + 1) hbodyFit hshaped.2
    exact .ofBack hfit rfl rfl (by simp) fun _ => arrow_back hfit
      (fun p hp => (hparams p hp).param (hshaped.1 p hp)) hbody
  | .unary s op operand, hfit => by
    obtain ⟨⟨hshaped, -⟩, hinside⟩ := allFit_expr.1 hfit
    rw [Expr.inside] at hinside
    have hoperand := (operand.readBack indent (d + 1) hinside).whole hshaped
    exact .ofBack hfit rfl rfl (by simp) fun _ => unary_back hfit hoperand
  | .update s op side operand, hfit => by
    obtain ⟨⟨hshaped, -⟩, hinside⟩ := allFit_expr.1 hfit
    rw [Expr.inside] at hinside
    have hoperand := (operand.readBack indent (d + 1) hinside).whole hshaped
    exact .ofBack hfit rfl rfl (by simp) fun _ => update_back hfit hoperand
  | .binary s op left right, hfit => by
    obtain ⟨⟨hshaped, -⟩, hinside⟩ := allFit_expr.1 hfit
    rw [Expr.inside] at hinside
    obtain ⟨hleftFit, hrightFit⟩ := allFit_append.1 hinside
    have hleft := (left.readBack indent (d + 1) hleftFit).whole hshaped.1
    have hright := (right.readBack indent (d + 1) hrightFit).whole hshaped.2
    exact .ofBack hfit rfl rfl (by simp) fun _ => binary_back hfit hleft hright
  | .assign s op target value, hfit => by
    obtain ⟨⟨hshaped, -⟩, hinside⟩ := allFit_expr.1 hfit
    rw [Expr.inside] at hinside
    obtain ⟨htargetFit, hvalueFit⟩ := allFit_append.1 hinside
    have htarget := target.readBack indent (d + 1) htargetFit
    have hvalue := (value.readBack indent (d + 1) hvalueFit).whole hshaped.2.2
    have hback := assign_back hfit (htarget.whole hshaped.2.1) hvalue
    refine ⟨fun _ => hback, fun _ => element_of_back hfit rfl hback, (fun h => nomatch h), fun h => ?_⟩
    simp only [Expr.isParam, Bool.and_eq_true, beq_iff_eq] at h
    obtain ⟨rfl, hpattern⟩ := h
    exact param_default hpattern (htarget.pattern hpattern) hvalue
  | .conditional s test whenTrue whenFalse, hfit => by
    obtain ⟨⟨hshaped, -⟩, hinside⟩ := allFit_expr.1 hfit
    rw [Expr.inside] at hinside
    obtain ⟨hinside, hfalseFit⟩ := allFit_append.1 hinside
    obtain ⟨htestFit, htrueFit⟩ := allFit_append.1 hinside
    have htest := (test.readBack indent (d + 1) htestFit).whole hshaped.1
    have htrue := (whenTrue.readBack indent (d + 1) htrueFit).whole hshaped.2.1
    have hfalse := (whenFalse.readBack indent (d + 1) hfalseFit).whole hshaped.2.2
    exact .ofBack hfit rfl rfl (by simp) fun _ => conditional_back hfit htest htrue hfalse
  | .dot s base optional name nameSpan, hfit => by
    obtain ⟨⟨hshaped, -⟩, hinside⟩ := allFit_expr.1 hfit
    rw [Expr.inside] at hinside
    have hbase := base.readBack indent (d + 1) hinside
    refine .ofBack hfit rfl rfl (by simp) fun _ => ?_
    rcases hshaped with hordinary | ⟨⟨s', rfl⟩, rfl⟩
    · exact dot_back hfit (hbase.whole hordinary)
    · exact newTarget_back hfit
  | .index s base optional key, hfit => by
    obtain ⟨⟨hshaped, -⟩, hinside⟩ := allFit_expr.1 hfit
    rw [Expr.inside] at hinside
    obtain ⟨hbaseFit, hkeyFit⟩ := allFit_append.1 hinside
    have hbase := (base.readBack indent (d + 1) hbaseFit).whole hshaped.1
    have hkey := (key.readBack indent (d + 1) hkeyFit).whole hshaped.2
    exact .ofBack hfit rfl rfl (by simp) fun _ => index_back hfit hbase hkey
  | .call s callee optional arguments, hfit => by
    obtain ⟨⟨hshaped, -⟩, hinside⟩ := allFit_expr.1 hfit
    rw [Expr.inside] at hinside
    obtain ⟨hcalleeFit, hargumentsFit⟩ := allFit_append.1 hinside
    have hcallee := (callee.readBack indent (d + 1) hcalleeFit).whole hshaped.1
    have harguments := readBackAll indent (d + 1) arguments hargumentsFit
    exact .ofBack hfit rfl rfl (by simp) fun _ => call_back hfit hcallee
      (arguments_back hargumentsFit fun e he => (harguments e he).element (hshaped.2 e he))
  | .new s callee arguments, hfit => by
    obtain ⟨⟨hshaped, -⟩, hinside⟩ := allFit_expr.1 hfit
    rw [Expr.inside] at hinside
    obtain ⟨hcalleeFit, hargumentsFit⟩ := allFit_append.1 hinside
    have hcallee := (callee.readBack indent (d + 1) hcalleeFit).whole hshaped.1
    have harguments := readBackAll indent (d + 1) arguments hargumentsFit
    exact .ofBack hfit rfl rfl (by simp) fun _ => new_back hfit hcallee
      (arguments_back hargumentsFit fun e he => (harguments e he).element (hshaped.2 e he))
  | .sequence s items, hfit => by
    obtain ⟨⟨hshaped, -⟩, hinside⟩ := allFit_expr.1 hfit
    rw [Expr.inside] at hinside
    have hitems := readBackAll indent (d + 1) items hinside
    exact .ofBack hfit rfl rfl (by simp) fun _ =>
      sequence_back hfit fun e he => (hitems e he).whole (hshaped.2 e he)
  | .spread s argument, hfit => by
    obtain ⟨⟨hshaped, -⟩, hinside⟩ := allFit_expr.1 hfit
    rw [Expr.inside] at hinside
    have hargument := argument.readBack indent (d + 1) hinside
    exact ⟨(fun h => nomatch h), fun _ => element_spread (hargument.whole hshaped),
      (fun h => nomatch h), fun h => param_spread h (hargument.pattern h)⟩

theorem readBackAll (indent d : Nat) : (es : List Expr) → AllFit (visitAll d es) →
    ∀ e ∈ es, e.ReadBack indent
  | [], _ => by simp
  | e :: es, hfit => by
    rw [visitAll] at hfit
    obtain ⟨heFit, hesFit⟩ := allFit_append.1 hfit
    have he := e.readBack indent d heFit
    have hes := readBackAll indent d es hesFit
    simpa using ⟨he, hes⟩

theorem readBackOption (indent d : Nat) : (value : Option Expr) → AllFit (visitOptional d value) →
    ∀ e, value = some e → e.ReadBack indent
  | none, _ => by simp
  | some value, hfit => by
    have hvalue := value.readBack indent d hfit
    rintro e ⟨⟩
    exact hvalue

theorem readBackItems (indent d : Nat) : (items : List (Option Expr)) →
    AllFit (visitItems d items) → ∀ e, some e ∈ items → e.ReadBack indent
  | [], _ => by simp
  | item :: items, hfit => by
    rw [visitItems] at hfit
    obtain ⟨hitemFit, hitemsFit⟩ := allFit_append.1 hfit
    have hitem := readBackOption indent d item hitemFit
    have hitems := readBackItems indent d items hitemsFit
    intro e he
    rcases List.mem_cons.1 he with he | he
    · exact hitem e he.symm
    · exact hitems e he

theorem readBackMembers (indent d : Nat) : (members : List Member) →
    AllFit (visitMembers d members) → (∀ member ∈ members, member.Shaped) →
      ∀ member ∈ members, member.Back indent
  | [], _, _ => by simp
  | member :: members, hfit, hshaped => by
    rw [visitMembers] at hfit
    obtain ⟨hmemberFit, hmembersFit⟩ := allFit_append.1 hfit
    have hmember := member.readBack indent d hmemberFit (hshaped member (by simp))
    have hmembers := readBackMembers indent d members hmembersFit
      fun member h => hshaped member (by simp [h])
    simpa using ⟨hmember, hmembers⟩

theorem Member.readBack (indent d : Nat) : (member : Member) → AllFit (member.inside d) →
    member.Shaped → member.Back indent
  | .spread argument, hfit, hshaped =>
    spreadMember_back ((argument.readBack indent d hfit).whole hshaped)
  | .named s kind key value, hfit, hshaped => by
    rw [Member.inside] at hfit
    obtain ⟨hkeyFit, hvalueFit⟩ := allFit_append.1 hfit
    have hkey := key.readBack indent d hkeyFit hshaped.1
    have hvalue := value.readBack indent d hvalueFit
    have hdefault : ∀ t op target inner, value = .assign t op target inner →
        target.FitAt (d + 1) ∧ inner.Back indent := by
      cases value with
      | assign t op target inner =>
        rintro _ _ _ _ ⟨⟩
        obtain ⟨⟨hassign, -⟩, hinside⟩ := allFit_expr.1 hvalueFit
        rw [Expr.inside] at hinside
        obtain ⟨htargetFit, hinnerFit⟩ := allFit_append.1 hinside
        have hinner := inner.readBack indent (d + 1) hinnerFit
        exact ⟨htargetFit, hinner.whole hassign.2.2⟩
      | _ => rintro _ _ _ _ ⟨⟩
    have hfunction : ∀ t name params body, value = .function t name params body →
        AllFit (visitAll (d + 1) params) ∧ (∀ p ∈ params, p.ParamBack indent) ∧
          BlockBack indent body := by
      cases value with
      | function t name params body =>
        rintro _ _ _ _ ⟨⟩
        obtain ⟨⟨hfunction, -⟩, hinside⟩ := allFit_expr.1 hvalueFit
        rw [Expr.inside] at hinside
        obtain ⟨hparamsFit, hbodyFit⟩ := allFit_append.1 hinside
        have hparams := readBackAll indent (d + 1) params hparamsFit
        have hbody := readBackBody (indent + 1) (d + 1) body hbodyFit
        exact ⟨hparamsFit, fun p hp => (hparams p hp).param (hfunction.2 p hp),
          block_back hbodyFit hbody⟩
      | _ => rintro _ _ _ _ ⟨⟩
    cases kind with
    | pair => exact pair_back hkey (hvalue.whole hshaped.2)
    | shorthand =>
      obtain ⟨-, name, rfl, hreserved, ⟨t, rfl⟩ | ⟨t, t', inner, rfl⟩⟩ := hshaped
      · exact shorthand_back hreserved (allFit_expr.1 hvalueFit).1.2
      · obtain ⟨htargetFit, hinner⟩ := hdefault _ _ _ _ rfl
        exact shorthandDefault_back hreserved (allFit_expr.1 htargetFit).1.2 hinner
    | getter | setter | method =>
      obtain ⟨-, t, params, body, rfl⟩ := hshaped
      obtain ⟨hparamsFit, hparams, hbody⟩ := hfunction _ _ _ _ rfl
      exact functionMember_back (by simp) hkey hparamsFit hparams hbody

theorem Key.readBack (indent d : Nat) : (key : Key) → AllFit (key.inside d) →
    (∀ e, key = .computed e → e.isOrdinary) → key.Back indent
  | .ident _, _, _ => fun e h => nomatch h
  | .string _, _, _ => fun e h => nomatch h
  | .number _, _, _ => fun e h => nomatch h
  | .computed key, hfit, hordinary => by
    have hkey := (key.readBack indent d hfit).whole (hordinary key rfl)
    rintro e ⟨⟩
    exact hkey

theorem ArrowBody.readBack (indent d : Nat) : (body : ArrowBody) → AllFit (body.inside d) →
    (∀ value, body = .expression value → value.isOrdinary) → body.Back indent
  | .expression value, hfit, hordinary => (value.readBack indent d hfit).whole (hordinary value rfl)
  | .block body, hfit, _ => block_back hfit (readBackBody (indent + 1) d body hfit)

theorem readBackBody (indent d : Nat) : (body : List Stmt) → AllFit (visitBody d body) →
    ∀ s ∈ body, s.Back indent
  | [], _ => by simp
  | s :: body, hfit => by
    rw [visitBody] at hfit
    obtain ⟨hsFit, hbodyFit⟩ := allFit_append.1 hfit
    have hs := s.readBack indent d hsFit
    have hbody := readBackBody indent d body hbodyFit
    simpa using ⟨hs, hbody⟩

theorem Stmt.readBack (indent d : Nat) : (s : Stmt) → s.FitAt d → s.Back indent
  | .expression s value, hfit => by
    obtain ⟨⟨hshaped, -⟩, hinside⟩ := allFit_stmt.1 hfit
    rw [Stmt.inside] at hinside
    exact expression_back hfit ((value.readBack indent (d + 1) hinside).whole hshaped)
  | .declaration s kind declarators, hfit => by
    obtain ⟨⟨hshaped, -⟩, hinside⟩ := allFit_stmt.1 hfit
    rw [Stmt.inside] at hinside
    exact declaration_back hfit (readBackDeclarators indent (d + 1) declarators hinside hshaped.2)
  | .function s name params body, hfit => by
    obtain ⟨⟨hshaped, -⟩, hinside⟩ := allFit_stmt.1 hfit
    rw [Stmt.inside] at hinside
    obtain ⟨hparamsFit, hbodyFit⟩ := allFit_append.1 hinside
    have hparams := readBackAll indent (d + 1) params hparamsFit
    have hbody := readBackBody (indent + 1) (d + 1) body hbodyFit
    exact functionStatement_back hfit (fun p hp => (hparams p hp).param (hshaped.2 p hp))
      (block_back hbodyFit hbody)
  | .returning s value, hfit => by
    obtain ⟨⟨hshaped, -⟩, hinside⟩ := allFit_stmt.1 hfit
    rw [Stmt.inside] at hinside
    have hvalue := readBackOption indent (d + 1) value hinside
    exact return_back hfit fun e he => (hvalue e he).whole (hshaped e he)
  | .branch s test whenTrue whenFalse, hfit => by
    obtain ⟨⟨hshaped, -⟩, hinside⟩ := allFit_stmt.1 hfit
    rw [Stmt.inside] at hinside
    obtain ⟨hparts, hfalseFit⟩ := allFit_append.1 hinside
    obtain ⟨htestFit, htrueFit⟩ := allFit_append.1 hparts
    exact branch_back hfit ((test.readBack indent (d + 1) htestFit).whole hshaped.1)
      (whenTrue.readBack indent (d + 1) htrueFit) (readBackElse indent (d + 1) whenFalse hfalseFit)
  | .forLoop s init test update body, hfit => by
    obtain ⟨⟨hshaped, -⟩, hinside⟩ := allFit_stmt.1 hfit
    rw [Stmt.inside] at hinside
    obtain ⟨hparts, hbodyFit⟩ := allFit_append.1 hinside
    obtain ⟨hparts, hupdateFit⟩ := allFit_append.1 hparts
    obtain ⟨hinitFit, htestFit⟩ := allFit_append.1 hparts
    have hinit := readBackInit indent (d + 1) init hinitFit hshaped.1
    have htest := readBackOption indent (d + 1) test htestFit
    have hupdate := readBackOption indent (d + 1) update hupdateFit
    exact forLoop_back hfit hinit (fun e he => (htest e he).whole (hshaped.2.1 e he))
      (fun e he => (hupdate e he).whole (hshaped.2.2 e he)) (body.readBack indent (d + 1) hbodyFit)
  | .forEach s left right body of, hfit => by
    obtain ⟨⟨hshaped, -⟩, hinside⟩ := allFit_stmt.1 hfit
    rw [Stmt.inside] at hinside
    obtain ⟨hparts, hbodyFit⟩ := allFit_append.1 hinside
    obtain ⟨hleftFit, hrightFit⟩ := allFit_append.1 hparts
    exact forEach_back hfit (left.readBack indent (d + 1) hleftFit hshaped.1)
      ((right.readBack indent (d + 1) hrightFit).whole hshaped.2)
      (body.readBack indent (d + 1) hbodyFit)
  | .whileLoop s test body, hfit => by
    obtain ⟨⟨hshaped, -⟩, hinside⟩ := allFit_stmt.1 hfit
    rw [Stmt.inside] at hinside
    obtain ⟨htestFit, hbodyFit⟩ := allFit_append.1 hinside
    exact while_back ((test.readBack indent (d + 1) htestFit).whole hshaped)
      (body.readBack indent (d + 1) hbodyFit)
  | .doWhile s body test, hfit => by
    obtain ⟨⟨hshaped, -⟩, hinside⟩ := allFit_stmt.1 hfit
    rw [Stmt.inside] at hinside
    obtain ⟨htestFit, hbodyFit⟩ := allFit_append.1 hinside
    exact doWhile_back ((test.readBack indent (d + 1) htestFit).whole hshaped)
      (body.readBack indent (d + 1) hbodyFit)
  | .block s body, hfit => by
    have hinside := (allFit_stmt.1 hfit).2
    rw [Stmt.inside] at hinside
    exact blockStatement_back
      (block_back hinside (readBackBody (indent + 1) (d + 1) body hinside))
  | .breaking s label, hfit =>
    jump_back .breaking "break" (by decide) (by decide) (by decide) (fun _ => rfl)
      (fun _ => by rw [Stmt.printed]) rfl (allFit_stmt.1 hfit).1.1 (allFit_stmt.1 hfit).1.2
  | .continuing s label, hfit =>
    jump_back .continuing "continue" (by decide) (by decide) (by decide) (fun _ => rfl)
      (fun _ => by rw [Stmt.printed]) rfl (allFit_stmt.1 hfit).1.1 (allFit_stmt.1 hfit).1.2
  | .throwing s value, hfit => by
    obtain ⟨⟨hshaped, -⟩, hinside⟩ := allFit_stmt.1 hfit
    rw [Stmt.inside] at hinside
    exact throw_back ((value.readBack indent (d + 1) hinside).whole hshaped)
  | .trying s body handler finalizer, hfit => by
    obtain ⟨⟨hshaped, -⟩, hinside⟩ := allFit_stmt.1 hfit
    rw [Stmt.inside] at hinside
    obtain ⟨hparts, hfinalizerFit⟩ := allFit_append.1 hinside
    obtain ⟨hbodyFit, hhandlerFit⟩ := allFit_append.1 hparts
    have hbody := readBackBody (indent + 1) (d + 1) body hbodyFit
    exact try_back hfit (block_back hbodyFit hbody)
      (readBackHandler indent (d + 1) handler hhandlerFit hshaped.2)
      (readBackFinalizer indent (d + 1) finalizer hfinalizerFit)
  | .switch s subject cases, hfit => by
    obtain ⟨⟨hshaped, -⟩, hinside⟩ := allFit_stmt.1 hfit
    rw [Stmt.inside] at hinside
    obtain ⟨hsubjectFit, hcasesFit⟩ := allFit_append.1 hinside
    exact switch_back hfit ((subject.readBack indent (d + 1) hsubjectFit).whole hshaped.1)
      (readBackCases (indent + 1) (d + 1) cases hcasesFit hshaped.2)
  | .labeled s label body, hfit => by
    have hinside := (allFit_stmt.1 hfit).2
    rw [Stmt.inside] at hinside
    exact labeled_back hfit (body.readBack indent (d + 1) hinside)
  | .empty _, _ => empty_back
  | .debugger _, _ => debugger_back

theorem readBackElse (indent d : Nat) : (s : Option Stmt) → AllFit (visitElse d s) →
    ∀ other, s = some other → other.Back indent
  | none, _ => by simp
  | some s, hfit => by
    have hs := s.readBack indent d hfit
    rintro other ⟨⟩
    exact hs

theorem readBackDeclarators (indent d : Nat) : (ds : List Declarator) →
    AllFit (visitDeclarators d ds) → (∀ declarator ∈ ds, declarator.Shaped) →
      ∀ declarator ∈ ds, declarator.Back indent
  | [], _, _ => by simp
  | .mk target value :: ds, hfit, hshaped => by
    rw [visitDeclarators] at hfit
    obtain ⟨hparts, hdsFit⟩ := allFit_append.1 hfit
    obtain ⟨htargetFit, hvalueFit⟩ := allFit_append.1 hparts
    have hfirst := hshaped (.mk target value) (by simp)
    have htarget := (target.readBack indent d htargetFit).pattern hfirst.1
    have hvalue := readBackOption indent d value hvalueFit
    have hds := readBackDeclarators indent d ds hdsFit fun declarator h =>
      hshaped declarator (by simp [h])
    have hback : (Declarator.mk target value).Back indent :=
      declarator_back htarget fun e he => (hvalue e he).whole (hfirst.2 e he)
    simpa using ⟨hback, hds⟩

theorem ForInit.readBack (indent d : Nat) : (init : ForInit) → AllFit (init.inside d) →
    init.Shaped → init.Back indent
  | .declaration _ ds, hfit, hshaped => readBackDeclarators indent d ds hfit hshaped.2
  | .expression value, hfit, hshaped => (value.readBack indent d hfit).whole hshaped

theorem readBackInit (indent d : Nat) : (init : Option ForInit) → AllFit (visitInit d init) →
    (∀ i, init = some i → i.Shaped) → ∀ i, init = some i → i.Back indent
  | none, _, _ => by simp
  | some init, hfit, hshaped => by
    have hinit := init.readBack indent d hfit (hshaped init rfl)
    rintro i ⟨⟩
    exact hinit

theorem readBackHandler (indent d : Nat) : (handler : Option Handler) →
    AllFit (visitHandler d handler) →
      (∀ param body, handler = some (.mk (some param) body) → param.isPattern) →
        ∀ h, handler = some h → h.Back indent
  | none, _, _ => by simp
  | some (.mk param body), hfit, hshaped => by
    rw [visitHandler] at hfit
    obtain ⟨hparamFit, hbodyFit⟩ := allFit_append.1 hfit
    have hparam := readBackOption indent d param hparamFit
    have hbody := readBackBody (indent + 1) d body hbodyFit
    rintro h ⟨⟩
    refine ⟨fun e he => (hparam e he).pattern ?_, block_back hbodyFit hbody⟩
    subst he
    exact hshaped e body rfl

theorem readBackFinalizer (indent d : Nat) : (finalizer : Option (List Stmt)) →
    AllFit (visitFinalizer d finalizer) → ∀ body, finalizer = some body → BlockBack indent body
  | none, _ => by simp
  | some body, hfit => by
    have hbody := readBackBody (indent + 1) d body hfit
    rintro body ⟨⟩
    exact block_back hfit hbody

theorem readBackCases (indent d : Nat) : (cases : List Case) → AllFit (visitCases d cases) →
    (∀ test body, .mk (some test) body ∈ cases → test.isOrdinary) → ∀ c ∈ cases, c.Back indent
  | [], _, _ => by simp
  | .mk test body :: cases, hfit, hshaped => by
    rw [visitCases] at hfit
    obtain ⟨hparts, hcasesFit⟩ := allFit_append.1 hfit
    obtain ⟨htestFit, hbodyFit⟩ := allFit_append.1 hparts
    have htest := readBackOption indent d test htestFit
    have hbody := readBackBody (indent + 1) d body hbodyFit
    have hcases := readBackCases indent d cases hcasesFit fun test body h =>
      hshaped test body (by simp [h])
    have hback : (Case.mk test body).Back indent := by
      refine ⟨fun e he => (htest e he).whole ?_, hbody⟩
      subst he
      exact hshaped e body (by simp)
    simpa using ⟨hback, hcases⟩

end

end WidgetLint.Script
