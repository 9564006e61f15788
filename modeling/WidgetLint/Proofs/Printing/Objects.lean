import WidgetLint.Proofs.Printing.Lists

/-!
# Reading objects back

An object is read back if its keys and the values of its members are. A quoted key that is a word is
read back as a plain one. Patterns in the parameters of methods are read with fuel; there is enough
of it, since every object takes a token.
-/

namespace WidgetLint.Script

open Text WidgetLint.Script.Parser

variable {e : Expr} {indent d b : Nat} {lead : Spacing} {ts us rest : List Printed}

/-! ## Keys -/

/-- The expression in brackets, if the key has one, is read back. -/
def Key.Back (indent : Nat) (key : Key) : Prop :=
  ∀ e, key = .computed e → e.Back indent

theorem memberKey_name (lead : Spacing) (name : String) (sub : Level) :
    Gives (memberKey sub) (.name lead name :: rest) (.ident name) rest := by
  refine peek_gives.bind ?_
  rw [ahead_cons, token_body, body_name]
  have hname : (wordBody name name.toList).memberName? = some name := memberName?_wordBody name
  split
  next h => rw [h] at hname; cases hname
  next h => rw [h] at hname; cases hname
  next h => rw [h] at hname; cases hname
  next =>
    rw [hname]
    exact (advance_gives _).bind (Leads.refl _ _)

theorem memberKey_gives {key : Key} (h : key.Back indent) (lead : Spacing) (d b : Nat)
    (rest : List Printed) :
    Gives (memberKey (level d b)) (key.printed indent lead ++ rest) (key.relabel .plain) rest := by
  cases key with
  | ident name => exact memberKey_name lead name _
  | string value =>
    rw [Key.printed, Key.relabel, Relabeling.plain]
    by_cases hword : isWordText value
    · simp only [hword, if_true]
      exact memberKey_name lead value _
    · simp only [hword]
      refine peek_gives.bind ((advance_gives _).bind ?_)
      exact Leads.refl _ _
  | number value =>
    refine peek_gives.bind ((advance_gives _).bind ?_)
    exact Leads.refl _ _
  | computed e =>
    have hread := ((h e rfl).fenced .assignment .joined).assignment (Expr.le_profileAt (by decide))
      false d b (.symbol .joined .rbracket :: rest) (by simp)
      ((stops_close (by decide)).mono (by decide))
    rw [Key.printed, List.cons_append, List.append_assoc, List.singleton_append]
    refine peek_gives.bind ((advance_gives _).bind (hread.bind ((expect_gives _ _).bind ?_)))
    exact Leads.refl _ _

theorem Key.printed_eq_cons (key : Key) (indent : Nat) (lead : Spacing) :
    ∃ t us, key.printed indent lead = t :: us ∧ opensKey t.token ∧
      (us = [] ∨ t.body = .symbol .lbracket) := by
  have hname (name : String) : opensKey (Printed.name lead name).token := by
    have hmember := memberName?_wordBody name
    unfold opensKey
    rw [token_body, body_name]
    generalize wordBody name name.toList = body at hmember ⊢
    cases body <;> first | rfl | cases hmember
  cases key with
  | ident name => exact ⟨_, _, rfl, hname name, .inl rfl⟩
  | string value =>
    rw [Key.printed]
    split
    · exact ⟨_, _, rfl, hname value, .inl rfl⟩
    · exact ⟨_, _, rfl, rfl, .inl rfl⟩
  | number value => exact ⟨_, _, rfl, rfl, .inl rfl⟩
  | computed e => exact ⟨_, _, rfl, rfl, .inr rfl⟩

theorem isSymbol_of_opensKey {t : Token} {s : Symbol} (h : opensKey t) (hs : s ≠ .lbracket) :
    t.isSymbol s = false := by
  refine Bool.eq_false_iff.2 fun hnot => ?_
  have hbody : t.body = .symbol s := by simpa [Token.isSymbol] using hnot
  unfold opensKey at h
  rw [hbody] at h
  revert h hs
  cases s <;> simp

/-! ## Members -/

def Member.Back (indent : Nat) (member : Member) : Prop :=
  ∀ lead d b n target rest, ReadsPatterns (level d b) n target →
    (member.printed indent lead ++ rest).length ≤ n → Separates .rbrace rest →
      Gives (memberWith (level d b) target) (member.printed indent lead ++ rest)
        (member.relabel .plain) rest

theorem spreadMember_back {argument : Expr} (h : argument.Back indent) :
    (Member.spread argument).Back indent := by
  intro lead d b n target rest _ _ hrest
  have hread := (h.fenced .assignment .joined).assignment (Expr.le_profileAt (by decide)) false d b
    rest (fun h => nomatch h) (hrest.stops (by decide))
  rw [Member.printed, List.cons_append]
  exact here_gives.bind ((eat_gives rfl).bind (hread.bind (Leads.refl _ _)))

/-- No word before a key announces a getter, a setter or a method if what follows the key cannot
begin one. -/
theorem announcedKind?_none (key : Key) (indent : Nat) (lead : Spacing)
    (h : opensKey (ahead us) = false) :
    ∃ t vs, key.printed indent lead ++ us = t :: vs ∧ opensKey t.token ∧
      announcedKind? t.token (ahead vs) = none := by
  obtain ⟨t, vs, hprinted, hopens, hcases⟩ := key.printed_eq_cons indent lead
  refine ⟨t, vs ++ us, by rw [hprinted]; rfl, hopens, ?_⟩
  rcases hcases with rfl | hbracket
  · simp [announcedKind?, h]
  · simp [announcedKind?, hbracket]

theorem named_gives {key : Key} {kind : MemberKind} {value : Expr} {target : Parser Expr}
    (hkey : key.Back indent) (hus : opensKey (ahead us) = false)
    (hvalue : ∀ t vs, key.printed indent lead ++ us = t :: vs →
      Gives (memberValue (level d b) target .first false t.token) us (kind, value) rest) :
    Gives (memberWith (level d b) target) (key.printed indent lead ++ us)
      (.named ⟨.first, .first⟩ kind (key.relabel .plain) value) rest := by
  obtain ⟨t, vs, hsplit, hopens, hkind⟩ := announcedKind?_none key indent lead hus
  have hread := memberKey_gives hkey lead d b us
  have hvalue := hvalue t vs hsplit
  rw [hsplit] at hread ⊢
  refine here_gives.bind ((eat_passes ?_).bind ?_)
  · exact isSymbol_of_opensKey hopens (by decide)
  rw [if_neg Bool.false_ne_true]
  refine peek_gives.bind ((peekSecond_gives t).bind ?_)
  rw [ahead_cons, hkind]
  refine (eat_passes ?_).bind (peek_gives.bind (hread.bind (hvalue.bind ?_)))
  · exact isSymbol_of_opensKey hopens (by decide)
  exact (spanFrom_gives _).bind (Leads.refl _ _)

theorem pair_back {s : Span} {key : Key} {value : Expr} (hkey : key.Back indent)
    (hvalue : value.Back indent) : (Member.named s .pair key value).Back indent := by
  intro lead d b n target rest _ _ hrest
  have hread := (hvalue.fenced .assignment .spaced).assignment (Expr.le_profileAt (by decide)) false
    d b rest (fun h => nomatch h) (hrest.stops (by decide))
  rw [Member.printed, List.append_assoc, List.cons_append]
  refine named_gives hkey rfl fun t vs _ => peek_gives.bind ((advance_gives _).bind ?_)
  exact hread.bind (Leads.refl _ _)

section
variable {s s' : Span} {key : Key} {params : List Expr} {body : List Stmt} {k : Nat}

theorem method_back (hkey : key.Back indent) (hfit : AllFit (visitAll k params))
    (hparams : ∀ p ∈ params, p.ParamBack indent) (hbody : BlockBack indent body) :
    (Member.named s .method key (.function s' none params body)).Back indent := by
  intro lead d b n target rest htarget hn _
  have hsplit : (Member.named s .method key (.function s' none params body)).printed indent lead =
      key.printed indent lead ++ printedFunction indent params body := by
    rw [Member.printed, printedFunction]
  rw [hsplit, List.append_assoc] at hn ⊢
  refine named_gives hkey rfl fun t vs _ => peek_gives.bind ?_
  have hread := methodValue_gives (s := s') hfit hparams hbody htarget rest
    (by simp only [List.length_append] at hn ⊢; omega)
  exact hread.bind (Leads.refl _ _)

theorem accessor_back {kind : MemberKind} {word : String}
    (hprinted : ∀ lead, (Member.named s kind key (.function s' none params body)).printed indent lead =
      .keyword lead word :: (key.printed indent .spaced ++ printedFunction indent params body))
    (hkind : ∀ lead next, opensKey next →
      announcedKind? (Printed.keyword lead word).token next = some kind)
    (hkey : key.Back indent) (hfit : AllFit (visitAll k params))
    (hparams : ∀ p ∈ params, p.ParamBack indent) (hbody : BlockBack indent body) :
    (Member.named s kind key (.function s' none params body)).Back indent := by
  intro lead d b n target rest htarget hn _
  rw [hprinted, List.cons_append, List.append_assoc] at hn ⊢
  obtain ⟨t, vs, hfirst, hopens, -⟩ := key.printed_eq_cons indent .spaced
  have hnext : opensKey (ahead (key.printed indent .spaced ++
      (printedFunction indent params body ++ rest))) := by
    rw [hfirst]
    exact hopens
  have hread := methodValue_gives (s := s') hfit hparams hbody htarget rest
    (by simp only [List.length_append, List.length_cons] at hn ⊢; omega)
  refine here_gives.bind ((eat_passes rfl).bind ?_)
  rw [if_neg Bool.false_ne_true]
  refine peek_gives.bind ((peekSecond_gives _).bind ?_)
  rw [ahead_cons, hkind lead _ hnext]
  refine (advance_gives _).bind ((memberKey_gives hkey .spaced d b _).bind (hread.bind ?_))
  exact (spanFrom_gives _).bind (Leads.refl _ _)

theorem functionMember_back {kind : MemberKind}
    (hkind : kind = .getter ∨ kind = .setter ∨ kind = .method) (hkey : key.Back indent)
    (hfit : AllFit (visitAll k params)) (hparams : ∀ p ∈ params, p.ParamBack indent)
    (hbody : BlockBack indent body) :
    (Member.named s kind key (.function s' none params body)).Back indent := by
  rcases hkind with rfl | rfl | rfl
  · exact accessor_back (fun _ => rfl) (fun _ next hnext => by simp [announcedKind?, hnext]) hkey
      hfit hparams hbody
  · exact accessor_back (fun _ => rfl) (fun _ next hnext => by simp [announcedKind?, hnext]) hkey
      hfit hparams hbody
  · exact method_back hkey hfit hparams hbody

end

theorem shorthand_token {name : String} (hreserved : isReserved name = false)
    (hliteral : isLiteralWord name = false) {t : Printed} {vs : List Printed}
    (h : (Key.ident name).printed indent lead ++ us = t :: vs) : t.token.name? = some name := by
  rw [Key.printed, List.singleton_append] at h
  cases h
  simp [Token.name?, Token.word?, wordBody_eq hliteral, hreserved]

theorem shorthand_back {s s' : Span} {name : String} (hreserved : isReserved name = false)
    (hliteral : isLiteralWord name = false) :
    (Member.named s .shorthand (.ident name) (.ident s' name)).Back indent := by
  intro lead d b n target rest _ _ hrest
  rw [Member.printed]
  · obtain ⟨l, symbol, us, rfl, hsymbol⟩ := hrest
    refine named_gives (fun e h => nomatch h) ?_ fun t vs hsplit => peek_gives.bind ?_
    · rcases hsymbol with rfl | rfl <;> rfl
    · rw [shorthand_token hreserved hliteral hsplit]
      rcases hsymbol with rfl | rfl <;> exact Leads.refl _ _
  · simp

theorem shorthandDefault_back {s s' s'' : Span} {name : String} {value : Expr}
    (hreserved : isReserved name = false) (hliteral : isLiteralWord name = false)
    (hvalue : value.Back indent) :
    (Member.named s .shorthand (.ident name) (.assign s' .assign (.ident s'' name) value)).Back
      indent := by
  intro lead d b n target rest _ _ hrest
  have hread := (hvalue.fenced .assignment .spaced).assignment (Expr.le_profileAt (by decide)) false
    d b rest (fun h => nomatch h) (hrest.stops (by decide))
  rw [Member.printed, List.append_assoc, List.cons_append]
  refine named_gives (fun e h => nomatch h) rfl fun t vs hsplit => peek_gives.bind ?_
  rw [shorthand_token hreserved hliteral hsplit]
  refine (advance_gives _).bind (hread.bind ((spanFrom_gives _).bind ?_))
  exact Leads.refl _ _

/-! ## Objects -/

theorem printedMembers_eq (indent : Nat) (members : List Member) (lead : Spacing) :
    printedMembers indent members lead = separated (Member.printed indent) members lead := by
  induction members generalizing lead with
  | nil => rfl
  | cons member members ih =>
    cases members with
    | nil => rfl
    | cons next members => rw [printedMembers, separated, ih] <;> simp

theorem Member.printed_eq_cons (member : Member) (indent : Nat) (lead : Spacing) :
    ∃ t us, member.printed indent lead = t :: us ∧ t.body ≠ .symbol .rbrace := by
  have hkey (key : Key) (lead : Spacing) (us : List Printed) :
      ∃ t vs, key.printed indent lead ++ us = t :: vs ∧ t.body ≠ .symbol .rbrace := by
    obtain ⟨t, vs, hprinted, hopens, -⟩ := key.printed_eq_cons indent lead
    refine ⟨t, vs ++ us, by rw [hprinted]; rfl, ?_⟩
    have hnot := isSymbol_of_opensKey hopens (show Symbol.rbrace ≠ .lbracket by decide)
    simpa using hnot
  cases member with
  | spread argument => exact ⟨_, _, rfl, by simp⟩
  | named s kind key value =>
    refine Member.layout_cases (P := fun ts _ => ∃ t us, ts = t :: us ∧ t.body ≠ .symbol .rbrace)
      (by simpa using hkey key lead []) (fun _ _ _ _ _ => hkey _ _ _) (hkey _ _ _)
      fun _ _ params body _ => ?_
    cases kind with
    | getter | setter => exact ⟨_, _, rfl, by simp⟩
    | pair | shorthand | method => exact hkey _ _ _

theorem objectUpTo_gives {s : Span} {members : List Member}
    (h : ∀ member ∈ members, member.Back indent) (lead : Spacing) (d b fuel : Nat)
    (rest : List Printed)
    (hfuel : ((Expr.object s members).printed indent lead ++ rest).length ≤ fuel) :
    Gives (objectUpTo (level d b) fuel) ((Expr.object s members).printed indent lead ++ rest)
      ((Expr.object s members).relabel .plain) rest := by
  have hsplit : (Expr.object s members).printed indent lead ++ rest = .symbol lead .lbrace ::
      (separated (Member.printed indent) members .spaced ++
        .symbol (if members.isEmpty then .joined else .spaced) .rbrace :: rest) := by
    rw [Expr.printed, printedMembers_eq]
    simp
  rw [hsplit] at hfuel ⊢
  cases fuel with
  | zero => simp at hfuel
  | succ fuel =>
    have hread := bracketed_gives .lbrace lead (by decide) fuel members .spaced
      (fun member hmember lead us hlength hus =>
        h member hmember lead d b fuel _ us (readsPatterns_upTo _ fuel) hlength hus)
      (fun member _ lead => member.printed_eq_cons indent lead)
      (by rw [List.length_cons] at hfuel; exact Nat.le_of_succ_le_succ hfuel)
    rw [Expr.relabel, relabelMembers_eq]
    exact here_gives.bind (hread.bind ((spanFrom_gives _).bind (Leads.refl _ _)))

theorem object_back {s : Span} {members : List Member} (hfit : (Expr.object s members).FitAt d)
    (h : ∀ member ∈ members, member.Back indent) : (Expr.object s members).Back indent := by
  refine primary_back hfit rfl (by simp [Expr.first]) fun lead d b rest _ => ?_
  have hread := objectUpTo_gives (s := s) h lead d b _ rest (Nat.le_refl _)
  obtain ⟨tail, htail⟩ := (Expr.object s members).printed_eq_cons indent lead
  rw [htail] at hread ⊢
  exact peek_gives.bind (Leads.trans (.inl (object_run _ _)) hread)

theorem object_pattern {s : Span} {members : List Member}
    (h : ∀ member ∈ members, member.Back indent) : (Expr.object s members).PatternBack indent := by
  intro lead d b fuel rest hfuel
  have hread := objectUpTo_gives (s := s) h lead d b fuel rest hfuel
  obtain ⟨tail, htail⟩ := (Expr.object s members).printed_eq_cons indent lead
  rw [htail] at hread ⊢
  exact peek_gives.bind hread

end WidgetLint.Script
