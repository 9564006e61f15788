import WidgetLint.Check.Validation
import WidgetLint.Proofs.Script.Formatting

/-!
# What a check finds does not depend on places

The findings of a check are its diagnostics without their places: which messages, how serious, and
in which order. Two configurations whose entries have the same keys, and values that are equal up to
positions, have the same findings (`findings_checkEntries`).
-/

namespace WidgetLint.Check

open Text Script Schema

/-- What diagnostics say, wherever they stand. -/
def findings (ds : List Diagnostic) : List (String × Severity) :=
  ds.map fun d => (d.message, d.severity)

@[simp] theorem findings_append (ds ds' : List Diagnostic) :
    findings (ds ++ ds') = findings ds ++ findings ds' :=
  List.map_append

@[simp] theorem findings_inFile (ds : List Diagnostic) (filename : String) :
    findings (ds.map (·.inFile filename)) = findings ds := by
  simp [findings, Diagnostic.inFile]

/-- The entry without places: its key, and its value up to positions. -/
def Entry.bare (entry : Entry) : String × Expr :=
  (entry.key, entry.value.move fun _ => .first)

variable {model : Model} {scope : Scope} {f : Position → Position}

/-! ## Values -/

/-- A literal without what is inside it. -/
def Literal.hull : Literal → Literal
  | .array _ => .array []
  | .object _ => .object []
  | literal => literal

theorem accepts_hull (d : Descriptor) (literal : Literal) :
    accepts d literal.hull = accepts d literal := by
  have hresolved : literal.hull.isResolved = literal.isResolved := by cases literal <;> rfl
  have hadmits (t : TypeTag) : admits t literal.hull = admits t literal := by
    cases literal <;> cases t <;> rfl
  simp only [accepts, hresolved, hadmits]

theorem isObject_hull (literal : Literal) : literal.hull.isObject = literal.isObject := by
  cases literal <;> rfl

theorem classify_unary_move (s s' : Span) (op : UnaryOp) (operand : Expr) :
    Literal.classify (.unary s op (operand.move f)) = Literal.classify (.unary s' op operand) := by
  cases op <;> cases operand <;> simp [Expr.relabel, Literal.classify]

theorem hull_classify_move (e : Expr) :
    (Literal.classify (e.move f)).hull = (Literal.classify e).hull := by
  cases e with
  | unary s op operand => exact congrArg Literal.hull (classify_unary_move _ s op operand)
  | _ => rfl

theorem accepts_move (d : Descriptor) (e : Expr) :
    accepts d (.classify (e.move f)) = accepts d (.classify e) := by
  rw [← accepts_hull, hull_classify_move, accepts_hull]

theorem isObject_move (e : Expr) :
    (Literal.classify (e.move f)).isObject = (Literal.classify e).isObject := by
  rw [← isObject_hull, hull_classify_move, isObject_hull]

theorem name?_move (key : Key) : (key.relabel (.moving f)).name? = key.name? := by
  cases key <;> rfl

/-! ## Entries -/

theorem ofMember?_bare (member : Member) :
    (Entry.ofMember? (member.relabel (.moving fun _ => .first))).map
        (fun entry => (entry.key, entry.value)) = (Entry.ofMember? member).map Entry.bare := by
  cases member with
  | spread argument => rfl
  | named s kind key value =>
    simp only [Member.relabel, Entry.ofMember?, name?_move]
    cases key.name? <;> rfl

/-- The entries of an object, without places, are those of the object without places. -/
theorem ofObject_bare (e : Expr) :
    (Entry.ofObject (e.move fun _ => .first)).map (fun entry => (entry.key, entry.value)) =
      (Entry.ofObject e).map Entry.bare := by
  cases e with
  | object s members =>
    simp only [Expr.relabel, Entry.ofObject, relabelMembers_eq, List.filterMap_map,
      List.map_filterMap, Function.comp_def, ofMember?_bare]
  | _ => rfl

/-- The findings of an entry are the same wherever the entry and its value stand, if those inside
its value are. -/
theorem findings_judge_move {key : String} {value : Expr} {p p' : Position} {n n' : Nat}
    {inside inside' : Scope → List Diagnostic}
    (h : ∀ inner, findings (inside inner) = findings (inside' inner)) :
    findings (judge model scope ⟨key, value.move f, p, n⟩ inside) =
      findings (judge model scope ⟨key, value, p', n'⟩ inside') := by
  have hsame (d : Descriptor) :
      findings (sameAsDefault? d ⟨key, value.move f, p, n⟩).toList =
        findings (sameAsDefault? d ⟨key, value, p', n'⟩).toList := by
    unfold sameAsDefault?
    rw [Expr.text_move]
    split
    · split <;> rfl
    · rfl
  unfold judge
  dsimp only
  cases scope.find? key with
  | none => rfl
  | some d =>
    dsimp only
    rw [accepts_move, isObject_move]
    split
    · rw [findings_append, findings_append, hsame]
      congr 1
      split
      · cases innerScope? model d with
        | none => rfl
        | some inner => exact h inner
      · rfl
    · rfl

mutual

theorem findings_checkObject_move (scope : Scope) (e : Expr) :
    findings (checkObject model scope (e.move f)) = findings (checkObject model scope e) := by
  cases e with
  | object s members => exact findings_checkMembers_move scope members
  | _ => simp [Expr.relabel, checkObject]

theorem findings_checkMembers_move (scope : Scope) (members : List Member) :
    findings (checkMembers model scope (relabelMembers (.moving f) members)) =
      findings (checkMembers model scope members) := by
  cases members with
  | nil => rfl
  | cons member rest =>
    rw [relabelMembers, checkMembers, checkMembers, findings_append, findings_append,
      findings_checkMember_move scope member, findings_checkMembers_move scope rest]

theorem findings_checkMember_move (scope : Scope) (member : Member) :
    findings (checkMember model scope (member.relabel (.moving f))) =
      findings (checkMember model scope member) := by
  cases member with
  | spread e => simp [Member.relabel, checkMember]
  | named s kind key value =>
    rw [Member.relabel, checkMember, checkMember, name?_move]
    cases key.name? with
    | none => rfl
    | some name => exact findings_judge_move fun inner => findings_checkObject_move inner value

end

theorem findings_checkEntry {entry entry' : Entry} (h : entry.bare = entry'.bare) :
    findings (checkEntry model scope entry) = findings (checkEntry model scope entry') := by
  have hmove (e : Entry) : findings (checkEntry model scope
      ⟨e.key, e.value.move fun _ => .first, .first, 0⟩) = findings (checkEntry model scope e) :=
    findings_judge_move fun inner => findings_checkObject_move inner e.value
  obtain ⟨hkey, hvalue⟩ := Prod.mk.inj h
  rw [← hmove entry, hkey, hvalue, hmove entry']

/-- **Findings do not depend on places.** Configurations whose entries have the same keys and values
that are equal up to positions have the same findings. -/
theorem findings_checkEntries {entries entries' : List Entry}
    (h : entries.map Entry.bare = entries'.map Entry.bare) :
    findings (checkEntries model scope entries) = findings (checkEntries model scope entries') := by
  induction entries generalizing entries' with
  | nil =>
    obtain rfl := List.map_eq_nil_iff.1 h.symm
    rfl
  | cons entry rest ih =>
    obtain ⟨entry', rest', rfl, hentry, hrest⟩ := List.map_eq_cons_iff.1 h.symm
    have htail := ih hrest.symm
    simp only [checkEntries, List.flatMap_cons, findings_append] at htail ⊢
    rw [findings_checkEntry hentry.symm, htail]

end WidgetLint.Check
