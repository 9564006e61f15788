import WidgetLint.Lint.CallSite
import WidgetLint.Lint.Steps

/-!
# Usage of components

Which components scripts and pages use, for example to decide what a page has to load. Scripts that
cannot be read are passed over.
-/

namespace WidgetLint.Lint

open Text Script Markup

/-- Something that a script or page uses. -/
inductive Mention where
  | component (name : String)
  | binder
deriving DecidableEq, Repr

/-- The components that are used and whether elements are bound. -/
structure Usage where
  /-- Names as first written, without repetitions up to ASCII case. -/
  components : List String
  usesBinder : Bool
deriving DecidableEq, Repr

/-- What an expression uses. A component counts whatever its method is called with. -/
def mentionsIn (s : Settings) : Expr → List Mention
  | .call _ callee _ _ =>
    ((componentMethod? s.methodPrefix callee).map fun (name, _) => .component name).toList ++
      (if isBindCall s.namespaceRoot callee then [.binder] else [])
  | _ => []

/-- The names with one more, unless it is there up to ASCII case. -/
def addName (names : List String) (name : String) : List String :=
  if names.any (sameIgnoringCase name) then names else names ++ [name]

def mentionedNames (mentions : List Mention) : List String :=
  mentions.filterMap fun
    | .component name => some name
    | .binder => none

def Usage.ofMentions (mentions : List Mention) : Usage :=
  ⟨(mentionedNames mentions).foldl addName [], mentions.contains .binder⟩

/-! ## Detecting by given steps -/

section
variable {m : Type → Type} [Monad m] (steps : Steps m) (s : Settings)

def scriptMentionsBy (text : String) : m (List Mention) := do
  match ← steps.program text with
  | .error _ => return []
  | .ok p => return (expressions p).flatMap (mentionsIn s)

/-- What is used at a place of interest, given what a template uses. -/
def spotMentionsBy (template : String → m (List Mention)) : Spot → m (List Mention)
  | .role _ role => return (role.value.map fun v => .component v.text).toList
  | .embedded .script body _ => scriptMentionsBy steps s body
  | .embedded .template body _ => template body

/-- What a page uses, given what a template in it uses. -/
def pageMentionsBy (template : String → m (List Mention)) (text : String) :
    m (List Mention) := do
  let document ← steps.page s text
  (spotsIn s (fun _ => false) document.root.toNode).flatMapM (spotMentionsBy steps s template)

/-- What a page uses in which templates may nest `levels` deep. -/
def documentMentionsBy : (levels : Nat) → String → m (List Mention)
  | 0, text => pageMentionsBy steps s (fun _ => return []) text
  | levels + 1, text => pageMentionsBy steps s (documentMentionsBy levels) text

def detectBy (scripts pages : List String) : m Usage := do
  let inScripts ← scripts.flatMapM (scriptMentionsBy steps s)
  let inPages ← pages.flatMapM (documentMentionsBy steps s maxTemplateDepth)
  return .ofMentions (inScripts ++ inPages)

end

/-! ## Detecting -/

def scriptMentions (s : Settings) (text : String) : List Mention :=
  (scriptMentionsBy .plain s text).run

@[inherit_doc spotMentionsBy]
def spotMentions (s : Settings) (template : String → List Mention) (spot : Spot) :
    List Mention :=
  (spotMentionsBy .plain s (fun body => pure (template body)) spot).run

@[inherit_doc pageMentionsBy]
def pageMentions (s : Settings) (template : String → List Mention) (text : String) :
    List Mention :=
  (pageMentionsBy .plain s (fun body => pure (template body)) text).run

@[inherit_doc documentMentionsBy]
def documentMentions (s : Settings) (levels : Nat) (text : String) : List Mention :=
  (documentMentionsBy .plain s levels text).run

def detect (scripts pages : List String) (s : Settings) : Usage :=
  (detectBy .plain s scripts pages).run

/-! ## What detecting gives -/

section
variable (s : Settings)

theorem scriptMentions_error {text : String} {e : ScriptError} (h : parseProgram text = .error e) :
    scriptMentions s text = [] := by
  simp only [scriptMentions, scriptMentionsBy, Steps.plain, Id.run, h]
  rfl

theorem scriptMentions_ok {text : String} {p : Program} (h : parseProgram text = .ok p) :
    scriptMentions s text = (expressions p).flatMap (mentionsIn s) := by
  simp only [scriptMentions, scriptMentionsBy, Steps.plain, Id.run, h]
  rfl

theorem pageMentions_eq (template : String → List Mention) (text : String) :
    pageMentions s template text =
      (spotsIn s (fun _ => false) (readPage s text).root.toNode).flatMap
        (spotMentions s template) := by
  simp only [pageMentions, pageMentionsBy, Id.run_bind, run_flatMapM]
  rfl

theorem detect_eq (scripts pages : List String) :
    detect scripts pages s = .ofMentions (scripts.flatMap (scriptMentions s) ++
      pages.flatMap (documentMentions s maxTemplateDepth)) := by
  simp only [detect, detectBy, Id.run_bind, Id.run_pure, run_flatMapM]
  rfl

end

end WidgetLint.Lint
