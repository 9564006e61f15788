import WidgetLint.Proofs.Spans.Parts
import WidgetLint.Script.Lexer

/-!
# Keys and the tokens that spell them

A named member of an object begins with its key or with what announces it: the word of an accessor
or of an async method, or the star of a generator. The key, unless it is computed, is spelt by one
token of the text. A part is keyed if this holds of every named member in it (`Part.Keyed`).
-/

namespace WidgetLint.Script

open Text

/-- The key that a token spells. -/
def TokenBody.key? : TokenBody → Option Key
  | .string value => some (.string value)
  | .number value => some (.number value)
  | body => body.memberName?.map .ident

/-- The token may stand before the key of a member. -/
def Token.announces (t : Token) : Bool :=
  t.isWord "get" || t.isWord "set" || t.isWord "async" || t.isSymbol .star

/-- The token is one of those that the text is cut into. -/
def Token.Of (text : List Char) (t : Token) : Prop :=
  ∃ tokens, tokenize (String.ofList text) .first = .ok tokens ∧ t ∈ tokens.items

/-- The token stands at a place, or a token stands there that announces what follows and ends before
this one. -/
def Token.FollowsAt (text : List Char) (place : Position) (t : Token) : Prop :=
  t.span.start = place ∨ ∃ lead : Token, lead.Of text ∧ lead.announces = true ∧
    lead.span.start = place ∧ lead.span.stop.offset ≤ t.span.start.offset

/-- Unless the key is computed, it is spelt by a token of the text, and the member begins at the place
with that token or with what announces it. -/
def Key.SpeltAt (text : List Char) (place : Position) (key : Key) : Prop :=
  key.name? ≠ none → ∃ t : Token, t.Of text ∧ t.body.key? = some key ∧ t.FollowsAt text place

/-- A named member begins with its key. -/
def Part.KeyedAt (text : List Char) (place : Position) : Part → Prop
  | named _ key _ => key.SpeltAt text place
  | _ => True

/-- All named members in a part begin with their keys. -/
inductive Part.Keyed (text : List Char) : Part → Prop
  | mk {p : Part} : p.KeyedAt text p.span.start → (∀ q ∈ p.parts, q.Keyed text) → p.Keyed text

variable {text : List Char}

theorem Part.Keyed.here {p : Part} (h : p.Keyed text) : p.KeyedAt text p.span.start := by
  cases h with
  | mk hhere _ => exact hhere

theorem Part.Keyed.parts {p : Part} (h : p.Keyed text) : ∀ q ∈ p.parts, q.Keyed text := by
  cases h with
  | mk _ hparts => exact hparts

theorem TokenBody.key?_of_memberName? {body : TokenBody} {name : String}
    (h : body.memberName? = some name) : body.key? = some (.ident name) := by
  cases body with
  | word | boolean | null => exact congrArg (Option.map Key.ident) h
  | _ => cases h

theorem TokenBody.ne_eof_of_key? {body : TokenBody} {key : Key} (h : body.key? = some key) :
    body ≠ .eof := by
  rintro rfl
  cases h

theorem Token.ne_eof_of_announces {t : Token} (h : t.announces = true) : t.body ≠ .eof := by
  intro hbody
  simp [announces, isWord, isSymbol, hbody] at h

end WidgetLint.Script
