import WidgetLint.Check.Validation
import WidgetLint.Proofs.Printing.Data

/-!
# Values that are the default

A value is compared with the documented default by what the two are printed like. **If both are
data, there is a warning exactly if they are the same** up to positions and to the quotes around
words that are keys (`sameAsDefault?_iff_sameData`).
-/

namespace WidgetLint.Check

open Text Script Schema Number

/-- **A value that is data is reported exactly if it is the default**, if the default is data too. -/
theorem sameAsDefault?_iff_sameData {d : Descriptor} {entry : Entry} {text : String}
    {default : Expr} (htext : d.defaultText = some text)
    (hread : parseExpression text = .ok default) (hdefault : default.IsData)
    (hvalue : entry.value.IsData) :
    (∃ found, sameAsDefault? d entry = some found ∧ found.severity = .warning) ↔
      default.SameData entry.value := by
  have hcompared : sameAsDefault? d entry = if default.text = entry.value.text then
      some (.spanning .warning ("Passed value for option " ++ d.displayName ++
        " is the same as default value: " ++ default.text) entry.position entry.length)
      else none := by
    rw [sameAsDefault?, htext, Option.map_some, hread]
  rw [hcompared, ← hdefault.text_eq_iff hvalue]
  by_cases hsame : default.text = entry.value.text
  · rw [if_pos hsame]
    exact ⟨fun _ => hsame, fun _ => ⟨_, rfl, rfl⟩⟩
  · rw [if_neg hsame]
    exact ⟨fun ⟨_, hfound, _⟩ => (Option.some_ne_none _ hfound.symm).elim, fun h => absurd h hsame⟩

/-! ## Margins -/

def marginOption : Descriptor :=
  ⟨"margin", none, [.object], some "\x7b \"top\": [, -1] \x7d", []⟩

/-- Margins with a key for the top, each part of them at its place. -/
def margins (s t u v w : Span) (key : Key) : Expr :=
  .object s [.named t .pair key (.array u [none, some (.unary v .neg (.number w (.ofNat 1)))])]

theorem isData_margins (s t u v w : Span) {key : Key} (h : key.IsData) :
    (margins s t u v w key).IsData := by
  refine .object s (fun member hmember => ?_) fun member hmember => ?_
  · obtain rfl := List.mem_singleton.1 hmember
    exact h
  · obtain rfl := List.mem_singleton.1 hmember
    refine .array u fun e he => ?_
    obtain rfl : e = .unary v .neg (.number w (.ofNat 1)) := by simpa using he
    exact .negative v w ⟨1, by decide, rfl⟩

theorem parseExpression_marginShape : (match parseExpression "\x7b \"top\": [, -1] \x7d" with
    | .ok (.object _ [.named _ .pair (.string top)
        (.array _ [none, some (.unary _ .neg (.number _ value))])]) =>
      decide (top = "top" ∧ value = .ofNat 1)
    | _ => false) = true := by decide +kernel

theorem parseExpression_margins : ∃ s t u v w, parseExpression "\x7b \"top\": [, -1] \x7d" =
    .ok (margins s t u v w (.string "top")) := by
  have hshape := parseExpression_marginShape
  split at hshape
  · rename_i hparse
    obtain ⟨hkey, hvalue⟩ := of_decide_eq_true hshape
    rw [hparse, hkey, hvalue]
    exact ⟨_, _, _, _, _, rfl⟩
  · cases hshape

/-- The entry of margins that leave out the quotes around their key. -/
def marginEntry : Entry :=
  ⟨"margin", margins ⟨.first, .first⟩ ⟨.first, .first⟩ ⟨.first, .first⟩ ⟨.first, .first⟩
    ⟨.first, .first⟩ (.ident "top"), .first, 6⟩

/-- Margins without the quotes of the default are reported as the default. -/
theorem sameAsDefault?_margins : ∃ default,
    parseExpression "\x7b \"top\": [, -1] \x7d" = .ok default ∧ default.IsData ∧
      marginEntry.value.IsData ∧ default.SameData marginEntry.value ∧
      ∃ found, sameAsDefault? marginOption marginEntry = some found ∧ found.severity = .warning := by
  have hword : isWordText "top" = true := by
    simp [isWordText, isWordStart_ascii, isWordPart_ascii]
  have hvalue : marginEntry.value.IsData := @isData_margins _ _ _ _ _ (.ident "top") hword
  obtain ⟨s, t, u, v, w, hparse⟩ := parseExpression_margins
  have hdefault : (margins s t u v w (.string "top")).IsData := isData_margins s t u v w trivial
  have hsame : (margins s t u v w (.string "top")).SameData marginEntry.value := by
    simp only [Expr.SameData, marginEntry, margins, Expr.relabel, relabelMembers, Member.relabel,
      Key.relabel, Relabeling.plain, hword, if_true]
    rfl
  exact ⟨_, hparse, hdefault, hvalue, hsame,
    (sameAsDefault?_iff_sameData rfl hparse hdefault hvalue).2 hsame⟩

end WidgetLint.Check
