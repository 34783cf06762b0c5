import TenantRegistry.Yaml.Token.Basic

/-!
Plain scalars: text without quotes, over one or several lines.

A plain scalar ends at `: `, at ` #`, at a document mark, at a line indented no deeper than the
collection around it and, between brackets, at a comma or bracket.
-/

namespace TenantRegistry.Yaml.Plain

/-- The characters that end a plain scalar between brackets. -/
def isFlowStop (c : Char) : Bool :=
  c == ',' || c == '[' || c == ']' || c == '{' || c == '}'

/-- Reads a run without gaps. None for a colon that touches a bracket, a comma or a question
mark between brackets. -/
def run (flow : Bool) : (budget : List Char) → Cursor → Option (List Char × Cursor)
  | [], cur => some ([], cur)
  | _ :: budget, cur =>
    match cur.rest with
    | [] => some ([], cur)
    | c :: rest =>
      if isBlankChar c || isBreakChar c then some ([], cur)
      else if flow && c == ':' && (rest.head?.any fun d => isFlowStop d || d == '?') then none
      else if (c == ':' && atGap rest) || (flow && isFlowStop c) then some ([], cur)
      else do
        let (text, cur) ← run flow budget cur.skip
        return (c :: text, cur)

/-- The text of a plain scalar from some place on, where it stops, and the gap after it. -/
structure Extent where
  text : List Char
  stop : Mark
  gap : Gap

/-- Reads runs and gaps in turn, after a gap and text that stops at `stop`. -/
def runs (flow : Bool) (indent : Int) : (budget : List Char) → (gap : Gap) → (stop : Mark) →
    Cursor → Option (Extent × Cursor)
  | [], gap, stop, cur => some (⟨[], stop, gap⟩, cur)
  | _ :: budget, gap, stop, cur => do
    if cur.atDocumentMark '-' || cur.atDocumentMark '.' || atChar '#' cur.rest then
      return (⟨[], stop, gap⟩, cur)
    let (text, after) ← run flow cur.rest cur
    let here : Extent :=
      if text.isEmpty then ⟨[], stop, gap⟩ else ⟨gap.text ++ text, after.mark, Gap.empty false⟩
    unless atBlank after.rest || atBreak after.rest do
      return (here, after)
    let (gap, after) ← Gap.read indent after.rest here.gap after
    if !flow && after.mark.column < indent then
      return ({ here with gap := gap }, after)
    let (later, after) ← runs flow indent budget gap here.stop after
    return ({ later with text := here.text ++ later.text }, after)

/-- A plain scalar that stands in a collection indented by `indent`. Also told is whether a
line break follows it, after which a key may start. -/
def scan (flow : Bool) (indent : Int) (cur : Cursor) : Option (Token × Bool × Cursor) := do
  let (e, after) ← runs flow (indent + 1) cur.rest (Gap.empty false) cur.mark cur
  return (⟨cur.mark, e.stop, .scalar .plain e.text⟩, e.gap.broken, after)

end TenantRegistry.Yaml.Plain
