import RuleSchema.Json.Pointer
import RuleSchema.ShapeError
import RuleSchema.Text.Blank
/-! Dotted paths to fields. A path is its segments, root first; there is at least one and
none is empty. -/
namespace RuleSchema

structure FieldPath where
  segments : List String
  nonempty : segments ≠ []
  named : ∀ s ∈ segments, s ≠ ""
  deriving DecidableEq, Repr

namespace FieldPath

/-- The path as it is written, with dots between segments. -/
def text (p : FieldPath) : String := Text.joined '.' p.segments

/-- Top-level property the path lives under. -/
def head (p : FieldPath) : String := p.segments.head p.nonempty

def leaf (p : FieldPath) : String := p.segments.getLast p.nonempty

def pointer (p : FieldPath) : String := Pointer.ofTokens p.segments

theorem fieldsNonempty (mark : Char) (s : String) : Text.fields mark s ≠ [] := by
  simp [Text.fields, Text.fieldCharsNonempty]

/-- The path of a text without blanks around it. -/
def ofText (trimmed : String) : Except ShapeError FieldPath :=
  if named : ∀ s ∈ Text.fields '.' trimmed, s ≠ "" then
    .ok ⟨Text.fields '.' trimmed, fieldsNonempty '.' trimmed, named⟩
  else .error (.emptySegment trimmed)

def parse (raw : String) : Except ShapeError FieldPath :=
  if Text.trim raw = "" then .error .emptyField else ofText (Text.trim raw)

theorem segmentsOfText {t : String} {p : FieldPath} (h : ofText t = .ok p) :
    p.segments = Text.fields '.' t := by
  unfold ofText at h
  split at h
  · injection h with h
    rw [← h]
  · contradiction

/-- A parsed path is written as its trimmed source. -/
theorem parsedText {raw : String} {p : FieldPath} (h : parse raw = .ok p) :
    p.text = Text.trim raw := by
  unfold parse at h
  split at h
  · contradiction
  · rw [text, segmentsOfText h, Text.joinedFields]

end FieldPath

end RuleSchema
