import LinkedViews.Decode.Record
import LinkedViews.Span

/-!
Spans and links as JSON.
-/

namespace LinkedViews

namespace Span

def shape : Shape := ⟨"RawOffsetRange", 2⟩

/-- The bounds may be given in either order. -/
def decode : Json → Decode.Result Span
  | .obj members => do
    let stop ← Decode.field? members "end" Decode.offset
    let start ← Decode.field? members "start" Decode.offset
    return between (← Decode.require "start" start) (← Decode.require "end" stop)
  | .arr items => do
    let start ← Decode.element shape items 0 Decode.offset
    let stop ← Decode.element shape items 1 Decode.offset
    Decode.close shape items
    return between start stop
  | v => .error (.wrongType v (.record shape))

def toJson (s : Span) : Json := .obj [("end", .unsigned s.stop), ("start", .unsigned s.start)]

theorem decode_toJson {s : Span} (h : s.start ≤ s.stop) : decode s.toJson = .ok s := by
  show Except.ok (between s.start s.stop) = _
  rw [between, if_pos h]

end Span

namespace Link

def shape : Shape := ⟨"RangeEntry", 2⟩

def decode : Json → Decode.Result Link
  | .obj members => do
    let source ← Decode.field? members "source" Span.decode
    let targets ← Decode.field? members "targets" (Decode.sequence Span.decode)
    return ⟨← Decode.require "source" source, targets.getD []⟩
  | .arr items => do
    let source ← Decode.element shape items 0 Span.decode
    let targets ← Decode.elementOr [] items 1 (Decode.sequence Span.decode)
    Decode.close shape items
    return ⟨source, targets⟩
  | v => .error (.wrongType v (.record shape))

def toJson (l : Link) : Json :=
  .obj [("source", l.source.toJson), ("targets", .arr (l.targets.map Span.toJson))]

end Link

end LinkedViews
