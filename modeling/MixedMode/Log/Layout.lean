import MixedMode.Json.Record
import MixedMode.Log.Event
import MixedMode.Text.Quoted
/-!
# Layouts — how an event is written

`compact` is the level, the message and the fields; `json` is an object per event; `pretty` names the target as well
and sets the fields off with commas.  No layout here writes a time or a place.  A message with line breaks takes
several lines.
-/
namespace MixedMode

inductive Layout where
  | pretty
  | compact
  | json
  deriving DecidableEq, Repr

namespace Layout

instance : Inhabited Layout := ⟨compact⟩

def levelColumn (l : Level) : String := String.ofList (List.replicate (5 - l.name.length) ' ') ++ l.name

def valueText : FieldValue → String
  | .number n => toString n
  | .text s   => Text.quoted s
  | .bare s   => s

/-- A message as a line of text shows it: without the control characters that a terminal would obey. -/
def shown (message : String) : String :=
  let byNumber (c : Char) : List Char := ['\\', 'u', '\x7b'] ++ Text.hex c.toNat ++ ['\x7d']
  let char (c : Char) : List Char :=
    if c.toNat = 0x1B then "\\x1b".toList
    else if c.toNat = 0x07 then "\\x07".toList
    else if c.toNat = 0x08 then "\\x08".toList
    else if c.toNat = 0x0C then "\\x0c".toList
    else if c.toNat = 0x7F then "\\x7f".toList
    else if 0x80 ≤ c.toNat && c.toNat ≤ 0x9F then byNumber c
    else [c]
  String.ofList (message.toList.flatMap char)

def valueJson : FieldValue → Json
  | .number n => .number (toString n).toList
  | .text s   => .ofString s
  | .bare s   => .ofString s

def eventJson (e : Event) : Json :=
  .ofFields [("level", .ofString e.level.name),
    ("fields", .ofFields (("message", .ofString e.message) :: e.fields.map fun (name, v) => (name, valueJson v))),
    ("target", .ofString e.target)]

def write : Layout → Event → String
  | compact, e =>
    " ".intercalate (s!"{levelColumn e.level} {shown e.message}" ::
      e.fields.map fun (name, v) => s!"{name}={valueText v}")
  | pretty, e =>
    ", ".intercalate (s!"{levelColumn e.level} {e.target}: {shown e.message}" ::
      e.fields.map fun (name, v) => s!"{name}: {valueText v}")
  | json, e => (eventJson e).compact

end Layout
end MixedMode
