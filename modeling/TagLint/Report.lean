import TagLint.Files.Path
import TagLint.Json
import TagLint.Lint

/-!
# Reports

The three forms in which findings are written: lines for people (`compactReport`), one record an item
with the text that each finding covers (`labelledReport`), and data (`FileDiagnostics.toJson`).
-/

namespace TagLint

/-! ## Compact text -/

/-- The note about the fix of a finding. -/
def fixNote (d : Diagnostic) : String :=
  match d.fix with
  | some fix => " (fix: " ++ fix.message ++ ")"
  | none => ""

/-- The line of one finding. -/
def compactLine (d : Diagnostic) : String :=
  "  " ++ d.span.start.display ++ " " ++ d.severity.name ++ " [" ++ d.kind.name ++ "] " ++ d.message
    ++ fixNote d

/-- The lines of one item: its place, its title, its findings and an empty line. -/
def compactItem (sourceName : String) (item : ItemDiagnostics) : String :=
  String.join
    (([sourceName ++ ":" ++ item.span.start.display, item.title]
        ++ item.diagnostics.map compactLine ++ [""]).map (· ++ "\n"))

/-- The lines of all items of a file. -/
def compactReport (sourceName : String) (items : List ItemDiagnostics) : String :=
  String.join (items.map (compactItem sourceName))

/-! ## Labelled source -/

/-- The name of a severity in labelled reports. -/
def Severity.rubric : Severity → String
  | .info => "Advice"
  | .warning => "Warning"
  | .error => "Error"

/-- The gravest severity among some findings. -/
def gravest (ds : List Diagnostic) : Severity :=
  (ds.map (·.severity)).foldl max .info

/-- A finding with the text that it covers. -/
def labelJson (contents : List Char) (d : Diagnostic) : Json :=
  let start := d.span.start.utf8
  let stop := d.span.stop.utf8
  .obj [
    ("label", .str (d.severity.name ++ ": " ++ d.message ++ fixNote d)),
    ("len", .nat (stop - start)),
    ("offset", .nat start),
    ("text", .str (String.ofList ((Text.slice? contents start stop).getD [])))]

/-- The record of one item, on a line of its own. -/
def labelledItem (sourceName : String) (contents : List Char) (item : ItemDiagnostics) : String :=
  (Json.obj [
    ("labels", .arr (item.diagnostics.map (labelJson contents))),
    ("message", .str item.title),
    ("severity", .str (gravest item.diagnostics).rubric),
    ("source", .str sourceName)]).compact ++ "\n"

/-- The records of all items of a file. -/
def labelledReport (sourceName : String) (contents : List Char) (items : List ItemDiagnostics) :
    String :=
  String.join (items.map (labelledItem sourceName contents))

/-- How a file is called in reports: by its path below the working directory, or by its whole path
if it lies elsewhere. -/
def sourceName (root path : String) : String :=
  match Files.relativeTo? path.toList root.toList with
  | some rest => String.ofList rest
  | none => path

/-- The text report of one file. -/
def textReport (root : String) (contents : String) (compact : Bool) (file : FileDiagnostics) :
    String :=
  let name := sourceName root file.path
  if compact then compactReport name file.items
  else labelledReport name contents.toList file.items

/-! ## Data -/

/-- A position as data. -/
def Position.toJson (p : Position) : Json :=
  .obj [("utf8", .nat p.utf8), ("utf16", .nat p.utf16), ("line", .nat p.line),
    ("column", .nat p.column)]

/-- A span as data. -/
def Span.toJson (s : Span) : Json :=
  .obj [("start", s.start.toJson), ("end", s.stop.toJson)]

/-- A fix as data. -/
def Fix.toJson (f : Fix) : Json :=
  .obj [("message", .str f.message), ("remove", f.remove.toJson)]

/-- A finding as data. The field of the fix is there only if the fix is. -/
def Diagnostic.toJson (d : Diagnostic) : Json :=
  .obj ([("kind", .str d.kind.name), ("severity", .str d.severity.name),
      ("message", .str d.message), ("span", d.span.toJson)]
    ++ (d.fix.map fun f => ("fix", f.toJson)).toList)

/-- The findings of an item as data. -/
def ItemDiagnostics.toJson (item : ItemDiagnostics) : Json :=
  .obj [("item_type", .str item.itemType.display), ("name", .str item.name),
    ("span", item.span.toJson), ("diags", .arr (item.diagnostics.map (·.toJson)))]

/-- The findings of a file as data. -/
def FileDiagnostics.toJson (file : FileDiagnostics) : Json :=
  .obj [("path", .str file.path), ("items", .arr (file.items.map (·.toJson)))]

end TagLint
