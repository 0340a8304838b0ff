import FacetSearch.Command.Basic
import FacetSearch.CommandLine.Invocation

/-! Running an invocation on some files. How a run ends and what it finds out do not depend on the
way it is printed: as one envelope, as lines of results and comments, or as the results alone. -/
namespace FacetSearch

inductive FileFault where
  | notFound
  | isDirectory
  /-- The path goes on behind a file. -/
  | notDirectory
  | notText
  | other (text : String)
  deriving DecidableEq, Repr

namespace FileFault

def text : FileFault → String
  | notFound => "No such file or directory (os error 2)"
  | isDirectory => "Is a directory (os error 21)"
  | notDirectory => "Not a directory (os error 20)"
  | notText => "stream did not contain valid UTF-8"
  | other text => text

end FileFault

/-- Whether something is there by a path is told apart from whether it can be read: of a path that
goes through a locked directory both are denied, of a locked file only the second. -/
structure Files where
  present : String → Bool
  read : String → Except FileFault String

/-- What the readers of the formats say of a text that they refuse. -/
structure Diagnosis where
  settings : String → String
  taxonomy : String → String

inductive Failure where
  | settingsFile (path : String) (fault : FileFault)
  | settingsFormat (path detail : String)
  | taxonomyFile (path : String) (fault : FileFault)
  | taxonomyFormat (path detail : String)
  | command (error : CommandError)
  deriving DecidableEq, Repr

namespace Failure

def headline : Failure → String
  | settingsFile path _ => "Failed to read " ++ path
  | settingsFormat path _ => "Failed to parse " ++ path
  | taxonomyFile path _ => "Failed to read taxonomy file " ++ path
  | taxonomyFormat path _ => "Invalid taxonomy file " ++ path
  | command e => e.message

/-- What led to a failure, the nearest cause first. -/
def causes : Failure → List String
  | settingsFile _ fault | taxonomyFile _ fault => [fault.text]
  | settingsFormat _ detail => [detail]
  | taxonomyFormat _ detail => ["Failed to parse taxonomy JSON", detail]
  | command (.query e) => [e.message]
  | command _ => []

def message (f : Failure) : String :=
  String.intercalate ": " (f.headline :: f.causes)

def fileCode : FileFault → String
  | .notFound => "FILE_NOT_FOUND"
  | _ => "IO_ERROR"

def code : Failure → String
  | settingsFile _ fault | taxonomyFile _ fault => fileCode fault
  | settingsFormat _ _ | taxonomyFormat _ _ => "PARSE_ERROR"
  | command e => e.code

def suggestions : Failure → List String
  | command (.vocabularyNotFound _) =>
    ["Run 'facet-query classify <TAXONOMY>' to list vocabularies"]
  | _ => []

def envelope (command : String) (f : Failure) : Json :=
  Envelope.failure command f.code f.message f.suggestions

end Failure

inductive Answer where
  | classified (name : String) (list : List Classification)
  | leaves (list : List Query)
  | criterion (report : Report)
  | built (report : BuildReport)
  | schema
  deriving DecidableEq, Repr

namespace Answer

def data : Answer → Json
  | classified _ list => .array (list.map Classification.toJson)
  | leaves list =>
    Json.sorted (.object [("leaves", .array (list.map Query.toJson)),
      ("text", Json.strings (list.map Query.render))])
  | criterion report => report.toJson
  | built report => report.toJson
  | schema => Schema.taxonomy

def kindColumn (c : Classification) : String :=
  c.name ++ "\t" ++ (c.kind?.map Kind.label).getD "-"

def lines : Answer → List String
  | classified _ list => list.map kindColumn
  | leaves list => list.map Query.render
  | criterion report => [report.query]
  | built report => report.query.toList
  | schema => [Schema.taxonomy.pretty]

def comments : Answer → List String × List String
  | classified name list => ([name ++ ": " ++ toString list.length ++ " vocabularies"], [])
  | criterion report =>
    ([], [report.kind.label ++ " [" ++ report.operator.name ++ "] " ++ report.display])
  | built report => match report.query? with
    | some _ => ([], ["Criteria: " ++ report.display])
    | none => ([], ["No active criteria"])
  | leaves _ | schema => ([], [])

def printed (quiet : Bool) (a : Answer) : List String :=
  if quiet then a.lines else a.comments.1 ++ a.lines ++ a.comments.2

end Answer

namespace Invocation

def defaultSettingsPath : String := "facet-query.toml"

def settingsFile (i : Invocation) : String :=
  i.settingsPath.getD defaultSettingsPath

def paths (i : Invocation) : List String :=
  i.settingsFile :: i.task.taxonomyFile?.toList

/-- Without a settings file the settings are the default ones. -/
def readSettings (diagnosis : Diagnosis) (files : Files) (path : String) :
    Except Failure Settings :=
  if files.present path then
    match files.read path with
    | .ok text => match Settings.read? text with
      | some settings => .ok settings
      | none => .error (.settingsFormat path (diagnosis.settings text))
    | .error fault => .error (.settingsFile path fault)
  else .ok .default

def readTaxonomy (diagnosis : Diagnosis) (files : Files) (path : String) :
    Except Failure Taxonomy :=
  match files.read path with
  | .ok text => match Taxonomy.read? text with
    | some t => .ok t
    | none => .error (.taxonomyFormat path (diagnosis.taxonomy text))
  | .error fault => .error (.taxonomyFile path fault)

def perform (diagnosis : Diagnosis) (files : Files) (s : Settings) : Task → Except Failure Answer
  | .classify taxonomy => do
    let t ← readTaxonomy diagnosis files taxonomy
    .ok (.classified t.name (Command.classify t))
  | .walk query => do .ok (.leaves (← (Command.walk query).mapError .command))
  | .inspect taxonomy vocabulary query path => do
    let t ← readTaxonomy diagnosis files taxonomy
    .ok (.criterion (← (Command.inspect s t vocabulary query path).mapError .command))
  | .edit taxonomy vocabulary operator values query path => do
    let t ← readTaxonomy diagnosis files taxonomy
    let report := Command.edit s t vocabulary query operator values path
    .ok (.criterion (← report.mapError .command))
  | .build taxonomy query path => do
    let t ← readTaxonomy diagnosis files taxonomy
    .ok (.built (← (Command.build s t query path).mapError .command))
  | .schema => .ok .schema

def answer (diagnosis : Diagnosis) (files : Files) (i : Invocation) : Except Failure Answer := do
  perform diagnosis files (← readSettings diagnosis files i.settingsFile) i.task

end Invocation

structure Outcome where
  exit : ExitCode
  output : String
  error : Option String
  deriving DecidableEq, Repr

namespace Outcome

def text (lines : List String) : String :=
  String.join (lines.map (· ++ "\n"))

def ofAnswer (i : Invocation) (a : Answer) : Outcome :=
  if i.json then ⟨.success, text [(Envelope.success i.task.command a.data).pretty], none⟩
  else ⟨.success, text (a.printed i.quiet), none⟩

def ofFailure (i : Invocation) (f : Failure) : Outcome :=
  if i.json then ⟨exitOfCode f.code, text [(f.envelope i.task.command).pretty], none⟩
  else ⟨exitOfCode f.code, "", some ("Error: " ++ f.message)⟩

end Outcome

def Invocation.run (diagnosis : Diagnosis) (files : Files) (i : Invocation) : Outcome :=
  match i.answer diagnosis files with
  | .ok a => .ofAnswer i a
  | .error f => .ofFailure i f

end FacetSearch
