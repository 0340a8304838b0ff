import FacetSearch.CommandLine.Run

/-! The program: it reads the files that its arguments name, runs and prints. -/
namespace FacetSearch.Program

def usage : List String :=
  ["Usage: facet-query [-q] [-v] [--json] [--config PATH] COMMAND", "",
    "  classify TAXONOMY", "  walk QUERY",
    "  show TAXONOMY VOCABULARY [--query QUERY] [--prefix PREFIX]",
    "  set TAXONOMY VOCABULARY [--operator OPERATOR] [--value VALUE]...",
    "      [--query QUERY] [--prefix PREFIX]",
    "  build TAXONOMY [--query QUERY] [--prefix PREFIX]", "  schema"]

def faultOf : IO.Error → FileFault
  | .noFileOrDirectory _ _ _ => .notFound
  | .inappropriateType _ code _ => if code = 21 then .isDirectory else .notDirectory
  | error => .other error.toString

def readFile (path : String) : IO (Except FileFault String) := do
  try
    let bytes ← IO.FS.readBinFile path
    return match String.fromUTF8? bytes with
      | some text => .ok text
      | none => .error .notText
  catch error => return .error (faultOf error)

def isPresent (path : String) : IO Bool := do
  try
    let _ ← IO.FS.realPath path
    return true
  catch _ => return false

def readFiles (paths : List String) : IO Files := do
  let found ← paths.mapM fun path => return (path, ← isPresent path, ← readFile path)
  return {
    present := fun path => (found.lookup path).any (·.1)
    read := fun path => ((found.lookup path).map (·.2)).getD (.error .notFound) }

/-- The readers tell that a text is refused, but not why. -/
def diagnosis : Diagnosis :=
  ⟨fun _ => "not a settings document", fun _ => "not a taxonomy document"⟩

def run (arguments : List String) : IO UInt32 := do
  match Invocation.ofArguments? (← IO.getEnv "FACET_QUERY_CONFIG") arguments with
  | none =>
    IO.eprint (Outcome.text usage)
    return ExitCode.invalidArgument.number.toUInt32
  | some i =>
    let outcome := i.run diagnosis (← readFiles i.paths)
    IO.print outcome.output
    if let some error := outcome.error then IO.eprintln error
    return outcome.exit.number.toUInt32

end FacetSearch.Program

def main (arguments : List String) : IO UInt32 :=
  FacetSearch.Program.run arguments
