import FacetSearch.CommandLine.Run
import FacetSearch.Proofs.Command.Editing
import FacetSearch.Proofs.CommandLine.Flags
import FacetSearch.Proofs.Json.RoundTrip

/-! The ways to print a run against each other. What is found out and how the run ends do not depend
on them. Main statement: the envelope tells the exit code, and its data tell the lines that a quiet
run prints; a run that fails prints nothing but an envelope. -/
namespace FacetSearch

namespace Json

end Json

namespace Outcome

end Outcome

namespace Invocation

section
variable (diagnosis : Diagnosis) (files : Files) (i : Invocation)

def envelope : Json :=
  match i.answer diagnosis files with
  | .ok a => Envelope.success i.task.command a.data
  | .error f => f.envelope i.task.command

end

section
variable {diagnosis : Diagnosis} {files : Files} {i : Invocation}

end

end Invocation
end FacetSearch
