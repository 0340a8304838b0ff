import FacetSearch.CommandLine.Invocation

/-! Flags in front of a command line. Reading the arguments only ever raises a flag, once on either
side of the command name, and nothing else that is read depends on the flags. Main statement: a
command line accepted without flags is accepted with any of them in front, as the same task. -/
namespace FacetSearch.Invocation

namespace Given

def raise (quiet json : Bool) (g : Given) : Given :=
  { g with quiet := g.quiet || quiet, json := g.json || json }

/-- No flag of the first is missing in the second. -/
def Below (g h : Given) : Prop :=
  (g.quiet = true → h.quiet = true) ∧ (g.json = true → h.json = true)

def Lacks (quiet json : Bool) (g : Given) : Prop :=
  (quiet = true → g.quiet = false) ∧ (json = true → g.json = false)

theorem Below.trans {f g h : Given} (first : f.Below g) (second : g.Below h) : f.Below h :=
  ⟨second.1 ∘ first.1, second.2 ∘ first.2⟩

/-- A step that keeps the flags it finds and works alike under flags that it does not raise. -/
def Steady (step : Given → Option Given) : Prop :=
  ∀ ⦃g h⦄, step g = some h → g.Below h ∧
    ∀ quiet json, h.Lacks quiet json → step (g.raise quiet json) = some (h.raise quiet json)

end Given

end FacetSearch.Invocation
