/-! Command lines as invocations. Options that hold for all commands may stand before or behind the
name of the command, each once on either side. -/
namespace FacetSearch

inductive Task where
  | classify (taxonomy : String)
  | walk (query : String)
  | inspect (taxonomy vocabulary : String) (query path : Option String)
  | edit (taxonomy vocabulary : String) (operator : Option String) (values : List String)
      (query path : Option String)
  | build (taxonomy : String) (query path : Option String)
  | schema
  deriving DecidableEq, Repr

def Task.command : Task → String
  | classify _ => "classify"
  | walk _ => "walk"
  | inspect _ _ _ _ => "show"
  | edit _ _ _ _ _ _ => "set"
  | build _ _ _ => "build"
  | schema => "schema"

def Task.taxonomyFile? : Task → Option String
  | classify taxonomy | inspect taxonomy _ _ _ | edit taxonomy _ _ _ _ _ | build taxonomy _ _ =>
    some taxonomy
  | walk _ | schema => none

structure Invocation where
  quiet : Bool
  json : Bool
  settingsPath : Option String
  task : Task
  deriving DecidableEq, Repr

namespace Invocation

structure Given where
  quiet : Bool
  json : Bool
  options : List (String × String)
  others : List String
  deriving DecidableEq, Repr

namespace Given

def none : Given := ⟨false, false, [], []⟩

def option? (g : Given) (name : String) : Option String :=
  g.options.lookup name

def values (g : Given) (name : String) : List String :=
  (g.options.filter (·.1 = name)).map (·.2)

def setQuiet (g : Given) : Option Given :=
  if g.quiet then Option.none else some { g with quiet := true }

def setJson (g : Given) : Option Given :=
  if g.json then Option.none else some { g with json := true }

/-- Only `--value` may be given more than once, and the settings must not be at the empty path. -/
def setOption (g : Given) (name value : String) : Option Given :=
  if (name ≠ "value" ∧ (g.option? name).isSome) ∨ (name = "config" ∧ value = "") then Option.none
  else some { g with options := g.options ++ [(name, value)] }

def add (g : Given) (arguments : List String) : Given :=
  { g with others := g.others ++ arguments }

def letters (g : Given) : List Char → Option Given
  | [] => some g
  | 'q' :: rest => do (← g.setQuiet).letters rest
  | 'v' :: rest => g.letters rest
  | _ => Option.none

def longFlag? (g : Given) (name : String) : Option (Option Given) :=
  if name = "quiet" then some g.setQuiet
  else if name = "json" then some g.setJson
  else if name = "verbose" then some (some g)
  else Option.none

end Given

inductive Argument where
  | plain
  | endOfOptions
  | long (name : String) (value : Option String)
  | short (letters : List Char)
  deriving DecidableEq, Repr

def argument (s : String) : Argument :=
  match s.toList with
  | ['-', '-'] => .endOfOptions
  | '-' :: '-' :: rest =>
    let name := String.ofList (rest.takeWhile (· != '='))
    match rest.dropWhile (· != '=') with
    | _ :: value => .long name (some (String.ofList value))
    | [] => .long name none
  | '-' :: c :: rest => .short (c :: rest)
  | _ => .plain

/-- Reads the arguments on one side of the command name. Before it, the first plain argument ends
the side; behind it, plain arguments are collected. -/
def side (options : List String) (before : Bool) : Given → List String → Option (Given × List String)
  | g, [] => some (g, [])
  | g, s :: rest => match argument s with
    | .plain => if before then some (g, s :: rest) else side options before (g.add [s]) rest
    | .endOfOptions => if before then none else some (g.add rest, [])
    | .short letters => do side options before (← g.letters letters) rest
    | .long name value => match g.longFlag? name, value with
      | some flagged, none => do side options before (← flagged) rest
      | some _, some _ => none
      | none, some value =>
        if name ∈ options then do side options before (← g.setOption name value) rest else none
      | none, none => match rest with
        | value :: rest =>
          if name ∈ options ∧ argument value = .plain then do
            side options before (← g.setOption name value) rest
          else none
        | [] => none

def optionsOf? : String → Option (List String)
  | "classify" | "walk" | "schema" => some []
  | "show" | "build" => some ["query", "prefix"]
  | "set" => some ["operator", "value", "query", "prefix"]
  | _ => none

def task? (command : String) (g : Given) : Option Task :=
  match command, g.others with
  | "classify", [taxonomy] => if taxonomy = "" then none else some (.classify taxonomy)
  | "walk", [query] => some (.walk query)
  | "show", [taxonomy, vocabulary] =>
    if taxonomy = "" then none
    else some (.inspect taxonomy vocabulary (g.option? "query") (g.option? "prefix"))
  | "set", [taxonomy, vocabulary] =>
    if taxonomy = "" then none
    else some (.edit taxonomy vocabulary (g.option? "operator") (g.values "value")
      (g.option? "query") (g.option? "prefix"))
  | "build", [taxonomy] =>
    if taxonomy = "" then none
    else some (.build taxonomy (g.option? "query") (g.option? "prefix"))
  | "schema", [] => some .schema
  | _, _ => none

/-- The path of the settings. A side without one asks the environment, whose path must not be empty;
what is given behind the command name comes first. -/
def settingsPath? (environment : Option String) (before behind : Option String) :
    Option (Option String) :=
  if environment = some "" ∧ (before = none ∨ behind = none) then none
  else some ((behind.or before).or environment)

def ofArguments? (environment : Option String) (arguments : List String) : Option Invocation := do
  let (before, rest) ← side ["config"] true .none arguments
  let command ← rest.head?
  let (behind, _) ← side ("config" :: (← optionsOf? command)) false .none rest.tail
  let path ← settingsPath? environment (before.option? "config") (behind.option? "config")
  some ⟨before.quiet || behind.quiet, before.json || behind.json, path, ← task? command behind⟩

end Invocation
end FacetSearch
