import FacetSearch.Taxonomy.Basic
import FacetSearch.Toml.Document

/-! Settings of the commands, read from TOML documents. Both sections and their entries may be
missing; other keys do not matter. A section is a table, or an array that begins with its one entry;
a moment stands for a section without entries. -/
namespace FacetSearch

structure QuerySettings where
  taxonomyPrefix? : Option String
  deriving DecidableEq, Repr

structure DisplaySettings where
  locale? : Option String
  deriving DecidableEq, Repr

structure Settings where
  query? : Option QuerySettings
  display? : Option DisplaySettings
  deriving DecidableEq, Repr

namespace Settings

def default : Settings := ⟨none, none⟩

def pathPrefix (s : Settings) (t : Taxonomy) : String :=
  (s.query?.bind QuerySettings.taxonomyPrefix?).getD t.name

def locale? (s : Settings) : Option String :=
  s.display?.bind DisplaySettings.locale?

def localizer (s : Settings) : Localizer :=
  match s.locale? with
  | some locale => .preferring locale
  | none => .first

def entryText? : Option Toml → Option (Option String)
  | none => some none
  | some (.text text) => some (some text)
  | some _ => none

def sectionText? (key : String) : Toml → Option (Option String)
  | .table _ members => entryText? (Toml.find? key members)
  | .array (first :: _) => entryText? (some first)
  | .moment _ => some none
  | _ => none

def section? (key : String) : Option Toml → Option (Option (Option String))
  | none => some none
  | some toml => (sectionText? key toml).map some

def ofMembers? (members : Toml.Members) : Option Settings := do
  let query ← section? "taxonomy_prefix" (Toml.find? "query" members)
  let display ← section? "locale" (Toml.find? "display" members)
  some ⟨query.map .mk, display.map .mk⟩

def read? (text : String) : Option Settings :=
  (Toml.read? text).bind ofMembers?

end Settings
end FacetSearch
