import FacetSearch.Main
import FacetSearch.Proofs.Criteria.WriteBack
import FacetSearch.Proofs.Query.Reading
import FacetSearch.Proofs.Query.RoundTrip
import FacetSearch.Proofs.Criterion.Restoring
import FacetSearch.Proofs.Criteria.InPlace
import FacetSearch.Proofs.Criteria.Unedited
import FacetSearch.Proofs.Criterion.Matching
import FacetSearch.Proofs.Criteria.Naming
import FacetSearch.Proofs.Command.Rebuilding
import FacetSearch.Proofs.Query.Extending
import FacetSearch.Proofs.Command.Editing
import FacetSearch.Proofs.Command.Inspecting
import FacetSearch.Proofs.Command.Reporting
import FacetSearch.Proofs.CommandLine.Flags
import FacetSearch.Proofs.CommandLine.Modes
import FacetSearch.Proofs.Taxonomy.Document
import FacetSearch.Proofs.Command.Presence
import FacetSearch.Proofs.Criterion.Finding
import FacetSearch.Proofs.Criteria.Connectives
import FacetSearch.Proofs.Query.Cursor
import FacetSearch.Proofs.Query.Flattening
import FacetSearch.Proofs.Taxonomy.Lookup
import FacetSearch.Proofs.Command.Refusing
import FacetSearch.Proofs.Text.Opening
import FacetSearch.Proofs.Criterion.Bounds
import FacetSearch.Proofs.Criterion.BareWords
import FacetSearch.Proofs.Criterion.Debug
import FacetSearch.Proofs.Query.Serialized
import FacetSearch.Proofs.Command.Listing
import FacetSearch.Proofs.Criteria.Owners
