import BooleanSearch.Json.Numeral
import BooleanSearch.Json.Printer
import BooleanSearch.Parse
import BooleanSearch.Query.Compact
import BooleanSearch.Query.Equality
import BooleanSearch.Query.Json
import BooleanSearch.Query.Outline
import BooleanSearch.Proofs.Descent
import BooleanSearch.Proofs.Written
import BooleanSearch.Proofs.Delivery
import BooleanSearch.Proofs.Groups
import BooleanSearch.Proofs.Canonical
import BooleanSearch.Proofs.Pauses
import BooleanSearch.Proofs.Conservation
import BooleanSearch.Proofs.Growth
import BooleanSearch.Proofs.Parentheses
import BooleanSearch.Proofs.Formulas
import BooleanSearch.Proofs.Precedence
import BooleanSearch.Proofs.Lossy
import BooleanSearch.Proofs.Significant
import BooleanSearch.Proofs.Requirements
import BooleanSearch.Proofs.Phrases
import BooleanSearch.Proofs.Repair
import BooleanSearch.Proofs.LookAhead
import BooleanSearch.Proofs.Undo
import BooleanSearch.Proofs.Splits
import BooleanSearch.Proofs.Neighbours
import BooleanSearch.Proofs.PrefixFree
import BooleanSearch.Proofs.CompactForm
import BooleanSearch.Proofs.Escapes
import BooleanSearch.Proofs.Levels
import BooleanSearch.Proofs.OutlineForm
import BooleanSearch.Proofs.JsonForms
import BooleanSearch.Proofs.Renderings
import BooleanSearch.Proofs.Depth
import BooleanSearch.Proofs.Places
import BooleanSearch.Proofs.Assembly
import BooleanSearch.Proofs.Pushback
