import DocHarvest.Failure
import DocHarvest.Record.Json

/-! Output formats: one JSON array, indented or not, or one record on each line. -/

namespace DocHarvest

inductive Format where
  | array (pretty : Bool)
  | lines
deriving DecidableEq, Repr

namespace Format

/-- The format of a name. Lines are never indented. -/
def ofName (name : String) (pretty : Bool) : Except Failure Format :=
  match name with
  | "json" => .ok (.array pretty)
  | "jsonl" => .ok .lines
  | "ndjson" => .ok .lines
  | _ => .error (.unknownFormat name)

def extension : Format → String
  | array _ => "json"
  | lines => "jsonl"

def render : Format → List Record → String
  | array pretty, records =>
    (Json.array (records.map Record.toJson)).render (if pretty then .indented else .compact) ++ "\n"
  | lines, records => String.join (records.map fun r => r.toJson.render .compact ++ "\n")

end Format

end DocHarvest
