import Columnar.Catalog.Document
import Columnar.Json.Printer
import Columnar.Json.Reader
import Columnar.Toml.Reader

/-! # Catalogs as texts

    Reading a catalog from JSON or TOML, and writing it as JSON.  The two
    formats differ in what they make of a list with items to spare.
-/

namespace Columnar

/-- The text holds no catalog in that format. -/
inductive CatalogError where
  | json
  | toml
  deriving Repr, DecidableEq

def CatalogError.message : CatalogError → String
  | .json => "parse type catalog json"
  | .toml => "parse type catalog toml"

namespace Catalog

def ofJson (s : String) : Except CatalogError Catalog :=
  match (Json.parse? s).bind (ofDocument .refused) with
  | some c => .ok c
  | none => .error .json

def ofToml (s : String) : Except CatalogError Catalog :=
  match (Toml.parse? s).bind (ofDocument .ignored) with
  | some c => .ok c
  | none => .error .toml

def toJson (c : Catalog) : String :=
  Json.pretty c.toDocument

end Catalog

end Columnar
