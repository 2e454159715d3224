import Assay.Binary64.Basic

/-!
# TOML values

The data tree of a TOML document. A table keeps its entries in the order of the document.
-/

namespace Assay.Toml

inductive Value
  | string (s : String)
  | integer (n : Int)
  | float (x : Binary64)
  | boolean (b : Bool)
  /-- A date, a time of day or both, as they are written. -/
  | dateTime (text : String)
  | array (items : List Value)
  | table (entries : List (String × Value))
deriving Inhabited

/-- The entries of a table. -/
abbrev Table := List (String × Value)

end Assay.Toml
