import SymbolIndex.Path
import SymbolIndex.Uri.Percent

/-!
# Uri.FileUri — the URI a path is known by

Records name files by URI. `normalize` gives an absolute path its `file://` form: the components,
each percent-encoded, each after a slash. A text that already carries a scheme, and a relative
path, is its own URI.
-/

namespace SymbolIndex.Uri

/-- Whether `://` occurs. -/
def hasSchemeMark : List Char → Bool
  | ':' :: '/' :: '/' :: _ => true
  | _ :: rest => hasSchemeMark rest
  | [] => false

/-- The path part of the URI of a sequence of components. -/
def componentChars : List Name → List Char
  | [] => ['/']
  | [name] => '/' :: encodeBytes name
  | name :: rest => '/' :: encodeBytes name ++ componentChars rest

/-- The URI of the file that a path text names. -/
def normalize (path : String) : String :=
  if hasSchemeMark path.toList then path
  else if (Path.ofString path).isAbsolute then
    String.ofList ("file://".toList ++ componentChars (Path.ofString path).components)
  else path

end SymbolIndex.Uri
