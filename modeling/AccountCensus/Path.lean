/-!
# Paths

The components of a path are its root if it begins with a slash, a leading point, and every piece
between slashes that is neither empty nor a point. Slashes and points at the end do not count. A
path that is only the root has no parent; the parent of any other path that is not empty is its
text up to the end of its last but one component.
-/

namespace AccountCensus.Path

/-- The path of a database in memory. -/
def inMemory : String := ":memory:"

/-- The positions behind the components of the rest of a path that begins at a position. `first`
tells that no piece came before. -/
def endsFrom (position : Nat) (first : Bool) (piece : List Char) : List Char → List Nat
  | [] => close
  | '/' :: rest => close ++ endsFrom (position + 1) false [] rest
  | c :: rest => endsFrom (position + 1) first (piece ++ [c]) rest
where
  /-- The piece that ends here, if it is a component. -/
  close : List Nat :=
    if piece = [] then []
    else if piece = ['.'] && !first then []
    else [position]

/-- The positions behind the components of a path. -/
def componentEnds (path : List Char) : List Nat :=
  match path with
  | '/' :: rest => 1 :: endsFrom 1 false [] rest
  | _ => endsFrom 0 true [] path

/-- The text of the parent. -/
def parent? (path : String) : Option String :=
  let cs := path.toList
  match (componentEnds cs).reverse with
  | [] => none
  | [_] => if cs.head? = some '/' then none else some ""
  | _ :: stop :: _ => some (String.ofList (cs.take stop))

end AccountCensus.Path
