import Planimeter.Value
/-!
# Layers of settings

Settings come from several sources, of which a later one takes precedence over an earlier one.
Tables are laid over each other name by name; any other value hides what lies below it. Every value
keeps the source that it comes from.
-/
namespace Planimeter

/-- Where settings come from. -/
inductive Origin where
  | builtin
  | file (name : String)
  | environment
  deriving DecidableEq, Repr

/-- A value with its origin; a table may hold values of several origins. -/
inductive Setting where
  | value (origin : Origin) (v : Value)
  | table (origin : Origin) (entries : List (String × Setting))
  deriving Repr

namespace Setting

def origin : Setting → Origin
  | value o _ => o
  | table o _ => o

mutual

/-- A value as a setting; a table in it is a table of settings. -/
def ofValue (o : Origin) : Value → Setting
  | .table entries => table o (ofEntries o entries)
  | v => value o v

def ofEntries (o : Origin) : List (String × Value) → List (String × Setting)
  | [] => []
  | (name, v) :: rest => (name, ofValue o v) :: ofEntries o rest

end

mutual

/-- Lays a setting over another. -/
def overlay (lower : Setting) : Setting → Setting
  | table o entries =>
    match lower with
    | table _ below => table o (overlayEntries below entries)
    | value _ _ => table o entries
  | s => s

/-- Lays named settings over others. -/
def overlayEntries (lower : List (String × Setting)) :
    List (String × Setting) → List (String × Setting)
  | [] => lower
  | (name, s) :: rest =>
    let merged := match lower.lookup name with
      | some below => overlay below s
      | none => s
    overlayEntries (setEntry lower name merged) rest

end

/-- A table of which a path of names leads to a value. -/
def atPath (o : Origin) (v : Value) (path : List String) : Setting :=
  path.foldr (fun name s => table o [(name, s)]) (ofValue o v)

end Setting

end Planimeter
