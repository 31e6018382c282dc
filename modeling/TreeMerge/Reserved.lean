import TreeMerge.Text.Basic

/-!
# Reserved names

A table of named things answers to some names whatever it lists: what it gives for them is present,
but it is none of the things listed.

* `isReserved` : whether a name is one of these.
-/

namespace TreeMerge

/-- The names that every table answers to. -/
def reservedNames : List Text := [
  "__proto__", "__defineGetter__", "__defineSetter__", "__lookupGetter__", "__lookupSetter__",
  "constructor", "hasOwnProperty", "isPrototypeOf", "propertyIsEnumerable", "toLocaleString",
  "toString", "valueOf"]

/-- Whether every table answers to a name. -/
def isReserved (name : Text) : Bool :=
  reservedNames.contains name

end TreeMerge
