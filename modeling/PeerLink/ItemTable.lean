import PeerLink.Event.Basic
/-!
# The table of items

What is known about the server's items from the events so far.

## Main definitions

* `Item`: what is known about one item.
* `ItemTable`: the items, in the order of their names.
* `ItemTable.apply`: the table after one more event.
-/

namespace PeerLink

/-- What is known about an item: its last value, and its last definition if there was one. -/
structure Item where
  name : String
  itemType : Option String := none
  value : Option String := none
  tags : NameSet := .empty
  groups : NameSet := .empty
  deriving DecidableEq, Repr

namespace Item

/-- The item with a new value. -/
def withValue (value : Option String) (i : Item) : Item := { i with value }

/-- The item with a new definition. -/
def withDefinition (d : ItemDefinition) (i : Item) : Item :=
  { i with itemType := some d.itemType, tags := d.tags, groups := d.groups }

end Item

/-- The known items, in the order of their names. -/
structure ItemTable where
  items : List Item := []
  deriving DecidableEq, Repr

namespace ItemTable

/-- The items with the one named `name` changed, which is added if it is not there. -/
def update (name : String) (change : Item → Item) : List Item → List Item
  | [] => [change { name }]
  | i :: rest =>
    if name < i.name then change { name } :: i :: rest
    else if name = i.name then change i :: rest
    else i :: update name change rest

/-- The table after one more event. A state sets the value, a definition type, tags and groups, and
a removal takes the item out; other events change nothing. -/
def apply (t : ItemTable) : Event → ItemTable
  | .itemState name value | .itemStateChanged name value _
  | .groupItemStateChanged name _ value _ => ⟨update name (Item.withValue value) t.items⟩
  | .itemAdded d | .itemUpdated d => ⟨update d.name (Item.withDefinition d) t.items⟩
  | .itemRemoved name => ⟨t.items.filter (·.name != name)⟩
  | _ => t

/-- The item of a name. -/
def get? (t : ItemTable) (name : String) : Option Item := t.items.find? (·.name == name)

/-- The value of an item, if it is known and has one. -/
def value? (t : ItemTable) (name : String) : Option String := (t.get? name).bind Item.value

/-- Whether an item is known. -/
def contains (t : ItemTable) (name : String) : Bool := (t.get? name).isSome

/-- The names of the known items. -/
def names (t : ItemTable) : List String := t.items.map Item.name

/-- The number of known items. -/
def size (t : ItemTable) : Nat := t.items.length

/-- Whether no item is known. -/
def isEmpty (t : ItemTable) : Bool := t.items.isEmpty

end ItemTable

end PeerLink
