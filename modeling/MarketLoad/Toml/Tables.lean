import MarketLoad.Toml.Value

/-! # Tables under construction

A settings file spells its tables out in pieces: under a header, by dotted names, or inside a
value. A table may be extended only in the way in which it was begun, so each one remembers its
origin until the file is complete. -/

namespace MarketLoad.Toml

/-- How a table came to be. -/
inductive Origin
  /-- By a header of its own, or as the file itself. -/
  | header
  /-- By a header of a table inside it. -/
  | implied
  /-- By a dotted name. -/
  | dotted
deriving DecidableEq

/-- A member of a table under construction. -/
inductive Node
  /-- A complete value; nothing can be added to it. -/
  | value (v : Toml)
  | table (origin : Origin) (members : List (String × Node))
  /-- Tables with headers in double brackets, the last one first. -/
  | tables (items : List (List (String × Node)))

/-- The members of a table under construction. -/
abbrev Members := List (String × Node)

namespace Members

/-- Puts a node in the place of the member of a name, or at the end. -/
def set (members : Members) (name : String) (node : Node) : Members :=
  if members.any (·.1 == name) then
    members.map fun m => if m.1 == name then (name, node) else m
  else members ++ [(name, node)]

/-- Changes the table at the end of a path. Tables on the way that do not exist are begun; of
tables in double brackets the last one is meant. Dotted names do not enter tables with headers. -/
def change? (dotted : Bool) (f : Origin → Members → Option Members) :
    List String → Origin → Members → Option Members
  | [], origin, members => f origin members
  | name :: path, _, members =>
    match members.lookup name with
    | none => do
      let origin := if dotted then Origin.dotted else .implied
      return members.set name (.table origin (← change? dotted f path origin []))
    | some (.value _) => none
    | some (.tables []) => none
    | some (.tables (item :: items)) => do
      return members.set name (.tables ((← change? dotted f path .header item) :: items))
    | some (.table origin inner) => do
      if dotted && origin == .header then none
      else return members.set name (.table origin (← change? dotted f path origin inner))

/-- The table at the end of a path, if there is one. -/
def table? : List String → Origin → Members → Option (Origin × Members)
  | [], origin, members => some (origin, members)
  | name :: path, _, members =>
    match members.lookup name with
    | some (.table origin inner) => table? path origin inner
    | some (.tables (item :: _)) => table? path .header item
    | _ => none

/-- Adds a value under a dotted name, whose last part comes separately. The part before it must
not name a table that was begun otherwise, and the name must be new. -/
def insert? (members : Members) (path : List String) (name : String) (v : Toml) : Option Members :=
  change? true
    (fun origin inner =>
      if (origin == .dotted) == path.isEmpty then none
      else if (inner.lookup name).isSome then none
      else some (inner ++ [(name, .value v)]))
    path .header members

end Members

mutual

def Node.toValue : Node → Toml
  | .value v => v
  | .table _ members => .table (membersValues members)
  | .tables items => .array (itemsValues items).reverse

def membersValues : List (String × Node) → List (String × Toml)
  | [] => []
  | (name, node) :: rest => (name, node.toValue) :: membersValues rest

def itemsValues : List (List (String × Node)) → List Toml
  | [] => []
  | item :: rest => .table (membersValues item) :: itemsValues rest

end

/-! ## Files -/

/-- A file that is being read: the finished tables, and the one whose header came last. -/
structure Draft where
  root : Members
  /-- The path of the table that is being filled. -/
  path : List String
  /-- Whether its header stood in double brackets. -/
  isItem : Bool
  current : Members

namespace Draft

/-- A file before its first line. -/
def empty : Draft := { root := [], path := [], isItem := false, current := [] }

/-- Adds a value to the table that is being filled. -/
def insert? (d : Draft) (path : List String) (name : String) (v : Toml) : Option Draft := do
  return { d with current := ← d.current.insert? path name v }

/-- Puts the table that is being filled into its place. -/
def close? (d : Draft) : Option Members :=
  match d.path.getLast? with
  | none => some d.current
  | some name =>
    Members.change? false
      (fun _ parent =>
        if d.isItem then
          match parent.lookup name with
          | none => some (parent.set name (.tables [d.current]))
          | some (.tables items) => some (parent.set name (.tables (d.current :: items)))
          | some _ => none
        else some (parent.set name (.table .header d.current)))
      d.path.dropLast .header d.root

/-- Begins the table of a header. It must be new, or known only by tables inside it. -/
def openTable? (d : Draft) (path : List String) : Option Draft := do
  let root ← d.close?
  let name ← path.getLast?
  let root ← Members.change? false
    (fun _ parent =>
      match parent.lookup name with
      | none | some (.table .implied _) => some parent
      | some _ => none)
    path.dropLast .header root
  let current := ((Members.table? path .header root).map (·.2)).getD []
  return { root, path, isItem := false, current }

/-- Begins the next table of a header in double brackets. -/
def openItem? (d : Draft) (path : List String) : Option Draft := do
  let root ← d.close?
  let name ← path.getLast?
  let root ← Members.change? false
    (fun _ parent =>
      match parent.lookup name with
      | none | some (.tables _) => some parent
      | some _ => none)
    path.dropLast .header root
  return { root, path, isItem := true, current := [] }

/-- The value of a file that has been read to its end. -/
def toValue? (d : Draft) : Option Toml := d.close?.map fun root => .table (membersValues root)

end Draft

end MarketLoad.Toml
