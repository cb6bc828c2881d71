import StyleGuide.Text

/-! # Nodes of settings documents

A settings document is a table of named nodes. Tables come about in several ways, and the way
decides what may be added to them further down.
-/

namespace StyleGuide.Toml

/-- How a table came about. -/
inductive Origin where
  /-- A header names it. -/
  | header
  /-- It stands on the way to a table that a header names. -/
  | implied
  /-- It stands on the way to the end of a dotted key. -/
  | dotted
  /-- It was written between braces and cannot grow. -/
  | braces
  deriving Repr, DecidableEq, BEq

/-- What a key of a document stands for. -/
inductive Node where
  | text (value : Text)
  | integer (value : Int)
  /-- A number with a fraction or an exponent, as written. -/
  | float (written : Text)
  | boolean (value : Bool)
  /-- A date, a time of day or both, as written. -/
  | moment (written : Text)
  | array (items : List Node)
  | table (origin : Origin) (entries : List (Text × Node))
  /-- The tables that share a header in double brackets; the last one is still open. -/
  | tables (before : List (List (Text × Node))) (current : List (Text × Node))
  deriving Repr

/-- The content of a table. Each key occurs once. -/
abbrev Entries := List (Text × Node)

namespace Entries

/-- The node of a key. -/
def get? (entries : Entries) (key : Text) : Option Node := entries.lookup key

/-- Give a key the node that `change` makes of the present one, if it makes one. -/
def change? (key : Text) (change : Option Node → Option Node) : Entries → Option Entries
  | [] => (change none).map fun node => [(key, node)]
  | (k, node) :: rest =>
    if k = key then (change (some node)).map fun node => (k, node) :: rest
    else (change? key change rest).map ((k, node) :: ·)

/-- Put a value at the end of a dotted key. The tables on the way come about by dotted keys; one
    that a header names or braces enclose is closed to them, and the last table must have come
    about by dotted keys unless it is the first (`mayEnd`). A value is never replaced. -/
def assign? (value : Node) : List Text → Bool → Entries → Option Entries
  | [], _, _ => none
  | [key], mayEnd, entries =>
    if mayEnd then change? key (fun old => if old.isSome then none else some value) entries
    else none
  | key :: path, _, entries =>
    let change : Option Node → Option Node
      | none => (assign? value path true []).map (.table .dotted)
      | some (.table .dotted inner) => (assign? value path true inner).map (.table .dotted)
      | some (.table .implied inner) => (assign? value path false inner).map (.table .implied)
      | some (.tables before current) => (assign? value path false current).map (.tables before)
      | some _ => none
    change? key change entries

/-- Change the table that a path leads to. Tables that are missing on the way are implied, and of
    several tables under one header the last one is on the way. -/
def within? (change : Entries → Option Entries) : List Text → Entries → Option Entries
  | [], entries => change entries
  | key :: path, entries =>
    let step : Option Node → Option Node
      | none => (within? change path []).map (.table .implied)
      | some (.table .braces _) => none
      | some (.table origin inner) => (within? change path inner).map (.table origin)
      | some (.tables before current) => (within? change path current).map (.tables before)
      | some _ => none
    change? key step entries

/-- Open a table by a header. It must be new or, so far, only implied. -/
def openTable? (key : Text) : Entries → Option Entries :=
  change? key fun
    | none => some (.table .header [])
    | some (.table .implied inner) => some (.table .header inner)
    | some _ => none

/-- Open one more table under a header in double brackets. -/
def openRow? (key : Text) : Entries → Option Entries :=
  change? key fun
    | none => some (.tables [] [])
    | some (.tables before current) => some (.tables (before ++ [current]) [])
    | some _ => none

end Entries

end StyleGuide.Toml
