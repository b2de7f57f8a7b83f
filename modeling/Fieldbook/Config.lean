/-!
# Config — options of a workspace

The options are given as arguments of the form `--name=value`. Arguments of another form are passed
over, a number that cannot be read leaves the option as it is, and of repeated options the last
counts.
-/

namespace Fieldbook

/-- How a workspace is opened. -/
structure Config where
  /-- The file of the database; without one the workspace is kept in memory. -/
  dbPath : Option String
  /-- How many forms may be nested in a form tree. -/
  maxTreeDepth : Nat
  busyTimeoutMs : Nat
  deriving DecidableEq

namespace Config

def default : Config := ⟨none, 16, 5000⟩

def busyTimeoutSeconds (c : Config) : Nat := c.busyTimeoutMs / 1000

/-- What follows the name of an option. -/
def option? (name arg : String) : Option (List Char) :=
  if name.toList.isPrefixOf arg.toList then some (arg.toList.drop name.length) else none

/-- A number of 64 bits: digits, after a plus sign or nothing. -/
def readNumber? (cs : List Char) : Option Nat :=
  let digits : List Char := if cs.head? = some '+' then cs.tail else cs
  let n := digits.foldl (fun n c => 10 * n + (c.toNat - '0'.toNat)) 0
  if digits ≠ [] ∧ digits.all Char.isDigit ∧ n < 0x10000000000000000 then some n else none

/-- The configuration after one argument. -/
def read (c : Config) (arg : String) : Config :=
  match option? "--db=" arg with
  | some path => { c with dbPath := some (String.ofList path) }
  | none =>
    match option? "--max-tree-depth=" arg with
    | some cs => { c with maxTreeDepth := (readNumber? cs).getD c.maxTreeDepth }
    | none =>
      match option? "--busy-timeout-ms=" arg with
      | some cs => { c with busyTimeoutMs := (readNumber? cs).getD c.busyTimeoutMs }
      | none => c

/-- The configuration that arguments describe. -/
def ofArgs (args : List String) : Config := args.foldl read default

end Config

end Fieldbook
