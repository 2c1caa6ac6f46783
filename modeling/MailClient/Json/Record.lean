import MailClient.Duration
import MailClient.Json

/-! Records in JSON: an object with named members, or a list of the same members in order. -/
namespace MailClient.Json

/-- The member values of a record in the order of its names. A list may end early, which leaves
the remaining members absent. -/
structure Columns where
  values : List (Option Json)
  positional : Bool

/-- The one value of a member; a repeated member has none. -/
def member? (members : List (Option String × Json)) (name : String) : Option (Option Json) :=
  match members.filter (·.1 == some name) with
  | [] => some none
  | [(_, v)] => some (some v)
  | _ => none

/-- Other members are skipped unless `closed`. -/
def columns? (names : List String) (closed : Bool) : Json → Option Columns
  | .object members =>
    if members.any (·.1.isNone) then none
    else if closed && members.any (fun (name, _) => !names.any fun n => name == some n) then none
    else (names.mapM (member? members)).map fun values => ⟨values, false⟩
  | .list items =>
    if items.length > names.length then none
    else some ⟨items.map some ++ List.replicate (names.length - items.length) none, true⟩
  | _ => none

/-- Reads the member at `i`; an absent member has the value `absent`. -/
def Columns.read (c : Columns) (i : Nat) (absent : Option α) (read : Json → Option α) : Option α :=
  match c.values.getD i none with
  | some v => read v
  | none => absent

/-- A span is a record of whole seconds and nanoseconds. A second or more in the nanoseconds
carries over. -/
def duration? (v : Json) : Option Duration := do
  let c ← columns? ["secs", "nanos"] true v
  let secs ← c.read 0 none (below? (Nat.pow 2 64))
  let nanos ← c.read 1 none (below? (Nat.pow 2 32))
  let total := Duration.seconds secs + nanos
  if total < Duration.seconds (Nat.pow 2 64) then some total else none

/-- The name of a choice: a text, or an object whose one member has it and is null. -/
def choice? : Json → Option String
  | .text s => s
  | .object [(name, .null)] => name
  | _ => none

end MailClient.Json
