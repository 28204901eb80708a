import LadderLogic.Config
import LadderLogic.Json

/-!
The settings of logging as a JSON tree. Reading takes a default for every setting that is not given
and ignores members it does not know; a list gives the settings by position and holds nothing else.
-/

set_option autoImplicit false

namespace LadderLogic

/-- The value given for a setting of a group, by name in an object and by position in a list; the
outer `none` is what cannot hold settings, or gives one twice. -/
def Json.setting? (j : Json) (position : Nat) (name : String) : Option (Option Json) :=
  match j with
  | .object members =>
    match members.filter fun m => m.1 == some name with
    | [] => some none
    | [m] => some (some m.2)
    | _ => none
  | .list items => some items[position]?
  | _ => none

/-- The name of a choice: a text, or the only member of an object, with a null below it. -/
def Json.choice? : Json → Option String
  | .text s => s
  | .object [(name, .null)] => name
  | _ => none

def Json.exceeds (j : Json) (count : Nat) : Bool :=
  match j with
  | .list items => count < items.length
  | _ => false

def LoggingConfig.ofJson? (j : Json) : Option LoggingConfig := do
  if j.exceeds 2 then none
  let level ←
    readGiven? (j.setting? 0 "level") (fun v => v.choice?.bind Severity.ofName?) defaults.level
  let target ←
    readGiven? (j.setting? 1 "target") (fun v => v.choice?.bind LogTarget.ofName?) defaults.target
  return ⟨level, target⟩

end LadderLogic
