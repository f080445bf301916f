/-
# Values of options

Values with a grammar of their own: switches that may be left to the terminal, and
separators with escapes.
-/

import Tarjuman.Files.Path
import Tarjuman.Text.Quoted

namespace Tarjuman

/-- On, off, or left to what the terminal can do. -/
inductive Switch where
  | auto
  | on
  | off
deriving DecidableEq, Repr

namespace Switch

/-- The number of the switch. -/
def number : Switch → Nat
  | auto => 0
  | on => 1
  | off => 2

/-- The switch with a name; case and blanks around it do not matter. -/
def ofName? (s : Text) : Option Switch :=
  let s := (Text.trim s).lower
  if s = [] ∨ s = "auto" then some auto
  else if s = "on" ∨ s = "always" then some on
  else if s = "off" ∨ s = "never" then some off
  else none

/-- What is said of a value that is none. -/
def badName (option s : Text) : Text :=
  "invalid --" ++ option ++ " value " ++ Text.quoted s ++ " (expected auto|on|off)"

/-- The switch is settled; the terminal has to be asked only for `auto`. -/
def settled : Switch → Option Bool
  | auto => none
  | on => some true
  | off => some false

/-- The switch is on, given what the terminal says. -/
def resolve (s : Switch) (terminal : Bool) : Bool := s.settled.getD terminal

end Switch

/-- The separator that an option's value stands for: escapes are decoded, and quotes
stand for themselves. -/
def separatorOf? (s : Text) : Option Text :=
  if s.contains (Text.byte '\\') then Quoted.decode? (Text.replace s "\"" "\\\"") else some s

/-- What is said of a value that has no meaning. -/
def badSeparator : Text := "invalid syntax"

/-- A path as it is shown to someone who looks from `root`. -/
def shownFrom (root path : Text) : Text :=
  match Path.relative? root path with
  | some rel => if rel.isEmpty || Path.isAbsolute rel then path else rel
  | none => path

end Tarjuman
