/-
# Commands and their options

The commands form a tree below `lugha`.  Every command takes the options of its own
and those of the whole program.
-/

import Tarjuman.Text.Basic

namespace Tarjuman

/-- What an option takes. -/
inductive OptionKind where
  /-- A truth value; the option alone means yes. -/
  | truth
  | number
  | text
deriving DecidableEq, Repr

/-- An option of a command. -/
structure OptionSpec where
  name : Text
  kind : OptionKind
  /-- The value when the option is not given. -/
  usual : Text
  /-- The letter that stands for it, if it has one. -/
  short : Option UInt8 := none
deriving DecidableEq, Repr

/-- A command. -/
inductive Command where
  | root
  | tokenize
  | transpile
  | diag
  | build
  | init
  | live
  | version
  | cache
  | cacheClean
  | completion
  | help
deriving DecidableEq, Repr

namespace Command

/-- The word that names a command. -/
def word : Command → Text
  | root => "lugha"
  | tokenize => "tokenize"
  | transpile => "transpile"
  | diag => "diag"
  | build => "build"
  | init => "init"
  | live => "live"
  | version => "version"
  | cache => "cache"
  | cacheClean => "clean"
  | completion => "completion"
  | help => "help"

/-- The commands right below a command. -/
def children : Command → List Command
  | root =>
    [tokenize, transpile, diag, build, init, live, version, cache, completion, help]
  | cache => [cacheClean]
  | _ => []

/-- The depth of the tree. -/
def depth : Nat := 2

/-- All words from the program on. -/
def path : Command → Text
  | root => root.word
  | cacheClean => root.word ++ " " ++ cache.word ++ " " ++ cacheClean.word
  | c => root.word ++ " " ++ c.word

/-- The command does something of its own. -/
def isRunnable : Command → Bool
  | root | cache | completion => false
  | _ => true

/-- How many arguments a command takes. -/
inductive Arity where
  | any
  | none
  | exactly (n : Nat)
  | atMost (n : Nat)
deriving DecidableEq, Repr

/-- The arguments of each command. -/
def arity : Command → Arity
  | tokenize | transpile | diag => .exactly 1
  | build | init | live => .atMost 1
  | version | cacheClean | completion => .none
  | root | cache | help => .any

/-- An option that is off unless it is given. -/
def truth (name : Text) : OptionSpec := ⟨name, .truth, "false", none⟩

/-- An option with a text. -/
def text (name usual : Text) : OptionSpec := ⟨name, .text, usual, none⟩

/-- An option with a number. -/
def number (name usual : Text) : OptionSpec := ⟨name, .number, usual, none⟩

/-- The options of the whole program. -/
def shared : List OptionSpec :=
  [text "color" "auto", truth "quiet", truth "timings", number "max-diagnostics" "100",
   text "trace" "", text "trace-level" "off", text "trace-format" "auto",
   text "cpu-profile" "", text "mem-profile" "", text "runtime-trace" ""]

/-- The options that shape a script. -/
def shaping : List OptionSpec :=
  [truth "latinize", truth "no-banner", truth "prelude", truth "loose-blocks", text "sep" "\\n"]

/-- The options of a command alone. -/
def own : Command → List OptionSpec
  | tokenize => [text "format" "pretty"]
  | transpile =>
    [⟨"output", .text, "", some (Text.byte 'o')⟩, text "diag-format" "pretty"] ++ shaping
  | diag => [text "format" "pretty", number "jobs" "0", truth "latinize"]
  | build =>
    [text "ui" "auto", number "jobs" "0", truth "no-cache", text "diag-format" "pretty"]
  | live => shaping
  | version =>
    [truth "hash", truth "message", truth "date", truth "full", text "format" "pretty"]
  | _ => []

/-- The options that tell words of commands from values. -/
def options (c : Command) : List OptionSpec := c.own ++ shared

/-- The option that asks for help. -/
def helpOption : OptionSpec := ⟨"help", .truth, "false", some (Text.byte 'h')⟩

/-- The option that asks for the version. -/
def versionOption : OptionSpec := ⟨"version", .truth, "false", some (Text.byte 'v')⟩

/-- All options that a command takes; the program itself tells its version if it has
one. -/
def accepted (c : Command) (hasVersion : Bool) : List OptionSpec :=
  c.options ++ [helpOption] ++ if c = root && hasVersion then [versionOption] else []

end Command
end Tarjuman
