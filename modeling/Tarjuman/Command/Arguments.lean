/-
# Reading a list of arguments

First the words among the arguments lead to a command; then the options are read and
what is left are the arguments of the command.  Options and arguments may be mixed,
and `--` ends the options.
-/

import Tarjuman.Command.Tree
import Tarjuman.Text.Quoted

namespace Tarjuman
namespace Arguments

/-- Why a value is refused. -/
inductive ValueFault where
  | badTruth (s : Text)
  | badNumber (s : Text)
  | outOfRange (s : Text)
deriving DecidableEq, Repr

/-- The fault in words. -/
def ValueFault.message : ValueFault → Text
  | badTruth s => "strconv.ParseBool: parsing " ++ Text.quoted s ++ ": invalid syntax"
  | badNumber s => "strconv.ParseInt: parsing " ++ Text.quoted s ++ ": invalid syntax"
  | outOfRange s => "strconv.ParseInt: parsing " ++ Text.quoted s ++ ": value out of range"

/-- Why arguments are refused. -/
inductive Fault where
  | unknownCommand (word path : Text) (similar : List Text)
  | unknownOption (name : Text)
  /-- A letter that stands for no option, among others. -/
  | unknownLetter (letter : UInt8) (letters : Text)
  | noValue (name : Text)
  | noValueForLetter (letter : UInt8) (letters : Text)
  | badOption (s : Text)
  | badValue (option : OptionSpec) (value : Text) (cause : ValueFault)
  | wantsExactly (n given : Nat)
  | wantsAtMost (n given : Nat)
deriving DecidableEq, Repr

/-- The character by which a letter is shown; a byte that is not ASCII is shown by the
first byte of its own encoding. -/
def shownLetter (b : UInt8) : Char :=
  if b < 0x80 then Char.ofNat b.toNat else if b < 0xC0 then 'Â' else 'Ã'

/-- An option as it is shown. -/
def shownOption (o : OptionSpec) : Text :=
  match o.short with
  | some letter => "-" ++ [letter] ++ ", --" ++ o.name
  | none => "--" ++ o.name

/-- A similar command, on a line of its own. -/
def shownSimilar (word : Text) : Text := "\t" ++ word ++ "\n"

/-- The fault in words. -/
def Fault.message : Fault → Text
  | unknownCommand word path similar =>
    "unknown command " ++ Text.quoted word ++ " for " ++ Text.quoted path ++
      Text.when (!similar.isEmpty)
        ("\n\nDid you mean this?\n" ++ similar.flatMap shownSimilar)
  | unknownOption name => "unknown flag: --" ++ name
  | unknownLetter letter letters =>
    "unknown shorthand flag: " ++ Quoted.charLiteral (shownLetter letter) ++ " in -" ++ letters
  | noValue name => "flag needs an argument: --" ++ name
  | noValueForLetter letter letters =>
    "flag needs an argument: " ++ Quoted.charLiteral (shownLetter letter) ++ " in -" ++ letters
  | badOption s => "bad flag syntax: " ++ s
  | badValue option value cause =>
    "invalid argument " ++ Text.quoted value ++ " for " ++ Text.quoted (shownOption option) ++
      " flag: " ++ cause.message
  | wantsExactly n given =>
    "accepts " ++ Text.ofNat n ++ " arg(s), received " ++ Text.ofNat given
  | wantsAtMost n given =>
    "accepts at most " ++ Text.ofNat n ++ " arg(s), received " ++ Text.ofNat given

/-- A hyphen. -/
def hyphen : UInt8 := Text.byte '-'

/-- The argument is an option whose value is the next argument.  An option that is not
known counts as one. -/
def takesNext (options : List OptionSpec) (s : Text) : Bool :=
  !s.contains (Text.byte '=') &&
    match s with
    | a :: b :: name =>
      if a == hyphen && b == hyphen then
        !options.any fun o => o.kind = .truth && o.name = name
      else
        a == hyphen && name.isEmpty &&
          !options.any fun o => o.kind = .truth && o.short = some b
    | _ => false

/-- The argument starts like an option. -/
def isOptionLike (s : Text) : Bool := s.head? == some hyphen

/-- The words among arguments that are neither options nor their values; `skip` says
that the first one is a value. -/
def wordsFrom (options : List OptionSpec) : (skip : Bool) → List Text → List Text
  | _, [] => []
  | true, _ :: r => wordsFrom options false r
  | false, s :: r =>
    if s = "--" then []
    else if takesNext options s then if r.length ≤ 1 then [] else wordsFrom options true r
    else if s.isEmpty || isOptionLike s then wordsFrom options false r
    else s :: wordsFrom options false r

/-- The arguments without the first word equal to `x`. -/
def withoutWord (options : List OptionSpec) (x : Text) : (skip : Bool) → List Text → List Text
  | _, [] => []
  | true, s :: r => s :: withoutWord options x false r
  | false, s :: r =>
    if s = "--" then s :: r
    else if takesNext options s then s :: withoutWord options x true r
    else if !isOptionLike s && s == x then r
    else s :: withoutWord options x false r

/-- One step down the tree, if the first word names a command there. -/
def step? (c : Command) (args : List Text) : Option (Command × List Text) :=
  match wordsFrom c.options false args with
  | [] => none
  | word :: _ =>
    (c.children.find? (·.word == word)).map fun child =>
      (child, withoutWord c.options word false args)

/-- At most `n` steps down the tree. -/
def descend : Nat → Command → List Text → Command × List Text
  | 0, c, args => (c, args)
  | n + 1, c, args =>
    match step? c args with
    | some (child, rest) => descend n child rest
    | none => (c, args)

/-- One row of the table of distances, from the row above it and the distance at its
own beginning. -/
def distanceRow (c : UInt8) : (left : Nat) → (t : Text) → (above : List Nat) → List Nat
  | left, d :: t, diagonal :: up :: above =>
    let here := if c = d then diagonal else min (min up left) diagonal + 1
    here :: distanceRow c here t (up :: above)
  | _, _, _ => []

/-- The rows of the table of distances below a row. -/
def lastRow (t : Text) : Text → List Nat → List Nat
  | [], row => row
  | c :: s, row =>
    let start := row.headD 0 + 1
    lastRow t s (start :: distanceRow c start t row)

/-- The least number of bytes to change, insert or delete to get from one text to
another. -/
def distance (s t : Text) : Nat :=
  (lastRow t s (List.range (t.length + 1))).getLastD 0

/-- The command may have been meant. -/
def isSimilar (typed : Text) (c : Command) : Bool :=
  let typed := Text.lower typed
  c ≠ .help && (distance typed c.word ≤ 2 || Text.startsWith c.word typed)

/-- The command that arguments name, and the arguments without its words. -/
def find (args : List Text) : Except Fault (Command × List Text) :=
  let (c, rest) := descend Command.depth .root args
  match wordsFrom c.options false rest with
  | word :: _ =>
    if c = .root then
      .error (.unknownCommand word c.path ((c.children.filter (isSimilar word)).map (·.word)))
    else .ok (c, rest)
  | [] => .ok (c, rest)

/-- The spellings of yes. -/
def yes : List Text := ["1", "t", "T", "true", "TRUE", "True"]

/-- The spellings of no. -/
def no : List Text := ["0", "f", "F", "false", "FALSE", "False"]

/-- A truth value. -/
def truthOf? (s : Text) : Option Bool :=
  if yes.contains s then some true else if no.contains s then some false else none

/-- The value of a digit, letters counting on from ten. -/
def digitOf? (b : UInt8) : Option Nat :=
  if Text.isDigitByte b then some (b.toNat - 0x30)
  else if 0x61 ≤ b && b ≤ 0x7A then some (b.toNat - 0x61 + 10)
  else if 0x41 ≤ b && b ≤ 0x5A then some (b.toNat - 0x41 + 10)
  else none

/-- The number that digits to a base denote, underscores left out.  `none` inside says
that it is too large for sixty-four bits. -/
def digitsValue (base : Nat) (n : Nat) : Text → Option (Option Nat)
  | [] => some (some n)
  | b :: r =>
    if b == Text.byte '_' then digitsValue base n r
    else
      match digitOf? b with
      | none => none
      | some d =>
        if base ≤ d then none
        else if 0x10000000000000000 ≤ base * n + d then some none
        else digitsValue base (base * n + d) r

/-- The base that the front of a number tells, and its digits. -/
def baseOf (s : Text) : Nat × Text :=
  match s with
  | 0x30 :: m :: d :: r =>
    if m == Text.byte 'b' || m == Text.byte 'B' then (2, d :: r)
    else if m == Text.byte 'o' || m == Text.byte 'O' then (8, d :: r)
    else if m == Text.byte 'x' || m == Text.byte 'X' then (16, d :: r)
    else (8, m :: d :: r)
  | 0x30 :: r => (8, r)
  | _ => (10, s)

/-- Underscores stand between digits; `digit` says whether the byte before was one or
the front of a number. -/
def underscoresFit (digit : Bool) : Text → Bool
  | [] => true
  | b :: r =>
    if b == Text.byte '_' then
      digit && (r.head?.map (· != Text.byte '_')).getD false && underscoresFit false r
    else underscoresFit true r

/-- The number without its sign. -/
def magnitude? (s : Text) : Option (Option Nat) :=
  let (base, digits) := baseOf s
  let fronted := base != 10
  if s.isEmpty then none
  else if (s.contains (Text.byte '_')) && !underscoresFit fronted digits then
    match digitsValue base 0 digits with
    | some none => some none
    | _ => none
  else digitsValue base 0 digits

/-- A whole number of sixty-four bits with its sign, to the base that its front
tells. -/
def numberOf (s : Text) : Except ValueFault Int :=
  let (negative, digits) :=
    match s with
    | b :: r => if b == hyphen then (true, r) else if b == Text.byte '+' then (false, r) else (false, s)
    | [] => (false, [])
  match magnitude? digits with
  | none => .error (.badNumber s)
  | some none => .error (.outOfRange s)
  | some (some n) =>
    if negative then if n ≤ 0x8000000000000000 then .ok (-n) else .error (.outOfRange s)
    else if n < 0x8000000000000000 then .ok n
    else .error (.outOfRange s)

/-- The fault of a value, if an option of this kind does not take it. -/
def valueFault? (kind : OptionKind) (s : Text) : Option ValueFault :=
  match kind with
  | .truth => if (truthOf? s).isSome then none else some (.badTruth s)
  | .number =>
    match numberOf s with
    | .ok _ => none
    | .error fault => some fault
  | .text => none

/-- Options with their values, as they were given. -/
abbrev Given := List (Text × Text)

/-- Give a value to an option. -/
def give (o : OptionSpec) (value : Text) : Except Fault (Text × Text) :=
  match valueFault? o.kind value with
  | some fault => .error (.badValue o value fault)
  | none => .ok (o.name, value)

/-- What an argument gives, and whether the next argument belongs to it. -/
abbrev Reading := Except Fault (Given × Bool)

/-- An argument that starts with two hyphens; `name` follows them. -/
def readLong (options : List OptionSpec) (name : Text) (next : Option Text) : Reading :=
  let bad := name.isEmpty || name.head? == some hyphen || name.head? == some (Text.byte '=')
  if bad then .error (.badOption ("--" ++ name))
  else
    let (name, value) :=
      match Text.cut? "=" name with
      | some (name, value) => (name, some value)
      | none => (name, none)
    match options.find? (·.name == name), value, next with
    | none, _, _ => .error (.unknownOption name)
    | some o, some value, _ => (give o value).map fun g => ([g], false)
    | some o, none, next =>
      if o.kind = .truth then (give o "true").map fun g => ([g], false)
      else
        match next with
        | some value => (give o value).map fun g => ([g], true)
        | none => .error (.noValue name)

/-- An argument that starts with one hyphen; `letters` follow it.  A letter that takes
a value takes the rest, or the next argument if nothing is left. -/
def readLetters (options : List OptionSpec) (next : Option Text) : (letters : Text) → Reading
  | [] => .ok ([], false)
  | letter :: rest =>
    if Text.startsWith (letter :: rest) "test." then .ok ([], false)
    else
      match options.find? (·.short == some letter) with
      | none => .error (.unknownLetter letter (letter :: rest))
      | some o =>
        match rest with
        | eq :: v :: value =>
          if eq == Text.byte '=' then (give o (v :: value)).map fun g => ([g], false)
          else if o.kind = .truth then
            match give o "true", readLetters options next (eq :: v :: value) with
            | .ok g, .ok (gs, used) => .ok (g :: gs, used)
            | .error fault, _ | _, .error fault => .error fault
          else (give o (eq :: v :: value)).map fun g => ([g], false)
        | [v] =>
          if o.kind = .truth then
            match give o "true", readLetters options next [v] with
            | .ok g, .ok (gs, used) => .ok (g :: gs, used)
            | .error fault, _ | _, .error fault => .error fault
          else (give o [v]).map fun g => ([g], false)
        | [] =>
          if o.kind = .truth then (give o "true").map fun g => ([g], false)
          else
            match next with
            | some value => (give o value).map fun g => ([g], true)
            | none => .error (.noValueForLetter letter [letter])

/-- Options and arguments. -/
structure Parsed where
  given : Given := []
  args : List Text := []
deriving DecidableEq, Repr

/-- Read the arguments of a command from the left. -/
def parse (options : List OptionSpec) (p : Parsed) : List Text → Except Fault Parsed
  | [] => .ok p
  | s :: rest =>
    let reading : Option Reading :=
      match s with
      | a :: b :: r =>
        if a == hyphen then
          if b == hyphen then
            if r.isEmpty then none else some (readLong options r rest.head?)
          else some (readLetters options rest.head? (b :: r))
        else none
      | _ => none
    match reading with
    | none =>
      if s = "--" then .ok { p with args := p.args ++ rest }
      else parse options { p with args := p.args ++ [s] } rest
    | some (.error fault) => .error fault
    | some (.ok (given, usesNext)) =>
      let p := { p with given := p.given ++ given }
      if usesNext then parse options p rest.tail else parse options p rest
termination_by args => args.length
decreasing_by all_goals (simp only [List.length_cons, List.length_tail]; omega)

/-- The fault of a number of arguments. -/
def arityFault? (c : Command) (args : List Text) : Option Fault :=
  match c.arity with
  | .any => none
  | .none =>
    match args with
    | [] => none
    | word :: _ => some (.unknownCommand word c.path [])
  | .exactly n => if args.length = n then none else some (.wantsExactly n args.length)
  | .atMost n => if args.length ≤ n then none else some (.wantsAtMost n args.length)

namespace Parsed

/-- The option was given. -/
def has (p : Parsed) (name : Text) : Bool := p.given.any (·.1 == name)

/-- The last value of an option, or its usual one. -/
def text (p : Parsed) (c : Command) (name : Text) : Text :=
  match (p.given.reverse.find? (·.1 == name)) with
  | some (_, value) => value
  | none => ((c.options.find? (·.name == name)).map (·.usual)).getD []

/-- The option says yes. -/
def truth (p : Parsed) (c : Command) (name : Text) : Bool := (truthOf? (p.text c name)).getD false

/-- The number of an option. -/
def number (p : Parsed) (c : Command) (name : Text) : Int :=
  match numberOf (p.text c name) with
  | .ok n => n
  | .error _ => 0

end Parsed
end Arguments
end Tarjuman
