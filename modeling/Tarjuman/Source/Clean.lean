/-
# Clean contents

What happens to the bytes of a file before they are read: a byte-order mark at
the start goes, every carriage return with a line feed after it becomes the line
feed alone, and the text is composed canonically, so that letters with a
combining hamza or madda match the spellings of the keywords.  The flags say
which of the steps changed something.
-/

import Tarjuman.Unicode.Normal

namespace Tarjuman

/-- What is known of a file's bytes, as a set of flags. -/
structure FileFlags where
  bits : UInt8
deriving DecidableEq, Repr, Inhabited

namespace FileFlags

def none : FileFlags := ⟨0⟩
/-- The content does not come from a file. -/
def isVirtual : FileFlags := ⟨1⟩
/-- A byte-order mark was removed. -/
def hadMark : FileFlags := ⟨2⟩
/-- Line ends were changed. -/
def hadReturns : FileFlags := ⟨4⟩
/-- The text was not composed. -/
def wasComposed : FileFlags := ⟨8⟩

/-- All flags of both. -/
def union (a b : FileFlags) : FileFlags := ⟨a.bits ||| b.bits⟩

/-- Every flag of `b` is set. -/
def includes (a b : FileFlags) : Bool := a.bits &&& b.bits == b.bits

/-- The names of the flags that are set. -/
def render (f : FileFlags) : Text :=
  let named : List (FileFlags × Text) :=
    [(isVirtual, "virtual"), (hadMark, "bom"), (hadReturns, "crlf"), (wasComposed, "nfc")]
  match named.filter (f.includes ·.1) with
  | [] => "none"
  | set => Text.join "|" (set.map (·.2))

end FileFlags

namespace Source

/-- The UTF-8 byte-order mark. -/
def orderMark : Text := [0xEF, 0xBB, 0xBF]

/-- The content without a byte-order mark at its start. -/
def withoutMark (content : Text) : Text := (orderMark.isPrefixOf? content).getD content

/-- Every carriage return with a line feed after it becomes the line feed. -/
def unixLines : Text → Text
  | [] => []
  | [b] => [b]
  | a :: b :: r => if a = 0x0D ∧ b = 0x0A then unixLines (b :: r) else a :: unixLines (b :: r)

/-- One step of cleaning, with its flag if it changed the content. -/
def cleanStep (step : Text → Text) (flag : FileFlags) (c : Text × FileFlags) :
    Text × FileFlags :=
  let content := step c.1
  (content, if content = c.1 then c.2 else c.2.union flag)

/-- The content as it is read under a composition, and what was done to it. -/
def cleanWith (k : Unicode.Composition) (content : Text) : Text × FileFlags :=
  cleanStep k.apply .wasComposed
    (cleanStep unixLines .hadReturns
      (cleanStep withoutMark .hadMark (content, .none)))

/-- The content as it is read, and what was done to it. -/
def clean : Text → Text × FileFlags := cleanWith .canonical

end Source
end Tarjuman
