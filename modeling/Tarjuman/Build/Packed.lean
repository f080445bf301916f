/-
# Payloads as bytes

The MessagePack format.  A payload is a map from field names to values, in the
order of the fields.  Numbers are written in the width of their field, texts and
lists with the shortest header, and what is not there as null:

    00..7F  small number      C0      null            D9 DA DB  text of 1, 2, 4 byte size
    80..8F  small map         C4..C6  bytes           DC DD     list of 2, 4 byte size
    90..9F  small list        CC..CF  number          DE DF     map of 2, 4 byte size
    A0..BF  small text        D0..D3  signed number   E0..FF    small negative number

Reading is more liberal: numbers of any width, fields in any order, names that are
not known, lists of fields without names, and bytes after the end.
-/

import Tarjuman.Build.Payload

namespace Tarjuman
namespace Packed

/-! ## Writing -/

/-- A number in `width` bytes, the highest first. -/
def bigEndian : Nat → Nat → Text
  | 0, _ => []
  | width + 1, n => UInt8.ofNat (n / Nat.pow 256 width) :: bigEndian width n

/-- A text behind its size. -/
def text (s : Text) : Text :=
  let n := s.length
  (if n < 32 then [UInt8.ofNat (0xA0 + n)]
   else if n < 256 then 0xD9 :: bigEndian 1 n
   else if n < 65536 then 0xDA :: bigEndian 2 n
   else 0xDB :: bigEndian 4 n) ++ s

/-- The header of a list. -/
def listHead (n : Nat) : Text :=
  if n < 16 then [UInt8.ofNat (0x90 + n)]
  else if n < 65536 then 0xDC :: bigEndian 2 n
  else 0xDD :: bigEndian 4 n

/-- A list behind its size. -/
def list (items : List Text) : Text := listHead items.length ++ items.flatten

/-- A list that is null when it is empty. -/
def listOrNull (items : List Text) : Text := if items.isEmpty then [0xC0] else list items

/-- A map of fewer than sixteen fields. -/
def fields (fs : List (Text × Text)) : Text :=
  UInt8.ofNat (0x80 + fs.length) :: fs.flatMap fun (name, value) => text name ++ value

def word8 (n : UInt8) : Text := 0xCC :: bigEndian 1 n.toNat
def word16 (n : UInt16) : Text := 0xCD :: bigEndian 2 n.toNat
def word32 (n : UInt32) : Text := 0xCE :: bigEndian 4 n.toNat

/-- A note. -/
def note (n : StoredNote) : Text :=
  fields [("Start", word32 n.start), ("End", word32 n.stop), ("Msg", text n.message)]

/-- A diagnostic. -/
def report (r : StoredReport) : Text :=
  fields
    [("Code", word16 r.code), ("Severity", word8 r.severity), ("Start", word32 r.start),
     ("End", word32 r.stop), ("Message", text r.message),
     ("Notes", listOrNull (r.notes.map note))]

/-- A payload. -/
def encode (p : Payload) : Text :=
  fields
    [("Schema", word16 p.schema), ("Fragments", listOrNull (p.fragments.map text)),
     ("Diagnostics",
      match p.reports with
      | some rs => list (rs.map report)
      | none => [0xC0])]

/-! ## Reading

A reader takes bytes from the front and gives the rest back. -/

/-- The first `n` bytes and the rest, if there are as many. -/
def take? (n : Nat) (s : Text) : Option (Text × Text) :=
  if n ≤ s.length then some (s.take n, s.drop n) else none

/-- A number in `width` bytes, the highest first. -/
def unsigned? (width : Nat) (s : Text) : Option (Nat × Text) :=
  (take? width s).map fun (bytes, rest) => (bytes.foldl (fun n b => 256 * n + b.toNat) 0, rest)

/-- A number in `width` bytes with a sign. -/
def signed? (width : Nat) (s : Text) : Option (Int × Text) :=
  (unsigned? width s).map fun (n, rest) => (Int.bmod n (Nat.pow 256 width), rest)

/-- A number of any width; null is zero. -/
def number? : Text → Option (Int × Text)
  | [] => none
  | b :: s =>
    let unsigned (width : Nat) : Option (Int × Text) :=
      (unsigned? width s).map fun (n, rest) => (Int.ofNat n, rest)
    match b with
    | 0xC0 => some (0, s)
    | 0xCC => unsigned 1
    | 0xCD => unsigned 2
    | 0xCE => unsigned 4
    | 0xCF => unsigned 8
    | 0xD0 => signed? 1 s
    | 0xD1 => signed? 2 s
    | 0xD2 => signed? 4 s
    | 0xD3 => signed? 8 s
    | b =>
      if b < 0x80 then some (b.toNat, s)
      else if 0xE0 ≤ b then some (b.toNat - 256, s)
      else none

/-- A text or bytes; null is the empty text. -/
def text? : Text → Option (Text × Text)
  | [] => none
  | b :: s =>
    let sized (width : Nat) : Option (Text × Text) := do
      let (n, rest) ← unsigned? width s
      take? n rest
    match b with
    | 0xC0 => some ([], s)
    | 0xC4 | 0xD9 => sized 1
    | 0xC5 | 0xDA => sized 2
    | 0xC6 | 0xDB => sized 4
    | b => if 0xA0 ≤ b && b < 0xC0 then take? (b.toNat - 0xA0) s else none

/-- The size of a list, or that it is null. -/
def listHead? : Text → Option (Option Nat × Text)
  | [] => none
  | b :: s =>
    let sized (width : Nat) : Option (Option Nat × Text) :=
      (unsigned? width s).map fun (n, rest) => (some n, rest)
    match b with
    | 0xC0 => some (none, s)
    | 0xDC => sized 2
    | 0xDD => sized 4
    | b => if 0x90 ≤ b && b < 0xA0 then some (some (b.toNat - 0x90), s) else none

/-- The size of a map, or that it is null. -/
def mapHead? : Text → Option (Option Nat × Text)
  | [] => none
  | b :: s =>
    let sized (width : Nat) : Option (Option Nat × Text) :=
      (unsigned? width s).map fun (n, rest) => (some n, rest)
    match b with
    | 0xC0 => some (none, s)
    | 0xDE => sized 2
    | 0xDF => sized 4
    | b => if 0x80 ≤ b && b < 0x90 then some (some (b.toNat - 0x80), s) else none

/-- Behind the first byte of a value: how many bytes belong to it, and how many
values follow as its parts. -/
def extent (b : UInt8) (s : Text) : Option (Nat × Nat) :=
  let sized (width more : Nat) : Option (Nat × Nat) :=
    (unsigned? width s).map fun (n, _) => (width + more + n, 0)
  let parts (width times : Nat) : Option (Nat × Nat) :=
    (unsigned? width s).map fun (n, _) => (width, times * n)
  let n := b.toNat
  if n < 0x80 ∨ 0xE0 ≤ n then some (0, 0)
  else if n < 0x90 then some (0, 2 * (n - 0x80))
  else if n < 0xA0 then some (0, n - 0x90)
  else if n < 0xC0 then some (n - 0xA0, 0)
  else
    match n with
    | 0xC0 | 0xC2 | 0xC3 => some (0, 0)
    | 0xC4 | 0xD9 => sized 1 0
    | 0xC5 | 0xDA => sized 2 0
    | 0xC6 | 0xDB => sized 4 0
    | 0xC7 => sized 1 1
    | 0xC8 => sized 2 1
    | 0xC9 => sized 4 1
    | 0xCC | 0xD0 => some (1, 0)
    | 0xCD | 0xD1 | 0xD4 => some (2, 0)
    | 0xD5 => some (3, 0)
    | 0xCA | 0xCE | 0xD2 => some (4, 0)
    | 0xD6 => some (5, 0)
    | 0xCB | 0xCF | 0xD3 => some (8, 0)
    | 0xD7 => some (9, 0)
    | 0xD8 => some (17, 0)
    | 0xDC => parts 2 1
    | 0xDD => parts 4 1
    | 0xDE => parts 2 2
    | 0xDF => parts 4 2
    | _ => none

/-- What is left behind `pending` values of any kind. -/
def skip? (pending : Nat) (s : Text) : Option Text :=
  match pending, s with
  | 0, s => some s
  | _ + 1, [] => none
  | pending + 1, b :: s =>
    match extent b s with
    | none => none
    | some (bytes, parts) =>
      if s.length < bytes then none else skip? (pending + parts) (s.drop bytes)
termination_by s.length
decreasing_by exact Nat.lt_succ_of_le (List.length_drop ▸ Nat.sub_le _ _)

/-- A record of named fields: `field` reads one into a record. -/
structure RecordReader (α : Type) where
  names : List Text
  empty : α
  field : Text → α → Text → Option (α × Text)

namespace RecordReader

variable {α : Type} (r : RecordReader α)

/-- `n` names with their values. -/
def named (n : Nat) (a : α) (s : Text) : Option (α × Text) :=
  match n with
  | 0 => some (a, s)
  | n + 1 => do
    let (name, s) ← text? s
    if r.names.contains name then
      let (a, s) ← r.field name a s
      named n a s
    else
      let s ← skip? 1 s
      named n a s

/-- The values of the given fields, without their names. -/
def unnamed (names : List Text) (a : α) (s : Text) : Option (α × Text) :=
  match names with
  | [] => some (a, s)
  | name :: names => do
    let (a, s) ← r.field name a s
    unnamed names a s

/-- A record, read into one that is there: a map, a list of all fields, or null or
an empty list for the empty record. -/
def read (a : α) (s : Text) : Option (α × Text) :=
  match mapHead? s with
  | some (some n, s) => r.named n a s
  | some (none, s) => some (r.empty, s)
  | none =>
    match listHead? s with
    | some (some 0, s) => some (r.empty, s)
    | some (some n, s) => if n = r.names.length then r.unnamed r.names a s else none
    | _ => none

/-- `n` records, read into those that are there. -/
def readMany (n : Nat) (as : List α) (s : Text) : Option (List α × Text) :=
  match n with
  | 0 => some ([], s)
  | n + 1 => do
    let (a, s) ← r.read (as.headD r.empty) s
    let (as, s) ← readMany n as.tail s
    return (a :: as, s)

end RecordReader

/-- `n` texts. -/
def texts? (n : Nat) (s : Text) : Option (List Text × Text) :=
  match n with
  | 0 => some ([], s)
  | n + 1 => do
    let (t, s) ← text? s
    let (ts, s) ← texts? n s
    return (t :: ts, s)

/-- A number cut to sixteen bits. -/
def cut16 (n : Int) : UInt16 := UInt16.ofNat (n % 65536).toNat

/-- A number cut to thirty-two bits. -/
def cut32 (n : Int) : UInt32 := UInt32.ofNat (n % 4294967296).toNat

/-- A number cut to eight bits. -/
def cut8 (n : Int) : UInt8 := UInt8.ofNat (n % 256).toNat

/-- Notes. -/
def noteReader : RecordReader StoredNote where
  names := ["Start", "End", "Msg"]
  empty := {}
  field name n s :=
    if name = "Start" then (number? s).map fun (v, s) => ({ n with start := cut32 v }, s)
    else if name = "End" then (number? s).map fun (v, s) => ({ n with stop := cut32 v }, s)
    else (text? s).map fun (v, s) => ({ n with message := v }, s)

/-- Diagnostics. -/
def reportReader : RecordReader StoredReport where
  names := ["Code", "Severity", "Start", "End", "Message", "Notes"]
  empty := {}
  field name r s :=
    if name = "Code" then (number? s).map fun (v, s) => ({ r with code := cut16 v }, s)
    else if name = "Severity" then (number? s).map fun (v, s) => ({ r with severity := cut8 v }, s)
    else if name = "Start" then (number? s).map fun (v, s) => ({ r with start := cut32 v }, s)
    else if name = "End" then (number? s).map fun (v, s) => ({ r with stop := cut32 v }, s)
    else if name = "Message" then (text? s).map fun (v, s) => ({ r with message := v }, s)
    else
      match listHead? s with
      | some (some n, s) =>
        (noteReader.readMany n r.notes s).map fun (v, s) => ({ r with notes := v }, s)
      | some (none, s) => some ({ r with notes := [] }, s)
      | none => none

/-- Payloads. -/
def payloadReader : RecordReader Payload where
  names := ["Schema", "Fragments", "Diagnostics"]
  empty := {}
  field name p s :=
    if name = "Schema" then (number? s).map fun (v, s) => ({ p with schema := cut16 v }, s)
    else if name = "Fragments" then
      match listHead? s with
      | some (some n, s) => (texts? n s).map fun (v, s) => ({ p with fragments := v }, s)
      | some (none, s) => some (p, s)
      | none => none
    else
      match listHead? s with
      | some (some n, s) =>
        (reportReader.readMany n (p.reports.getD []) s).map fun (v, s) =>
          ({ p with reports := some v }, s)
      | some (none, s) => some ({ p with reports := none }, s)
      | none => none

/-- The payload at the front of some bytes. -/
def decode? (s : Text) : Option Payload := (payloadReader.read {} s).map (·.1)

end Packed
end Tarjuman
