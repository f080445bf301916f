/-
# Reading back what was packed

The layout of a payload is said apart from its writer (`Packed.PayloadForm`).  Numbers
have the width of their field, fields come in their order, and a size stands in any header
that has room for it:

| sizes  | in the marker | one byte | two bytes | four bytes |
|--------|---------------|----------|-----------|------------|
| texts  | A0..BF        | D9       | DA        | DB         |
| lists  | 90..9F        |          | DC        | DD         |

A list without items may be null, but for that of all diagnostics, where null says that
there is none.

What is written has this layout (`Packed.payloadForm_encode`), if texts and lists are short
enough for it, and everything that has it is read (`Packed.decode?_of_form`).  So a payload
that is packed and read again is the same payload (`Packed.decode?_encode`).  Each reader
is shown to read its layout in front of any bytes, and what holds for one record holds for
all of them: a record is read back if its fields, taken in order, fill it
(`RecordReader.read_fields`).
-/

import Mathlib.Data.List.Forall2
import Mathlib.Tactic.IntervalCases
import Mathlib.Tactic.Ring
import Tarjuman.Build.Packed

namespace Tarjuman
namespace Packed

/-! ## Numbers -/

theorem take?_append (a s : Text) : take? a.length (a ++ s) = some (a, s) := by
  rw [take?, if_pos (by rw [List.length_append]; omega), List.take_left, List.drop_left]

theorem length_bigEndian (width n : Nat) : (bigEndian width n).length = width := by
  induction width with
  | zero => rfl
  | succ width ih => rw [bigEndian, List.length_cons, ih]

/-- The bytes of a number, read behind those of another. -/
theorem foldl_bigEndian (width n m : Nat) :
    (bigEndian width n).foldl (fun n b => 256 * n + b.toNat) m =
      256 ^ width * m + n % 256 ^ width := by
  induction width generalizing m with
  | zero => rw [bigEndian, List.foldl_nil, Nat.pow_zero, Nat.mod_one, Nat.one_mul, Nat.add_zero]
  | succ width ih =>
    have hbyte : (UInt8.ofNat (n / Nat.pow 256 width)).toNat = n / 256 ^ width % 256 :=
      UInt8.toNat_ofNat'
    have hmod : n % 256 ^ (width + 1) = n % 256 ^ width + 256 ^ width * (n / 256 ^ width % 256) :=
      Nat.mod_pow_succ
    rw [bigEndian, List.foldl_cons, ih, hbyte, hmod]
    ring

theorem unsigned?_bigEndian {width n : Nat} (h : n < 256 ^ width) (s : Text) :
    unsigned? width (bigEndian width n ++ s) = some (n, s) := by
  have htake := take?_append (bigEndian width n) s
  have hvalue := foldl_bigEndian width n 0
  rw [length_bigEndian] at htake
  rw [Nat.mul_zero, Nat.zero_add, Nat.mod_eq_of_lt h] at hvalue
  rw [unsigned?, htake]
  exact congrArg (fun n => some (n, s)) hvalue

/-- A number behind the byte that gives its width. -/
theorem number?_word8 (n : UInt8) (s : Text) :
    number? (word8 n ++ s) = some ((n.toNat : Int), s) := by
  have h : unsigned? 1 (bigEndian 1 n.toNat ++ s) = some (n.toNat, s) :=
    unsigned?_bigEndian n.toNat_lt s
  rw [word8, List.cons_append, number?]
  dsimp only
  rw [h]
  rfl

theorem number?_word16 (n : UInt16) (s : Text) :
    number? (word16 n ++ s) = some ((n.toNat : Int), s) := by
  have h : unsigned? 2 (bigEndian 2 n.toNat ++ s) = some (n.toNat, s) :=
    unsigned?_bigEndian n.toNat_lt s
  rw [word16, List.cons_append, number?]
  dsimp only
  rw [h]
  rfl

theorem number?_word32 (n : UInt32) (s : Text) :
    number? (word32 n ++ s) = some ((n.toNat : Int), s) := by
  have h : unsigned? 4 (bigEndian 4 n.toNat ++ s) = some (n.toNat, s) :=
    unsigned?_bigEndian n.toNat_lt s
  rw [word32, List.cons_append, number?]
  dsimp only
  rw [h]
  rfl

theorem cut8_toNat (n : UInt8) : cut8 n.toNat = n := by
  have h : ((n.toNat : Int) % 256).toNat = n.toNat := by have := n.toNat_lt; omega
  rw [cut8, h, UInt8.ofNat_toNat]

theorem cut16_toNat (n : UInt16) : cut16 n.toNat = n := by
  have h : ((n.toNat : Int) % 65536).toNat = n.toNat := by have := n.toNat_lt; omega
  rw [cut16, h, UInt16.ofNat_toNat]

theorem cut32_toNat (n : UInt32) : cut32 n.toNat = n := by
  have h : ((n.toNat : Int) % 4294967296).toNat = n.toNat := by have := n.toNat_lt; omega
  rw [cut32, h, UInt32.ofNat_toNat]

/-! ## Sizes, texts and lists -/

/-- How sizes are given: those below `few` in the marker itself, counted from `base`, all
others behind a marker for the number of bytes that they take. -/
structure SizeForms where
  base : Nat
  few : Nat
  wide : List (UInt8 × Nat)

/-- The sizes of texts. -/
def textSizes : SizeForms := ⟨0xA0, 32, [(0xD9, 1), (0xDA, 2), (0xDB, 4)]⟩

/-- The sizes of lists. -/
def listSizes : SizeForms := ⟨0x90, 16, [(0xDC, 2), (0xDD, 4)]⟩

/-- A header for the size `n`. -/
inductive SizeForms.Head (c : SizeForms) (n : Nat) : Text → Prop where
  | few (h : n < c.few) : Head c n [UInt8.ofNat (c.base + n)]
  | wide {marker : UInt8} {width : Nat} (mem : (marker, width) ∈ c.wide)
      (room : n < 256 ^ width) : Head c n (marker :: bigEndian width n)

/-- A text behind its size. -/
def TextForm (t bytes : Text) : Prop := ∃ head, textSizes.Head t.length head ∧ bytes = head ++ t

section Lists

variable {α : Type} (item : α → Text → Prop)

/-- A list behind its size. -/
def ListForm (items : List α) (bytes : Text) : Prop :=
  ∃ head parts, listSizes.Head items.length head ∧ List.Forall₂ item items parts ∧
    bytes = head ++ parts.flatten

/-- A list behind its size, or null if it has no items. -/
def NullableForm (items : List α) (bytes : Text) : Prop :=
  ListForm item items bytes ∨ items = [] ∧ bytes = [0xC0]

end Lists

theorem text?_of_small {b : UInt8} (hlow : 0xA0 ≤ b) (hhigh : b < 0xC0) (s : Text) :
    text? (b :: s) = take? (b.toNat - 0xA0) s := by
  rw [text?]
  · exact if_pos (by rw [decide_eq_true hlow, decide_eq_true hhigh]; rfl)
  all_goals
    rintro rfl
    exact absurd hhigh (by decide)

theorem text?_of_form {t bytes : Text} (h : TextForm t bytes) (s : Text) :
    text? (bytes ++ s) = some (t, s) := by
  have hsized {width : Nat} (room : t.length < 256 ^ width) :
      ((unsigned? width (bigEndian width t.length ++ (t ++ s))).bind fun x => take? x.1 x.2) =
        some (t, s) := by
    rw [unsigned?_bigEndian room]
    exact take?_append t s
  obtain ⟨head, hhead, rfl⟩ := h
  rw [List.append_assoc]
  cases hhead with
  | few hn =>
    have hn : t.length < 32 := hn
    have hbyte : (UInt8.ofNat (0xA0 + t.length)).toNat = 0xA0 + t.length :=
      UInt8.toNat_ofNat_of_lt' (by have : UInt8.size = 256 := rfl; omega)
    show text? (UInt8.ofNat (0xA0 + t.length) :: (t ++ s)) = _
    rw [text?_of_small, hbyte, Nat.add_sub_cancel_left]
    · exact take?_append t s
    · rw [UInt8.le_iff_toNat_le, hbyte]
      exact Nat.le_add_right _ _
    · rw [UInt8.lt_iff_toNat_lt, hbyte]
      exact Nat.add_lt_add_left hn _
  | wide mem room =>
    simp only [textSizes, List.mem_cons, Prod.mk.injEq, List.not_mem_nil, or_false] at mem
    rcases mem with ⟨rfl, rfl⟩ | ⟨rfl, rfl⟩ | ⟨rfl, rfl⟩ <;> exact hsized room

theorem listHead?_of_head {n : Nat} {head : Text} (h : listSizes.Head n head) (s : Text) :
    listHead? (head ++ s) = some (some n, s) := by
  have hsmall (n : Nat) (hn : n < 16) (s : Text) :
      listHead? (UInt8.ofNat (0x90 + n) :: s) = some (some n, s) := by
    interval_cases n <;> rfl
  have hsized {width : Nat} (room : n < 256 ^ width) :
      ((unsigned? width (bigEndian width n ++ s)).map fun x => (some x.1, x.2)) =
        some (some n, s) := by
    rw [unsigned?_bigEndian room]
    rfl
  cases h with
  | few hn => exact hsmall n hn s
  | wide mem room =>
    simp only [listSizes, List.mem_cons, Prod.mk.injEq, List.not_mem_nil, or_false] at mem
    rcases mem with ⟨rfl, rfl⟩ | ⟨rfl, rfl⟩ <;> exact hsized room

theorem texts?_of_forms {ts parts : List Text} (h : List.Forall₂ TextForm ts parts) (s : Text) :
    texts? ts.length (parts.flatten ++ s) = some (ts, s) := by
  induction h with
  | nil => rfl
  | cons ht _ ih =>
    rw [List.flatten_cons, List.append_assoc, List.length_cons, texts?, text?_of_form ht]
    dsimp only [Option.bind_eq_bind, Option.bind_some]
    rw [ih]
    rfl

/-- The sizes that the format can give. -/
def sizeBound : Nat := 256 ^ 4

/-- What is written for a text has the layout of texts. -/
theorem textForm_text {t : Text} (h : t.length < sizeBound) : TextForm t (text t) := by
  refine ⟨_, ?_, rfl⟩
  split
  · rename_i hn
    exact .few hn
  split
  · rename_i hn
    exact .wide (by decide) hn
  split
  · rename_i hn
    exact .wide (by decide) hn
  · exact .wide (by decide) h

theorem head_listHead {n : Nat} (h : n < sizeBound) : listSizes.Head n (listHead n) := by
  rw [listHead]
  split
  · rename_i hn
    exact .few hn
  split
  · rename_i hn
    exact .wide (by decide) hn
  · exact .wide (by decide) h

section Lists

variable {α : Type} {item : α → Text → Prop} {encode : α → Text} {items : List α}

theorem listForm_list (hitem : ∀ x ∈ items, item x (encode x))
    (hlen : items.length < sizeBound) : ListForm item items (list (items.map encode)) := by
  refine ⟨_, _, ?_, ?_, rfl⟩
  · rw [List.length_map]
    exact head_listHead hlen
  · exact List.forall₂_map_right_iff.2 (List.forall₂_same.2 hitem)

theorem nullableForm_listOrNull (hitem : ∀ x ∈ items, item x (encode x))
    (hlen : items.length < sizeBound) :
    NullableForm item items (listOrNull (items.map encode)) := by
  cases items with
  | nil => exact .inr ⟨rfl, rfl⟩
  | cons x r => exact .inl (listForm_list hitem hlen)

end Lists

/-! ## Records -/

namespace RecordReader

variable {α : Type} {r : RecordReader α}

/-- Fields that, read in order into the record `a`, make it the record `b`. -/
inductive Fills (r : RecordReader α) : α → List (Text × Text) → α → Prop where
  | nil (a : α) : Fills r a [] a
  | cons {a a' b : α} {name value : Text} {fs : List (Text × Text)}
      (known : r.names.contains name = true) (short : name.length < sizeBound)
      (reads : ∀ s, r.field name a (value ++ s) = some (a', s)) (rest : Fills r a' fs b) :
      Fills r a ((name, value) :: fs) b

theorem named_of_fills {a b : α} {fs : List (Text × Text)} (h : Fills r a fs b) (s : Text) :
    r.named fs.length a ((fs.flatMap fun (name, value) => text name ++ value) ++ s) =
      some (b, s) := by
  induction h with
  | nil a => rfl
  | cons known short reads _ ih =>
    rw [List.flatMap_cons, List.append_assoc, List.append_assoc, List.length_cons, named,
      text?_of_form (textForm_text short)]
    dsimp only [Option.bind_eq_bind, Option.bind_some]
    rw [if_pos known, reads]
    exact ih

/-- **A record is read back** if its fields fill it. -/
theorem read_fields {a b : α} {fs : List (Text × Text)} (h : Fills r a fs b)
    (hlen : fs.length < 16) (s : Text) : r.read a (fields fs ++ s) = some (b, s) := by
  have hhead (n : Nat) (hn : n < 16) (s : Text) :
      mapHead? (UInt8.ofNat (0x80 + n) :: s) = some (some n, s) := by
    interval_cases n <;> rfl
  rw [fields, List.cons_append, read, hhead _ hlen]
  exact named_of_fills h s

/-- Records that are read one by one are read as a list. -/
theorem readMany_of_forms {item : α → Text → Prop} {items : List α} {parts : List Text}
    (hread : ∀ x bytes, item x bytes → ∀ s, r.read r.empty (bytes ++ s) = some (x, s))
    (h : List.Forall₂ item items parts) (s : Text) :
    r.readMany items.length [] (parts.flatten ++ s) = some (items, s) := by
  induction h with
  | nil => rfl
  | cons hx _ ih =>
    rw [List.flatten_cons, List.append_assoc, List.length_cons, readMany]
    dsimp only [List.headD_nil, List.tail_nil]
    rw [hread _ _ hx]
    dsimp only [Option.bind_eq_bind, Option.bind_some]
    rw [ih]
    rfl

end RecordReader
end Packed

/-! ## Payloads -/

/-- The note fits the format. -/
def StoredNote.Fits (n : StoredNote) : Prop := n.message.length < Packed.sizeBound

/-- The diagnostic fits the format. -/
structure StoredReport.Fits (r : StoredReport) : Prop where
  message : r.message.length < Packed.sizeBound
  notes : r.notes.length < Packed.sizeBound
  note : ∀ n ∈ r.notes, n.Fits

/-- The payload fits the format. -/
structure Payload.Fits (p : Payload) : Prop where
  fragments : p.fragments.length < Packed.sizeBound
  fragment : ∀ t ∈ p.fragments, t.length < Packed.sizeBound
  reports : ∀ rs ∈ p.reports, rs.length < Packed.sizeBound
  report : ∀ rs ∈ p.reports, ∀ r ∈ rs, r.Fits

instance (n : StoredNote) : Decidable n.Fits :=
  inferInstanceAs (Decidable (n.message.length < Packed.sizeBound))

instance (r : StoredReport) : Decidable r.Fits :=
  decidable_of_iff (r.message.length < Packed.sizeBound ∧ r.notes.length < Packed.sizeBound ∧
      ∀ n ∈ r.notes, n.Fits)
    ⟨fun ⟨message, notes, note⟩ => ⟨message, notes, note⟩,
      fun ⟨message, notes, note⟩ => ⟨message, notes, note⟩⟩

instance (p : Payload) : Decidable p.Fits :=
  decidable_of_iff (p.fragments.length < Packed.sizeBound ∧
      (∀ t ∈ p.fragments, t.length < Packed.sizeBound) ∧
      (∀ rs ∈ p.reports, rs.length < Packed.sizeBound) ∧ ∀ rs ∈ p.reports, ∀ r ∈ rs, r.Fits)
    ⟨fun ⟨fragments, fragment, reports, report⟩ => ⟨fragments, fragment, reports, report⟩,
      fun ⟨fragments, fragment, reports, report⟩ => ⟨fragments, fragment, reports, report⟩⟩

namespace Packed

variable {α : Type}

/-- A number of thirty-two bits read into a record. -/
theorem map_number?_word32 (f : UInt32 → α) (n : UInt32) (s : Text) :
    ((number? (word32 n ++ s)).map fun (v, s) => (f (cut32 v), s)) = some (f n, s) := by
  rw [number?_word32]
  exact congrArg (fun v => some (f v, s)) (cut32_toNat n)

theorem map_number?_word16 (f : UInt16 → α) (n : UInt16) (s : Text) :
    ((number? (word16 n ++ s)).map fun (v, s) => (f (cut16 v), s)) = some (f n, s) := by
  rw [number?_word16]
  exact congrArg (fun v => some (f v, s)) (cut16_toNat n)

theorem map_number?_word8 (f : UInt8 → α) (n : UInt8) (s : Text) :
    ((number? (word8 n ++ s)).map fun (v, s) => (f (cut8 v), s)) = some (f n, s) := by
  rw [number?_word8]
  exact congrArg (fun v => some (f v, s)) (cut8_toNat n)

theorem map_text?_of_form (f : Text → α) {t bytes : Text} (h : TextForm t bytes) (s : Text) :
    ((text? (bytes ++ s)).map fun (v, s) => (f v, s)) = some (f t, s) := by
  rw [text?_of_form h]
  rfl

section Lists

variable {β : Type} {item : β → Text → Prop} {items : List β} {bytes : Text}
  {g : Nat → Text → Option (List β × Text)}

/-- A list read into a record by `g`, which reads as many items as it is told. -/
theorem match_listHead?_of_form
    (hg : ∀ parts, List.Forall₂ item items parts → ∀ s,
      g items.length (parts.flatten ++ s) = some (items, s))
    (h : ListForm item items bytes) (f : List β → α) (a : α) (s : Text) :
    (match listHead? (bytes ++ s) with
      | some (some n, s) => (g n s).map fun (v, s) => (f v, s)
      | some (none, s) => some (a, s)
      | none => none) = some (f items, s) := by
  obtain ⟨head, parts, hhead, hparts, rfl⟩ := h
  rw [List.append_assoc, listHead?_of_head hhead]
  exact congrArg (Option.map _) (hg parts hparts s)

/-- A list that may be null when it has no items. -/
theorem match_listHead?_of_nullable
    (hg : ∀ parts, List.Forall₂ item items parts → ∀ s,
      g items.length (parts.flatten ++ s) = some (items, s))
    (h : NullableForm item items bytes) (f : List β → α) (s : Text) :
    (match listHead? (bytes ++ s) with
      | some (some n, s) => (g n s).map fun (v, s) => (f v, s)
      | some (none, s) => some (f [], s)
      | none => none) = some (f items, s) := by
  rcases h with h | ⟨rfl, rfl⟩
  · exact match_listHead?_of_form hg h f (f []) s
  · rfl

end Lists

/-- The layout of a note. -/
inductive NoteForm (n : StoredNote) : Text → Prop where
  | mk {message : Text} (text : TextForm n.message message) :
      NoteForm n (fields [("Start", word32 n.start), ("End", word32 n.stop), ("Msg", message)])

/-- The layout of a diagnostic. -/
inductive ReportForm (r : StoredReport) : Text → Prop where
  | mk {message notes : Text} (text : TextForm r.message message)
      (list : NullableForm NoteForm r.notes notes) :
      ReportForm r (fields
        [("Code", word16 r.code), ("Severity", word8 r.severity), ("Start", word32 r.start),
         ("End", word32 r.stop), ("Message", message), ("Notes", notes)])

/-- The layout of a payload. -/
inductive PayloadForm (p : Payload) : Text → Prop where
  | mk {fragments reports : Text} (texts : NullableForm TextForm p.fragments fragments)
      (list : ∀ rs ∈ p.reports, ListForm ReportForm rs reports)
      (null : p.reports = none → reports = [0xC0]) :
      PayloadForm p (fields
        [("Schema", word16 p.schema), ("Fragments", fragments), ("Diagnostics", reports)])

theorem read_of_noteForm (n : StoredNote) (bytes : Text) (h : NoteForm n bytes) (s : Text) :
    noteReader.read noteReader.empty (bytes ++ s) = some (n, s) := by
  obtain ⟨text⟩ := h
  refine RecordReader.read_fields ?_ ?_ s
  · refine .cons rfl (by decide) (map_number?_word32 (StoredNote.mk · 0 []) _) ?_
    refine .cons rfl (by decide) (map_number?_word32 (StoredNote.mk n.start · []) _) ?_
    exact .cons rfl (by decide) (map_text?_of_form (StoredNote.mk n.start n.stop ·) text) (.nil _)
  · exact (by decide : 3 < 16)

theorem read_of_reportForm (r : StoredReport) (bytes : Text) (h : ReportForm r bytes) (s : Text) :
    reportReader.read reportReader.empty (bytes ++ s) = some (r, s) := by
  obtain ⟨text, list⟩ := h
  refine RecordReader.read_fields ?_ ?_ s
  · refine .cons rfl (by decide) (map_number?_word16 (StoredReport.mk · 0 0 0 [] []) _) ?_
    refine .cons rfl (by decide) (map_number?_word8 (StoredReport.mk r.code · 0 0 [] []) _) ?_
    refine .cons rfl (by decide)
      (map_number?_word32 (StoredReport.mk r.code r.severity · 0 [] []) _) ?_
    refine .cons rfl (by decide)
      (map_number?_word32 (StoredReport.mk r.code r.severity r.start · [] []) _) ?_
    refine .cons rfl (by decide)
      (map_text?_of_form (StoredReport.mk r.code r.severity r.start r.stop · []) text) ?_
    refine .cons rfl (by decide) (match_listHead?_of_nullable
      (fun _ => RecordReader.readMany_of_forms read_of_noteForm) list
      (StoredReport.mk r.code r.severity r.start r.stop r.message ·)) (.nil _)
  · exact (by decide : 6 < 16)

/-- **Everything that has the layout of a payload is read as that payload.** -/
theorem decode?_of_form {p : Payload} {bytes : Text} (h : PayloadForm p bytes) :
    decode? bytes = some p := by
  have hread : payloadReader.read {} (bytes ++ []) = some (p, []) := by
    obtain ⟨texts, list, null⟩ := h
    refine RecordReader.read_fields ?_ ?_ []
    · refine .cons rfl (by decide) (map_number?_word16 (Payload.mk · [] none) _) ?_
      refine .cons rfl (by decide) (match_listHead?_of_nullable
        (fun _ => texts?_of_forms) texts (Payload.mk p.schema · none)) ?_
      refine .cons rfl (by decide) (fun s => ?_) (.nil _)
      obtain ⟨schema, fragments, reports⟩ := p
      cases reports with
      | none =>
        obtain rfl := null rfl
        rfl
      | some rs =>
        exact match_listHead?_of_form
          (fun _ => RecordReader.readMany_of_forms read_of_reportForm) (list rs rfl)
          (fun v => Payload.mk schema fragments (some v)) (Payload.mk schema fragments none) s
    · exact (by decide : 3 < 16)
  rw [List.append_nil] at hread
  rw [decode?, hread]
  rfl

/-- **What is written for a payload that fits has the layout of a payload.** -/
theorem payloadForm_encode {p : Payload} (h : p.Fits) : PayloadForm p (encode p) := by
  have hnote (n : StoredNote) (hn : n.Fits) : NoteForm n (note n) := .mk (textForm_text hn)
  have hreport (r : StoredReport) (hr : r.Fits) : ReportForm r (report r) :=
    .mk (textForm_text hr.message)
      (nullableForm_listOrNull (fun n hn => hnote n (hr.note n hn)) hr.notes)
  refine .mk (nullableForm_listOrNull (fun t ht => textForm_text (h.fragment t ht)) h.fragments)
    (fun rs hrs => ?_) fun hnone => ?_
  · rw [Option.mem_def.1 hrs]
    exact listForm_list (fun r hr => hreport r (h.report rs hrs r hr)) (h.reports rs hrs)
  · rw [hnone]

/-- **A payload that fits is read back.** -/
theorem decode?_encode {p : Payload} (h : p.Fits) : decode? (encode p) = some p :=
  decode?_of_form (payloadForm_encode h)

end Packed
end Tarjuman
