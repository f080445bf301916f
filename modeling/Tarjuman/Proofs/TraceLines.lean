/-
# One event, one line

Readers of a trace split it at its line feeds, so an event should hold one, at its end.  As a
JSON object it always does: every value that is written on one line stays there
(`Json.OnLine`), since strings are escaped (`Json.lineFeed_not_mem_quoted`) and numbers have
digits only.

For readers, names, details and named values are written as they are.  The line feeds in them
are then line feeds of the trace, and the event is one line exactly if there are none
(`TraceEvent.written_on_one_line_iff`).
-/

import Mathlib
import Tarjuman.Proofs.SeparatorEscapes
import Tarjuman.Proofs.SourceLines
import Tarjuman.Token.Cursor
import Tarjuman.Trace.Event

namespace Tarjuman

open Cursor (lineFeed)

/-! ## Numerals and clocks -/

namespace Text

theorem lineFeed_not_mem_digitsOnto {base : Nat} (hlow : 2 ≤ base) (hhigh : base ≤ 16) (n : Nat)
    {acc : Text} (hacc : lineFeed ∉ acc) : lineFeed ∉ digitsOnto base digit n acc := by
  have hdigit : ∀ d < 16, lineFeed ≠ digit d := by decide
  fun_induction digitsOnto base digit n acc with
  | case1 n acc hbase ih =>
    have hlt := Nat.mod_lt n (Nat.zero_lt_of_lt hlow)
    exact ih (List.not_mem_cons_of_ne_of_not_mem (hdigit _ (by omega)) hacc)
  | case2 n acc hbase =>
    exact List.not_mem_cons_of_ne_of_not_mem (hdigit n (by omega)) hacc

@[simp]
theorem lineFeed_not_mem_ofNat (n : Nat) : lineFeed ∉ ofNat n :=
  lineFeed_not_mem_digitsOnto (by decide) (by decide) n List.not_mem_nil

theorem lineFeed_not_mem_replicate {b : UInt8} (hb : lineFeed ≠ b) (k : Nat) :
    lineFeed ∉ List.replicate k b := fun h => hb (List.eq_of_mem_replicate h)

@[simp]
theorem lineFeed_not_mem_spaces (k : Nat) : lineFeed ∉ spaces k :=
  lineFeed_not_mem_replicate (by decide) k

@[simp]
theorem lineFeed_not_mem_ofNatPadded (w n : Nat) : lineFeed ∉ ofNatPadded w n :=
  List.not_mem_append (lineFeed_not_mem_replicate (by decide) _) (lineFeed_not_mem_ofNat n)

@[simp]
theorem lineFeed_not_mem_hexPadded (w n : Nat) : lineFeed ∉ hexPadded w n :=
  List.not_mem_append (lineFeed_not_mem_replicate (by decide) _)
    (lineFeed_not_mem_digitsOnto (by decide) (by decide) n List.not_mem_nil)

end Text

theorem Moment.lineFeed_not_mem_clock (t : Moment) : lineFeed ∉ t.clock := by
  have hcolon : lineFeed ∉ Text.ofString ":" := by decide
  have hdot : lineFeed ∉ Text.ofString "." := by decide
  simp [clock, hcolon, hdot]

/-! ## JSON on one line -/

namespace Json

theorem lineFeed_not_mem_escapeChar (c : Char) : lineFeed ∉ escapeChar c := by
  have hbackslash : lineFeed ∉ Text.ofString "\\u" := by decide
  rw [escapeChar]
  -- One case for each way to write a character; the last one is the character itself.
  split_ifs with _ _ _ _ hfeed
  · decide
  · decide
  · decide
  · decide
  · decide
  · decide
  · decide
  · exact List.not_mem_append hbackslash (Text.lineFeed_not_mem_hexPadded 4 _)
  · intro hmem
    obtain rfl := Utf8.eq_of_byte_mem (d := '\n') (by decide) hmem
    exact hfeed rfl

/-- **No string is written with a line feed.** -/
theorem lineFeed_not_mem_quoted (s : Text) : lineFeed ∉ quoted s := by
  have hquote : lineFeed ∉ Text.ofString "\"" := by decide
  have hreplaced : lineFeed ∉ Utf8.encode Utf8.replacement := by decide
  refine List.not_mem_append (List.not_mem_append hquote ?_) hquote
  rw [List.mem_flatMap]
  rintro ⟨item, -, hmem⟩
  cases item with
  | char c => exact lineFeed_not_mem_escapeChar c hmem
  | stray b => exact hreplaced hmem

/-- The value is written without a line feed. -/
def OnLine (j : Json) : Prop := lineFeed ∉ j.compact

theorem onLine_string (s : Text) : (Json.string s).OnLine := by
  rw [OnLine, compact]
  exact lineFeed_not_mem_quoted s

theorem onLine_nat (n : Nat) : (nat n).OnLine := by
  rw [OnLine, nat, compact]
  exact Text.lineFeed_not_mem_ofNat n

theorem compactFields_eq_map (fields : List (Text × Json)) :
    compactFields fields = fields.map fun x => quoted x.1 ++ ":" ++ x.2.compact := by
  induction fields with
  | nil => rw [compactFields, List.map_nil]
  | cons x fields ih => rw [compactFields, List.map_cons, ih]

/-- **An object stays on its line** if the values in it do. -/
theorem onLine_object {fields : List (Text × Json)} (h : ∀ x ∈ fields, x.2.OnLine) :
    (Json.object fields).OnLine := by
  have hcolon : lineFeed ∉ Text.ofString ":" := by decide
  rw [OnLine, compact, compactFields_eq_map]
  refine List.not_mem_append (List.not_mem_append (by decide) ?_) (by decide)
  rw [Text.mem_join_iff (by decide)]
  rintro ⟨part, hpart, hmem⟩
  obtain ⟨x, hx, rfl⟩ := List.mem_map.1 hpart
  exact List.not_mem_append (List.not_mem_append (lineFeed_not_mem_quoted x.1) hcolon) (h x hx) hmem

/-- So does one that is given by its fields. -/
theorem onLine_record {fields : List Field} (h : ∀ f ∈ fields, ∀ x ∈ f, x.2.OnLine) :
    (record fields).OnLine := by
  refine onLine_object fun x hx => ?_
  obtain ⟨f, hf, hx⟩ := List.mem_flatten.1 hx
  exact h f hf x hx

section Fields

variable {name : Text} {x : Text × Json}

theorem onLine_of_mem_field {j : Json} (hj : j.OnLine) (hx : x ∈ field name j) : x.2.OnLine := by
  obtain rfl := List.mem_singleton.1 hx
  exact hj

theorem onLine_of_mem_text {s : Text} (hx : x ∈ text name s) : x.2.OnLine :=
  onLine_of_mem_field (onLine_string s) hx

theorem onLine_of_mem_count {n : Nat} (hx : x ∈ count name n) : x.2.OnLine :=
  onLine_of_mem_field (onLine_nat n) hx

theorem onLine_of_mem_countUnlessZero {n : Nat} (hx : x ∈ countUnlessZero name n) : x.2.OnLine := by
  rw [countUnlessZero] at hx
  split at hx
  · cases hx
  · exact onLine_of_mem_count hx

theorem onLine_of_mem_textUnlessEmpty {s : Text} (hx : x ∈ textUnlessEmpty name s) :
    x.2.OnLine := by
  rw [textUnlessEmpty] at hx
  split at hx
  · cases hx
  · exact onLine_of_mem_text hx

end Fields

end Json

/-! ## Events -/

theorem TraceKind.lineFeed_not_mem_mark (k : TraceKind) : lineFeed ∉ k.mark := by
  rw [mark]
  split <;> decide

namespace TraceEvent

/-- **An event as a JSON object stays on its line.** -/
theorem onLine_json (e : TraceEvent) : e.json.OnLine := by
  refine Json.onLine_record ?_
  simp only [List.forall_mem_cons]
  refine ⟨fun x => Json.onLine_of_mem_text, fun x => Json.onLine_of_mem_count,
    fun x => Json.onLine_of_mem_text, fun x => Json.onLine_of_mem_text,
    fun x => Json.onLine_of_mem_countUnlessZero, fun x => Json.onLine_of_mem_countUnlessZero,
    fun x => Json.onLine_of_mem_countUnlessZero, fun x => Json.onLine_of_mem_text,
    fun x => Json.onLine_of_mem_textUnlessEmpty, fun x hx => ?_, List.forall_mem_nil _⟩
  split at hx
  · cases hx
  · refine Json.onLine_of_mem_field (Json.onLine_object fun y hy => ?_) hx
    obtain ⟨kv, -, rfl⟩ := List.mem_map.1 hy
    exact Json.onLine_string kv.2

/-- No part that is given by the caller holds a line feed. -/
structure Unbroken (e : TraceEvent) : Prop where
  name : lineFeed ∉ e.name
  detail : lineFeed ∉ e.detail
  extra : ∀ x ∈ e.extra, lineFeed ∉ x.1 ∧ lineFeed ∉ x.2

theorem mem_sortedExtra {e : TraceEvent} {x : Text × Text} : x ∈ e.sortedExtra ↔ x ∈ e.extra := by
  rw [sortedExtra]
  exact (List.mergeSort_perm _ _).mem_iff

/-- The detail between its brackets holds the line feeds of the detail. -/
theorem lineFeed_mem_detail_iff (e : TraceEvent) :
    lineFeed ∈ Text.when (!e.detail.isEmpty) (" (" ++ e.detail ++ ")") ↔ lineFeed ∈ e.detail := by
  have hopen : lineFeed ∉ Text.ofString " (" := by decide
  have hclose : lineFeed ∉ Text.ofString ")" := by decide
  cases hdetail : e.detail with
  | nil => simp [Text.when]
  | cons b r => simp [Text.when, hopen, hclose]

/-- The named values between their brackets hold the line feeds of the names and the values. -/
theorem lineFeed_mem_extra_iff (e : TraceEvent) {extra : List Text}
    (hextra : extra = e.sortedExtra.map fun x => x.1 ++ Text.ofString "=" ++ x.2) :
    lineFeed ∈ Text.when (!extra.isEmpty) (" \x7b" ++ Text.join ", " extra ++ "\x7d") ↔
      ∃ x ∈ e.extra, lineFeed ∈ x.1 ∨ lineFeed ∈ x.2 := by
  have hopen : lineFeed ∉ Text.ofString " \x7b" := by decide
  have hclose : lineFeed ∉ Text.ofString "\x7d" := by decide
  have hequals : lineFeed ∉ Text.ofString "=" := by decide
  have hparts : (∃ part ∈ extra, lineFeed ∈ part) ↔
      ∃ x ∈ e.extra, lineFeed ∈ x.1 ∨ lineFeed ∈ x.2 := by
    simp [hextra, mem_sortedExtra, hequals]
  rw [← hparts]
  cases extra with
  | nil => simp [Text.when]
  | cons part parts =>
    rw [Text.when, List.isEmpty_cons, Bool.not_false, if_pos rfl, List.mem_append, List.mem_append,
      Text.mem_join_iff (by decide)]
    simp only [hopen, hclose, false_or, or_false]

/-- **An event for readers** ends with a line feed, and the others in it are those of the parts
that are written as they are. -/
theorem exists_line_eq (e : TraceEvent) :
    ∃ body, e.line = body ++ [lineFeed] ∧ (lineFeed ∉ body ↔ e.Unbroken) := by
  have hnumber : lineFeed ∉ Text.ofString " #" := by decide
  have hblank : lineFeed ∉ Text.ofString " " := by decide
  have hindent (c : Bool) : lineFeed ∉ Text.when c (Text.spaces 2) := by cases c <;> decide
  have hfeed : Text.ofString "\n" = [lineFeed] := by decide
  rw [line]
  dsimp only
  rw [hfeed]
  refine ⟨_, rfl, ?_⟩
  simp only [List.mem_append, e.time.lineFeed_not_mem_clock, hnumber, hblank, hindent,
    e.kind.lineFeed_not_mem_mark, Text.padRight, Text.lineFeed_not_mem_ofNat,
    Text.lineFeed_not_mem_spaces, lineFeed_mem_detail_iff, lineFeed_mem_extra_iff e rfl,
    or_false, false_or, not_or, not_exists, not_and]
  exact ⟨fun h => ⟨h.1.1, h.1.2, h.2⟩, fun h => ⟨⟨h.name, h.detail⟩, h.extra⟩⟩

/-- **An event is written on one line** exactly if it is written as a JSON object or no name,
detail or named value in it holds a line feed.  In any case it ends with a line feed. -/
theorem written_on_one_line_iff (e : TraceEvent) (format : TraceFormat) :
    (e.render format).getLast? = some lineFeed ∧
      ((e.render format).count lineFeed = 1 ↔
        format = .json ∨ lineFeed ∉ e.name ∧ lineFeed ∉ e.detail ∧
          ∀ x ∈ e.extra, lineFeed ∉ x.1 ∧ lineFeed ∉ x.2) := by
  have hended {body : Text} : (body ++ [lineFeed]).getLast? = some lineFeed ∧
      ((body ++ [lineFeed]).count lineFeed = 1 ↔ lineFeed ∉ body) := by
    rw [List.getLast?_concat, List.count_append, List.count_singleton_self, ← List.count_eq_zero]
    exact ⟨rfl, by omega⟩
  by_cases hformat : format = .json
  · have hrender : e.render format = e.json.compact ++ [lineFeed] := if_pos hformat
    rw [hrender]
    exact ⟨hended.1, iff_of_true (hended.2.2 e.onLine_json) (.inl hformat)⟩
  · obtain ⟨body, hline, hbody⟩ := e.exists_line_eq
    have hrender : e.render format = body ++ [lineFeed] := (if_neg hformat).trans hline
    rw [hrender]
    refine ⟨hended.1, hended.2.trans (hbody.trans ⟨fun h => .inr ⟨h.name, h.detail, h.extra⟩, ?_⟩)⟩
    intro h
    obtain ⟨hname, hdetail, hextra⟩ := h.resolve_left hformat
    exact ⟨hname, hdetail, hextra⟩

/-- A point whose name holds a line feed. -/
def brokenPoint : TraceEvent :=
  { time := ⟨0, 0, 0⟩, seq := 1, kind := .point, scope := .driver, name := "a\nb" }

/-- A reader takes it for two events. -/
theorem point_on_two_lines :
    brokenPoint.render .text = "00:00:00.000000 #1     • a\nb\n" ∧
      (brokenPoint.render .text).count lineFeed = 2 := by
  have hrender : brokenPoint.render .text = "00:00:00.000000 #1     • a\nb\n" := by cbv
  rw [hrender]
  exact ⟨rfl, by decide⟩

end TraceEvent
end Tarjuman
