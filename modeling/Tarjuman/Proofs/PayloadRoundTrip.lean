/-
# Findings in another file

A payload keeps findings without the number of their file.  What comes out of it is what
went in, at the same places of the file that it is put back into
(`Payload.diagnostics_ofResult`): everything else is in the payload, and the part of the
program that made a finding follows from its code.  Together with the layout of payloads
this is the way of a result through a store and back (`payload_survives_packing`).
-/

import Tarjuman.Proofs.BagLimit
import Tarjuman.Proofs.PackedRoundTrip
import Tarjuman.Proofs.ReportPlaces

namespace Tarjuman

/-- The same place of another file. -/
def Span.inFile (file : FileId) (s : Span) : Span := { s with file }

/-- The note at the same place of another file. -/
def Note.inFile (file : FileId) (n : Note) : Note := { n with span := n.span.inFile file }

/-- The finding, and its notes, at the same places of another file. -/
def Diagnostic.inFile (file : FileId) (d : Diagnostic) : Diagnostic :=
  { d with span := d.span.inFile file, notes := d.notes.map (Note.inFile file) }

theorem Span.inFile_of_eq {file : FileId} {s : Span} (h : s.file = file) : s.inFile file = s := by
  subst h
  rfl

/-- A finding that lies in the file stays as it is. -/
theorem Diagnostic.inFile_of_within {file : FileId} {d : Diagnostic}
    (h : d.Within (·.file = file)) : d.inFile file = d := by
  have hnotes : d.notes.map (Note.inFile file) = d.notes := by
    refine (List.map_congr_left fun n hn => ?_).trans (List.map_id d.notes)
    rw [Note.inFile, Span.inFile_of_eq (h.notes n hn)]
    rfl
  rw [inFile, Span.inFile_of_eq h.place, hnotes]

/-- A finding that was kept and is put back. -/
theorem StoredReport.toDiagnostic_ofDiagnostic {d : Diagnostic} (h : d.severity.isKnown = true)
    (file : FileId) : (StoredReport.ofDiagnostic d).toDiagnostic file = d.inFile file := by
  rw [toDiagnostic, ofDiagnostic, Diagnostic.inFile, Diagnostic.mk.injEq]
  exact ⟨if_pos h, rfl, rfl, rfl, List.map_map⟩

namespace Payload

variable {reports : List Diagnostic}

/-- **Nothing but the file is lost in a payload.** -/
theorem diagnostics_ofResult (fragments : List Text)
    (h : ∀ d ∈ reports, d.severity.isKnown = true) (file : FileId) :
    (ofResult fragments reports).diagnostics file = reports.map (Diagnostic.inFile file) := by
  rw [ofResult, diagnostics, Option.getD_some, List.map_map]
  exact List.map_congr_left fun d hd => StoredReport.toDiagnostic_ofDiagnostic (h d hd) file

/-- Findings that lie in the file are the same after they were kept and put back there. -/
theorem diagnostics_ofResult_of_within {file : FileId} (fragments : List Text)
    (h : ∀ d ∈ reports, d.Within (·.file = file)) :
    (ofResult fragments reports).diagnostics file = reports := by
  rw [diagnostics_ofResult fragments fun d hd => (h d hd).known]
  exact (List.map_congr_left fun d hd => Diagnostic.inFile_of_within (h d hd)).trans
    (List.map_id reports)

end Payload

/-- A bag with room for all findings takes them all. -/
theorem Bag.toList_addAll_of_room {b : Bag} {ds : List Diagnostic}
    (h : b.size + ds.length ≤ b.limit) : (b.addAll ds).toList = b.toList ++ ds := by
  rw [toList_addAll, List.take_of_length_le (by omega)]

/-- **A result survives being packed.**  The bytes that are written for fragments and
findings have the layout of payloads, and all bytes with this layout, whichever headers give
its sizes, are read as a payload with the same fragments.  Put into any file and any bag with
room for them, its findings are the ones that were packed, at the same places of that file;
findings that all lie in one file are, in that file, exactly the same.

Findings have to be of a level in use, and texts and lists have to fit the format, whose
sizes have four bytes. -/
theorem payload_survives_packing {fragments : List Text} {reports : List Diagnostic}
    (hknown : ∀ d ∈ reports, d.severity.isKnown = true)
    (hfits : (Payload.ofResult fragments reports).Fits) :
    Packed.PayloadForm (.ofResult fragments reports)
        (Packed.encode (.ofResult fragments reports)) ∧
      ∀ bytes, Packed.PayloadForm (.ofResult fragments reports) bytes →
        ∃ p ∈ Packed.decode? bytes, p.schema = BuildOptions.schema ∧ p.fragments = fragments ∧
          (∀ (file : FileId) (bag : Bag), bag.size + reports.length ≤ bag.limit →
            (bag.addAll (p.diagnostics file)).toList =
              bag.toList ++ reports.map (Diagnostic.inFile file)) ∧
          ∀ file, (∀ d ∈ reports, d.Within (·.file = file)) → p.diagnostics file = reports := by
  refine ⟨Packed.payloadForm_encode hfits, fun bytes hform => ?_⟩
  refine ⟨_, Packed.decode?_of_form hform, rfl, rfl, fun file bag hroom => ?_,
    fun file hwithin => ?_⟩
  · rw [Payload.diagnostics_ofResult fragments hknown]
    refine Bag.toList_addAll_of_room ?_
    rwa [List.length_map]
  · exact Payload.diagnostics_ofResult_of_within fragments hwithin

/-- More fragments than a marker can count, one of them of bytes that are no characters. -/
def keptFragments : List Text := List.replicate 16 [] ++ [List.replicate 40 0xFF]

/-- An error with a note and a warning, both in the file with the number 3. -/
def keptReports : List Diagnostic :=
  [(Diagnostic.error .unclosedBlock ⟨3, 4, 4⟩ "while block is not closed").withNote ⟨3, 0, 4⟩
      "opened here",
    .warning .unsupported ⟨3, 1, 2⟩ [0xFF]]

/-- Packed as findings about one file, and put back into another, in a bag for two. -/
theorem payload_survives_packing_moved :
    (∀ d ∈ keptReports, d.severity.isKnown = true) ∧
      (Payload.ofResult keptFragments keptReports).Fits ∧
      (∃ p ∈ Packed.decode? (Packed.encode (.ofResult keptFragments keptReports)),
        p.fragments = keptFragments ∧
        (Bag.ofList 2 (p.diagnostics 5)).toList = keptReports.map (Diagnostic.inFile 5)) := by
  have hknown : ∀ d ∈ keptReports, d.severity.isKnown = true := by decide
  have hfits : (Payload.ofResult keptFragments keptReports).Fits := by decide
  obtain ⟨hform, hread⟩ := payload_survives_packing hknown hfits
  obtain ⟨p, hp, -, hfragments, hbag, -⟩ := hread _ hform
  exact ⟨hknown, hfits, p, hp, hfragments, hbag 5 (.new 2) (by decide)⟩

end Tarjuman
