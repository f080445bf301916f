/-
# The counts of the progress screen

The progress screen counts by adding one for each event that ends a file; it does not look
at its rows.  Its counts are right because of what directory runs tell: each file is started
once and done once after that (`FileEvent.Orderly`).  So an event finds the row of its file
in the state before it (`FileEvent.Orderly.next`), a row goes from queued to working and from
there to its end (`Progress.Row.turn`), and as many rows are at their end as events of that
kind have come (`Progress.Shows.apply`).  What else happens on the screen changes neither rows nor counts
(`Progress.Shows.step`).
-/

import Mathlib.Data.List.Forall2
import Tarjuman.Proofs.FolderEvents
import Tarjuman.Screen.Progress

namespace Tarjuman

/-- **The next event of a file** is that it starts, if nothing was told of it, or that it is
done, if it was told that it started. -/
theorem FileEvent.Orderly.next {paths : List Text} {events : List FileEvent} {e : FileEvent}
    (h : Orderly paths (events ++ [e])) :
    e.done = false ∧ events.filter (·.index = e.index) = [] ∨
      e.done = true ∧ ∃ s, events.filter (·.index = e.index) = [s] ∧ s.done = false := by
  have honce := h.once e.index
  rw [List.filter_append, List.filter_cons_of_pos (by simp), List.map_append] at honce
  rcases hbefore : events.filter (·.index = e.index) with _ | ⟨s, _ | ⟨d, more⟩⟩
  · rw [hbefore] at honce
    have hdone : e.done = false := (List.cons_prefix_cons.1 honce).1
    exact .inl ⟨hdone, hbefore⟩
  · rw [hbefore] at honce
    obtain ⟨hs, hrest⟩ : s.done = false ∧ [e.done] <+: [true] := List.cons_prefix_cons.1 honce
    have hdone : e.done = true := (List.cons_prefix_cons.1 hrest).1
    exact .inr ⟨hdone, s, hbefore, hs⟩
  · rw [hbefore] at honce
    exact absurd honce.length_le (by simp)

namespace Progress

/-! ## Rows -/

/-- The file of the row is done. -/
def RowState.isEnd : RowState → Bool
  | .queued | .working => false
  | .done | .cached | .failed => true

/-- The row stays as it is, or its file is started, or it is done after it was started. -/
structure Row.Moves (r r' : Row) : Prop where
  path_eq : r'.path = r.path
  state : r'.state = r.state ∨ r.state = .queued ∧ r'.state = .working ∨
    r.state = .working ∧ r'.state ∈ [RowState.done, .cached, .failed]

theorem Row.Moves.refl (r : Row) : r.Moves r := ⟨rfl, .inl rfl⟩

theorem Row.path_apply (r : Row) (e : FileEvent) : (r.apply e).path = r.path := by
  unfold apply
  split <;> rfl

theorem Row.state_apply_of_start (r : Row) {e : FileEvent} (he : e.done = false) :
    (r.apply e).state = .working := by
  simp [apply, he]

/-- The event that a file is done leaves its row at an end, and at the one of a failure just
if there are errors. -/
theorem Row.state_apply_of_done (r : Row) {e : FileEvent} (he : e.done = true) :
    (r.apply e).state.isEnd = true ∧ ((r.apply e).state = .failed ↔ 0 < e.errors) ∧
      (r.apply e).state ∈ [RowState.done, .cached, .failed] := by
  have hstate : (r.apply e).state =
      if 0 < e.errors then .failed else if e.cached then .cached else .done := by
    simp [apply, he]
  rw [hstate]
  by_cases herrors : 0 < e.errors
  · simp [herrors, RowState.isEnd]
  · cases e.cached <;> simp [herrors, RowState.isEnd]

/-- **The turn of a row.**  A queued row whose file is started moves, and so does a working one
whose file is done.  It was not at an end, and now it is just if the file is done. -/
theorem Row.turn {r : Row} {e : FileEvent} (h : r.state = if e.done then .working else .queued) :
    r.Moves (r.apply e) ∧ r.state.isEnd = false ∧ r.state ≠ .failed ∧
      (r.apply e).state.isEnd = e.done ∧
      ((r.apply e).state = .failed ↔ e.done = true ∧ 0 < e.errors) := by
  rcases hdone : e.done with _ | _
  · have hqueued : r.state = .queued := by rw [h, hdone]; rfl
    have hworking := r.state_apply_of_start hdone
    refine ⟨⟨r.path_apply e, .inr (.inl ⟨hqueued, hworking⟩)⟩, ?_⟩
    rw [hqueued, hworking]
    exact ⟨rfl, by decide, rfl, by simp⟩
  · have hworking : r.state = .working := by rw [h, hdone]; rfl
    obtain ⟨hend, hfails, hmem⟩ := r.state_apply_of_done hdone
    refine ⟨⟨r.path_apply e, .inr (.inr ⟨hworking, hmem⟩)⟩, ?_⟩
    rw [hworking]
    exact ⟨rfl, by decide, hend, by simp [hfails]⟩

/-- The row of a file after some events of all files. -/
def rowOf (events : List FileEvent) (i : Nat) (path : Text) : Row :=
  (events.filter (·.index = i)).foldl Row.apply { path }

/-- The rows of all files after some events. -/
def table (paths : List Text) (events : List FileEvent) : List Row := paths.mapIdx (rowOf events)

variable {paths : List Text} {events : List FileEvent} {e : FileEvent}

theorem path_rowOf (events : List FileEvent) (i : Nat) (path : Text) :
    (rowOf events i path).path = path := by
  have hkeeps (es : List FileEvent) (r : Row) : (es.foldl Row.apply r).path = r.path := by
    induction es generalizing r with
    | nil => rfl
    | cons e es ih => exact (ih _).trans (r.path_apply e)
  exact hkeeps _ _

theorem getElem?_table (paths : List Text) (events : List FileEvent) (i : Nat) :
    (table paths events)[i]? = paths[i]?.map (rowOf events i) :=
  List.getElem?_mapIdx

theorem paths_table (paths : List Text) (events : List FileEvent) :
    (table paths events).map (·.path) = paths := by
  refine List.ext_getElem? fun i => ?_
  rw [List.getElem?_map, getElem?_table, Option.map_map]
  have hpath : (fun r : Row => r.path) ∘ rowOf events i = id := funext (path_rowOf events i)
  rw [hpath, Option.map_id, id]

/-- One more event changes the row of its file. -/
theorem table_append (paths : List Text) (events : List FileEvent) (e : FileEvent) :
    table paths (events ++ [e]) = (table paths events).modify e.index (·.apply e) := by
  refine List.ext_getElem? fun i => ?_
  rw [List.getElem?_modify, getElem?_table, getElem?_table]
  have hrow (path : Text) : rowOf (events ++ [e]) i path =
      if e.index = i then (rowOf events i path).apply e else rowOf events i path := by
    unfold rowOf
    rw [List.filter_append, List.foldl_append]
    by_cases hi : e.index = i
    · rw [if_pos hi, List.filter_cons_of_pos (by simp [hi])]
      rfl
    · rw [if_neg hi, List.filter_cons_of_neg (by simp [hi])]
      rfl
  rcases paths[i]? with _ | path
  · rfl
  · simp only [Option.map_some, Option.map_eq_map, hrow]

/-! ## Counts -/

theorem modifyLast_append {α : Type} {p : α → Bool} (f : α → α) (a : List α) {x : α} {b : List α}
    (hx : p x = true) (hb : ∀ y ∈ b, p y = false) :
    modifyLast p f (a ++ x :: b) = a ++ f x :: b := by
  have hreverse : (a ++ x :: b).reverse = b.reverse ++ x :: a.reverse := by simp
  have hfind : (a ++ x :: b).reverse.findIdx? p = some b.length := by
    rw [hreverse, List.findIdx?_append, List.findIdx?_eq_none_iff.2 (by simpa using hb)]
    simp [List.findIdx?_cons, hx]
  unfold modifyLast
  rw [hfind]
  dsimp only
  rw [hreverse, List.modify_eq_take_drop, List.take_left' List.length_reverse,
    List.drop_left' List.length_reverse]
  simp

/-- Counting goes up or down with the one row that changes. -/
theorem countP_around (q : Row → Bool) (a b : List Row) (r r' : Row) :
    (a ++ r' :: b).countP q + (q r).toNat = (a ++ r :: b).countP q + (q r').toNat := by
  have hone (x : Row) : (a ++ x :: b).countP q = a.countP q + b.countP q + (q x).toNat := by
    rw [List.countP_append, List.countP_cons, Nat.add_assoc]
    cases q x <;> rfl
  rw [hone, hone]
  omega

/-- **What the screen shows after some events of files.**  The rows are those of the files,
and both counts are those of the rows. -/
structure Shows (paths : List Text) (events : List FileEvent) (p : Progress) : Prop where
  rows : p.rows = table paths events
  finished : p.finished = events.countP (·.done)
  ended : p.finished = p.rows.countP (·.state.isEnd)
  failed : p.failed = p.rows.countP (·.state = .failed)

theorem shows_new (title : Text) (paths : List Text) : Shows paths [] (new title paths) := by
  have hrows : (new title paths).rows = table paths [] := by
    refine List.ext_getElem? fun i => ?_
    rw [getElem?_table]
    exact List.getElem?_map
  have hqueued : ∀ r ∈ (new title paths).rows, r.state = .queued := by
    intro r hr
    obtain ⟨path, -, rfl⟩ := List.mem_map.1 hr
    rfl
  refine ⟨hrows, rfl, ?_, ?_⟩
  · refine (List.countP_eq_zero.2 fun r hr => ?_).symm
    rw [hqueued r hr]
    exact Bool.false_ne_true
  · refine (List.countP_eq_zero.2 fun r hr => ?_).symm
    rw [hqueued r hr]
    decide

namespace Shows

variable {p : Progress}

/-- An event of a file goes to the row of the file and to no other. -/
theorem apply_eq (h : Shows paths events p) (hpaths : paths.Nodup)
    (he : paths[e.index]? = some e.path) :
    ∃ a b, p.rows = a ++ rowOf events e.index e.path :: b ∧
      table paths (events ++ [e]) = a ++ (rowOf events e.index e.path).apply e :: b ∧
      p.apply e =
        { p with
          rows := a ++ (rowOf events e.index e.path).apply e :: b
          finished := if e.done then p.finished + 1 else p.finished
          failed := if e.done ∧ 0 < e.errors then p.failed + 1 else p.failed } := by
  have hrow : p.rows[e.index]? = some (rowOf events e.index e.path) := by
    rw [h.rows, getElem?_table, he]
    rfl
  obtain ⟨hi, -⟩ := List.getElem?_eq_some_iff.1 hrow
  obtain ⟨a, r, b, hrows, ha, hmodify⟩ := List.exists_of_modify (Row.apply · e) hi
  obtain rfl : r = rowOf events e.index e.path := by
    rw [hrows, List.getElem?_append_right ha.le, ha, Nat.sub_self] at hrow
    exact Option.some.inj hrow
  refine ⟨a, b, hrows, ?_, ?_⟩
  · rw [table_append, ← h.rows, hmodify]
  · have hpath := path_rowOf events e.index e.path
    have hany : p.rows.any (·.path = e.path) = true := by
      rw [hrows]
      simp [hpath]
    have hother : ∀ y ∈ b, decide (y.path = e.path) = false := by
      have hnodup : (p.rows.map (·.path)).Nodup := by
        rw [h.rows, paths_table]
        exact hpaths
      rw [hrows, List.map_append, List.map_cons, List.nodup_append, List.nodup_cons] at hnodup
      intro y hy
      refine decide_eq_false fun heq => hnodup.2.1.1 ?_
      rw [hpath, ← heq]
      exact List.mem_map_of_mem hy
    unfold apply
    rw [if_pos hany, hrows, modifyLast_append _ a (decide_eq_true hpath) hother]

/-- The state of the row that the next event of a file finds. -/
theorem state_rowOf (h : FileEvent.Orderly paths (events ++ [e])) (path : Text) :
    (rowOf events e.index path).state = if e.done then .working else .queued := by
  unfold rowOf
  rcases h.next with ⟨hdone, hnone⟩ | ⟨hdone, s, hone, hs⟩
  · rw [hnone, hdone]
    rfl
  · rw [hone, hdone]
    exact Row.state_apply_of_start _ hs

/-- **An event of a file** keeps the counts right and moves the row of the file. -/
theorem apply (h : Shows paths events p) (hpaths : paths.Nodup)
    (he : FileEvent.Orderly paths (events ++ [e])) :
    Shows paths (events ++ [e]) (p.apply e) ∧
      List.Forall₂ Row.Moves p.rows (p.apply e).rows := by
  have hnamed := he.named e (List.mem_append_right events List.mem_cons_self)
  obtain ⟨a, b, hrows, htable, happly⟩ := h.apply_eq hpaths hnamed
  obtain ⟨hmoves, hopen, hsound, hend, hfails⟩ := Row.turn (state_rowOf he e.path)
  generalize rowOf events e.index e.path = r at hrows htable happly hmoves hopen hsound hend hfails
  have hrows' : (p.apply e).rows = a ++ r.apply e :: b := by rw [happly]
  have hfinished : (p.apply e).finished = p.finished + e.done.toNat := by
    rw [happly]
    cases e.done <;> rfl
  have hfailures : (p.apply e).failed =
      p.failed + (decide (e.done = true ∧ 0 < e.errors)).toNat := by
    rw [happly]
    by_cases herrors : e.done = true ∧ 0 < e.errors
    · simp [herrors]
    · simp only [if_neg herrors, decide_eq_false herrors, Bool.toNat_false, Nat.add_zero]
  refine ⟨⟨hrows'.trans htable.symm, ?_, ?_, ?_⟩, ?_⟩
  · rw [hfinished, List.countP_append, List.countP_singleton, h.finished]
    cases e.done <;> rfl
  · have hcount := countP_around (·.state.isEnd) a b r (r.apply e)
    simp only [hopen, hend, Bool.toNat_false, Nat.add_zero] at hcount
    rw [hfinished, h.ended, hrows, hrows', hcount]
  · have hcount := countP_around (·.state = .failed) a b r (r.apply e)
    simp only [hsound, hfails, decide_false, Bool.toNat_false, Nat.add_zero] at hcount
    rw [hfailures, h.failed, hrows, hrows', hcount]
  · have hsame (rs : List Row) : List.Forall₂ Row.Moves rs rs :=
      List.forall₂_same.2 fun r _ => .refl r
    rw [hrows, hrows']
    exact List.rel_append (hsame a) (.cons hmoves (hsame b))

theorem congr {q : Progress} (h : Shows paths events p) (hrows : q.rows = p.rows)
    (hfinished : q.finished = p.finished) (hfailed : q.failed = p.failed) :
    Shows paths events q := by
  refine ⟨hrows.trans h.rows, hfinished.trans h.finished, ?_, ?_⟩
  · rw [hfinished, hrows, h.ended]
  · rw [hfailed, hrows, h.failed]

end Shows

/-! ## All that happens on the screen -/

/-- The event of a file, if it is one. -/
def Event.file? : Event → Option FileEvent
  | .file e => some e
  | _ => none

/-- The events of files among all that happens. -/
def told (happened : List Event) : List FileEvent := happened.filterMap (·.file?)

/-- The screen for some files after all that happened. -/
def showing (title : Text) (paths : List Text) (happened : List Event) : Progress :=
  happened.foldl step (new title paths)

theorem told_concat_file (happened : List Event) (e : FileEvent) :
    told (happened ++ [.file e]) = told happened ++ [e] := List.filterMap_append

theorem told_concat_other (happened : List Event) {e : Event} (he : e.file? = none) :
    told (happened ++ [e]) = told happened := by
  unfold told
  rw [List.filterMap_append, List.filterMap_cons_none he, List.filterMap_nil, List.append_nil]

theorem told_isPrefix_concat (happened : List Event) (e : Event) :
    told happened <+: told (happened ++ [e]) := by
  unfold told
  rw [List.filterMap_append]
  exact List.prefix_append _ _

/-- What is no event of a file changes neither rows nor counts. -/
theorem step_other (p : Progress) {e : Event} (he : e.file? = none) :
    (p.step e).rows = p.rows ∧ (p.step e).finished = p.finished ∧ (p.step e).failed = p.failed := by
  unfold step
  cases e with
  | file e => cases he
  | closed => exact ⟨rfl, rfl, rfl⟩
  | interrupt => exact ⟨rfl, rfl, rfl⟩
  | key => exact ⟨rfl, rfl, rfl⟩
  | tick =>
    dsimp only
    split <;> exact ⟨rfl, rfl, rfl⟩
  | resize w =>
    dsimp only
    split <;> exact ⟨rfl, rfl, rfl⟩

/-- **Whatever happens** keeps the counts right, and moves rows only as their files go on. -/
theorem Shows.step {p : Progress} {happened : List Event} (h : Shows paths (told happened) p)
    (hpaths : paths.Nodup) {e : Event} (he : FileEvent.Orderly paths (told (happened ++ [e]))) :
    Shows paths (told (happened ++ [e])) (p.step e) ∧
      List.Forall₂ Row.Moves p.rows (p.step e).rows := by
  rcases hfile : e.file? with _ | e'
  · obtain ⟨hrows, hfinished, hfailed⟩ := p.step_other hfile
    rw [told_concat_other happened hfile]
    refine ⟨h.congr hrows hfinished hfailed, ?_⟩
    rw [hrows]
    exact List.forall₂_same.2 fun r _ => .refl r
  · cases e with
    | file e =>
      rw [told_concat_file] at he ⊢
      exact h.apply hpaths he
    | closed | interrupt | key | tick | resize => cases hfile

/-- **After all that happened** the screen shows the files as they were told. -/
theorem shows_showing (title : Text) (hpaths : paths.Nodup) (happened : List Event)
    (h : FileEvent.Orderly paths (told happened)) :
    Shows paths (told happened) (showing title paths happened) := by
  induction happened using List.reverseRecOn with
  | nil => exact shows_new title paths
  | append_singleton before e ih =>
    have hbefore := ih (h.of_isPrefix (told_isPrefix_concat before e))
    unfold showing
    rw [List.foldl_append]
    exact (hbefore.step hpaths h).1

/-- The rows before and after something happened. -/
theorem moves_showing (title : Text) (hpaths : paths.Nodup) {happened : List Event} {e : Event}
    (h : FileEvent.Orderly paths (told (happened ++ [e]))) :
    List.Forall₂ Row.Moves (showing title paths happened).rows
      (showing title paths (happened ++ [e])).rows := by
  have hbefore := shows_showing title hpaths happened
    (h.of_isPrefix (told_isPrefix_concat happened e))
  have hstep : showing title paths (happened ++ [e]) = (showing title paths happened).step e :=
    List.foldl_append
  rw [hstep]
  exact (hbefore.step hpaths h).2

/-! ## The end -/

/-- When all was told, all rows are at their end, and those of the files with errors show it. -/
theorem Shows.at_end {p : Progress} (h : Shows paths events p) {failing : List Bool}
    (hlength : failing.length = paths.length) (hall : FileEvent.Whole failing events) :
    p.finished = p.rows.length ∧ p.failed = failing.count true := by
  have hsize : p.rows.length = paths.length := by
    rw [h.rows, table, List.length_mapIdx]
  have hrow (i : Nat) (r : Row) (hr : p.rows[i]? = some r) : ∃ b, failing[i]? = some b ∧
      r.state.isEnd = true ∧ decide (r.state = .failed) = b := by
    obtain ⟨hi, -⟩ := List.getElem?_eq_some_iff.1 hr
    have hb := List.getElem?_eq_getElem (show i < failing.length by omega)
    obtain ⟨s, d, hevents, -, hdone, herrors⟩ := hall i _ hb
    rw [h.rows, getElem?_table] at hr
    obtain ⟨path, -, rfl⟩ := Option.map_eq_some_iff.1 hr
    obtain ⟨hend, hfails, -⟩ := (Row.apply { path } s).state_apply_of_done hdone
    have hrow : rowOf events i path = (Row.apply { path } s).apply d := by
      rw [rowOf, hevents]
      rfl
    refine ⟨_, hb, hrow ▸ hend, ?_⟩
    rw [hrow, Bool.eq_iff_iff, decide_eq_true_iff, hfails, herrors]
  constructor
  · rw [h.ended, List.countP_eq_length]
    intro r hr
    obtain ⟨i, hi⟩ := List.mem_iff_getElem?.1 hr
    obtain ⟨-, -, hend, -⟩ := hrow i r hi
    exact hend
  · have hsame : p.rows.map (fun r => decide (r.state = .failed)) = failing := by
      refine List.ext_getElem? fun i => ?_
      rw [List.getElem?_map]
      cases hr : p.rows[i]? with
      | none =>
        rw [List.getElem?_eq_none_iff] at hr
        exact (List.getElem?_eq_none (by omega)).symm
      | some r =>
        obtain ⟨b, hb, -, hfails⟩ := hrow i r hr
        rw [hb, Option.map_some, hfails]
    rw [h.failed, ← hsame, List.count, List.countP_map]
    exact List.countP_congr fun r _ => by simp

/-- The counts of the screen after some events of files are right. -/
structure Counts (paths : List Text) (events : List FileEvent) (p : Progress) : Prop where
  paths_eq : p.rows.map (·.path) = paths
  finished : p.finished = events.countP (·.done)
  atMost : p.finished ≤ p.rows.length
  failed : p.failed = p.rows.countP (·.state = .failed)

theorem Shows.counts {p : Progress} (h : Shows paths events p) : Counts paths events p := by
  refine ⟨?_, h.finished, ?_, h.failed⟩
  · rw [h.rows, paths_table]
  · rw [h.ended]
    exact List.countP_le_length

end Progress

namespace Folder

open Progress in
/-- **The progress screen keeps count of a directory run.**  Let a screen for the sources under a
directory get events that tell of each file at most that it started and, later, that it is done,
those of different files mixed in any way and with anything else happening in between.  Then it
has counted the files that are done, which are no more than its rows, and as failed those of its
rows that show an error; with each thing that happens a row stays as it is, or goes from queued to
working, or from working to its end; and when all was told, it counts all its rows as finished
and as failed the files with errors.

Such are the events of any number of workers who transpile the sources, whatever steps they have
taken in whichever order, and when all files are done, all was told.  Every fair schedule gets
there, and so does the run that takes the files in order.  Only a source that is too large when it
is cleaned breaks the run off, before there are workers. -/
theorem progress_keeps_count {s : Shared} {dir : Text} {paths : List Text}
    (hdisk : s.disk.Regular) (hsources : Target.sources s.disk dir = .ok paths) (o : BuildOptions)
    (store : Option Store) (workers parent : Nat) (title : Text) :
    (∀ happened, FileEvent.Orderly paths (told happened) →
      Counts paths (told happened) (showing title paths happened)) ∧
    (∀ happened e, FileEvent.Orderly paths (told (happened ++ [e])) →
      List.Forall₂ Row.Moves (showing title paths happened).rows
        (showing title paths (happened ++ [e])).rows) ∧
    (∀ happened failing, FileEvent.Orderly paths (told happened) →
      failing.length = paths.length → FileEvent.Whole failing (told happened) →
      (showing title paths happened).finished = (showing title paths happened).rows.length ∧
        (showing title paths happened).failed = failing.count true) ∧
    (Loadable s.disk paths →
      (∀ schedule : Nat → List Nat, ∃ r s',
        runWith schedule dir o store workers parent false s = (.ok r, s') ∧
        r.outcomes.length = paths.length ∧ FileEvent.Orderly paths r.events ∧
        (r.Complete → FileEvent.Whole (r.outcomes.map (·.any (·.hasErrors))) r.events)) ∧
      (∀ who : Nat → Nat, Fair paths.length who → ∃ n, ∀ m ≥ n, ∃ r s',
        runWith (fun _ => (List.range m).map who) dir o store workers parent false s = (.ok r, s') ∧
          r.Complete) ∧
      ∃ r s', run dir o store workers parent false s = (.ok r, s') ∧ r.Complete) ∧
    (¬ Loadable s.disk paths → ∀ schedule, ∃ fault s',
      runWith schedule dir o store workers parent false s = (.error (.brokenOff fault), s')) := by
  have hnodup := Target.nodup_sources hdisk hsources
  refine ⟨fun happened h => (shows_showing title hnodup happened h).counts,
    fun happened e h => moves_showing title hnodup h,
    fun happened failing h hlength hall =>
      (shows_showing title hnodup happened h).at_end hlength hall,
    fun hloadable => ⟨fun schedule => ?_, fun who hfair => ?_, ?_⟩,
    fun hnot schedule => runWith_of_not_loadable hsources hnot schedule o store workers parent⟩
  · obtain ⟨f, st, r, s', rfl, htold, heq, houtcomes, hevents⟩ :=
      told_runWith o store workers parent hsources hloadable schedule
    refine ⟨r, s', heq, ?_, hevents ▸ htold.orderly, fun hcomplete => ?_⟩
    · rw [houtcomes, List.length_map]
      exact htold.length
    · rw [houtcomes, hevents]
      exact htold.whole_of_complete (houtcomes ▸ hcomplete)
  · exact complete_of_fair o store workers parent hsources hloadable hfair
  · exact complete_run o store workers parent hsources hloadable

/-- Two sources and a link to nothing between them, with two workers. -/
theorem progress_keeps_count_unloaded :
    sharedDisk.Regular ∧ Target.sources sharedDisk "/src" = .ok sharedPaths ∧
      Loadable sharedDisk sharedPaths ∧
      ∃ r s', run "/src" {} none 2 0 false { disk := sharedDisk } = (.ok r, s') ∧
        FileEvent.Orderly sharedPaths r.events ∧
        FileEvent.Whole (r.outcomes.map (·.any (·.hasErrors))) r.events ∧
        ∀ happened, Progress.told happened = r.events →
          (Progress.showing "build" sharedPaths happened).finished = 3 ∧
          (Progress.showing "build" sharedPaths happened).failed =
            (r.outcomes.map (·.any (·.hasErrors))).count true := by
  have hdisk : sharedDisk.Regular := by decide
  have hsources : Target.sources sharedDisk "/src" = .ok sharedPaths :=
    Target.sources_of_below (p := ["src"]) (by decide) (by decide) (by decide)
  obtain ⟨hcounts, -, hends, hruns, -⟩ :=
    progress_keeps_count (s := { disk := sharedDisk }) hdisk hsources {} none 2 0 "build"
  obtain ⟨hevery, -, r, s', hrun, hcomplete⟩ := hruns loadable_sharedDisk
  obtain ⟨r', s'', hrun', hlength, horderly, hwhole⟩ := hevery inOrder
  obtain ⟨rfl, rfl⟩ : r' = r ∧ s'' = s' := by
    have hsame := hrun'.symm.trans hrun
    simpa using hsame
  refine ⟨hdisk, hsources, loadable_sharedDisk, r', s'', hrun, horderly, hwhole hcomplete,
    fun happened hh => ?_⟩
  have hrows := congrArg List.length (hcounts happened (hh ▸ horderly)).paths_eq
  rw [List.length_map] at hrows
  obtain ⟨hfinished, hfailed⟩ := hends happened _ (hh ▸ horderly)
    ((List.length_map _).trans hlength) (hh ▸ hwhole hcomplete)
  exact ⟨hfinished.trans hrows, hfailed⟩

end Folder
end Tarjuman
