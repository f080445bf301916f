/-
# Looking ahead does not show

A lexer hands out tokens one at a time and may hold one that was looked at but not taken.
All that it is at any moment follows from two things: how many tokens were taken, and
whether one is held (`Lexer.standing`).  Taking a token and looking at one are equations
between such lexers (`Lexer.next_standing`, `Lexer.peek_standing`): both answer with the
token that is next among those of the whole content, a token is fetched once, and what is
reported on the way to it is reported once.  Past the end the same token comes again and
again, and nothing more is reported (`Cursor.fetch_of_rest_nil`).
-/

import Mathlib.Data.List.Basic
import Tarjuman.Proofs.LexemeBounds
import Tarjuman.Token.Lexer

namespace Tarjuman

namespace Cursor

/-- The cursor behind `n` tokens. -/
def behind (c : Cursor) : Nat → Cursor
  | 0 => c
  | n + 1 => (c.behind n).fetch.cursor

/-- The fetch of the token that comes behind `n` others. -/
def nth (c : Cursor) (n : Nat) : Fetch := (c.behind n).fetch

theorem behind_succ (c : Cursor) (n : Nat) : c.behind (n + 1) = c.fetch.cursor.behind n := by
  induction n with
  | zero => rfl
  | succ n ih => exact congrArg (fun c : Cursor => c.fetch.cursor) ih

theorem nth_succ (c : Cursor) (n : Nat) : c.nth (n + 1) = c.fetch.cursor.nth n :=
  congrArg fetch (c.behind_succ n)

/-! ## Past the end -/

/-- **At the end there is nothing but the end.** -/
theorem fetch_of_rest_nil {c : Cursor} (h : c.rest = []) :
    c.fetch = { token := c.endToken, cursor := c } := by
  obtain ⟨file, rest, off, line⟩ := c
  obtain rfl : rest = [] := h
  simp [fetch, skipTrivia, fetchHere, skip, lineFeeds, Lexeme.triviaSize]

/-- When the end is fetched nothing is left, and the end is where the cursor stands. -/
theorem fetchHere_of_end {c : Cursor} (h : c.fetchHere.token.kind = .endOfInput) :
    c.fetchHere.cursor.rest = [] ∧ c.fetchHere.token = c.fetchHere.cursor.endToken := by
  unfold fetchHere at h ⊢
  split
  · rename_i hrest
    exact ⟨hrest, rfl⟩
  · rename_i hrest
    have hfits := Lexeme.read_fits hrest
    rw [if_neg hrest] at h
    split at h <;> rename_i hread <;> rw [hread] at hfits
    · exact absurd h hfits.2.2.1
    · cases h
    · exact ⟨by simp [unclosed, skip], rfl⟩
    · exact ⟨by simp [unclosed, skip], rfl⟩

theorem rest_of_end {c : Cursor} (h : c.fetch.token.kind = .endOfInput) :
    c.fetch.cursor.rest = [] ∧ c.fetch.token = c.fetch.cursor.endToken :=
  fetchHere_of_end h

theorem nth_of_rest_nil {c : Cursor} (h : c.rest = []) (n : Nat) :
    c.nth n = { token := c.endToken, cursor := c } := by
  have hbehind : c.behind n = c := by
    induction n with
    | zero => rfl
    | succ n ih => rw [behind, ih, fetch_of_rest_nil h]
  rw [nth, hbehind, fetch_of_rest_nil h]

/-- **Every fetch is one of those up to the end, or a repetition of the last one** that
reports nothing. -/
theorem nth_cases (c : Cursor) (n : Nat) :
    c.fetchAll[n]? = some (c.nth n) ∨
      c.fetchAll[n]? = none ∧ (c.nth n).report = none ∧
        (c.fetchAll.map (·.token)).getLast? = some (c.nth n).token := by
  fun_induction fetchAll c generalizing n with
  | case1 c hend =>
    cases n with
    | zero => exact .inl rfl
    | succ n =>
      obtain ⟨hrest, htoken⟩ := rest_of_end hend
      rw [nth_succ, nth_of_rest_nil hrest, ← htoken]
      exact .inr ⟨rfl, rfl, rfl⟩
  | case2 c hend ih =>
    cases n with
    | zero => exact .inl rfl
    | succ n =>
      rw [nth_succ, List.getElem?_cons_succ]
      rcases ih n with hhere | ⟨hnone, hreport, hlast⟩
      · exact .inl hhere
      · refine .inr ⟨hnone, hreport, ?_⟩
        rw [List.map_cons, List.getLast?_cons, hlast]
        rfl

/-- What is reported up to the next token. -/
theorem reports_take_succ (c : Cursor) (n : Nat) :
    (c.fetchAll.take (n + 1)).filterMap (·.report) =
      (c.fetchAll.take n).filterMap (·.report) ++ (c.nth n).report.toList := by
  rw [List.take_add_one, List.filterMap_append]
  refine congrArg (_ ++ ·) ?_
  rcases c.nth_cases n with hhere | ⟨hnone, hreport, -⟩
  · rw [hhere]
    rcases hreport : (c.nth n).report with _ | d <;> simp [hreport]
  · rw [hnone, hreport]
    rfl

end Cursor

namespace Lexer

/-! ## One call -/

/-- The lexer that started at `c` and from which `taken` tokens were taken, and that holds
the next one if `held` says so. -/
def standing (c : Cursor) (taken : Nat) (held : Bool) : Lexer :=
  { cursor := c.behind (taken + held.toNat)
    ahead := if held then some (c.nth taken).token else none
    reports := (c.fetchAll.take (taken + held.toNat)).filterMap (·.report) }

theorem start_eq_standing (file : FileId) (content : Text) :
    start file content = standing (.start file content) 0 false := rfl

theorem pull_standing (c : Cursor) (n : Nat) :
    (standing c n false).pull = ((c.nth n).token, standing c (n + 1) false) := by
  have hreports := c.reports_take_succ n
  unfold standing pull
  simp only [Bool.toNat_false, Nat.add_zero, hreports]
  rfl

/-- Taking a token. -/
theorem next_standing (c : Cursor) (n : Nat) (held : Bool) :
    (standing c n held).next = ((c.nth n).token, standing c (n + 1) false) := by
  cases held with
  | false => exact pull_standing c n
  | true => rfl

/-- Looking at a token. -/
theorem peek_standing (c : Cursor) (n : Nat) (held : Bool) :
    (standing c n held).peek = ((c.nth n).token, standing c n true) := by
  cases held with
  | true => rfl
  | false =>
    have hpull := pull_standing c n
    unfold peek
    simp only [show (standing c n false).ahead = none from rfl, hpull]
    rfl

/-! ## Many calls -/

/-- What can be asked of a lexer. -/
inductive Call where
  /-- To take a token. -/
  | next
  /-- To look at one. -/
  | peek
deriving DecidableEq, Repr

/-- The answer to a call, and the lexer after it. -/
def call (lx : Lexer) : Call → Token × Lexer
  | .next => lx.next
  | .peek => lx.peek

/-- The answers to calls, one after the other, and the lexer at the end. -/
def callAll (lx : Lexer) : List Call → List Token × Lexer
  | [] => ([], lx)
  | c :: calls =>
    let first := lx.call c
    let rest := callAll first.2 calls
    (first.1 :: rest.1, rest.2)

/-- The answers to those of the calls that take a token. -/
def taken (calls : List Call) (answers : List Token) : List Token :=
  ((calls.zip answers).filter (·.1 = .next)).map (·.2)

/-- The last of the calls was to look at a token, or `held` if there are none. -/
def holds (held : Bool) (calls : List Call) : Bool :=
  match calls.getLast? with
  | some c => c = .peek
  | none => held

/-- How many tokens have been fetched after some calls. -/
def fetched (calls : List Call) : Nat := calls.count .next + (holds false calls).toNat

theorem call_standing (c : Cursor) (n : Nat) (held : Bool) (k : Call) :
    (standing c n held).call k =
      ((c.nth n).token, standing c (n + [k].count .next) (k = .peek)) := by
  cases k with
  | next => exact next_standing c n held
  | peek => exact peek_standing c n held

theorem holds_cons (held : Bool) (k : Call) (calls : List Call) :
    holds held (k :: calls) = holds (k = .peek) calls := by
  unfold holds
  rw [List.getLast?_cons]
  cases calls.getLast? with
  | none => rfl
  | some last => rfl

/-- **Any calls.**  The lexer after them follows from how many took a token and from whether
the last one looked at one. -/
theorem callAll_standing (c : Cursor) (n : Nat) (held : Bool) (calls : List Call) :
    ((standing c n held).callAll calls).2 =
      standing c (n + calls.count .next) (holds held calls) := by
  induction calls generalizing n held with
  | nil => rfl
  | cons k calls ih =>
    rw [callAll, call_standing]
    dsimp only
    rw [ih, holds_cons, Nat.add_assoc, ← List.count_append]
    rfl

/-- The answers of any calls that take a token. -/
theorem taken_callAll_standing (c : Cursor) (n : Nat) (held : Bool) (calls : List Call) :
    taken calls ((standing c n held).callAll calls).1 =
      (List.range (calls.count .next)).map fun i => (c.nth (n + i)).token := by
  induction calls generalizing n held with
  | nil => rfl
  | cons k calls ih =>
    rw [callAll, call_standing]
    dsimp only
    cases k with
    | next =>
      have hrest := ih (n + 1) false
      show (c.nth n).token :: taken calls ((standing c (n + 1) false).callAll calls).1 = _
      rw [hrest, List.count_cons_self, List.range_succ_eq_map, List.map_cons,
        List.map_map]
      refine congrArg (List.cons _) (List.map_congr_left fun i _ => ?_)
      show _ = (c.nth (n + (i + 1))).token
      rw [Nat.add_assoc, Nat.add_comm 1 i]
    | peek => exact ih n true

theorem callAll_append (lx : Lexer) (calls more : List Call) :
    (lx.callAll (calls ++ more)).1 =
      (lx.callAll calls).1 ++ ((lx.callAll calls).2.callAll more).1 := by
  induction calls generalizing lx with
  | nil => rfl
  | cons k calls ih => exact congrArg (List.cons _) (ih _)

theorem length_callAll (lx : Lexer) (calls : List Call) :
    (lx.callAll calls).1.length = calls.length := by
  induction calls generalizing lx with
  | nil => rfl
  | cons k calls ih => exact congrArg (· + 1) (ih _)

/-- The answer to a call is the token behind those that were taken before it. -/
theorem answer_standing (c : Cursor) (before : List Call) (k : Call) (rest : List Call) :
    ((standing c 0 false).callAll (before ++ k :: rest)).1[before.length]? =
      some (c.nth (before.count .next)).token := by
  have hlength := length_callAll (standing c 0 false) before
  rw [callAll_append, List.getElem?_append_right (Nat.le_of_eq hlength), hlength, Nat.sub_self,
    callAll_standing, callAll, call_standing, Nat.zero_add]
  rfl

end Lexer

/-- The tokens of any number of fetches are those up to the end, and then the last one again
and again. -/
theorem Cursor.map_nth_eq_take (c : Cursor) {last : Token}
    (hlast : (c.fetchAll.map (·.token)).getLast? = some last) (n : Nat) :
    ((List.range n).map fun i => (c.nth i).token) =
      (c.fetchAll.map (·.token) ++ List.replicate n last).take n := by
  refine List.ext_getElem? fun i => ?_
  by_cases hi : i < n
  · rw [List.getElem?_map, List.getElem?_range hi, List.getElem?_take_of_lt hi]
    rcases c.nth_cases i with hhere | ⟨hnone, -, hend⟩
    · obtain ⟨hlt, -⟩ := List.getElem?_eq_some_iff.1 hhere
      rw [List.getElem?_append_left (by simpa using hlt), List.getElem?_map, hhere]
      rfl
    · have hle := List.getElem?_eq_none_iff.1 hnone
      rw [List.getElem?_append_right (by simpa using hle), List.length_map,
        List.getElem?_replicate_of_lt (by omega), ← hlast, hend]
      rfl
  · rw [List.getElem?_eq_none (by simpa using hi), List.getElem?_eq_none (by simp; omega)]

/-- The tokens up to the end close with the end. -/
theorem Cursor.exists_last_fetchAll (c : Cursor) :
    ∃ last, (c.fetchAll.map (·.token)).getLast? = some last ∧ last.kind = .endOfInput := by
  fun_induction fetchAll c with
  | case1 c hend => exact ⟨_, rfl, hend⟩
  | case2 c hend ih =>
    obtain ⟨last, hlast, hkind⟩ := ih
    refine ⟨last, ?_, hkind⟩
    rw [List.map_cons, List.getLast?_cons, hlast]
    rfl

/-- **Looking ahead does not show.**  Whatever is asked of a fresh lexer, in whatever order,
the tokens taken are the first ones of the whole content's, and past them the same end again
and again; what a look shows is what is taken next, however often one looks before; and what
has been reported is what the whole content reports up to the furthest token fetched, each
once and in that order. -/
theorem lookahead_unobservable (file : FileId) (content : Text) (calls : List Lexer.Call) :
    (∃ last, (tokenize file content).tokens.getLast? = some last ∧ last.kind = .endOfInput ∧
      Lexer.taken calls ((Lexer.start file content).callAll calls).1 =
        ((tokenize file content).tokens ++ List.replicate (calls.count .next) last).take
          (calls.count .next)) ∧
    (∀ before rest looks, calls = before ++ .peek :: rest →
      ((Lexer.start file content).callAll calls).1[before.length]? =
        some ((Lexer.start file content).callAll
          (before ++ List.replicate looks .peek)).2.next.1) ∧
    ((Lexer.start file content).callAll calls).2.reports =
      ((Cursor.start file content).fetchAll.take (Lexer.fetched calls)).filterMap (·.report) := by
  obtain ⟨last, hlast, hkind⟩ := (Cursor.start file content).exists_last_fetchAll
  refine ⟨⟨last, hlast, hkind, ?_⟩, ?_, ?_⟩
  · have htaken := Lexer.taken_callAll_standing (.start file content) 0 false calls
    simp only [Nat.zero_add] at htaken
    exact htaken.trans (Cursor.map_nth_eq_take _ hlast _)
  · rintro before rest looks rfl
    have hcount : (before ++ List.replicate looks Lexer.Call.peek).count .next =
        before.count .next := by
      rw [List.count_append, List.count_replicate]
      rfl
    rw [Lexer.start_eq_standing, Lexer.answer_standing, Lexer.callAll_standing,
      Lexer.next_standing, hcount, Nat.zero_add]
  · rw [Lexer.start_eq_standing, Lexer.callAll_standing, Nat.zero_add]
    rfl

end Tarjuman
