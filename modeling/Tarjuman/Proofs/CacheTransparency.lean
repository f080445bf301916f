/-
# Caches do not show

Runs that share a memo and a store leave in them what they make, each under its own key.
If the kind of a renamer decides how it spells, a later run finds there, if anything, what it
would make itself: the caches stay faithful (`Faithful.run`), and every run of a session shows
what it would show without any cache (`visible_session_eq_uncached`).  Of two renamers of one
kind that spell differently the second is given the names of the first
(`session_shares_spellings`).
-/

import Tarjuman.Proofs.JobRun
import Tarjuman.Proofs.StoreEntries

namespace Tarjuman

/-- Everything that an outcome shows but for its timer and whether it was kept. -/
def Outcome.visible (o : Outcome) : Text × List Text × Text × Bag :=
  (o.path, o.fragments, o.output, o.bag)

namespace Memo

theorem mem_of_find? {m : Memo} {key : Digest} {p : Payload} (h : m.find? key = some p) :
    (key, p) ∈ m.entries := by
  obtain ⟨⟨k, q⟩, hfind, rfl⟩ := Option.map_eq_some_iff.1 h
  have hmatch := List.find?_some hfind
  obtain rfl : k = key := eq_of_beq hmatch
  exact List.mem_of_find?_eq_some hfind

theorem mem_evict {m : Memo} {x : Digest × Payload} (h : x ∈ m.evict.entries) :
    x ∈ m.entries := by
  rw [evict] at h
  split at h
  · exact h
  · exact List.mem_of_mem_filter h

/-- Whatever is evicted, what a memo has after a payload was kept is that payload or was
there before. -/
theorem mem_put {m : Memo} {key : Digest} {p : Payload} {x : Digest × Payload}
    (h : x ∈ (m.put key p).entries) : x = (key, p) ∨ x ∈ m.entries := by
  rw [put] at h
  split at h
  · obtain ⟨y, hy, rfl⟩ := List.mem_map.1 h
    split
    · exact .inl rfl
    · exact .inr hy
  · rcases List.mem_append.1 h with h | h
    · split at h
      · exact .inr (mem_evict h)
      · exact .inr h
    · exact .inl (List.mem_singleton.1 h)

/-- A memo has what was kept last. -/
theorem find?_put (m : Memo) (key : Digest) (p : Payload) :
    (m.put key p).find? key = some p := by
  rw [put]
  split
  · rename_i hsome
    obtain ⟨q, hq⟩ := Option.isSome_iff_exists.1 hsome
    obtain ⟨e, he, -⟩ := Option.map_eq_some_iff.1 hq
    have hmatch := List.find?_some he
    have hkey : e.1 = key := eq_of_beq hmatch
    have hsame : ((fun e : Digest × Payload => e.1 == key) ∘
        fun e => if e.1 = key then (key, p) else e) = fun e => e.1 == key := by
      funext e
      by_cases h : e.1 = key <;> simp [h]
    rw [find?, List.find?_map, hsame, he, Option.map_some, if_pos hkey]
    rfl
  · rename_i hnone
    have hmiss : ∀ e ∈ m.entries, ¬ (e.1 == key) = true := by
      have h := Option.not_isSome_iff_eq_none.1 hnone
      exact List.find?_eq_none.1 (Option.map_eq_none_iff.1 h)
    have hkept : (if m.limit ≤ m.order.length then m.evict else m).entries.find?
        (·.1 == key) = none := by
      refine List.find?_eq_none.2 fun e he => hmiss e ?_
      split at he
      · exact mem_evict he
      · exact he
    rw [find?]
    dsimp only
    rw [List.find?_append, hkept]
    simp

end Memo

namespace Job

variable {j j' : Job} {s : Shared}

/-- What the outcome of a job shows when no cache has a part in it. -/
def visible (j : Job) : Text × List Text × Text × Bag :=
  (j.file.path, j.script.fragments, Script.render j.script.fragments j.options.separator,
    .ofList j.options.maxDiagnostics j.findings)

/-- **With honest caches that work a run shows what the job makes.** -/
theorem visible_run (h : j.Honest s) (hread : j.openingWarning s = [])
    (hwrite : j.writeWarning s = []) (htimings : j.options.timings = false) :
    (j.run s).1.visible = j.visible := by
  obtain ⟨bag, w, hshows, hw, hlimit, hlist⟩ := j.shows_run h
  obtain ⟨t, hbag⟩ := hshows.bag_eq
  have hw : w = [] := hw.elim id fun hw => hw.trans hwrite
  have hsame : bag = .ofList j.options.maxDiagnostics j.findings := by
    refine Bag.ext ?_ (hlimit.trans (Bag.limit_ofList _ _).symm)
    rw [hlist, hread, hw, List.nil_append, List.append_nil, Bag.toList_ofList]
    rfl
  have hclose : j.closingBag t bag = bag := by rw [closingBag, htimings]; exact if_neg nofun
  rw [Outcome.visible, hshows.path_eq, hshows.fragments_eq, hshows.output_eq, hbag, hclose, hsame,
    visible]

/-- Jobs for the same content with options that agree and spell alike make the same payload. -/
theorem payload_congr (hid : j.file.id = j'.file.id) (hcontent : j.file.content = j'.file.content)
    (h : j.options.Agree j'.options) (hrename : j.options.rename = j'.options.rename) :
    j.payload = j'.payload := by
  have hstyle : j.options.style = j'.options.style := by
    rw [BuildOptions.style, BuildOptions.style, hrename, h.banner, h.prelude, h.strict]
  have hscript : j.script = j'.script := by rw [script, script, hid, hcontent, hstyle]
  have hfindings : j.findings = j'.findings := by rw [findings, findings, hid, hcontent, hscript]
  have hlimit : j.limit = j'.limit := by rw [limit, limit, h.maxDiagnostics]
  rw [payload, payload, hscript, hfindings, hlimit]

/-- Without a store a job makes what its memo does not have. -/
theorem fragments_run_of_misses (hmemo : j.MissesMemo s) (hstore : j.store = none) :
    (j.run s).1.fragments = j.script.fragments := by
  have hhonest : j.Honest s := by
    refine ⟨fun m hm p hp => ?_, fun st hst => ?_⟩
    · exact absurd (hp.symm.trans (hmemo m hm)) (Option.some_ne_none p)
    · exact absurd (hst.symm.trans hstore) (Option.some_ne_none st)
  obtain ⟨_, _, hshows, -⟩ := j.shows_run hhonest
  exact hshows.fragments_eq

/-- What the memo has under the key of a job is what a run shows. -/
theorem fragments_run_of_found {m : Memo} {p : Payload} (has : s.memo = some m)
    (found : m.find? j.key = some p) : (j.run s).1.fragments = p.fragments := by
  have hnot : ¬ j.MissesMemo s := fun missed =>
    Option.some_ne_none p (found.symm.trans (missed m has))
  cases j.run_ran s with
  | fromMemo has' found' shows =>
    obtain rfl := Option.some.inj (has.symm.trans has')
    rw [shows.fragments_eq, Option.some.inj (found.symm.trans found')]
  | fromStore missed => exact absurd missed hnot
  | made missed => exact absurd missed hnot

/-- **A job that runs after another one of its key shows what that one made**, if the other had
to make it and there is a memo. -/
theorem fragments_run_of_key_eq {m : Memo} (hkey : j'.key = j.key) (has : s.memo = some m)
    (hmemo : j.MissesMemo s) (hstore : j.store = none) :
    (j'.run (j.run s).2).1.fragments = j.script.fragments := by
  have hleft : (j.run s).2.memo = some ((m.get j.key).2.put j.key j.payload) := by
    cases j.run_ran s with
    | fromMemo has' found =>
      exact absurd (found.symm.trans (hmemo _ has')) (Option.some_ne_none _)
    | fromStore _ has' => exact absurd (has'.symm.trans hstore) (Option.some_ne_none _)
    | made _ _ _ _ memo =>
      rw [memo, memoAsked, has]
      rfl
  refine fragments_run_of_found (p := j.payload) hleft ?_
  rw [hkey]
  exact Memo.find?_put _ j.key j.payload

end Job

/-- A content to be transpiled, with its name and the options. -/
structure Request where
  name : Text
  content : Text
  options : BuildOptions

namespace Request

/-- The job of the request. -/
def job (r : Request) (store : Option Store) : Job := .ofSource r.name r.content r.options store

/-- The texts whose digests make the key of the request. -/
def hashed (r : Request) : List Text := r.options.hashed r.content

/-- What the request keeps in the caches. -/
def payload (r : Request) : Payload := (r.job none).payload

/-- The outcome of the request when there is no cache. -/
def uncached (r : Request) : Outcome := (transpileSource r.name r.content r.options none {}).2.1

end Request

/-- The outcomes of requests that are run one after the other, each with the memo and the
disk that the one before left. -/
def session (store : Option Store) : Shared → List Request → List Outcome
  | _, [] => []
  | s, r :: rs =>
    let (o, s') := (transpileSource r.name r.content r.options store s).2
    o :: session store s' rs

/-- The caches hold only what `kept` says. -/
structure Faithful (store : Option Store) (kept : Digest → Payload → Prop) (s : Shared) : Prop where
  memo : ∀ m ∈ s.memo, ∀ x ∈ m.entries, kept x.1 x.2
  store : ∀ st ∈ store, ∃ base, st.Tidy base kept s.disk

/-- What may be kept: under its key what a job makes, and nothing else. -/
structure Job.Keeps (j : Job) (kept : Digest → Payload → Prop) : Prop where
  full : j.key.IsFull
  payload : kept j.key j.payload
  only : ∀ p, kept j.key p → p = j.payload
  fits : j.store.isSome → j.payload.Fits

section Step

variable {kept : Digest → Payload → Prop} {j : Job} {s : Shared}

namespace Faithful

/-- A faithful store has the result of a job or nothing. -/
theorem get (h : Faithful j.store kept s) (hj : j.Keeps kept) {st : Store}
    (hst : j.store = some st) :
    st.get s.disk j.key = .ok none ∨ st.get s.disk j.key = .ok (some j.payload) := by
  obtain ⟨base, htidy⟩ := h.store st hst
  have hkept : ∀ p, kept j.key p → p.Fits ∧ p.schema = BuildOptions.schema := by
    intro p hp
    obtain rfl := hj.only p hp
    exact ⟨hj.fits (hst ▸ rfl), rfl⟩
  rcases Store.get_of_tidy htidy hj.full hkept with hget | ⟨p, hp, hget⟩
  · exact .inl hget
  · exact .inr (hj.only p hp ▸ hget)

/-- A faithful store takes the result of a job and stays faithful. -/
theorem put (h : Faithful j.store kept s) (hj : j.Keeps kept) {st : Store}
    (hst : j.store = some st) :
    (st.put s.disk j.key j.payload).2 = none ∧
      ∃ base, st.Tidy base kept (st.put s.disk j.key j.payload).1 := by
  obtain ⟨base, htidy⟩ := h.store st hst
  obtain ⟨d, hput, htidy'⟩ := Store.tidy_put htidy hj.full hj.payload rfl 0
  rw [hput]
  exact ⟨rfl, base, htidy'⟩

theorem honest (h : Faithful j.store kept s) (hj : j.Keeps kept) : j.Honest s := by
  refine ⟨fun m hm p hp => hj.only p (h.memo m hm _ (Memo.mem_of_find? hp)), fun st hst p hp => ?_⟩
  rcases h.get hj hst with hget | hget
  · exact nomatch hget.symm.trans hp
  · exact (Option.some.inj (Except.ok.inj (hget.symm.trans hp))).symm

theorem openingWarning (h : Faithful j.store kept s) (hj : j.Keeps kept) :
    j.openingWarning s = [] := by
  have hread : j.readWarning s = [] := by
    cases hst : j.store with
    | none => rw [Job.readWarning, hst]
    | some st => exact (h.get hj hst).elim (Job.readWarning_eq_nil hst) (Job.readWarning_eq_nil hst)
  rw [Job.openingWarning, hread]
  exact ite_self _

theorem writeWarning (h : Faithful j.store kept s) (hj : j.Keeps kept) : j.writeWarning s = [] := by
  cases hst : j.store with
  | none => rw [Job.writeWarning, hst]
  | some st =>
    rw [Job.writeWarning, hst]
    dsimp only
    rw [(h.put hj hst).1]

/-- A memo that was asked and then given a payload that may be kept. -/
theorem memo_put {p : Payload} (h : Faithful j.store kept s) (hp : kept j.key p) :
    ∀ m ∈ (j.memoAsked s).map (·.put j.key p), ∀ x ∈ m.entries, kept x.1 x.2 := by
  intro m hm x hx
  obtain ⟨m', hm', rfl⟩ := Option.mem_map.1 hm
  obtain ⟨m'', hm'', rfl⟩ := Option.mem_map.1 hm'
  rcases Memo.mem_put hx with rfl | hx
  · exact hp
  · exact h.memo m'' hm'' x hx

/-- **Every run keeps the caches faithful.** -/
theorem run (h : Faithful j.store kept s) (hj : j.Keeps kept) :
    Faithful j.store kept (j.run s).2 := by
  cases j.run_ran s with
  | fromMemo _ _ _ _ memo disk =>
    refine ⟨fun m hm => ?_, fun st hst => disk ▸ h.store st hst⟩
    rw [memo] at hm
    obtain ⟨m', hm', rfl⟩ := Option.mem_map.1 hm
    exact h.memo m' hm'
  | fromStore _ has found _ _ memo disk =>
    obtain rfl := (h.honest hj).store _ has _ found
    exact ⟨memo ▸ h.memo_put hj.payload, fun st hst => disk ▸ h.store st hst⟩
  | made _ _ _ _ memo disk =>
    refine ⟨memo ▸ h.memo_put hj.payload, fun st hst => ?_⟩
    rw [disk, Job.diskAfter, Option.mem_def.1 hst]
    exact (h.put hj hst).2

end Faithful
end Step

/-- **Runs with faithful caches show what their jobs make.** -/
theorem visible_session {kept : Digest → Payload → Prop} {store : Option Store} {s : Shared}
    {rs : List Request} (h : Faithful store kept s)
    (hrs : ∀ r ∈ rs, (r.job store).Keeps kept ∧ r.options.timings = false) :
    (session store s rs).map Outcome.visible = rs.map fun r => (r.job store).visible := by
  induction rs generalizing s with
  | nil => rfl
  | cons r rs ih =>
    obtain ⟨⟨hkeeps, htimings⟩, hrs⟩ := List.forall_mem_cons.1 hrs
    have hhead : ((r.job store).run s).1.visible = (r.job store).visible :=
      Job.visible_run (Faithful.honest h hkeeps) (Faithful.openingWarning h hkeeps)
        (Faithful.writeWarning h hkeeps) htimings
    have htail := ih (Faithful.run h hkeeps) hrs
    rw [List.map_cons, ← hhead, ← htail]
    rfl

namespace Request

theorem visible_uncached {r : Request} (h : r.options.timings = false) :
    r.uncached.visible = (r.job none).visible :=
  Job.visible_run ⟨nofun, nofun⟩ rfl rfl h

/-- The payloads of the requests under their keys. -/
def Kept (rs : List Request) (key : Digest) (p : Payload) : Prop :=
  ∃ r ∈ rs, key = (r.job none).key ∧ p = r.payload

/-- As far as digests do not collide and kinds decide, each request keeps its own payload under
its key. -/
theorem keeps_of_mem {rs : List Request} {r : Request} (hr : r ∈ rs) {store : Option Store}
    (hfree : Digest.CollisionFree (rs.flatMap hashed))
    (hkinds : BuildOptions.KindsDecide (rs.map options)) (hfits : store.isSome → r.payload.Fits) :
    (r.job store).Keeps (Kept rs) := by
  refine ⟨Digest.isFull_ofText _, ⟨r, hr, rfl, rfl⟩, ?_, hfits⟩
  rintro p ⟨r', hr', hkey, rfl⟩
  have hmem {r : Request} (hr : r ∈ rs) : ∀ t ∈ r.options.hashed r.content, t ∈ rs.flatMap hashed :=
    fun t ht => List.mem_flatMap.2 ⟨r, hr, ht⟩
  obtain ⟨hcontent, hagree⟩ := BuildOptions.eq_of_cacheKey_eq hfree (hmem hr') (hmem hr) hkey.symm
  exact Job.payload_congr rfl hcontent hagree
    (hkinds _ (List.mem_map_of_mem hr') _ (List.mem_map_of_mem hr) hagree.kind)

end Request

/-- **Caches are transparent over whole sessions** as far as renamers of one kind spell alike.
Requests that share a memo of any limit, a store, or both, empty at first, have the path,
fragments, output and diagnostics that each of them has with no cache at all, whatever was kept
or evicted in between and whichever options the earlier ones had.  The store writes every size
in four bytes, so with a store the results have to fit its format. -/
theorem visible_session_eq_uncached {store : Option Store} {s : Shared} {limit : Option Int}
    {rs : List Request} (hmemo : s.memo = limit.map Memo.new)
    (hstore : ∀ st ∈ store, st.Fresh s.disk) (htimings : ∀ r ∈ rs, r.options.timings = false)
    (hfits : store.isSome → ∀ r ∈ rs, r.payload.Fits)
    (hkinds : BuildOptions.KindsDecide (rs.map Request.options))
    (hfree : Digest.CollisionFree (rs.flatMap Request.hashed)) :
    (session store s rs).map Outcome.visible = rs.map (·.uncached.visible) := by
  have hfaithful : Faithful store (Request.Kept rs) s := by
    refine ⟨fun m hm x hx => ?_, fun st hst => (hstore st hst).tidy _⟩
    rw [hmemo] at hm
    obtain ⟨n, -, rfl⟩ := Option.mem_map.1 hm
    exact nomatch hx
  rw [visible_session hfaithful fun r hr =>
    ⟨Request.keeps_of_mem hr hfree hkinds fun hsome => hfits hsome r hr, htimings r hr⟩]
  refine List.map_congr_left fun r hr => ?_
  rw [Request.visible_uncached (htimings r hr)]
  rfl

/-- Three requests: the second with other options, the third for the content of the first
with another separator. -/
def repeated : List Request :=
  [⟨"a", "نوع \nx", {}⟩, ⟨"b", "x\nنوع ", { naming := some .latin, maxDiagnostics := 1 }⟩,
   ⟨"a", "نوع \nx", { separator := "\n\n" }⟩]

/-- A memo with room for one payload and the directory of a store, both empty. -/
def emptyCaches : Shared :=
  { disk := { entries := [(["cache"], .directory)] }, memo := some (.new 1) }

/-- The second request takes the place of the first one in the memo, so that the third
finds its payload in the store. -/
theorem visible_session_eq_uncached_evicting :
    (⟨"/cache"⟩ : Store).Fresh emptyCaches.disk ∧
      Digest.CollisionFree (repeated.flatMap Request.hashed) ∧
      (∀ r ∈ repeated, r.payload.Fits) ∧
      (session (some ⟨"/cache"⟩) emptyCaches repeated).map (·.cached) = [false, false, true] ∧
      (session (some ⟨"/cache"⟩) emptyCaches repeated).map Outcome.visible =
        repeated.map (·.uncached.visible) := by
  have hmemo : emptyCaches.memo = (some (1 : Int)).map Memo.new := rfl
  have hfresh : (⟨"/cache"⟩ : Store).Fresh emptyCaches.disk :=
    ⟨⟨["cache"], by decide, by decide⟩, by decide⟩
  have hfree : Digest.CollisionFree (repeated.flatMap Request.hashed) := by decide +kernel
  have hfits : ∀ r ∈ repeated, r.payload.Fits := by decide +kernel
  have hkinds : BuildOptions.KindsDecide (repeated.map Request.options) := by
    have hother : Renamer.asWritten.kind ≠ Renamer.latin.kind := by decide
    simp [BuildOptions.KindsDecide, repeated, BuildOptions.kind, BuildOptions.rename, hother,
      hother.symm]
  refine ⟨hfresh, hfree, hfits, by decide +kernel,
    visible_session_eq_uncached hmemo ?_ ?_ ?_ hkinds hfree⟩
  · rintro _ ⟨⟩
    exact hfresh
  · decide
  · exact fun _ => hfits

/-- A request whose renamer gives every name the same spelling. -/
def constantly (spelling : Text) : Request :=
  ⟨"a", "تابع ا()", { naming := some ⟨"constant", fun _ => spelling⟩ }⟩

/-- **Renamers of one kind share their results**: the second request finds what the first one
kept, with the name that the first one gave. -/
theorem session_shares_spellings :
    Digest.CollisionFree ([constantly "x", constantly "y"].flatMap Request.hashed) ∧
      (session none { memo := some (.new 0) } [constantly "x", constantly "y"]).map
          (·.fragments.take 1) =
        ([["function x () \x7b"], ["function x () \x7b"]] : List (List Text)) ∧
      [constantly "x", constantly "y"].map (·.uncached.fragments.take 1) =
        ([["function x () \x7b"], ["function y () \x7b"]] : List (List Text)) := by
  let jx := (constantly "x").job none
  let jy := (constantly "y").job none
  obtain ⟨hx, hy⟩ : jx.script.fragments.take 1 = [Text.ofString "function x () \x7b"] ∧
      jy.script.fragments.take 1 = [Text.ofString "function y () \x7b"] := by decide +kernel
  have hmiss : jx.MissesMemo { memo := some (.new 0) } := by
    intro m hm
    obtain rfl := Option.some.inj hm
    rfl
  have hnone (j : Job) : j.MissesMemo {} := Job.missesMemo_of_none rfl
  have hkey : jy.key = jx.key := rfl
  refine ⟨by decide +kernel, ?_, ?_⟩
  · show [(jx.run _).1.fragments.take 1, (jy.run (jx.run _).2).1.fragments.take 1] = _
    rw [Job.fragments_run_of_misses hmiss rfl, Job.fragments_run_of_key_eq hkey rfl hmiss rfl, hx]
  · show [(jx.run {}).1.fragments.take 1, (jy.run {}).1.fragments.take 1] = _
    rw [Job.fragments_run_of_misses (hnone jx) rfl, Job.fragments_run_of_misses (hnone jy) rfl, hx,
      hy]

end Tarjuman
