/-
# Where scripts go

A source lies below a directory if its components are those of the directory and then some names
(`Path.Below`).  `Target.path` does not compare components: it looks at the way from the directory
to the source, a text, and refuses one that starts with two dots.

For clean paths from the root on, the way to a source below the directory is made of the names with
slashes between them (`Path.relative?_of_below`), and the way to anything else but the directory
itself starts with the name `..` (`Path.relative?_of_outside`).  So what is refused is outside, or it
lies below and its first name starts with two dots as well; and the directory itself, if it is named
like a source, gets through with the way `.`.  These are all the cases there are
(`Target.script_path_iff`).  A script that has a place lies below the other directory, behind the
same names, and no other source has that place (`Target.eq_of_path_eq`).
-/

import Mathlib.Data.List.Basic
import Tarjuman.Proofs.SourceOrder

namespace Tarjuman

/-! ## Texts with slashes -/

namespace Text

/-- What is put behind the last part is put behind the whole. -/
theorem join_concat_append (parts : List Text) (a b : Text) :
    join "/" (parts ++ [a ++ b]) = join "/" (parts ++ [a]) ++ b := by
  cases parts with
  | nil => rw [List.nil_append, List.nil_append, join_singleton, join_singleton]
  | cons c r =>
    have hne (x : Text) : [x] ≠ [] := List.cons_ne_nil x []
    rw [join_append (List.cons_ne_nil c r) (hne _), join_append (List.cons_ne_nil c r) (hne _),
      join_singleton, join_singleton, List.append_assoc, List.cons_append]

theorem endsWith_append (s e : Text) : endsWith (s ++ e) e = true :=
  List.isSuffixOf_iff_suffix.2 (List.suffix_append s e)

theorem dropEnd_append (s e : Text) : dropEnd (s ++ e) e = s := by
  rw [dropEnd, if_pos (endsWith_append s e), List.length_append, Nat.add_sub_cancel, List.take_left]

/-- Two dots at the front of parts stand in the first one. -/
theorem startsWith_join_dots {c : Text} (hc : Path.Part c) (r : List Text) :
    startsWith (join "/" (c :: r)) ".." = startsWith c ".." := by
  cases r with
  | nil => rw [join_singleton]
  | cons d r =>
    rw [join_cons_cons]
    obtain ⟨a, c, rfl⟩ := List.exists_cons_of_ne_nil hc.ne_nil
    cases c with
    | nil =>
      -- the byte behind the part is a slash
      have hslash : ((46 : UInt8) == Path.slash) = false := by decide
      show ((46 : UInt8) == a && ((46 : UInt8) == Path.slash && _)) = ((46 : UInt8) == a && false)
      rw [hslash, Bool.false_and]
    | cons b c => rfl

end Text

namespace Path

/-! ## Clean paths from the root on -/

/-- A clean path from the root on. -/
structure Rooted (p : Text) : Prop where
  absolute : isAbsolute p = true
  clean_eq : clean p = p

/-- From the root on, cleaning leaves names of entries only. -/
theorem plain_of_isClean {done : List Text} (h : IsClean true done) (hparts : ∀ c ∈ done, Part c) :
    ∀ c ∈ done, Plain c := by
  induction done with
  | nil => exact List.forall_mem_nil _
  | cons c done ih =>
    obtain ⟨hc, hdone⟩ := List.forall_mem_cons.1 hparts
    have hplain := ih h.2 hdone
    have hstep := h.1
    rw [cleanStep.eq_def] at hstep
    refine List.forall_mem_cons.2 ⟨⟨hc, fun hhere => ?_, fun habove => ?_⟩, hplain⟩
    · rw [if_pos hhere] at hstep
      exact List.cons_ne_self c done hstep.symm
    · rw [if_neg (by rw [habove]; decide), if_pos habove] at hstep
      cases done with
      | nil => cases hstep
      | cons last r =>
        have hlast := (hplain last List.mem_cons_self).notAbove
        have hlength := congrArg List.length hstep
        simp only [if_neg hlast, List.length_cons] at hlength
        omega

theorem components_rooted {cs : List Text} (h : ∀ c ∈ cs, Part c) :
    components (ofComponents true cs) = cs :=
  (components_append [] _).trans (components_join h)

theorem rooted_ofComponents {cs : List Text} (h : ∀ c ∈ cs, Plain c) :
    Rooted (ofComponents true cs) := by
  have hcomponents : components (ofComponents true cs) = [] ++ cs :=
    components_rooted fun c hc => (h c hc).toPart
  exact ⟨rfl, clean_of_components hcomponents h⟩

namespace Rooted

variable {p : Text}

theorem components_eq (h : Rooted p) : components p = cleanComponents p := by
  have hp : p = ofComponents true (cleanComponents p) := by
    have hclean := h.clean_eq
    rw [clean, h.absolute] at hclean
    exact hclean.symm
  have hparts : ∀ c ∈ cleanComponents p, Part c := fun _ => part_of_mem_cleanComponents
  conv_lhs => rw [hp, components_rooted hparts]

theorem eq_ofComponents (h : Rooted p) : p = ofComponents true (components p) := by
  conv_lhs => rw [← h.clean_eq, clean, h.absolute, ← h.components_eq]

theorem plain (h : Rooted p) : ∀ c ∈ components p, Plain c := by
  have hclean : IsClean true (cleanComponents p).reverse := by
    rw [cleanComponents, List.reverse_reverse, h.absolute]
    exact isClean_foldl _ trivial
  have hparts : ∀ c ∈ (cleanComponents p).reverse, Part c := fun c hc =>
    part_of_mem_cleanComponents (List.mem_reverse.1 hc)
  intro c hc
  rw [h.components_eq] at hc
  exact plain_of_isClean hclean hparts c (List.mem_reverse.2 hc)

theorem ne_nil (h : Rooted p) : p ≠ [] := by
  rintro rfl
  exact absurd h.absolute (by decide)

theorem eq_of_components (h : Rooted p) {q : Text} (hq : Rooted q)
    (heq : components p = components q) : p = q := by
  rw [h.eq_ofComponents, heq, ← hq.eq_ofComponents]

end Rooted

/-- A path leads from a directory down along names, of which there is one at least. -/
structure Below (dir p : Text) (names : List Text) : Prop where
  ne_nil : names ≠ []
  plain : ∀ c ∈ names, Plain c
  eq_ofComponents : p = ofComponents true (components dir ++ names)

namespace Below

variable {dir p : Text} {names : List Text}

theorem rooted (h : Below dir p names) (hdir : Rooted dir) : Rooted p := by
  rw [h.eq_ofComponents]
  exact rooted_ofComponents (List.forall_mem_append.2 ⟨hdir.plain, h.plain⟩)

theorem components_eq (h : Below dir p names) : components p = components dir ++ names := by
  rw [h.eq_ofComponents]
  refine components_rooted (List.forall_mem_append.2 ⟨fun _ => part_of_mem_components, ?_⟩)
  exact fun c hc => (h.plain c hc).toPart

/-- The names are those of the path. -/
theorem names_unique (h : Below dir p names) {names' : List Text} (h' : Below dir p names') :
    names = names' :=
  List.append_cancel_left (h.components_eq.symm.trans h'.components_eq)

theorem ne_dir (h : Below dir p names) : dir ≠ p := by
  rintro rfl
  exact h.ne_nil (List.append_right_eq_self.1 h.components_eq.symm)

end Below

/-- More components make a path below. -/
theorem Rooted.below {dir p : Text} {names : List Text} (hp : Rooted p) (hnames : names ≠ [])
    (h : components p = components dir ++ names) : Below dir p names := by
  have hplain := hp.plain
  rw [h] at hplain
  exact ⟨hnames, (List.forall_mem_append.1 hplain).2, h ▸ hp.eq_ofComponents⟩

/-- A clean path is the directory, lies below it or lies outside, and some start elsewhere. -/
theorem rooted_cases {dir p : Text} (hdir : Rooted dir) (hp : clean p = p) :
    isAbsolute p = false ∨ p = dir ∨ (∃ names, Below dir p names) ∨
      Rooted p ∧ ¬ components dir <+: components p := by
  cases habsolute : isAbsolute p with
  | false => exact .inl rfl
  | true =>
    have hrooted : Rooted p := ⟨habsolute, hp⟩
    by_cases hprefix : components dir <+: components p
    · obtain ⟨names, hnames⟩ := hprefix
      rcases List.eq_nil_or_concat names with rfl | ⟨r, c, rfl⟩
      · rw [List.append_nil] at hnames
        exact .inr (.inl (hrooted.eq_of_components hdir hnames.symm))
      · exact .inr (.inr (.inl ⟨_, hrooted.below (by simp) hnames.symm⟩))
    · exact .inr (.inr (.inr ⟨hrooted, hprefix⟩))

/-! ## The way from a directory -/

theorem afterCommon_append (cs ds : List Text) : afterCommon cs (cs ++ ds) = ([], ds) := by
  induction cs with
  | nil => rw [List.nil_append, afterCommon.eq_def]
  | cons c cs ih => rw [List.cons_append, afterCommon, if_pos rfl, ih]

/-- Behind the common beginning something is left of what is no beginning itself. -/
theorem afterCommon_of_not_prefix {cs ds : List Text} (h : ¬ cs <+: ds) :
    ∃ up more down, afterCommon cs ds = (up :: more, down) ∧ up ∈ cs := by
  induction cs generalizing ds with
  | nil => exact absurd List.nil_prefix h
  | cons c cs ih =>
    cases ds with
    | nil => exact ⟨c, cs, [], rfl, List.mem_cons_self⟩
    | cons d ds =>
      by_cases heq : c = d
      · subst heq
        obtain ⟨up, more, down, hcommon, hmem⟩ := ih fun hr => h ((List.prefix_cons_inj c).2 hr)
        exact ⟨up, more, down, by rw [afterCommon, if_pos rfl, hcommon],
          List.mem_cons_of_mem c hmem⟩
      · exact ⟨c, cs, d :: ds, by rw [afterCommon, if_neg heq], List.mem_cons_self⟩

section Relative

variable {dir p : Text} (hdir : Rooted dir)
include hdir

/-- The way between different paths from the root on goes up along what is left of the first and
down along what is left of the second. -/
theorem relative?_of_common (hp : Rooted p) (hne : dir ≠ p) {ups down : List Text}
    (h : afterCommon (components dir) (components p) = (ups, down))
    (hups : ups.head? ≠ some (Text.ofString "..")) :
    relative? dir p = some (Text.join "/" (ups.map (fun _ => Text.ofString "..") ++ down)) := by
  have hdot : dir ≠ Text.ofString "." := by
    rintro rfl
    exact absurd hdir.absolute (by decide)
  have hparts : afterCommon (components dir) (components p) = (ups, down) := h
  rw [relative?]
  dsimp only
  rw [hdir.clean_eq, hp.clean_eq, if_neg hne, if_neg hdot, hdir.absolute, hp.absolute,
    if_neg (by decide), hparts]
  cases ups with
  | nil => rfl
  | cons up more => exact if_neg fun hup => hups (congrArg some hup.1)

/-- A path that starts elsewhere cannot be reached. -/
theorem relative?_of_relative (hp : clean p = p) (h : isAbsolute p = false) :
    relative? dir p = none := by
  have hne : dir ≠ p := by
    rintro rfl
    rw [hdir.absolute] at h
    cases h
  have hdot : dir ≠ Text.ofString "." := by
    rintro rfl
    exact absurd hdir.absolute (by decide)
  rw [relative?]
  dsimp only
  rw [hdir.clean_eq, hp, if_neg hne, if_neg hdot, hdir.absolute, h]
  rfl

/-- **The way down** is made of the names. -/
theorem relative?_of_below {names : List Text} (h : Below dir p names) :
    relative? dir p = some (Text.join "/" names) := by
  have hcommon : afterCommon (components dir) (components p) = ([], names) := by
    rw [h.components_eq, afterCommon_append]
  exact relative?_of_common hdir (h.rooted hdir) h.ne_dir hcommon (by simp)

/-- **The way to what is outside** goes up first. -/
theorem relative?_of_outside (hp : Rooted p) (h : ¬ components dir <+: components p) :
    ∃ way, relative? dir p = some way ∧ Text.startsWith way ".." = true := by
  have hne : dir ≠ p := by
    rintro rfl
    exact h (List.prefix_refl _)
  obtain ⟨up, more, down, hcommon, hup⟩ := afterCommon_of_not_prefix h
  have hhead : (up :: more).head? ≠ some (Text.ofString "..") := fun heq =>
    (hdir.plain up hup).notAbove (Option.some.inj heq)
  refine ⟨_, relative?_of_common hdir hp hne hcommon hhead, ?_⟩
  have hpart : Part (Text.ofString "..") := ⟨by decide, by decide⟩
  rw [List.map_cons, List.cons_append, Text.startsWith_join_dots hpart]
  decide

end Relative

/-- A way down joined to a directory leads to the names below it. -/
theorem join_way {out : Text} (hout : Rooted out) {names : List Text} (hne : names ≠ [])
    (hplain : ∀ c ∈ names, Plain c) : Below out (join [out, Text.join "/" names]) names := by
  obtain ⟨c, r, rfl⟩ := List.exists_cons_of_ne_nil hne
  have hstart : out.isEmpty ≠ true := by simp [hout.ne_nil]
  have hjoin : join [out, Text.join "/" (c :: r)] = join (out :: c :: r) := by
    rw [join, List.dropWhile_cons_of_neg hstart, join, List.dropWhile_cons_of_neg hstart]
    dsimp only
    rw [Text.join_cons_cons, Text.join_singleton, Text.join_cons_cons]
  refine ⟨hne, hplain, ?_⟩
  rw [hjoin, join_cons out hne hplain, hout.absolute, hout.components_eq]

end Path

/-! ## Scripts -/

namespace Target

open Tarjuman.Path (Rooted Below Plain Part)

/-- A clean path that ends like a source. -/
structure IsSource (source : Text) : Prop where
  clean_eq : Path.clean source = source
  ends : Text.endsWith source sourceExtension = true

/-- The first name starts with two dots, as a way up does. -/
def isDotted (names : List Text) : Bool := Text.startsWith (names.headD []) ".."

/-- Why a source is refused. -/
def refusal (source dir : Text) : Fault :=
  if Path.isAbsolute source then .outside source dir else .unrelated source dir

/-- What becomes of a source: its script has a place below the directory of scripts, or it is
refused. -/
inductive Verdict (source dir out : Text) : Except Fault Text → Prop where
  /-- The source lies below the directory. -/
  | below {names : List Text} {stem p : Text}
      (lies : Below dir source (names ++ [stem ++ sourceExtension]))
      (plain : isDotted (names ++ [stem ++ sourceExtension]) = false)
      (script : Below out p (names ++ [stem ++ scriptExtension])) : Verdict source dir out (.ok p)
  /-- The source is the directory. -/
  | itself {p : Text} (eq : source = dir) (script : Below out p ["..js"]) :
    Verdict source dir out (.ok p)
  | refused (dotted : ∀ names, Below dir source names → isDotted names = true)
      (ne : source ≠ dir) : Verdict source dir out (.error (refusal source dir))

/-- A name that ends like a source. -/
theorem exists_stem (cs : List Text) {c : Text}
    (h : Text.endsWith (Path.ofComponents true (cs ++ [c])) sourceExtension = true) :
    ∃ stem, c = stem ++ sourceExtension := by
  have hsuffix := List.isSuffixOf_iff_suffix.1 h
  rw [Path.ofComponents_concat] at hsuffix
  rcases List.suffix_or_suffix_of_suffix hsuffix (List.suffix_append _ c) with hlong | hshort
  · obtain ⟨stem, hstem⟩ := hlong
    exact ⟨stem, hstem.symm⟩
  · -- the ending would go on before the name, and there stands a slash
    obtain ⟨more, hmore⟩ := hshort
    rw [← hmore] at hsuffix
    obtain ⟨front, hfront⟩ := hsuffix
    rw [← List.append_assoc] at hfront
    have hlead := List.append_cancel_right hfront
    rcases List.eq_nil_or_concat more with rfl | ⟨r, b, rfl⟩
    · exact ⟨[], hmore⟩
    · have hslash : Path.slash ∉ sourceExtension := by decide
      refine absurd ?_ hslash
      rcases Path.lead_eq true cs with ⟨hnil, -⟩ | hends
      · rw [hnil] at hlead
        simp at hlead
      · rw [hends, List.concat_eq_append, ← List.append_assoc] at hlead
        obtain ⟨-, hb⟩ := List.append_inj' hlead rfl
        rw [← hmore, List.concat_eq_append, hb]
        simp

/-- The name of a script is the name of an entry. -/
theorem plain_script {stem : Text} (h : Part (stem ++ sourceExtension)) :
    Plain (stem ++ scriptExtension) := by
  have hslash : Path.slash ∉ stem ++ scriptExtension := by
    have hstem : Path.slash ∉ stem := fun hmem => h.noSlash (List.mem_append_left _ hmem)
    rw [List.mem_append, not_or]
    exact ⟨hstem, by decide⟩
  have hlast (s : Text) (hs : s.getLast? ≠ some (Text.byte 's')) : stem ++ scriptExtension ≠ s := by
    rintro rfl
    exact hs (by rw [List.getLast?_append]; rfl)
  exact ⟨⟨hlast [] (by decide), hslash⟩, hlast _ (by decide), hlast _ (by decide)⟩

/-- The directory itself is not refused. -/
theorem path_self (dir : Text) {out : Text} (hout : Rooted out) :
    ∃ p, path dir dir out = .ok p ∧ Below out p ["..js"] := by
  have hplain : ∀ c ∈ [Text.ofString "..js"], Plain c := List.forall_mem_singleton.2 (by decide)
  refine ⟨_, ?_, Path.join_way hout (List.cons_ne_nil _ []) hplain⟩
  have hway : Path.relative? dir dir = some "." := by
    rw [Path.relative?]
    exact if_pos rfl
  rw [path, hway, Text.join_singleton]
  rfl

section Cases

variable {source dir out : Text} (hdir : Rooted dir) (hout : Rooted out)
include hdir

theorem path_of_relative (hclean : Path.clean source = source)
    (h : Path.isAbsolute source = false) :
    path source dir out = .error (.unrelated source dir) := by
  rw [path, Path.relative?_of_relative hdir hclean h]

theorem path_of_outside (hsource : Rooted source)
    (h : ¬ Path.components dir <+: Path.components source) :
    path source dir out = .error (.outside source dir) := by
  obtain ⟨way, hway, hdots⟩ := Path.relative?_of_outside hdir hsource h
  rw [path, hway]
  exact if_pos hdots

theorem path_of_dotted {names : List Text} (h : Below dir source names)
    (hdots : isDotted names = true) : path source dir out = .error (.outside source dir) := by
  obtain ⟨c, r, rfl⟩ := List.exists_cons_of_ne_nil h.ne_nil
  have hc : Part c := (h.plain c List.mem_cons_self).toPart
  rw [path, Path.relative?_of_below hdir h]
  exact if_pos ((Text.startsWith_join_dots hc r).trans hdots)

include hout

/-- **A source below the directory** has its script behind the same names. -/
theorem path_of_below {names : List Text} {stem : Text}
    (h : Below dir source (names ++ [stem ++ sourceExtension]))
    (hdots : isDotted (names ++ [stem ++ sourceExtension]) = false) :
    ∃ p, path source dir out = .ok p ∧ Below out p (names ++ [stem ++ scriptExtension]) := by
  obtain ⟨hnames, hlast⟩ := List.forall_mem_append.1 h.plain
  have hplain : ∀ c ∈ names ++ [stem ++ scriptExtension], Plain c := by
    refine List.forall_mem_append.2 ⟨hnames, List.forall_mem_singleton.2 ?_⟩
    exact plain_script (hlast _ List.mem_cons_self).toPart
  have hway : Text.startsWith (Text.join "/" (names ++ [stem ++ sourceExtension])) ".." = false := by
    obtain ⟨c, r, hcons⟩ := List.exists_cons_of_ne_nil h.ne_nil
    have hc : Part c := (h.plain c (hcons ▸ List.mem_cons_self)).toPart
    rw [hcons] at hdots ⊢
    exact (Text.startsWith_join_dots hc r).trans hdots
  refine ⟨_, ?_, Path.join_way hout (List.concat_ne_nil _ _) hplain⟩
  rw [path, Path.relative?_of_below hdir h]
  dsimp only
  rw [hway, if_neg Bool.false_ne_true, Text.join_concat_append, Text.dropEnd_append,
    ← Text.join_concat_append]

/-- **Every source meets its verdict.** -/
theorem verdict_path (hsource : IsSource source) :
    Verdict source dir out (path source dir out) := by
  rcases Path.rooted_cases hdir hsource.clean_eq with hrelative | rfl | ⟨names, hbelow⟩ | ⟨hrooted, houtside⟩
  · have hverdict : Verdict source dir out (.error (refusal source dir)) := by
      refine .refused (fun names hbelow => ?_) fun heq => ?_
      · rw [(hbelow.rooted hdir).absolute] at hrelative
        cases hrelative
      · rw [heq, hdir.absolute] at hrelative
        cases hrelative
    rwa [refusal, hrelative, if_neg Bool.false_ne_true,
      ← path_of_relative hdir hsource.clean_eq hrelative] at hverdict
  · obtain ⟨p, hp, hscript⟩ := path_self source hout
    rw [hp]
    exact .itself rfl hscript
  · obtain ⟨r, c, rfl⟩ := (List.eq_nil_or_concat names).resolve_left hbelow.ne_nil
    rw [List.concat_eq_append] at hbelow
    obtain ⟨stem, rfl⟩ : ∃ stem, c = stem ++ sourceExtension := by
      refine exists_stem (Path.components dir ++ r) ?_
      rw [List.append_assoc, ← hbelow.eq_ofComponents, hsource.ends]
    cases hdots : isDotted (r ++ [stem ++ sourceExtension]) with
    | true =>
      have hverdict : Verdict source dir out (.error (refusal source dir)) :=
        .refused (fun names h => h.names_unique hbelow ▸ hdots) hbelow.ne_dir.symm
      rwa [refusal, (hbelow.rooted hdir).absolute, if_pos rfl, ← path_of_dotted hdir hbelow hdots]
        at hverdict
    | false =>
      obtain ⟨p, hp, hscript⟩ := path_of_below hdir hout hbelow hdots
      rw [hp]
      exact .below hbelow hdots hscript
  · have hverdict : Verdict source dir out (.error (refusal source dir)) := by
      refine .refused (fun names hbelow => ?_) fun heq => ?_
      · rw [hbelow.components_eq] at houtside
        exact absurd (List.prefix_append _ _) houtside
      · rw [heq] at houtside
        exact houtside (List.prefix_refl _)
    rwa [refusal, hrooted.absolute, if_pos rfl, ← path_of_outside hdir hrooted houtside] at hverdict

/-- **Which sources have a script, and where.**  A source that lies below the directory has one,
behind the same names, unless the first of them starts with two dots; it is then called outside, as
those are that do not lie below.  The directory itself has one if it is named like a source. -/
theorem script_path_iff (hsource : IsSource source) :
    ((∃ p, path source dir out = .ok p) ↔
      (∃ names, Below dir source names ∧ isDotted names = false) ∨ source = dir) ∧
    (∀ p, path source dir out = .ok p →
      (∃ names stem, Below dir source (names ++ [stem ++ sourceExtension]) ∧
        Below out p (names ++ [stem ++ scriptExtension])) ∨
      source = dir ∧ Below out p ["..js"]) ∧
    ∀ fault, path source dir out = .error fault → fault = refusal source dir := by
  have hverdict := verdict_path hdir hout hsource
  generalize path source dir out = result at hverdict
  cases hverdict with
  | below hbelow hdots hscript =>
    refine ⟨iff_of_true ⟨_, rfl⟩ (.inl ⟨_, hbelow, hdots⟩), fun p hp => ?_, by simp⟩
    exact .inl ⟨_, _, hbelow, Except.ok.inj hp ▸ hscript⟩
  | itself heq hscript =>
    refine ⟨iff_of_true ⟨_, rfl⟩ (.inr heq), fun p hp => ?_, by simp⟩
    exact .inr ⟨heq, Except.ok.inj hp ▸ hscript⟩
  | refused hdots hne =>
    refine ⟨iff_of_false (by simp) ?_, by simp, fun fault hfault => (Except.error.inj hfault).symm⟩
    rintro (⟨names, hbelow, hplain⟩ | heq)
    · rw [hdots names hbelow] at hplain
      cases hplain
    · exact hne heq

end Cases

/-- A source in a hidden file, below a name with dots inside, and scripts below the root. -/
theorem script_path_iff_hidden :
    Rooted "/s" ∧ Rooted "/" ∧ IsSource "/s/a..b/.lugha" ∧
      Below "/s" "/s/a..b/.lugha" ["a..b", ".lugha"] ∧
      path "/s/a..b/.lugha" "/s" "/" = .ok "/a..b/.js" ∧
      ∃ p, path "/s/a..b/.lugha" "/s" "/" = .ok p := by
  have hdir : Rooted "/s" := ⟨rfl, by decide⟩
  have hout : Rooted "/" := ⟨rfl, by decide⟩
  have hbelow : Below "/s" "/s/a..b/.lugha" ["a..b", ".lugha"] :=
    ⟨by simp, by decide, by decide⟩
  have hsource : IsSource "/s/a..b/.lugha" := ⟨by decide, by decide⟩
  refine ⟨hdir, hout, hsource, hbelow, by decide, ?_⟩
  exact (script_path_iff hdir hout hsource).1.2 (.inl ⟨_, hbelow, by decide⟩)

/-- A source below the directory whose name starts with two dots is refused, and a directory that
is named like a source is not, though nothing lies below itself. -/
theorem dotted_source_refused :
    Below "/s" "/s/..a.lugha" ["..a.lugha"] ∧
      path "/s/..a.lugha" "/s" "/o" = .error (.outside "/s/..a.lugha" "/s") ∧
      path "/a.lugha" "/a.lugha" "/o" = .ok "/o/..js" ∧
      ∀ names, ¬ Below "/a.lugha" "/a.lugha" names := by
  refine ⟨⟨by simp, by decide, by decide⟩, by decide, by decide, ?_⟩
  exact fun names h => h.ne_dir rfl

/-! ## Scripts apart -/

section Apart

variable {dir out : Text} (hdir : Rooted dir) (hout : Rooted out)
include hdir hout

/-- **A script lies below** the directory of scripts and ends like a script. -/
theorem below_of_path {source p : Text} (hsource : IsSource source)
    (hp : path source dir out = .ok p) :
    (∃ names, Below out p names) ∧ Text.endsWith p scriptExtension = true := by
  have hlast (names : List Text) (stem : Text)
      (h : Below out p (names ++ [stem ++ scriptExtension])) :
      Text.endsWith p scriptExtension = true := by
    rw [h.eq_ofComponents, ← List.append_assoc, Path.ofComponents_concat, ← List.append_assoc]
    exact Text.endsWith_append _ _
  have hverdict := verdict_path hdir hout hsource
  rw [hp] at hverdict
  cases hverdict with
  | below _ _ hscript => exact ⟨⟨_, hscript⟩, hlast _ _ hscript⟩
  | itself _ hscript => exact ⟨⟨_, hscript⟩, hlast [] "." hscript⟩

/-- **No two sources have one script.** -/
theorem eq_of_path_eq {s t p : Text} (hs : IsSource s) (ht : IsSource t)
    (hsp : path s dir out = .ok p) (htp : path t dir out = .ok p) : s = t := by
  -- the name `..js` would have to come from a source that is refused
  have hself {names : List Text} {stem : Text}
      (hdots : isDotted (names ++ [stem ++ sourceExtension]) = false)
      (h : Below out p (names ++ [stem ++ scriptExtension])) : ¬ Below out p ["..js"] := by
    intro h'
    have hnames : names ++ [stem ++ scriptExtension] = [] ++ [Text.ofString "." ++ scriptExtension] :=
      h.names_unique h'
    obtain ⟨rfl, hlast⟩ := List.append_inj' hnames rfl
    obtain rfl := List.append_cancel_right (List.singleton_inj.1 hlast)
    exact absurd hdots (by decide)
  have hsv := verdict_path hdir hout hs
  have htv := verdict_path hdir hout ht
  rw [hsp] at hsv
  rw [htp] at htv
  cases hsv with
  | below hbelow hdots hscript =>
    cases htv with
    | below hbelow' hdots' hscript' =>
      obtain ⟨rfl, hlast⟩ := List.append_inj' (hscript.names_unique hscript') rfl
      obtain rfl := List.append_cancel_right (List.singleton_inj.1 hlast)
      rw [hbelow.eq_ofComponents, hbelow'.eq_ofComponents]
    | itself _ hscript' => exact absurd hscript' (hself hdots hscript)
  | itself heq hscript =>
    cases htv with
    | below _ hdots' hscript' => exact absurd hscript (hself hdots' hscript')
    | itself heq' _ => rw [heq, heq']

end Apart
end Target
end Tarjuman
