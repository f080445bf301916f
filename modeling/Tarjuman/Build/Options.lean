/-
# Options of a build

The fingerprint of the options enters the key under which a result is kept.  It
covers the options that change fragments or diagnostics, a renamer by its kind
only.  The separator is not in it: fragments are kept, not the joined text.
-/

import Tarjuman.Script.Transpile
import Tarjuman.Text.Digest

namespace Tarjuman

/-- How names are spelled in the script.  Renamers of one kind need not spell alike. -/
structure Renamer where
  /-- The name of the kind. -/
  kind : Text
  /-- The spelling of a name. -/
  rename : Text → Text

namespace Renamer

/-- Names stay as they are written. -/
def asWritten : Renamer := ⟨"transpile.IdentityRenamer", id⟩

/-- Names are spelled in Latin letters. -/
def latin : Renamer := ⟨"transpile.LatinRenamer", Latin.rename⟩

end Renamer

/-- Options of a build. -/
structure BuildOptions where
  /-- If there is none, names stay as they are written. -/
  naming : Option Renamer := some .asWritten
  banner : Bool := true
  prelude : Bool := false
  strict : Bool := true
  /-- The limit of each bag; zero for none. -/
  maxDiagnostics : Int := 0
  /-- What stands between fragments. -/
  separator : Text := "\n"
  /-- Report on the time each phase took. -/
  timings : Bool := false
deriving Inhabited

namespace BuildOptions

/-- The spelling of a name. -/
def rename (o : BuildOptions) : Text → Text := o.naming.elim id Renamer.rename

/-- The part of a fingerprint that stands for the renamer. -/
def kind (o : BuildOptions) : Text := o.naming.elim "identity" Renamer.kind

/-- How the script is written. -/
def style (o : BuildOptions) : Style := ⟨o.rename, o.banner, o.prelude, o.strict⟩

/-- The version of what is kept in caches. -/
def schema : UInt16 := 1

/-- A truth value in words. -/
def truth (b : Bool) : Text := if b then "true" else "false"

/-- The options that change a result, as one text; of a renamer the kind. -/
def fingerprint (o : BuildOptions) : Text :=
  "v" ++ Text.ofNat schema.toNat ++ ";renamer=" ++ o.kind ++
    ";banner=" ++ truth o.banner ++ ";prelude=" ++ truth o.prelude ++
    ";strict=" ++ truth o.strict ++ ";max=" ++ Text.ofInt o.maxDiagnostics

/-- The key of the result for a content. -/
def cacheKey (o : BuildOptions) (content : Text) : Digest :=
  .ofText ((Digest.ofText content).bytes ++ o.fingerprint)

end BuildOptions
end Tarjuman
