/-
# Quoted values

The value of a declared variable that starts with a name and not with a call is written between
quotes, as a string of the script.  Which values these are is decided on the next two tokens, before
the value is read, and it comes out as it should (`quoted_eq_startsWithName`).

The string need not be the text of the value.  Quoting has two escapes that the script does not know
(`Tarjuman.Proofs.StringLiterals`), so a U+0007 becomes the letter `a`, and a character above U+FFFF
that cannot be shown becomes nine letters and digits.  What is written is always one literal; it
denotes the text of the value exactly if the text has no such character
(`quoted_values_denote`, `bell_read_as_letter`).
-/

import Mathlib
import Tarjuman.Proofs.Reading
import Tarjuman.Proofs.StatementRanges
import Tarjuman.Proofs.StringLiterals
import Tarjuman.Script.Transpile

namespace Tarjuman

/-! ## Which values are quoted -/

/-- The expression starts with a name that is not called. -/
def Expr.startsWithName : Expr → Bool
  | .single (.name _) | .binary (.name _) _ _ => true
  | _ => false

/-- A declared value is quoted exactly if it starts with a name that is not called. -/
def Statement.QuotesNames : Statement → Prop
  | .declare _ quoted value => quoted = value.startsWithName
  | _ => True

theorem ReadsOperand.startsWithName {trap : Bool} {ts rest : List Token} {l : Operand}
    (h : ReadsOperand trap ts l rest) :
    (nextKind ts == .ident && nextKind ts.tail != .lparen) = (Expr.single l).startsWithName := by
  cases h with
  | nothing => rfl
  | name kind next =>
    rw [nextKind, List.head?_cons, Option.map_some, Option.getD_some, kind, List.tail_cons,
      bne_iff_ne.2 next]
    rfl
  | call kind paren inner =>
    rw [List.tail_cons, nextKind, nextKind, List.head?_cons, List.head?_cons, Option.map_some,
      Option.map_some, Option.getD_some, Option.getD_some, kind, paren]
    rfl
  | literal kind starts =>
    rw [nextKind, List.head?_cons, Option.map_some, Option.getD_some, beq_false_of_ne kind]
    rfl
  | missing starts =>
    have kind : ∀ k : Kind, k.startsOperand = false → k ≠ .ident := by
      rintro k hk rfl
      cases hk
    rw [nextKind, List.head?_cons, Option.map_some, Option.getD_some,
      beq_false_of_ne (kind _ starts)]
    rfl

/-- The next two tokens tell what the expression starts with. -/
theorem ReadsExpr.startsWithName {trap : Bool} {ts rest : List Token} {e : Expr}
    (h : ReadsExpr trap ts e rest) :
    (nextKind ts == .ident && nextKind ts.tail != .lparen) = e.startsWithName := by
  cases h with
  | single left stop => exact left.startsWithName
  | @binary _ _ _ l _ _ left whole kind second =>
    rw [left.startsWithName]
    cases l <;> rfl

theorem quotesNames_readVariable (trap : Bool) (ts : List Token) :
    (readVariable trap ts).value.QuotesNames := by
  rw [readVariable]
  split
  · trivial
  · split
    · trivial
    · exact (readsExpr trap _).startsWithName

theorem quotesNames_readFunction (keyword : Token) (ts : List Token) :
    (readFunction keyword ts).value.QuotesNames := by
  rw [readFunction]
  split
  · trivial
  · split
    · trivial
    · split
      · trivial
      · split <;> trivial

theorem quotesNames_readStatement (trap : Bool) (t : Token) (ts : List Token) :
    (readStatement trap t ts).value.QuotesNames := by
  rw [readStatement]
  split
  · exact quotesNames_readVariable trap ts
  · rw [readPrint]
    split <;> trivial
  · exact quotesNames_readFunction t ts
  · cases ts with
    | nil => trivial
    | cons u r =>
      rw [readCallOrAssign]
      split
      · trivial
      · split <;> trivial
  · trivial
  · trivial
  · trivial
  · trivial
  · trivial
  · split <;> trivial
  · trivial
  · trivial
  · trivial

/-- **Of all the values that are declared, those are quoted that start with a name.** -/
theorem quoted_eq_startsWithName (trap : Bool) (ts : List Token) :
    ∀ p ∈ readStatements trap ts, p.statement.QuotesNames := by
  fun_induction readStatements trap ts with
  | case1 => exact List.forall_mem_singleton.2 trivial
  | case2 t r s ih => exact List.forall_mem_cons.2 ⟨quotesNames_readStatement trap t r, ih⟩

/-! ## What is written for them -/

theorem Desk.fragment_declare {src : Source.Tokens} {style : Style} {desk : Desk} {name : Token}
    {value : Expr} {v : Text} (hv : (Lexicon.expr ⟨src, desk.names⟩ value).text = some v) :
    (desk.declare src style name true value).fragment =
      "let " ++ style.rename (src.text name) ++ " = (" ++ v.quoted ++ ");" := by
  rw [Desk.declare, hv]
  rfl

/-- The fragment of a statement, behind the banner if there is one. -/
theorem getElem?_fragments (file : FileId) (content : Option Text) (style : Style)
    (ts : List Token) (k : Nat) :
    (transpile file content style ts).fragments[k + (if style.prelude then 1 else 0)]? =
      (TokenList.ofList file ts).statements[k]?.map fun p =>
        ((Desk.after ⟨content, (TokenList.ofList file ts).finish⟩ style {}
          ((TokenList.ofList file ts).statements.take k)).write
            ⟨content, (TokenList.ofList file ts).finish⟩ style p.statement).fragment := by
  have hwritten := Desk.getElem?_writeAll ⟨content, (TokenList.ofList file ts).finish⟩ style {}
    (TokenList.ofList file ts).statements k
  rw [transpile]
  dsimp only
  split
  · rw [List.singleton_append, List.getElem?_cons_succ, List.getElem?_map, hwritten,
      Option.map_map]
    rfl
  · rw [List.nil_append, Nat.add_zero, List.getElem?_map, hwritten, Option.map_map]
    rfl

open StringLiteral Script in
/-- **A quoted value is one literal, and denotes the text unless an escape is not known.**  For a
declaration that is accepted, with a value that starts with a name and has the valid text `v`, the
fragment holds one string literal.  Its value is that of `v` with each character read as `readAs`
says, and this is `v` itself exactly if all its characters are kept: none is U+0007, and those above
U+FFFF can be shown. -/
theorem quoted_values_denote {file : FileId} {content : Option Text} {style : Style}
    {ts : List Token} {script : Script} (h : transpile? file content style ts = some script)
    {src : Source.Tokens} (hsrc : src = ⟨content, (TokenList.ofList file ts).finish⟩)
    {k : Nat} {p : Placed} (hp : (TokenList.ofList file ts).statements[k]? = some p)
    {name : Token} {quoted : Bool} {value : Expr}
    (hdeclare : p.statement = .declare name quoted value) (hname : value.startsWithName = true)
    {v : Text}
    (hv : (Lexicon.expr ⟨src, (Desk.after src style {}
      ((TokenList.ofList file ts).statements.take k)).names⟩ value).text = some v)
    (hvalid : Utf8.isValid v = true) :
    ∃ l : List Char,
      script.fragments[k + (if style.prelude then 1 else 0)]? =
        some ("let " ++ style.rename (src.text name) ++ " = (" ++ Utf8.ofChars l ++ ");") ∧
      value? l = some (units ((Utf8.chars v).flatMap readAs)) ∧
      (value? l = some (units (Utf8.chars v)) ↔
        ∀ c ∈ Utf8.chars v, c ≠ '\x07' ∧ (c.toNat < 0x10000 ∨ Unicode.isPrintable c = true)) := by
  obtain ⟨l, hl, hvalue⟩ := value?_quoted hvalid
  have hquoted : quoted = true := by
    have hread := quoted_eq_startsWithName _ _ p (List.mem_of_getElem? hp)
    rw [hdeclare] at hread
    exact hread.trans hname
  have hscript : script = transpile file content style ts := by
    rw [transpile?] at h
    split at h
    · cases h
    · exact (Option.some.inj h).symm
  refine ⟨l, ?_, hvalue, ?_⟩
  · rw [hscript, getElem?_fragments, hp, Option.map_some, ← hsrc, hdeclare, hquoted, Desk.write,
      Desk.fragment_declare hv, hl]
  · rw [hvalue, Option.some.injEq, units_injective.eq_iff]
    exact flatMap_readAs_eq_iff

/-! ## Two declarations -/

/-- A variable, and a second one declared as the first and a string. -/
def sumWith (inner : Text) : Text := "شيء ا = 1\nشيء س = ا + \"" ++ inner ++ "\""

/-- The tokens of the second declaration, with a string that ends at `stop`. -/
def sumTokens (stop : UInt32) : List Token :=
  [⟨.kwVar, 2, ⟨0, 14, 21⟩⟩, ⟨.ident, 2, ⟨0, 21, 23⟩⟩, ⟨.assign, 2, ⟨0, 24, 25⟩⟩,
    ⟨.ident, 2, ⟨0, 26, 28⟩⟩, ⟨.plus, 2, ⟨0, 29, 30⟩⟩, ⟨.stringLit, 2, ⟨0, 31, stop⟩⟩]

/-- The tokens of both declarations. -/
def bothTokens (stop : UInt32) : List Token :=
  [⟨.kwVar, 1, ⟨0, 0, 7⟩⟩, ⟨.ident, 1, ⟨0, 7, 9⟩⟩, ⟨.assign, 1, ⟨0, 10, 11⟩⟩,
    ⟨.numberLit, 1, ⟨0, 12, 13⟩⟩] ++ sumTokens stop ++ [⟨.endOfInput, 2, .point 0 stop⟩]

/-- The value of the second variable. -/
def sumValue (stop : UInt32) : Expr :=
  .binary (.name ⟨.ident, 2, ⟨0, 26, 28⟩⟩) .plus (.literal ⟨.stringLit, 2, ⟨0, 31, stop⟩⟩)

/-- The second declaration. -/
def sumDeclared (stop : UInt32) : Placed :=
  ⟨sumTokens stop, .declare ⟨.ident, 2, ⟨0, 21, 23⟩⟩ true (sumValue stop)⟩

/-- What the second value is written with. -/
def sumLexicon (inner : Text) (stop : UInt32) : Lexicon :=
  let ts := TokenList.ofList 0 (bothTokens stop)
  ⟨⟨some (sumWith inner), ts.finish⟩,
    (Desk.after ⟨some (sumWith inner), ts.finish⟩ {} {} (ts.statements.take 1)).names⟩

section

set_option maxRecDepth 4096

open StringLiteral Script

theorem getElem?_bothTokens (stop : UInt32) :
    (TokenList.ofList 0 (bothTokens stop)).statements[1]? = some (sumDeclared stop) := by
  cbv

/-- A tab, a joiner that cannot be shown and a character above U+FFFF are all denoted. -/
theorem quoted_values_denote_joiner :
    (tokenize 0 (sumWith "\t\u200c😀")).tokens = bothTokens 41 ∧
      ((sumLexicon "\t\u200c😀" 41).expr (sumValue 41)).text = some ("(ا + \"\t\u200c😀\")" : Text) ∧
      ∃ l : List Char,
        (transpile 0 (some (sumWith "\t\u200c😀")) {} (bothTokens 41)).fragments[1]? =
          some ("let " ++ "س" ++ " = (" ++ Utf8.ofChars l ++ ");") ∧
        value? l = some (units (Utf8.chars "(ا + \"\t\u200c😀\")")) := by
  have htokens : (tokenize 0 (sumWith "\t\u200c😀")).tokens = bothTokens 41 := by cbv
  have hread : transpile? 0 (some (sumWith "\t\u200c😀")) {} (bothTokens 41) =
      some (transpile 0 (some (sumWith "\t\u200c😀")) {} (bothTokens 41)) := by
    have hends : isEndless 0 (bothTokens 41) = false := by cbv
    rw [transpile?, hends, if_neg Bool.false_ne_true]
  have hv : ((sumLexicon "\t\u200c😀" 41).expr (sumValue 41)).text =
      some ("(ا + \"\t\u200c😀\")" : Text) := by cbv
  have hname : (sumLexicon "\t\u200c😀" 41).source.text ⟨.ident, 2, ⟨0, 21, 23⟩⟩ = "س" := by
    decide
  have hkept : ((Utf8.chars "(ا + \"\t\u200c😀\")").all fun c =>
      c != '\x07' && (decide (c.toNat < 0x10000) || Unicode.isPrintable c)) = true := by cbv
  obtain ⟨l, hfragment, -, hvalue⟩ :=
    quoted_values_denote hread rfl (getElem?_bothTokens 41) rfl rfl hv (by decide)
  refine ⟨htokens, hv, l, ?_, hvalue.2 fun c hc => ?_⟩
  · rw [← hname]
    exact hfragment
  · simpa only [Bool.and_eq_true, bne_iff_ne, Bool.or_eq_true, decide_eq_true_eq] using
      List.all_eq_true.1 hkept c hc

/-- **A bell in a value is read as a letter.**  Nothing is reported, and the string that is written
has an `a` where the value has a U+0007. -/
theorem bell_read_as_letter :
    (tokenize 0 (sumWith "\x07")).tokens = bothTokens 34 ∧
      (TokenList.ofList 0 (bothTokens 34)).statements[1]? = some (sumDeclared 34) ∧
      ((sumLexicon "\x07" 34).expr (sumValue 34)).text = some ("(ا + \"\x07\")" : Text) ∧
      (transpile 0 (some (sumWith "\x07")) {} (bothTokens 34)).reports = [] ∧
      (transpile 0 (some (sumWith "\x07")) {} (bothTokens 34)).fragments[1]? =
        some ("let س = (" ++ Utf8.ofChars (Utf8.chars "\"(ا + \\\"\\a\\\")\"") ++ ");") ∧
      value? (Utf8.chars "\"(ا + \\\"\\a\\\")\"") = some (units (Utf8.chars "(ا + \"a\")")) ∧
      value? (Utf8.chars "\"(ا + \\\"\\a\\\")\"") ≠ some (units (Utf8.chars "(ا + \"\x07\")")) :=
  ⟨by cbv, getElem?_bothTokens 34, by cbv, by cbv, by cbv, by decide, by decide⟩

end

end Tarjuman
