import Dialect.Compilation
import Dialect.Parsing.Program
import Dialect.Proofs.Initializers

/-!
# Function literals

A function literal that initializes a variable is written as a function of the variable's name. Its
body is a block, or a value, which is returned. Main statement: a value that is copied is written
like the block that returns it exactly where the dialect has a function keyword. Without one, the
function of a value begins with a blank.
-/

namespace Dialect

theorem Text.dropEndWhile_eq_self {p : Char → Bool} {cs : List Char} {last : Char}
    (ends : cs.getLast? = some last) (stays : p last = false) : dropEndWhile p cs = cs := by
  obtain ⟨front, rfl⟩ := List.getLast?_eq_some_iff.mp ends
  rw [dropEndWhile_append_singleton, stays, if_neg Bool.false_ne_true]

/-- A declaration whose first variable has a function literal as its initializer, perhaps in
parentheses. -/
inductive Stmt.DeclaresFunction (name : String) (params : List Param) (body : FunctionBody) :
    Stmt → Prop where
  | mk {kind : VariableKind} {init : Expr} {place span literal : Span} {rest : List Declarator}
      (isLiteral : init.unparen = .function params body literal) :
      DeclaresFunction name params body
        (.variableDecl kind (.mk (some name) (some init) place :: rest) span)

namespace Context

variable {c : Context} {depth : Nat} {name : String} {params : List Param} {s : Stmt} {last : Char}

/-! ## What is returned -/

/-- A return statement without its semicolon. -/
theorem returnText_of_text {span : Span} {value : String}
    (spelled : c.text span = "return " ++ value ++ ";") (ends : value.toList.getLast? = some last)
    (visible : Text.isBlank last = false) (further : last ≠ ';') :
    c.returnText span = "return " ++ value := by
  have chars : span.chars c.source = ("return ".toList ++ value.toList) ++ [';'] := by
    have read := congrArg String.toList spelled
    rwa [text, Span.text, String.toList_ofList, String.toList_append, String.toList_append] at read
  have whole : ("return ".toList ++ value.toList).getLast? = some last := by
    rw [List.getLast?_append, ends]
    rfl
  have trimmed : Text.trimEnd (span.chars c.source) =
      ("return ".toList ++ value.toList) ++ [';'] := by
    rw [chars, Text.trimEnd, Text.dropEndWhile_append_singleton, if_neg (by decide)]
  have bare : Text.dropEndWhile (· = ';') (("return ".toList ++ value.toList) ++ [';']) =
      "return ".toList ++ value.toList := by
    rw [Text.dropEndWhile_append_singleton, if_pos (by decide)]
    exact Text.dropEndWhile_eq_self whole (decide_eq_false further)
  have kept : Text.trimEnd ("return ".toList ++ value.toList) =
      "return ".toList ++ value.toList :=
    Text.dropEndWhile_eq_self whole visible
  rw [returnText, trimmed, bare, kept, String.ofList_append, String.ofList_toList,
    String.ofList_toList]

theorem copiedSpan_of_bare {e : Expr} (bare : ∀ inner place, e ≠ .paren inner place) :
    e.copiedSpan = e.span := by
  cases e with
  | paren inner place => exact absurd rfl (bare inner place)
  | _ => rfl

/-! ## The lines of a function -/

/-- The lines of a function that returns a value; `lead` stands before its name. -/
def returning (g : Grammar) (depth : Nat) (lead signature value : String) : List Line :=
  ⟨depth, lead ++ signature ++ g.blockOpening⟩ ::
    ⟨depth + 1, "return " ++ value ++ g.terminator⟩ :: (Emission.closing g depth).lines

def signature (c : Context) (name : String) (params : List Param) : String :=
  name ++ "(" ++ c.paramsText false params ++ ")"

/-- What stands before the name of a function with a block. -/
def functionLead (g : Grammar) : String :=
  if g.functionKeyword = "" then "" else g.functionKeyword ++ " "

theorem functionHeader_eq (name : String) (params : List Param) :
    functionHeader (some c.grammar.functionKeyword) name (c.paramsText false params) =
      functionLead c.grammar ++ c.signature name params := by
  by_cases keyword : c.grammar.functionKeyword = ""
  · simp [functionHeader, functionLead, signature, keyword]
  · simp [functionHeader, functionLead, signature, keyword, String.append_assoc]

theorem functionLiteral_unparen (depth : Nat) (name : String) (e : Expr) :
    c.functionLiteral depth name e.unparen = c.functionLiteral depth name e :=
  Expr.apply_unparen (fun inner place => by rw [functionLiteral]) e

/-- The other declarators of a declaration write no line. -/
theorem lines_of_declaresFunction {body : FunctionBody} {emitted : Emission}
    (declares : s.DeclaresFunction name params body)
    (written : ∀ place, c.functionLiteral depth name (.function params body place) = some emitted) :
    (c.stmt depth s).lines = emitted.lines := by
  obtain ⟨isLiteral⟩ := declares
  rw [stmt, declared, initialized, ← functionLiteral_unparen, isLiteral, written]
  rfl

theorem lines_of_declaresValue {e : Expr} (declares : s.DeclaresFunction name params (.value e))
    (unrendered : c.needsRendering e = false) (bare : ∀ inner place, e ≠ .paren inner place) :
    (c.stmt depth s).lines =
      returning c.grammar depth (c.grammar.functionKeyword ++ " ") (c.signature name params)
        (c.text e.span) := by
  rw [lines_of_declaresFunction declares fun place => by rw [functionLiteral],
    render_of_not_needsRendering unrendered, copiedSpan_of_bare bare]
  simp [returning, signature, simpleRendered, simple, Emission.header, Emission.line,
    Emission.reports, String.append_assoc]

theorem lines_of_declaresReturn {span : Span} {value : String}
    (declares : s.DeclaresFunction name params (.block [.returnStmt span]))
    (spelled : c.text span = "return " ++ value ++ ";") (ends : value.toList.getLast? = some last)
    (visible : Text.isBlank last = false) (further : last ≠ ';') :
    (c.stmt depth s).lines =
      returning c.grammar depth (functionLead c.grammar) (c.signature name params) value := by
  rw [lines_of_declaresFunction declares fun place => by rw [functionLiteral],
    functionHeader_eq, stmts, stmts, stmt, returnText_of_text spelled ends visible further]
  simp [returning, simple, Emission.block, Emission.filled, Emission.header, Emission.line,
    String.append_assoc]

/-- Functions that differ in what stands before their names have texts that differ there only. -/
theorem exists_text_returning (g : Grammar) (depth : Nat) (signature value : String) :
    ∃ tail, ∀ (before : String) (e : Emission),
      e.lines = returning g depth before signature value →
        e.text g = g.indentation depth ++ before ++ tail := by
  refine ⟨signature ++ g.blockOpening ++ "\n" ++
    String.join (((returning g depth "" signature value).drop 1).map (·.render g)), ?_⟩
  intro before e lines
  rw [Emission.text, lines]
  simp [returning, Line.render, String.join_cons, String.append_assoc]

/-- A copied value and a block that returns its text, each in a source of its own, are written alike
exactly where functions have a keyword. Without one, the function of the value has a blank before
its name. -/
theorem value_written_like_return_iff (g : Grammar) (source other : List Char) (depth : Nat)
    (name : String) {params params' : List Param} {e : Expr} {returned : Span} {s s' : Stmt}
    (value : s.DeclaresFunction name params (.value e))
    (block : s'.DeclaresFunction name params' (.block [.returnStmt returned]))
    (alike : params.map (paramText ⟨g, source⟩) = params'.map (paramText ⟨g, other⟩))
    (unrendered : needsRendering ⟨g, source⟩ e = false)
    (bare : ∀ inner place, e ≠ .paren inner place)
    (ends : (e.span.text source).toList.getLast? = some last) (visible : Text.isBlank last = false)
    (further : last ≠ ';')
    (spelled : returned.text other = "return " ++ e.span.text source ++ ";") :
    ((stmt ⟨g, source⟩ depth s).text g = (stmt ⟨g, other⟩ depth s').text g ↔
        g.functionKeyword ≠ "") ∧
      (g.functionKeyword = "" → ∃ tail,
        (stmt ⟨g, other⟩ depth s').text g = g.indentation depth ++ tail ∧
          (stmt ⟨g, source⟩ depth s).text g = g.indentation depth ++ " " ++ tail) := by
  have sameSignature : signature ⟨g, other⟩ name params' = signature ⟨g, source⟩ name params := by
    rw [signature, signature, paramsText, paramsText, alike]
  obtain ⟨tail, texts⟩ := exists_text_returning g depth (signature ⟨g, source⟩ name params)
    (e.span.text source)
  have valueText := texts _ (stmt ⟨g, source⟩ depth s)
    (lines_of_declaresValue value unrendered bare)
  have blockText := texts (functionLead g) (stmt ⟨g, other⟩ depth s')
    (sameSignature ▸ lines_of_declaresReturn block spelled ends visible further)
  rw [valueText, blockText]
  by_cases keyword : g.functionKeyword = ""
  · have longer : g.indentation depth ++ (g.functionKeyword ++ " ") ++ tail ≠
        g.indentation depth ++ functionLead g ++ tail := by
      intro same
      have lengths := congrArg String.length same
      simp [functionLead, keyword, String.length_append] at lengths
    exact ⟨⟨fun same => absurd same longer, fun given => absurd keyword given⟩,
      fun _ => ⟨tail, by simp [functionLead, keyword]⟩⟩
  · have sameLead : functionLead g = g.functionKeyword ++ " " := if_neg keyword
    exact ⟨by simp [sameLead, keyword], fun none => absurd none keyword⟩

/-- The keyword of the dialect stands before both. -/
theorem value_written_like_return_python :
    let sum : Expr :=
      .binary (.ident "x" ⟨21, 22⟩) "+" (.literal .number ⟨25, 26⟩) ⟨21, 26⟩
    let source := "const f = (x = 1) => x + 1;".toList
    let other := "const f = (function (x = 1) \x7b return x + 1; \x7d);".toList
    let arrow : Expr := .function [⟨"x", some ⟨15, 16⟩⟩] (.value sum) ⟨10, 26⟩
    let block : Expr := .function [⟨"x", some ⟨25, 26⟩⟩] (.block [.returnStmt ⟨30, 43⟩]) ⟨11, 45⟩
    (stmt ⟨.python, source⟩ 1
        (.variableDecl .constant [.mk (some "f") (some arrow) ⟨6, 26⟩] ⟨0, 27⟩)).text .python =
      (stmt ⟨.python, other⟩ 1
        (.variableDecl .constant [.mk (some "f") (some (.paren block ⟨10, 46⟩)) ⟨6, 46⟩]
          ⟨0, 47⟩)).text .python := by
  intro sum source other arrow block
  have bare : ∀ inner place, sum ≠ .paren inner place := fun _ _ same => Expr.noConfusion same
  have ends : (sum.span.text source).toList.getLast? = some '1' := by decide +kernel
  exact (value_written_like_return_iff .python source other 1 "f" (.mk rfl) (.mk rfl)
    (by decide +kernel) (by decide +kernel) bare ends (by decide) (by decide)
    (by decide +kernel)).1.mpr (by decide)

/-- Where functions have no keyword, a blank stands before the name of one that was a value. -/
theorem value_written_with_blank :
    let g : Grammar := { functionKeyword := "" }
    (compile Tree.parser g "const f = (x) => x + 1;").map (·.text) =
        .ok " f(x):\n    return x + 1\n" ∧
      (compile Tree.parser g "const f = (x) => \x7b return x + 1; \x7d;").map (·.text) =
        .ok "f(x):\n    return x + 1\n" := by
  decide +kernel

end Context

end Dialect
