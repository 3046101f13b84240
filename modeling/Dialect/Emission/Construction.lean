import Dialect.Cut
import Dialect.Program
import Dialect.Text.Blank

/-!
# The keyword of constructions

Where the target dialect makes instances by a plain call, the keyword `new` is cut out of the source
text of an expression, with the blanks behind it. Only constructions that are nodes of the program
lose it, so the contents of strings are left alone.
-/

namespace Dialect.Construction

/-- The keyword and the blanks behind it, if the text of a construction starts with it. -/
def keyword? (source : List Char) (s : Span) : Option Span :=
  match s.chars source with
  | 'n' :: 'e' :: 'w' :: rest =>
    let blanks := Text.byteLength rest - Text.byteLength (Text.trimStart rest)
    some ⟨s.start, s.start + (3 + blanks)⟩
  | _ => none

mutual

/-- The keywords of the constructions in an expression. -/
def keywords (source : List Char) : Expr → List Span
  | .construct callee args span =>
    (keyword? source span).toList ++ keywords source callee ++ keywordsOf source args
  | .call callee args _ => keywords source callee ++ keywordsOf source args
  | .assign left _ right _ | .binary left _ right _ =>
    keywords source left ++ keywords source right
  | .sequence items _ => keywordsOf source items
  | .update argument _ _ | .unary _ argument _ => keywords source argument
  | .member object _ _ => keywords source object
  | .paren inner _ => keywords source inner
  | .ident _ _ | .literal _ _ | .template _ | .function _ _ _ | .array _ | .object _
  | .other _ _ => []

def keywordsOf (source : List Char) : List Expr → List Span
  | [] => []
  | e :: es => keywords source e ++ keywordsOf source es

end

/-- The text of an expression without the keywords. -/
def withoutKeywords (source : List Char) (e : Expr) : String :=
  String.ofList (Cut.within source e.span (keywords source e))

end Dialect.Construction
