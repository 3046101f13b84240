import Dialect.Program

/-!
# Faults in programs

A statement or expression of the source that could not be parsed is kept in the program under the
kind `ERROR`.
-/

namespace Dialect

/-- The kind of what could not be parsed. -/
def faultKind : String := "ERROR"

mutual

def Expr.hasFault : Expr → Bool
  | .call callee args _ | .construct callee args _ => callee.hasFault || Expr.anyFault args
  | .assign left _ right _ | .binary left _ right _ => left.hasFault || right.hasFault
  | .update argument _ _ | .unary _ argument _ => argument.hasFault
  | .sequence items _ => Expr.anyFault items
  | .member object _ _ => object.hasFault
  | .paren inner _ => inner.hasFault
  | .function _ body _ => body.hasFault
  | .other kind _ => kind = faultKind
  | .ident _ _ | .literal _ _ | .template _ | .array _ | .object _ => false

def Expr.anyFault : List Expr → Bool
  | [] => false
  | e :: es => e.hasFault || Expr.anyFault es

def FunctionBody.hasFault : FunctionBody → Bool
  | .block body => Stmt.anyFault body
  | .value value => value.hasFault

def Stmt.hasFault : Stmt → Bool
  | .block body _ | .function _ _ body _ => Stmt.anyFault body
  | .expr value _ => value.hasFault
  | .variableDecl _ declarators _ => Declarator.anyFault declarators
  | .classDecl _ _ members _ => Member.anyFault members
  | .ifElse test consequent alternate _ =>
    test.hasFault || consequent.hasFault || Stmt.optionFault alternate
  | .forLoop init test update body _ =>
    Stmt.optionFault init || Expr.optionFault test || Expr.optionFault update || body.hasFault
  | .forIn _ right body _ _ => right.hasFault || body.hasFault
  | .whileLoop test body _ => test.hasFault || body.hasFault
  | .unsupported kind _ => kind = faultKind
  | .returnStmt _ | .importDecl _ _ _ | .breakStmt _ | .continueStmt _ | .erased _ => false

def Stmt.anyFault : List Stmt → Bool
  | [] => false
  | s :: ss => s.hasFault || Stmt.anyFault ss

def Stmt.optionFault : Option Stmt → Bool
  | none => false
  | some s => s.hasFault

def Expr.optionFault : Option Expr → Bool
  | none => false
  | some e => e.hasFault

def Declarator.hasFault : Declarator → Bool
  | .mk _ init _ => Expr.optionFault init

def Declarator.anyFault : List Declarator → Bool
  | [] => false
  | d :: ds => d.hasFault || Declarator.anyFault ds

def Member.hasFault : Member → Bool
  | .initializer _ _ body _ | .method _ _ body _ => Stmt.anyFault body
  | .field _ _ => false

def Member.anyFault : List Member → Bool
  | [] => false
  | m :: ms => m.hasFault || Member.anyFault ms

end

def Program.hasFault (p : Program) : Bool :=
  Stmt.anyFault p.body

end Dialect
