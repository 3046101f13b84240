import Dialect.Emission.Statement
import Mathlib.Data.List.Basic

/-!
# The layout of classes

The constructor of a class is written first, then its methods follow in their order. Fields write no
line and are reported where they stand. Main statement: the text of a class depends only on its
first constructor and on the order of its methods, whatever stands between them.
-/

namespace Dialect

/-! ## Blocks -/

namespace Emission

theorem diagnostics_filled (g : Grammar) (depth : Nat) (body : Emission) :
    (filled g depth body).diagnostics = body.diagnostics := by
  unfold filled
  split
  · simp [line]
  · rfl

@[simp]
theorem diagnostics_closing (g : Grammar) (depth : Nat) : (closing g depth).diagnostics = [] := by
  unfold closing
  split <;> rfl

@[simp]
theorem diagnostics_block (g : Grammar) (depth : Nat) (header : String) (body : Emission) :
    (block g depth header body).diagnostics = body.diagnostics := by
  simp [block, Emission.header, line, diagnostics_filled]

@[simp]
theorem lines_block_ne_nil (g : Grammar) (depth : Nat) (header : String) (body : Emission) :
    (block g depth header body).lines ≠ [] := by
  simp [block, Emission.header, line]

/-- The placeholder of an empty block, where blocks have no braces. -/
def placeholder (g : Grammar) (depth : Nat) : List Line :=
  if !g.file.useBraces && !g.file.emptyBlock.isEmpty then [⟨depth, g.file.emptyBlock⟩] else []

theorem lines_filled_eq (g : Grammar) (depth : Nat) (body : Emission) :
    (filled g depth body).lines =
      body.lines ++ if body.lines.isEmpty then placeholder g depth else [] := by
  cases empty : body.lines.isEmpty <;> cases braces : g.file.useBraces <;>
    cases blank : g.file.emptyBlock.isEmpty <;>
      simp [filled, placeholder, line, empty, braces, blank]

end Emission

/-! ## The parts of a class -/

/-- What is written of a method. -/
structure Method where
  name : String
  params : List Param
  body : List Stmt

/-- What is written of a constructor. -/
structure Initializer where
  params : List Param
  body : List Stmt

namespace Member

def method? : Member → Option Method
  | .method name params body _ => some ⟨name, params, body⟩
  | _ => none

def initializer? : Member → Option Initializer
  | .initializer _ params body _ => some ⟨params, body⟩
  | _ => none

end Member

namespace Context

variable (c : Context) (depth : Nat)

def initializerBlock (i : Initializer) : Emission :=
  .block c.grammar depth
    (c.methodHeader c.grammar.classes.constructorName c.grammar.classes.constructorKeyword i.params)
    (c.stmts (depth + 1) i.body)

def methodBlock (m : Method) : Emission :=
  .block c.grammar depth (c.methodHeader m.name c.grammar.classes.methodKeyword m.params)
    (c.stmts (depth + 1) m.body)

/-- The lines of a class with a constructor, if there is one, and methods in their order. -/
def classLines (name : String) (superclass : Option Span) (first : Option Initializer)
    (methods : List Method) : List Line :=
  [⟨depth, c.classHeader name superclass ++ c.grammar.blockOpening⟩] ++
    first.toList.flatMap (fun i => (c.initializerBlock (depth + 1) i).lines) ++
    methods.flatMap (fun m => (c.methodBlock (depth + 1) m).lines) ++
    (if first.isNone && methods.isEmpty then Emission.placeholder c.grammar (depth + 1) else []) ++
    if c.grammar.file.useBraces then [⟨depth, "\x7d"⟩] else []

/-- What is reported in the place of a member: the diagnostics of a method's body, or the field. -/
def memberDiagnostics : Member → List Diagnostic
  | .method _ _ body _ => (c.stmts (depth + 1) body).diagnostics
  | .field name span => [.unsupported ("class member \x60" ++ name ++ "\x60") span]
  | .initializer _ _ _ _ => []

variable {c depth}

/-! ## The two passes over the members -/

theorem initializer_eq (members : List Member) :
    c.initializer depth members =
      ((members.findSome? Member.initializer?).map (c.initializerBlock depth)).getD {} := by
  induction members with
  | nil => rfl
  | cons m ms ih =>
    cases m with
    | initializer name params body span => rfl
    | method name params body span => exact ih
    | field name span => exact ih

theorem lines_methods_eq (members : List Member) :
    (c.methods depth members).lines =
      (members.filterMap Member.method?).flatMap fun m => (c.methodBlock depth m).lines := by
  induction members with
  | nil => rfl
  | cons m ms ih =>
    cases m with
    | method name params body span =>
      rw [methods, Emission.lines_append, ih]
      rfl
    | field name span => exact ih
    | initializer name params body span => exact ih

theorem diagnostics_methods (members : List Member) :
    (c.methods depth members).diagnostics = members.flatMap (c.memberDiagnostics depth) := by
  induction members with
  | nil => rfl
  | cons m ms ih =>
    rw [List.flatMap_cons, ← ih]
    cases m with
    | method name params body span =>
      rw [methods, Emission.diagnostics_append, Emission.diagnostics_block]
      rfl
    | field name span => rfl
    | initializer name params body span => rfl

/-- Nothing is written of the members exactly if there is neither a constructor nor a method. -/
theorem isEmpty_members (first : Option Initializer) (methods : List Method) :
    (first.toList.flatMap (fun i => (c.initializerBlock depth i).lines) ++
        methods.flatMap fun m => (c.methodBlock depth m).lines).isEmpty =
      (first.isNone && methods.isEmpty) := by
  cases first with
  | some i => simp [initializerBlock]
  | none =>
    cases methods with
    | nil => rfl
    | cons m ms => simp [methodBlock]

theorem lines_initializer_eq (members : List Member) :
    (c.initializer depth members).lines =
      (members.findSome? Member.initializer?).toList.flatMap fun i =>
        (c.initializerBlock depth i).lines := by
  rw [initializer_eq]
  cases members.findSome? Member.initializer? <;> simp

theorem diagnostics_initializer (members : List Member) :
    (c.initializer depth members).diagnostics =
      (members.findSome? Member.initializer?).toList.flatMap fun i =>
        (c.stmts (depth + 1) i.body).diagnostics := by
  rw [initializer_eq]
  cases members.findSome? Member.initializer? <;> simp [initializerBlock]

/-! ## Classes -/

theorem lines_classDecl (depth : Nat) (name : String) (superclass : Option Span)
    (members : List Member) (span : Span) :
    (c.stmt depth (.classDecl name superclass members span)).lines =
      c.classLines depth name superclass (members.findSome? Member.initializer?)
        (members.filterMap Member.method?) := by
  have closing : (Emission.closing c.grammar depth).lines =
      if c.grammar.file.useBraces then [⟨depth, "\x7d"⟩] else [] := by
    unfold Emission.closing
    split <;> rfl
  rw [stmt, Emission.block, Emission.lines_append, Emission.lines_append, Emission.lines_filled_eq,
    closing, Emission.lines_append, lines_initializer_eq, lines_methods_eq, isEmpty_members,
    classLines]
  simp [Emission.header, Emission.line]

/-- The text of a class is made of its header, the first constructor, the methods in their order, a
placeholder if there is neither, and the closing. Besides what its bodies report, there is one
diagnostic for each field, at its place among the members. -/
theorem class_text_of_initializer_and_methods (c : Context) (depth : Nat) (name : String)
    (superclass : Option Span) (members members' : List Member) (span span' : Span)
    (first : members.findSome? Member.initializer? = members'.findSome? Member.initializer?)
    (methods : members.filterMap Member.method? = members'.filterMap Member.method?) :
    (c.stmt depth (.classDecl name superclass members span)).text c.grammar =
        (c.stmt depth (.classDecl name superclass members' span')).text c.grammar ∧
      (c.stmt depth (.classDecl name superclass members span)).lines =
        c.classLines depth name superclass (members.findSome? Member.initializer?)
          (members.filterMap Member.method?) ∧
      (c.stmt depth (.classDecl name superclass members span)).text c.grammar =
        String.join ((c.classLines depth name superclass (members.findSome? Member.initializer?)
          (members.filterMap Member.method?)).map fun line =>
            c.grammar.indentation line.depth ++ line.text ++ "\n") ∧
      (c.stmt depth (.classDecl name superclass members span)).diagnostics =
        ((members.findSome? Member.initializer?).toList.flatMap fun i =>
          (c.stmts (depth + 2) i.body).diagnostics) ++
          members.flatMap (c.memberDiagnostics (depth + 1)) := by
  refine ⟨?_, lines_classDecl depth name superclass members span, ?_, ?_⟩
  · rw [Emission.text, Emission.text, lines_classDecl, lines_classDecl, first, methods]
  · rw [Emission.text, lines_classDecl]
    rfl
  · rw [stmt, Emission.diagnostics_block, Emission.diagnostics_append, diagnostics_initializer,
      diagnostics_methods]

/-- Two methods and two constructors between fields, and once more without a field. -/
theorem class_text_of_interleaved :
    let c : Context := ⟨.python, "return 1;".toList⟩
    let make (own : String) : Member := .method own [⟨"x", none⟩] [.returnStmt ⟨0, 9⟩] ⟨0, 0⟩
    let start (own : String) : Member := .initializer own [] [.breakStmt ⟨0, 0⟩] ⟨0, 0⟩
    let mixed : List Member :=
      [.field "a" ⟨1, 2⟩, make "f", start "constructor", .field "b" ⟨3, 4⟩, make "g", start "again"]
    let plain : List Member := [start "constructor", start "again", make "f", make "g"]
    (c.stmt 0 (.classDecl "A" none mixed ⟨0, 9⟩)).text c.grammar =
        (c.stmt 0 (.classDecl "A" none plain ⟨0, 9⟩)).text c.grammar ∧
      (c.stmt 0 (.classDecl "A" none mixed ⟨0, 9⟩)).text c.grammar =
        "class A:\n    def __init__(self):\n        break\n    def f(self, x):\n" ++
          "        return 1\n    def g(self, x):\n        return 1\n" ∧
      (c.stmt 0 (.classDecl "A" none mixed ⟨0, 9⟩)).diagnostics =
        [.unsupported "class member \x60a\x60" ⟨1, 2⟩,
          .unsupported "class member \x60b\x60" ⟨3, 4⟩] := by
  intro c make start mixed plain
  have written := class_text_of_initializer_and_methods c 0 "A" none mixed plain ⟨0, 9⟩ ⟨0, 9⟩
    rfl rfl
  refine ⟨written.1, written.2.2.1.trans ?_, written.2.2.2.trans ?_⟩
  · decide +kernel
  · decide +kernel

end Context

end Dialect
