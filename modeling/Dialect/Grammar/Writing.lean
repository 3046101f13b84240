import Dialect.Grammar
import Dialect.Json.Writing

/-!
# Writing grammars

Every field in the order of declaration.
-/

namespace Dialect

def ClassSyntax.toJson (s : ClassSyntax) : Json :=
  .record
    [("keyword", .string s.keyword), ("constructorName", .string s.constructorName),
     ("prefixSelf", .bool s.receives), ("prefixMethodKeyword", .bool s.methodKeyword),
     ("constructorIsFunction", .bool s.constructorKeyword),
     ("callWithNewKeyword", .bool s.keepsNew),
     ("receiverName", .string s.receiverName), ("inheritWithParens", .bool s.superclassInParens)]

def TemplateSyntax.toJson (s : TemplateSyntax) : Json :=
  .record
    [("start", .string s.opening), ("end", .string s.closing),
     ("interpolationStart", .string s.interpolationStart),
     ("interpolationEnd", .string s.interpolationEnd)]

def ControlSyntax.toJson (s : ControlSyntax) : Json :=
  .record
    [("ifKeyword", .string s.ifKeyword), ("elseKeyword", .string s.elseKeyword),
     ("elseIfKeyword", .string s.elseIfKeyword), ("forKeyword", .string s.forKeyword),
     ("inKeyword", .string s.inKeyword), ("rangeFunction", .string s.rangeFunction),
     ("whileKeyword", .string s.whileKeyword), ("withKeyword", .string s.withKeyword),
     ("asKeyword", .string s.asKeyword), ("breakKeyword", .string s.breakKeyword),
     ("continueKeyword", .string s.continueKeyword)]

def SupportSyntax.toJson (s : SupportSyntax) : Json :=
  .record
    [("importName", .string s.importName), ("importPath", .string s.importPath),
     ("recognizedAliases", .list (s.aliases.map .string))]

def FileSyntax.toJson (s : FileSyntax) : Json :=
  .record
    [("extension", .string s.extension), ("useSemicolons", .bool s.useSemicolons),
     ("useBraces", .bool s.useBraces), ("indent", .string s.indent),
     ("emptyBlock", .string s.emptyBlock), ("stringQuote", .string s.stringQuote),
     ("modulePathSeparator", .string s.pathSeparator), ("stdlib", s.support.toJson),
     ("tokenReplacements", .record (s.replacements.map fun r => (r.key, .string r.value)))]

def Grammar.toJson (g : Grammar) : Json :=
  .record
    [("functionKeyword", .string g.functionKeyword),
     ("variableKeyword", (g.variableKeyword.map Json.string).getD .null),
     ("class", g.classes.toJson), ("templateLiteral", g.template.toJson),
     ("control", g.control.toJson), ("file", g.file.toJson)]

end Dialect
