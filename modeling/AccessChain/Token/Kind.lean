/-! The kinds of token: what source text outside code, layout, operands, keywords and operators are
called, and the names by which options and reports refer to them. -/
namespace AccessChain

inductive Keyword where
  | arrayKw | emptyKw | evalKw | issetKw | listKw | staticKw | unsetKw | abstractKw | asKw
  | breakKw | callableKw | caseKw | catchKw | classKw | cloneKw | constKw | continueKw | declareKw
  | defaultKw | doKw | echoKw | elseKw | elseifKw | enddeclareKw | endforKw | endforeachKw
  | endifKw | endswitchKw | endwhileKw | exitKw | extendsKw | finalKw | finallyKw | forKw
  | foreachKw | functionKw | globalKw | gotoKw | ifKw | implementsKw | includeKw | includeOnceKw
  | instanceofKw | insteadofKw | interfaceKw | logicalAndKw | logicalOrKw | logicalXorKw
  | namespaceKw | newKw | printKw | privateKw | protectedKw | publicKw | requireKw | requireOnceKw
  | returnKw | switchKw | throwKw | traitKw | tryKw | useKw | varKw | whileKw | yieldKw
deriving DecidableEq

namespace Keyword

def all : List Keyword := [
  .arrayKw, .emptyKw, .evalKw, .issetKw, .listKw, .staticKw, .unsetKw, .abstractKw, .asKw,
  .breakKw, .callableKw, .caseKw, .catchKw, .classKw, .cloneKw, .constKw, .continueKw, .declareKw,
  .defaultKw, .doKw, .echoKw, .elseKw, .elseifKw, .enddeclareKw, .endforKw, .endforeachKw,
  .endifKw, .endswitchKw, .endwhileKw, .exitKw, .extendsKw, .finalKw, .finallyKw, .forKw,
  .foreachKw, .functionKw, .globalKw, .gotoKw, .ifKw, .implementsKw, .includeKw, .includeOnceKw,
  .instanceofKw, .insteadofKw, .interfaceKw, .logicalAndKw, .logicalOrKw, .logicalXorKw,
  .namespaceKw, .newKw, .printKw, .privateKw, .protectedKw, .publicKw, .requireKw, .requireOnceKw,
  .returnKw, .switchKw, .throwKw, .traitKw, .tryKw, .useKw, .varKw, .whileKw, .yieldKw]

def name : Keyword → String
  | .arrayKw => "ARRAY"
  | .emptyKw => "EMPTY"
  | .evalKw => "EVAL"
  | .issetKw => "ISSET"
  | .listKw => "LIST"
  | .staticKw => "STATIC"
  | .unsetKw => "UNSET"
  | .abstractKw => "ABSTRACT"
  | .asKw => "AS"
  | .breakKw => "BREAK"
  | .callableKw => "CALLABLE"
  | .caseKw => "CASE"
  | .catchKw => "CATCH"
  | .classKw => "CLASS"
  | .cloneKw => "CLONE"
  | .constKw => "CONST"
  | .continueKw => "CONTINUE"
  | .declareKw => "DECLARE"
  | .defaultKw => "DEFAULT"
  | .doKw => "DO"
  | .echoKw => "ECHO"
  | .elseKw => "ELSE"
  | .elseifKw => "ELSEIF"
  | .enddeclareKw => "ENDDECLARE"
  | .endforKw => "ENDFOR"
  | .endforeachKw => "ENDFOREACH"
  | .endifKw => "ENDIF"
  | .endswitchKw => "ENDSWITCH"
  | .endwhileKw => "ENDWHILE"
  | .exitKw => "EXIT"
  | .extendsKw => "EXTENDS"
  | .finalKw => "FINAL"
  | .finallyKw => "FINALLY"
  | .forKw => "FOR"
  | .foreachKw => "FOREACH"
  | .functionKw => "FUNCTION"
  | .globalKw => "GLOBAL"
  | .gotoKw => "GOTO"
  | .ifKw => "IF"
  | .implementsKw => "IMPLEMENTS"
  | .includeKw => "INCLUDE"
  | .includeOnceKw => "INCLUDE_ONCE"
  | .instanceofKw => "INSTANCEOF"
  | .insteadofKw => "INSTEADOF"
  | .interfaceKw => "INTERFACE"
  | .logicalAndKw => "LOGICAL_AND"
  | .logicalOrKw => "LOGICAL_OR"
  | .logicalXorKw => "LOGICAL_XOR"
  | .namespaceKw => "NAMESPACE"
  | .newKw => "NEW"
  | .printKw => "PRINT"
  | .privateKw => "PRIVATE"
  | .protectedKw => "PROTECTED"
  | .publicKw => "PUBLIC"
  | .requireKw => "REQUIRE"
  | .requireOnceKw => "REQUIRE_ONCE"
  | .returnKw => "RETURN"
  | .switchKw => "SWITCH"
  | .throwKw => "THROW"
  | .traitKw => "TRAIT"
  | .tryKw => "TRY"
  | .useKw => "USE"
  | .varKw => "VAR"
  | .whileKw => "WHILE"
  | .yieldKw => "YIELD"

def inExpression : Keyword → Bool
  | .arrayKw | .emptyKw | .evalKw | .issetKw | .listKw | .staticKw | .unsetKw => true
  | _ => false

def spellings : List (String × Keyword) := [
  ("abstract", .abstractKw), ("and", .logicalAndKw), ("array", .arrayKw), ("as", .asKw),
  ("break", .breakKw), ("callable", .callableKw), ("case", .caseKw), ("catch", .catchKw),
  ("class", .classKw), ("clone", .cloneKw), ("const", .constKw), ("continue", .continueKw),
  ("declare", .declareKw), ("default", .defaultKw), ("die", .exitKw), ("do", .doKw),
  ("echo", .echoKw), ("else", .elseKw), ("elseif", .elseifKw), ("empty", .emptyKw),
  ("enddeclare", .enddeclareKw), ("endfor", .endforKw), ("endforeach", .endforeachKw),
  ("endif", .endifKw), ("endswitch", .endswitchKw), ("endwhile", .endwhileKw), ("eval", .evalKw),
  ("exit", .exitKw), ("extends", .extendsKw), ("final", .finalKw), ("finally", .finallyKw),
  ("for", .forKw), ("foreach", .foreachKw), ("function", .functionKw), ("global", .globalKw),
  ("goto", .gotoKw), ("if", .ifKw), ("implements", .implementsKw), ("include", .includeKw),
  ("include_once", .includeOnceKw), ("instanceof", .instanceofKw), ("insteadof", .insteadofKw),
  ("interface", .interfaceKw), ("isset", .issetKw), ("list", .listKw), ("namespace", .namespaceKw),
  ("new", .newKw), ("or", .logicalOrKw), ("print", .printKw), ("private", .privateKw),
  ("protected", .protectedKw), ("public", .publicKw), ("require", .requireKw),
  ("require_once", .requireOnceKw), ("return", .returnKw), ("static", .staticKw),
  ("switch", .switchKw), ("throw", .throwKw), ("trait", .traitKw), ("try", .tryKw),
  ("unset", .unsetKw), ("use", .useKw), ("var", .varKw), ("while", .whileKw),
  ("xor", .logicalXorKw), ("yield", .yieldKw)]

def ofSpelling? (word : List Char) : Option Keyword := spellings.lookup (String.ofList word)

end Keyword

inductive Operator where
  | andEqual | booleanAnd | booleanOr | coalesce | concatEqual | dec | divEqual | doubleArrow
  | ellipsis | inc | isEqual | isGreaterOrEqual | isIdentical | isNotEqual | isNotIdentical
  | isSmallerOrEqual | minusEqual | modEqual | mulEqual | orEqual | plusEqual | pow | powEqual | sl
  | slEqual | spaceship | sr | srEqual | xorEqual
deriving DecidableEq

namespace Operator

def all : List Operator := [
  .andEqual, .booleanAnd, .booleanOr, .coalesce, .concatEqual, .dec, .divEqual, .doubleArrow,
  .ellipsis, .inc, .isEqual, .isGreaterOrEqual, .isIdentical, .isNotEqual, .isNotIdentical,
  .isSmallerOrEqual, .minusEqual, .modEqual, .mulEqual, .orEqual, .plusEqual, .pow, .powEqual, .sl,
  .slEqual, .spaceship, .sr, .srEqual, .xorEqual]

def name : Operator → String
  | .andEqual => "AND_EQUAL"
  | .booleanAnd => "BOOLEAN_AND"
  | .booleanOr => "BOOLEAN_OR"
  | .coalesce => "COALESCE"
  | .concatEqual => "CONCAT_EQUAL"
  | .dec => "DEC"
  | .divEqual => "DIV_EQUAL"
  | .doubleArrow => "DOUBLE_ARROW"
  | .ellipsis => "ELLIPSIS"
  | .inc => "INC"
  | .isEqual => "IS_EQUAL"
  | .isGreaterOrEqual => "IS_GREATER_OR_EQUAL"
  | .isIdentical => "IS_IDENTICAL"
  | .isNotEqual => "IS_NOT_EQUAL"
  | .isNotIdentical => "IS_NOT_IDENTICAL"
  | .isSmallerOrEqual => "IS_SMALLER_OR_EQUAL"
  | .minusEqual => "MINUS_EQUAL"
  | .modEqual => "MOD_EQUAL"
  | .mulEqual => "MUL_EQUAL"
  | .orEqual => "OR_EQUAL"
  | .plusEqual => "PLUS_EQUAL"
  | .pow => "POW"
  | .powEqual => "POW_EQUAL"
  | .sl => "SL"
  | .slEqual => "SL_EQUAL"
  | .spaceship => "SPACESHIP"
  | .sr => "SR"
  | .srEqual => "SR_EQUAL"
  | .xorEqual => "XOR_EQUAL"

end Operator

inductive TokenKind where
  | inlineHtml | openTag | openTagWithEcho | closeTag | whitespace | lineComment | blockComment
  | varName | identifier | stringLiteral | heredoc | number | objectOperator | doubleColon
  | namespaceSeparator | character
  | keyword (word : Keyword) | operator (sign : Operator)
deriving DecidableEq

namespace TokenKind

/-- Every kind once, in the order in which kinds are numbered. -/
def all : List TokenKind := [
  .inlineHtml, .openTag, .openTagWithEcho, .closeTag, .whitespace, .lineComment, .blockComment,
  .varName, .identifier, .stringLiteral, .heredoc, .number, .objectOperator, .doubleColon,
  .namespaceSeparator, .character] ++ Keyword.all.map keyword ++ Operator.all.map operator

def name : TokenKind → String
  | .inlineHtml => "INLINE_HTML"
  | .openTag => "OPEN_TAG"
  | .openTagWithEcho => "OPEN_TAG_WITH_ECHO"
  | .closeTag => "CLOSE_TAG"
  | .whitespace => "WHITESPACE"
  | .lineComment => "COMMENT"
  | .blockComment => "DOC_COMMENT"
  | .varName => "VARIABLE"
  | .identifier => "IDENTIFIER"
  | .stringLiteral => "STRING_LITERAL"
  | .heredoc => "HEREDOC"
  | .number => "NUMBER"
  | .objectOperator => "OBJECT_OPERATOR"
  | .doubleColon => "DOUBLE_COLON"
  | .namespaceSeparator => "NAMESPACE_SEPARATOR"
  | .character => "CHARACTER"
  | .keyword word => word.name
  | .operator sign => sign.name

def ofName? (wanted : String) : Option TokenKind := all.find? (·.name == wanted)

def isComment : TokenKind → Bool
  | .lineComment | .blockComment => true
  | _ => false

def isTrivia : TokenKind → Bool
  | .whitespace | .lineComment | .blockComment => true
  | _ => false

def isAccess : TokenKind → Bool
  | .objectOperator | .doubleColon => true
  | _ => false

end TokenKind
end AccessChain
