import VFromC.Text.OnStrings
/-!
Kinds of syntax nodes.

A kind is read from the word that the front end prints. Kinds that nothing depends on one by one
fall into the groups of attributes, comments and unknown nodes.
-/
namespace VFromC.Syntax
open VFromC.Text

inductive Kind where
  /-- The empty object that stands for an absent child. -/
  | null
  | unitDecl | typedefDecl | recordDecl | fieldDecl | indirectFieldDecl | enumDecl
  | enumConstantDecl | functionDecl | parmVarDecl | varDecl | labelDecl | emptyDecl
  | staticAssertDecl
  | compoundStmt | declStmt | returnStmt | ifStmt | whileStmt | forStmt | doStmt | switchStmt
  | caseStmt | defaultStmt | breakStmt | continueStmt | gotoStmt | labelStmt | nullStmt
  | gccAsmStmt
  | integerLiteral | characterLiteral | floatingLiteral | stringLiteral | constantExpr
  | parenExpr | implicitCastExpr | cStyleCastExpr | binaryOperator | compoundAssignOperator
  | unaryOperator | conditionalOperator | declRefExpr | memberExpr | callExpr
  | arraySubscriptExpr | unaryExprOrTypeTraitExpr | initListExpr | implicitValueInitExpr
  | opaqueValueExpr | parenListExpr | vaArgExpr | offsetOfExpr | stmtExpr
  | namespaceDecl | linkageSpecDecl | cxxRecordDecl | cxxConstructorDecl | cxxDestructorDecl
  | cxxMethodDecl | usingDecl | usingShadowDecl | usingDirectiveDecl | classTemplateDecl
  | classTemplateSpecializationDecl | classTemplatePartialSpecializationDecl
  | functionTemplateDecl | templateArgument
  | cxxForRangeStmt | cxxTryStmt | cxxConstructExpr | cxxMemberCallExpr | cxxOperatorCallExpr
  | exprWithCleanups | materializeTemporaryExpr | cxxBindTemporaryExpr | unresolvedLookupExpr
  | cxxThrowExpr | cxxDynamicCastExpr | cxxReinterpretCastExpr | cxxStaticCastExpr
  | cxxUnresolvedConstructExpr | cxxDependentScopeMemberExpr | cxxThisExpr | cxxBoolLiteralExpr
  | cxxNullPtrLiteralExpr | cxxFunctionalCastExpr | cxxDeleteExpr | cxxNewExpr
  | cxxTemporaryObjectExpr
  /-- Any node whose word ends in `Attr`. -/
  | attribute
  /-- Any node whose word ends in `Comment`. -/
  | comment
  | unknown
deriving DecidableEq, Repr, Inhabited

namespace Kind

/-- The kinds with a word of their own, each with that word. -/
def words : List (String × Kind) := [
  ("TranslationUnitDecl", .unitDecl), ("TypedefDecl", .typedefDecl),
  ("RecordDecl", .recordDecl), ("FieldDecl", .fieldDecl),
  ("IndirectFieldDecl", .indirectFieldDecl), ("EnumDecl", .enumDecl),
  ("EnumConstantDecl", .enumConstantDecl), ("FunctionDecl", .functionDecl),
  ("ParmVarDecl", .parmVarDecl), ("VarDecl", .varDecl), ("LabelDecl", .labelDecl),
  ("EmptyDecl", .emptyDecl), ("StaticAssertDecl", .staticAssertDecl),
  ("CompoundStmt", .compoundStmt), ("DeclStmt", .declStmt), ("ReturnStmt", .returnStmt),
  ("IfStmt", .ifStmt), ("WhileStmt", .whileStmt), ("ForStmt", .forStmt), ("DoStmt", .doStmt),
  ("SwitchStmt", .switchStmt), ("CaseStmt", .caseStmt), ("DefaultStmt", .defaultStmt),
  ("BreakStmt", .breakStmt), ("ContinueStmt", .continueStmt), ("GotoStmt", .gotoStmt),
  ("LabelStmt", .labelStmt), ("NullStmt", .nullStmt), ("GCCAsmStmt", .gccAsmStmt),
  ("IntegerLiteral", .integerLiteral), ("CharacterLiteral", .characterLiteral),
  ("FloatingLiteral", .floatingLiteral), ("StringLiteral", .stringLiteral),
  ("ConstantExpr", .constantExpr), ("ParenExpr", .parenExpr),
  ("ImplicitCastExpr", .implicitCastExpr), ("CStyleCastExpr", .cStyleCastExpr),
  ("BinaryOperator", .binaryOperator), ("CompoundAssignOperator", .compoundAssignOperator),
  ("UnaryOperator", .unaryOperator), ("ConditionalOperator", .conditionalOperator),
  ("DeclRefExpr", .declRefExpr), ("MemberExpr", .memberExpr), ("CallExpr", .callExpr),
  ("ArraySubscriptExpr", .arraySubscriptExpr),
  ("UnaryExprOrTypeTraitExpr", .unaryExprOrTypeTraitExpr), ("InitListExpr", .initListExpr),
  ("ImplicitValueInitExpr", .implicitValueInitExpr), ("OpaqueValueExpr", .opaqueValueExpr),
  ("ParenListExpr", .parenListExpr), ("VAArgExpr", .vaArgExpr), ("OffsetOfExpr", .offsetOfExpr),
  ("StmtExpr", .stmtExpr), ("NamespaceDecl", .namespaceDecl),
  ("LinkageSpecDecl", .linkageSpecDecl), ("CXXRecordDecl", .cxxRecordDecl),
  ("CXXConstructorDecl", .cxxConstructorDecl), ("CXXDestructorDecl", .cxxDestructorDecl),
  ("CXXMethodDecl", .cxxMethodDecl), ("UsingDecl", .usingDecl),
  ("UsingShadowDecl", .usingShadowDecl), ("UsingDirectiveDecl", .usingDirectiveDecl),
  ("ClassTemplateDecl", .classTemplateDecl),
  ("ClassTemplateSpecializationDecl", .classTemplateSpecializationDecl),
  ("ClassTemplatePartialSpecializationDecl", .classTemplatePartialSpecializationDecl),
  ("FunctionTemplateDecl", .functionTemplateDecl), ("TemplateArgument", .templateArgument),
  ("CXXForRangeStmt", .cxxForRangeStmt), ("CXXTryStmt", .cxxTryStmt),
  ("CXXConstructExpr", .cxxConstructExpr), ("CXXMemberCallExpr", .cxxMemberCallExpr),
  ("CXXOperatorCallExpr", .cxxOperatorCallExpr), ("ExprWithCleanups", .exprWithCleanups),
  ("MaterializeTemporaryExpr", .materializeTemporaryExpr),
  ("CXXBindTemporaryExpr", .cxxBindTemporaryExpr),
  ("UnresolvedLookupExpr", .unresolvedLookupExpr), ("CXXThrowExpr", .cxxThrowExpr),
  ("CXXDynamicCastExpr", .cxxDynamicCastExpr),
  ("CXXReinterpretCastExpr", .cxxReinterpretCastExpr), ("CXXStaticCastExpr", .cxxStaticCastExpr),
  ("CXXUnresolvedConstructExpr", .cxxUnresolvedConstructExpr),
  ("CXXDependentScopeMemberExpr", .cxxDependentScopeMemberExpr), ("CXXThisExpr", .cxxThisExpr),
  ("CXXBoolLiteralExpr", .cxxBoolLiteralExpr), ("CXXNullPtrLiteralExpr", .cxxNullPtrLiteralExpr),
  ("CXXFunctionalCastExpr", .cxxFunctionalCastExpr), ("CXXDeleteExpr", .cxxDeleteExpr),
  ("CXXNewExpr", .cxxNewExpr), ("CXXTemporaryObjectExpr", .cxxTemporaryObjectExpr)]

/-- The kind that a printed word stands for; a missing kind is printed as the empty word. -/
def ofWord (word : String) : Kind :=
  if word = "" then .null
  else
    match words.lookup word with
    | some kind => kind
    | none =>
        if ends "Attr" word then .attribute
        else if ends "Comment" word then .comment
        else .unknown

def name : Kind → String
  | .null => "Null"
  | .unitDecl => "TranslationUnitDecl"
  | .typedefDecl => "TypedefDecl"
  | .recordDecl => "RecordDecl"
  | .fieldDecl => "FieldDecl"
  | .indirectFieldDecl => "IndirectFieldDecl"
  | .enumDecl => "EnumDecl"
  | .enumConstantDecl => "EnumConstantDecl"
  | .functionDecl => "FunctionDecl"
  | .parmVarDecl => "ParmVarDecl"
  | .varDecl => "VarDecl"
  | .labelDecl => "LabelDecl"
  | .emptyDecl => "EmptyDecl"
  | .staticAssertDecl => "StaticAssertDecl"
  | .compoundStmt => "CompoundStmt"
  | .declStmt => "DeclStmt"
  | .returnStmt => "ReturnStmt"
  | .ifStmt => "IfStmt"
  | .whileStmt => "WhileStmt"
  | .forStmt => "ForStmt"
  | .doStmt => "DoStmt"
  | .switchStmt => "SwitchStmt"
  | .caseStmt => "CaseStmt"
  | .defaultStmt => "DefaultStmt"
  | .breakStmt => "BreakStmt"
  | .continueStmt => "ContinueStmt"
  | .gotoStmt => "GotoStmt"
  | .labelStmt => "LabelStmt"
  | .nullStmt => "NullStmt"
  | .gccAsmStmt => "GccAsmStmt"
  | .integerLiteral => "IntegerLiteral"
  | .characterLiteral => "CharacterLiteral"
  | .floatingLiteral => "FloatingLiteral"
  | .stringLiteral => "StringLiteral"
  | .constantExpr => "ConstantExpr"
  | .parenExpr => "ParenExpr"
  | .implicitCastExpr => "ImplicitCastExpr"
  | .cStyleCastExpr => "CStyleCastExpr"
  | .binaryOperator => "BinaryOperator"
  | .compoundAssignOperator => "CompoundAssignOperator"
  | .unaryOperator => "UnaryOperator"
  | .conditionalOperator => "ConditionalOperator"
  | .declRefExpr => "DeclRefExpr"
  | .memberExpr => "MemberExpr"
  | .callExpr => "CallExpr"
  | .arraySubscriptExpr => "ArraySubscriptExpr"
  | .unaryExprOrTypeTraitExpr => "UnaryExprOrTypeTraitExpr"
  | .initListExpr => "InitListExpr"
  | .implicitValueInitExpr => "ImplicitValueInitExpr"
  | .opaqueValueExpr => "OpaqueValueExpr"
  | .parenListExpr => "ParenListExpr"
  | .vaArgExpr => "VaArgExpr"
  | .offsetOfExpr => "OffsetOfExpr"
  | .stmtExpr => "StmtExpr"
  | .namespaceDecl => "NamespaceDecl"
  | .linkageSpecDecl => "LinkageSpecDecl"
  | .cxxRecordDecl => "CxxRecordDecl"
  | .cxxConstructorDecl => "CxxConstructorDecl"
  | .cxxDestructorDecl => "CxxDestructorDecl"
  | .cxxMethodDecl => "CxxMethodDecl"
  | .usingDecl => "UsingDecl"
  | .usingShadowDecl => "UsingShadowDecl"
  | .usingDirectiveDecl => "UsingDirectiveDecl"
  | .classTemplateDecl => "ClassTemplateDecl"
  | .classTemplateSpecializationDecl => "ClassTemplateSpecializationDecl"
  | .classTemplatePartialSpecializationDecl => "ClassTemplatePartialSpecializationDecl"
  | .functionTemplateDecl => "FunctionTemplateDecl"
  | .templateArgument => "TemplateArgument"
  | .cxxForRangeStmt => "CxxForRangeStmt"
  | .cxxTryStmt => "CxxTryStmt"
  | .cxxConstructExpr => "CxxConstructExpr"
  | .cxxMemberCallExpr => "CxxMemberCallExpr"
  | .cxxOperatorCallExpr => "CxxOperatorCallExpr"
  | .exprWithCleanups => "ExprWithCleanups"
  | .materializeTemporaryExpr => "MaterializeTemporaryExpr"
  | .cxxBindTemporaryExpr => "CxxBindTemporaryExpr"
  | .unresolvedLookupExpr => "UnresolvedLookupExpr"
  | .cxxThrowExpr => "CxxThrowExpr"
  | .cxxDynamicCastExpr => "CxxDynamicCastExpr"
  | .cxxReinterpretCastExpr => "CxxReinterpretCastExpr"
  | .cxxStaticCastExpr => "CxxStaticCastExpr"
  | .cxxUnresolvedConstructExpr => "CxxUnresolvedConstructExpr"
  | .cxxDependentScopeMemberExpr => "CxxDependentScopeMemberExpr"
  | .cxxThisExpr => "CxxThisExpr"
  | .cxxBoolLiteralExpr => "CxxBoolLiteralExpr"
  | .cxxNullPtrLiteralExpr => "CxxNullPtrLiteralExpr"
  | .cxxFunctionalCastExpr => "CxxFunctionalCastExpr"
  | .cxxDeleteExpr => "CxxDeleteExpr"
  | .cxxNewExpr => "CxxNewExpr"
  | .cxxTemporaryObjectExpr => "CxxTemporaryObjectExpr"
  | .attribute => "Attribute"
  | .comment => "Comment"
  | .unknown => "Unknown"

/-- Wrappers that only pass their child on. -/
def isTransparent : Kind → Bool
  | .implicitCastExpr | .parenExpr | .constantExpr => true
  | _ => false

/-- Nodes without content of their own. -/
def isAnnotation : Kind → Bool
  | .attribute | .comment | .null => true
  | _ => false

end Kind

end VFromC.Syntax
