import VFromC.Decl.Enum
import VFromC.Decl.Function
import VFromC.Decl.Variable
/-!
The declarations of a unit.
-/
namespace VFromC.Decl
open VFromC.Syntax VFromC.Output VFromC.Emit

/-- Declarations of C++ that have no output. -/
def isSilent : Kind → Bool
  | .cxxRecordDecl | .cxxConstructorDecl | .cxxDestructorDecl | .cxxMethodDecl | .usingDecl
  | .usingShadowDecl | .usingDirectiveDecl | .classTemplateDecl
  | .classTemplateSpecializationDecl | .classTemplatePartialSpecializationDecl
  | .functionTemplateDecl => true
  | _ => false

mutual

/-- One declaration; `next` is the one that follows it. -/
def topLevel (u : SourceUnit) (next : Option Node) : Node → Script Unit
  | ⟨info, filler, inner⟩ =>
      let n : Node := ⟨info, filler, inner⟩
      if info.isBuiltin then Script.note s!"skipping builtin {info.kind.name} `{info.name}`"
      else
        match info.kind with
        | .typedefDecl => aliasDecl n
        | .functionDecl => functionDecl u n
        | .recordDecl => recordDecl next n
        | .varDecl => globalDecl u n
        | .enumDecl => enumDecl n next
        | .emptyDecl | .staticAssertDecl | .attribute | .comment | .null => pure ()
        | .namespaceDecl | .linkageSpecDecl => topLevels u inner
        | kind =>
            if isSilent kind then Script.note s!"skipping C++ declaration {kind.name} `{info.name}`"
            else Script.fail (.unhandledTopLevel kind)

def topLevels (u : SourceUnit) : List Node → Script Unit
  | [] => pure ()
  | n :: rest => do
      topLevel u rest.head? n
      topLevels u rest

end

def writeUnit (u : SourceUnit) : Script Unit := topLevels u u.root.inner

structure Composed where
  result : Except Fault Unit
  symbols : Symbols
  draft : Draft

/-- Writes a unit: its declarations are gone through, and their commands are carried out on a draft
that knows some labels already. Texts of globals that were moved away join the symbols. -/
def SourceUnit.compose (u : SourceUnit) (symbols : Symbols) (labels : Labels) : Composed :=
  let walk := writeUnit u { symbols }
  let draft := ({ labels } : Draft).run walk.commands
  { result := walk.result
    symbols := walk.desk.symbols.addTexts draft.taken
    draft }

end VFromC.Decl
