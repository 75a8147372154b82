import VFromC.Syntax.Node
/-!
Completing a tree: the files of its places, how often each declaration is declared again, and which
declarations are not the program's own.
-/
namespace VFromC.Syntax

namespace Node

mutual

/-- Fills in the files of a node and of everything below it in printing order; `current` is the
file last printed. Gives the file printed last. -/
def completeFiles : Node → Mark → Node × Mark
  | ⟨info, filler, inner⟩, current =>
      let here := info.place.fileAfter current
      let place := info.place.complete here
      let filled := completeAll filler (info.place.fileAfterExtent here)
      let children := completeAll inner filled.2
      (⟨{ info with place }, filled.1, children.1⟩, children.2)

def completeAll : List Node → Mark → List Node × Mark
  | [], current => ([], current)
  | n :: rest, current =>
      let first := completeFiles n current
      let others := completeAll rest first.2
      (first.1 :: others.1, others.2)

end

/-- The position of the last declaration with an identifier. -/
def lastWithId? (decls : List Node) (id : String) : Option Nat :=
  if id = "" then none
  else (decls.zipIdx.filter fun p => p.1.info.id = id).getLast?.map Prod.snd

/-- Counts, for each declaration, those that name it as their previous one. -/
def countRedeclarations (decls : List Node) : List Node :=
  let named := (decls.filterMap (·.info.previousDecl)).filterMap (lastWithId? decls)
  decls.zipIdx.map fun p =>
    { p.1 with
      info := { p.1.info with redeclarations := p.1.info.redeclarations + named.count p.2 } }

mutual

/-- Marks a declaration, and those in a name space or a linkage block, by their origin. -/
def markBuiltin : Node → Node
  | ⟨info, filler, inner⟩ =>
      let origin := hasBuiltinOrigin ⟨info, filler, inner⟩
      let inner :=
        if info.kind = .namespaceDecl ∨ info.kind = .linkageSpecDecl then markBuiltins inner
        else inner
      ⟨{ info with isBuiltin := origin }, filler, inner⟩

def markBuiltins : List Node → List Node
  | [] => []
  | n :: rest => markBuiltin n :: markBuiltins rest

end

def prepare (root : Node) : Node :=
  let root := (root.completeFiles {}).1
  { root with inner := markBuiltins (countRedeclarations root.inner) }

end Node

end VFromC.Syntax
