import TaskRunner.Diagnostic.Expectation
import TaskRunner.Script.Builder

/-!
# Reading a script

A text is a script if the grammar takes it whole and a script can be built from its parse tree.
Otherwise the diagnostic is about the place that the grammar could not get past, or about the first
tree that nothing can be built from where it stands.
-/
namespace TaskRunner

/-- The tree of the body of a script, among the trees of its text. -/
def Grammar.bodyOf? (trees : List ParseTree) : Option ParseTree :=
  trees.head?.bind fun script => script.inner.find? fun t => t.kind = .body

/-- Reads a script. The file name is only used in the diagnostic. -/
def Script.parse (source : String) (filename : Option String) : Except Diagnostic Script :=
  match Grammar.trees? source.toList with
  | none =>
    .error ((Diagnostic.unreadable source (Grammar.furthest source.toList)).withFilename filename)
  | some trees =>
    match Grammar.bodyOf? trees with
    | none => .ok Script.empty
    | some body =>
      match Script.ofTree source.toList body with
      | .ok script => .ok script
      | .error e => .error ((Diagnostic.refused source e).withFilename filename)

end TaskRunner
