import StubTree.Manifest.Load
import StubTree.Options

/-! # Options files

An options file holds a mapping from names to values, or nothing at all.
-/

namespace StubTree

/-- The options that a value spells. -/
def Options.ofValue {α : Type} [Readable α] (p : Path) (v : α) : Except Fault Options :=
  match Readable.shape v with
  | .null => .ok {}
  | .mapping entries => do Options.ofSettings (← Options.spelled entries)
  | other => .error (.option (.notMapping p other.kindName))

def Options.load (d : Disk) (p : Path) (stack : Stack := .endless) : Except Fault Options := do
  let bytes ← d.readFor p (.option ∘ .unreadable p)
  let some text := String.fromUTF8? bytes | throw (.yaml .notUnicode)
  stack.reserve (stack.options (.ofText text))
  Options.ofValue p (← readValue (.ofText text) (.option ∘ .notYaml p))

end StubTree
