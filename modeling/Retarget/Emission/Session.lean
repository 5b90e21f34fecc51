import Retarget.Target

set_option autoImplicit false

/-!
# Writing step by step

A session keeps what one step of writing leaves to the next: the names that stand for pieces of
code and the helpers noted so far.

## Main definitions

* `Retarget.Session` — the bound names and the helpers.
* `Retarget.Session.run` — one step of writing.
-/

namespace Retarget

/-- What steps of writing leave to each other. -/
structure Session where
  names : Bindings := []
  helpers : List String := []

namespace Session

/-- How many names are bound. -/
def depth (s : Session) : Nat := s.names.length

/-- The helpers noted so far, in order. -/
def helperNames (s : Session) : List String := Helper.sorted s.helpers

/-- Bind one more name. -/
def bind (s : Session) (name : String) (fragment : Fragment) : Session :=
  { s with names := (name, fragment) :: s.names }

/-- Keep only the first `depth` of the names that were bound. -/
def unbindTo (s : Session) (depth : Nat) : Session :=
  { s with names := s.names.drop (s.names.length - depth) }

/-- Note a helper. -/
def require (s : Session) (helper : String) : Session :=
  { s with helpers := s.helpers ++ [helper] }

/-- The piece that a name stands for: the last that was bound. -/
def lookup (s : Session) (name : String) : Option Fragment := s.names.lookup name

/-- One step of writing. It leaves the bound names as they are, and its helpers stay noted whether
it succeeds or not. -/
def run {α : Type} (s : Session) (m : Emit α) : Except CompileError α × Session :=
  let written := m s.names
  (written.outcome, { s with helpers := s.helpers ++ written.helpers })

end Session

end Retarget
