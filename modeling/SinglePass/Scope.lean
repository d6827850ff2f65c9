import SinglePass.Value

/-!
# Scopes

A scope is a chain of bindings, the innermost first.  Scopes are values: pushing a binding leaves the scope it was
pushed onto as it was, so a scope kept for later is not affected by what happens in between.
-/

namespace SinglePass

structure Scope where
  bindings : List (String × Value)

namespace Scope

def empty : Scope := ⟨[]⟩

def push (s : Scope) (name : String) (v : Value) : Scope := ⟨(name, v) :: s.bindings⟩

/-- The scope around the innermost binding; the empty scope stays empty. -/
def pop (s : Scope) : Scope := ⟨s.bindings.tail⟩

/-- The innermost binding of a name. -/
def lookup (s : Scope) (name : String) : Option Value := s.bindings.lookup name

def depth (s : Scope) : Nat := s.bindings.length

def isEmpty (s : Scope) : Bool := s.bindings.isEmpty

end Scope

end SinglePass
