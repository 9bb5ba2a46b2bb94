import Arbor.Bindings
import Arbor.Value

/-!
# Namespaces

A namespace binds names to values. Two namespaces are equal as soon as they bind
the same names to the same values (`Namespace.ext_get?`).
-/

namespace Arbor

/-- Values by name. -/
structure Namespace where
  /-- The bindings, in the order of the names. -/
  bindings : Bindings Value := []
  sorted : bindings.Sorted := by exact .nil

namespace Namespace

/-- The value of a name. -/
def get? (m : Namespace) (name : String) : Option Value := m.bindings.find name

/-- Binds a name to a value. -/
def set (m : Namespace) (name : String) (value : Value) : Namespace where
  bindings := m.bindings.place name value
  sorted := Bindings.sorted_place m.sorted

/-- After a name was bound, it has its new value, and every other name has the value
    it had. -/
theorem get?_set (m : Namespace) (name : String) (value : Value) (other : String) :
    (m.set name value).get? other = if other = name then some value else m.get? other :=
  Bindings.find_place name value m.bindings other

theorem ext_get? {m n : Namespace} (h : ∀ name, m.get? name = n.get? name) : m = n := by
  have hb : m.bindings = n.bindings := Bindings.ext_find m.sorted n.sorted h
  cases m
  cases n
  cases hb
  rfl

end Namespace

end Arbor
