import TemplateLisp.Fault
import TemplateLisp.Value

/-!
# Why an evaluation stops

An evaluation that gives no value ends in one of these ways. They are kept apart because they are
answered differently: an error is reported, a `return` hands its value to whoever started the
evaluation, a failure of the host passes through, and a stack that is exhausted is reported at the
outermost level.
-/

namespace TemplateLisp

/-- How an evaluation ends without a value. -/
inductive Stop where
  | error (e : Error)
  /-- A `return` form was evaluated. -/
  | returned (v : Value)
  /-- The host failed outside of any built-in function. -/
  | crash (f : HostFault)
  /-- There was no room for another level. -/
  | tooDeep
  /-- The bound on the number of steps was reached, or a list has no end. -/
  | endless
deriving DecidableEq, Inhabited

/-- A cause without a place. -/
def Stop.ofFault (f : Fault) : Stop := .error ⟨f, none⟩

end TemplateLisp
