/-!
# Calls that follow one another

A call may fail and changes a memory either way. The next call is made only if the one before it
succeeds, and starts with the memory that it leaves.
-/

namespace Fettle.Call

variable {ε σ α β : Type} {call : ExceptT ε (StateM σ) α} {rest : α → ExceptT ε (StateM σ) β}
  {memory memory' : σ}

/-- After a call that succeeds, the rest is run on its result. -/
theorem bind_of_ok {a : α} (h : call memory = (.ok a, memory')) :
    (call >>= rest) memory = rest a memory' := by
  simp only [bind, ExceptT.bind, ExceptT.mk, StateT.bind, h]
  rfl

/-- After a call that fails, nothing is run. -/
theorem bind_of_error {e : ε} (h : call memory = (.error e, memory')) :
    (call >>= rest) memory = (.error e, memory') := by
  simp only [bind, ExceptT.bind, ExceptT.mk, StateT.bind, h]
  rfl

end Fettle.Call
