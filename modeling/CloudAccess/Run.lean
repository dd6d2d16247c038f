import CloudAccess.Log

/-!
# Runs

A run ends in an answer or an error and leaves a trace of what happened on the way, also when it
ends in an error.  The trace says nothing about the answer: `outcome_bind` gives the outcome of
two runs in a row from their outcomes alone.
-/

namespace CloudAccess

/-- An answer or an error, with the trace left on the way to it. -/
structure Traced (ω ε α : Type) where
  outcome : Except ε α
  trace : List ω

/-- A run that leaves log events. -/
abbrev Run (ε α : Type) := Traced Event ε α

namespace Traced

variable {ω ε ε' α β : Type}

instance : Monad (Traced ω ε) where
  pure a := ⟨.ok a, []⟩
  bind x f :=
    match x.outcome with
    | .error e => ⟨.error e, x.trace⟩
    | .ok a => let y := f a; ⟨y.outcome, x.trace ++ y.trace⟩

/-- Ends in an error at once. -/
def fail (e : ε) : Traced ω ε α := ⟨.error e, []⟩

/-- Leaves one event. -/
def note (event : ω) : Traced ω ε Unit := ⟨.ok (), [event]⟩

/-- An outcome that leaves no trace. -/
def ofExcept (x : Except ε α) : Traced ω ε α := ⟨x, []⟩

instance : MonadLift (Except ε) (Traced ω ε) := ⟨ofExcept⟩

/-- The same run with another kind of error. -/
def mapError (f : ε → ε') (x : Traced ω ε α) : Traced ω ε' α := ⟨x.outcome.mapError f, x.trace⟩

/-! ## Outcomes -/

@[simp] theorem outcome_pure (a : α) : (pure a : Traced ω ε α).outcome = .ok a := rfl

@[simp] theorem outcome_fail (e : ε) : (fail e : Traced ω ε α).outcome = .error e := rfl

@[simp] theorem outcome_note (event : ω) : (note event : Traced ω ε Unit).outcome = .ok () := rfl

@[simp] theorem outcome_ofExcept (x : Except ε α) : (ofExcept x : Traced ω ε α).outcome = x := rfl

theorem outcome_bind (x : Traced ω ε α) (f : α → Traced ω ε β) :
    (x >>= f).outcome = x.outcome >>= fun a => (f a).outcome := by
  cases h : x.outcome <;> simp [bind, h, Except.bind]

@[simp] theorem outcome_note_bind (event : ω) (f : Unit → Traced ω ε β) :
    (note event >>= f).outcome = (f ()).outcome := rfl

@[simp] theorem outcome_mapError (f : ε → ε') (x : Traced ω ε α) :
    (x.mapError f).outcome = x.outcome.mapError f := rfl

end Traced
end CloudAccess
