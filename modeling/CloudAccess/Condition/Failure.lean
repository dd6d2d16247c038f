import CloudAccess.Request

/-!
# Conditions that cannot be decided

A `Failure` is the cause for which a condition block is neither true nor false.  Some causes are
foreseen and name the value at fault; the others escape from a number that is out of bounds.
-/

namespace CloudAccess.Condition

inductive Failure where
  | block
  | clauses (name : String)
  | qualifier (name : String)
  | operator (name : String)
  | noValue (key : String)
  | notBoolean (value : Fact)
  | notNumber (value : Fact)
  | notDate (value : Fact)
  | epochRange (value : Fact)
  | address (text : String)
  | network (text : String)
  /-- An integer beyond all binary numbers. -/
  | tooLarge
  /-- A text of digits, some of which have no decimal value. -/
  | digits (text : String)
  | oversizedInteger (digits : Nat)

namespace Failure

def message : Failure → String
  | block => "malformed condition block"
  | clauses name => s!"malformed clauses for operator {name}"
  | qualifier name => s!"unsupported set qualifier: {name}"
  | operator name => s!"unsupported condition operator: {name}"
  | noValue key => s!"Null operator on {key} has no value"
  | notBoolean value => s!"not a boolean condition value: {value.quoted}"
  | notNumber value => s!"not a numeric condition value: {value.quoted}"
  | notDate value => s!"not a date condition value: {value.quoted}"
  | epochRange value => s!"epoch time out of range: {value.quoted}"
  | address text =>
    s!"invalid IP condition value: {quotedText text} does not appear to be an IPv4 or IPv6 address"
  | network text =>
    s!"invalid IP condition value: {quotedText text} does not appear to be an IPv4 or IPv6 network"
  | tooLarge => "int too large to convert to float"
  | digits text =>
    let shown := String.ofList ((quotedText text).toList.take 200)
    s!"invalid literal for int() with base 10: {shown}"
  | oversizedInteger n => Json.oversizedMessage n

/-- Foreseen causes, numbers that are too large, and texts that are no numbers. -/
inductive Category where
  | undecidable | overflow | value
deriving DecidableEq

def category : Failure → Category
  | tooLarge => .overflow
  | digits _ | oversizedInteger _ => .value
  | _ => .undecidable

/-- What a log line says of a failure. -/
def reason (f : Failure) : String :=
  match f.category with
  | .undecidable => f.message
  | .overflow => s!"condition evaluator failed: OverflowError({quotedText f.message})"
  | .value => s!"condition evaluator failed: ValueError({quotedText f.message})"

end Failure
end CloudAccess.Condition
