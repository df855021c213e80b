import TradeRules.Expr.Context

/-!
# Evaluating expressions

A value is a truth value, a number, or absent, which is what an indicator with too little history
gives. Arithmetic on something absent is absent; a comparison with it fails, except that something
present differs from something absent; `AND` with it fails, and `OR` then rests on the other side.
Both sides of an operator are always evaluated, so that no error is hidden.
-/

namespace TradeRules

/-- What an expression evaluates to. -/
inductive Value (α : Type) where
  /-- A truth value. -/
  | truth (b : Bool)
  /-- A number. -/
  | number (x : α)
  /-- No value, for want of history. -/
  | absent
  deriving Repr

/-- The kinds of values. -/
inductive ValueKind where
  | truth
  | number
  | absent
  deriving DecidableEq, Repr

/-- The word for a kind. -/
def ValueKind.name : ValueKind → String
  | .truth => "boolean"
  | .number => "number"
  | .absent => "no value"

/-- What the operands of an operator have to be. -/
inductive Expectation where
  /-- Both numbers. -/
  | numbers
  /-- Both of one kind. -/
  | sameKind
  deriving DecidableEq, Repr

/-- The words for an expectation. -/
def Expectation.text : Expectation → String
  | .numbers => "numbers"
  | .sameKind => "operands of the same type"

/-- Why an expression has no value, not even an absent one. -/
inductive EvalError (α : Type) where
  /-- A name means no property. -/
  | unknownName (name : String)
  /-- A call means no indicator. -/
  | invalidCall (function : String) (reason : VocabularyError α)
  /-- An operand is of the wrong kind. -/
  | typeMismatch (op : BinaryOp) (expected : Expectation) (found : ValueKind)
  /-- A divisor is zero. -/
  | divisionByZero
  /-- A condition is neither true nor false. -/
  | unsupportedResult (found : ValueKind)
  deriving Repr

/-- The wording of the reason. -/
def EvalError.message {α : Type} [Scalar α] : EvalError α → String
  | .unknownName n => "unknown identifier '" ++ n ++ "'"
  | .invalidCall f reason => "invalid call " ++ f ++ ": " ++ reason.message
  | .typeMismatch op expected found =>
    "operator " ++ op.symbol ++ " expects " ++ expected.text ++ ", found " ++ found.name
  | .divisionByZero => "division by zero"
  | .unsupportedResult found =>
    "expression produced " ++ found.name ++ ", expected a boolean or number"

variable {α : Type} [Scalar α]

/-- How close two numbers are taken to be equal by a rule: a thousand-millionth. -/
def tolerance : α := Scalar.ofDecimal false ⟨1, 9⟩

namespace Value

/-- The kind of a value. -/
def kind : Value α → ValueKind
  | .truth _ => .truth
  | .number _ => .number
  | .absent => .absent

/-- The value of an indicator. -/
def ofOption : Option α → Value α
  | some x => .number x
  | none => .absent

/-- Whether a value is absent. -/
def isAbsent : Value α → Bool
  | .absent => true
  | _ => false

/-- A value as a condition: zero and what is absent do not hold. -/
def holds : Value α → Bool
  | .truth b => b
  | .number x => !Scalar.same x Scalar.zero
  | .absent => false

/-- Whether both values hold; what is absent decides against it. -/
def both (l r : Value α) : Bool := !l.isAbsent && !r.isAbsent && (l.holds && r.holds)

/-- Whether either value holds; what is absent leaves the decision to the other. -/
def either : Value α → Value α → Bool
  | .absent, .absent => false
  | .absent, present | present, .absent => present.holds
  | l, r => l.holds || r.holds

/-- The order between two numbers that a comparison asks for. -/
def ordered (c : Comparison) (x y : α) : Bool :=
  match c with
  | .lt => Scalar.less x y
  | .gt => Scalar.less y x
  | .le => Scalar.atMost x y
  | .ge => Scalar.atMost y x
  | .eq => Scalar.less (Scalar.magnitude (x - y)) tolerance
  | .ne => !Scalar.less (Scalar.magnitude (x - y)) tolerance

/-- Compares two values. -/
def compare (c : Comparison) (l r : Value α) : Except (EvalError α) Bool :=
  match l, r with
  | .absent, .absent => .ok false
  | .absent, _ | _, .absent => .ok (c == .ne)
  | .number x, .number y => .ok (ordered c x y)
  | .truth a, .truth b =>
    match c with
    | .eq => .ok (a == b)
    | .ne => .ok (a != b)
    | _ => .error (.typeMismatch (.compare c) .numbers .truth)
  | _, _ =>
    match c with
    | .eq | .ne => .error (.typeMismatch (.compare c) .sameKind .number)
    | _ => .error (.typeMismatch (.compare c) .numbers .truth)

/-- Computes with two values. -/
def compute (a : Arithmetic) (l r : Value α) : Except (EvalError α) (Value α) :=
  match l, r with
  | .absent, _ | _, .absent => .ok .absent
  | .number x, .number y =>
    match a with
    | .add => .ok (.number (x + y))
    | .sub => .ok (.number (x - y))
    | .mul => .ok (.number (x * y))
    | .div => if Scalar.same y Scalar.zero then .error .divisionByZero else .ok (.number (x / y))
  | _, _ => .error (.typeMismatch (.compute a) .numbers .truth)

/-- Applies an operator to two values. -/
def apply (op : BinaryOp) (l r : Value α) : Except (EvalError α) (Value α) :=
  match op with
  | .and => .ok (.truth (both l r))
  | .or => .ok (.truth (either l r))
  | .compare c =>
    match compare c l r with
    | .ok b => .ok (.truth b)
    | .error e => .error e
  | .compute a => compute a l r

end Value

namespace Expr

/-- The value of an expression. -/
def eval (c : Context α) : Expr α → Except (EvalError α) (Value α)
  | .literal x => .ok (.number x)
  | .name n =>
    match Property.ofName? n with
    | some p => .ok (.number (c.property p))
    | none => .error (.unknownName n)
  | .call f args =>
    match resolveCall f args with
    | .ok i => .ok (.ofOption (c.indicator? i))
    | .error e => .error (.invalidCall f e)
  | .not e =>
    match e.eval c with
    | .ok v => .ok (.truth (!v.holds))
    | .error e => .error e
  | .binary op l r =>
    match l.eval c with
    | .error e => .error e
    | .ok x =>
      match r.eval c with
      | .error e => .error e
      | .ok y => Value.apply op x y

/-- Whether an expression holds as the condition of a rule. A number holds unless it is zero;
what is absent is no condition. -/
def fires (c : Context α) (e : Expr α) : Except (EvalError α) Bool :=
  match e.eval c with
  | .error e => .error e
  | .ok .absent => .error (.unsupportedResult .absent)
  | .ok v => .ok v.holds

end Expr

end TradeRules
