import Stepflow.Resolver.Basic

/-!
# Stepflow.Checkout.Cart — the total of a shopping cart

The resolver adds up price times quantity over the items of its payload, from the left, starting
at the whole number zero.  Whole numbers stay whole; a product or a sum is a double as soon as a
double takes part.
-/

namespace Stepflow.Checkout

/-- A running amount. -/
inductive Amount where
  | whole (n : Int)
  | floating (x : Floating)

namespace Amount

/-- A number as an amount. -/
def ofNumber : Number → Amount
  | .int n => .whole n
  | .double d => .floating (.finite d)

/-- An amount as a floating-point number; whole numbers out of range are refused. -/
def toFloating : Amount → Except Failure Floating
  | .whole n =>
    match Floating.ofInt? n with
    | some d => .ok (.finite d)
    | none => .error .tooLarge
  | .floating x => .ok x

/-- The product. -/
def mul : Amount → Amount → Except Failure Amount
  | .whole a, .whole b => .ok (.whole (a * b))
  | a, b => do return .floating (Floating.mul (← a.toFloating) (← b.toFloating))

/-- The sum. -/
def add : Amount → Amount → Except Failure Amount
  | .whole a, .whole b => .ok (.whole (a + b))
  | a, b => do return .floating (Floating.add (← a.toFloating) (← b.toFloating))

/-- An amount as data. -/
def toDatum : Amount → Datum
  | .whole n => .int n
  | .floating x => .float x

end Amount

/-- Add the cost of one item. -/
def addItem (total : Amount) (item : Value) : Except Failure Amount := do
  let price ← (← item.require "price").asNumber
  let quantity ← (← item.require "quantity").asInt
  total.add (← (Amount.ofNumber price).mul (.whole quantity))

/-- The total of a cart. -/
def cartTotal (payload : Value) : Except Failure Value := do
  let items ← (← payload.require "items").asArray
  let total ← items.foldlM addItem (.whole 0)
  Value.ofDatum Value.rootPath total.toDatum

/-- The resolver of cart totals. -/
def cartResolver : Resolver where
  title := "CartTotalResolver"
  stepType := "cartTotal"
  policy := .propagate
  detached := false
  respond _ payload := .ofExcept ((cartTotal payload).map some)

end Stepflow.Checkout
