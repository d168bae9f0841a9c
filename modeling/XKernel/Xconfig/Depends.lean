import Mathlib.Algebra.Group.Int.Defs
import Mathlib.Logic.Function.Basic
/-!
# Dependency expressions

The engine reads a `depends on` expression with `evaluate_expr`, the menu with the `ExprEvaluator` of its
`DependencyResolver`. The menu's reading is the engine's reading of another expression, `lowered`. An expression
without a symbol is not read at all.
-/

namespace XKernel.Xconfig

inductive Expr
  | symbol (name : String)
  | const (val : String)
  | not (inner : Expr)
  | and (left right : Expr)
  | or (left right : Expr)
  | equal (left right : Expr)
  | notEqual (left right : Expr)
  | less (left right : Expr)
  | lessEqual (left right : Expr)
  | greater (left right : Expr)
  | greaterEqual (left right : Expr)

structure Symbol where
  value : Option String

structure SymbolTable where
  symbols : String → Option Symbol

variable (t : SymbolTable)

def SymbolTable.getValue (name : String) : Option String := (t.symbols name).bind (·.value)

def SymbolTable.isEnabled (name : String) : Bool :=
  ((t.symbols name).bind (·.value)).map (fun v => v == "y" || v == "m") |>.getD false

inductive KconfigError
  | invalidExpression (text : String)
  /-- The panic of `l - r` in `compare_values`. -/
  | overflow

def parseI64 (s : String) : Option Int :=
  let (sign, digits) := match s.toList with
    | '-' :: ds => (-1, ds)
    | '+' :: ds => (1, ds)
    | ds => (1, ds)
  let n : Int := sign * digits.foldl (fun (n : Nat) c => 10 * n + (c.toNat - 48)) 0
  if digits ≠ [] ∧ digits.all Char.isDigit ∧ -2 ^ 63 ≤ n ∧ n < 2 ^ 63 then some n else none

def compareValues (left right : String) : Except KconfigError Int :=
  match parseI64 left, parseI64 right with
  | some l, some r => if -2 ^ 63 ≤ l - r ∧ l - r < 2 ^ 63 then .ok (l - r).sign else .error .overflow
  | _, _ => .ok (if left < right then -1 else if left = right then 0 else 1)

def getExprValue : Expr → Except KconfigError String
  | .symbol name => .ok ((t.getValue name).getD "n")
  | .const val => .ok val
  | _ => .error (.invalidExpression "Complex expression in comparison")

/-- The four order comparisons, by the test of the sign. -/
def compareExprs (left right : Expr) (test : Int → Bool) : Except KconfigError Bool := do
  let leftVal ← getExprValue t left
  let rightVal ← getExprValue t right
  return test (← compareValues leftVal rightVal)

def evaluateExpr : Expr → Except KconfigError Bool
  | .symbol name => .ok (t.isEnabled name)
  | .const val => .ok (val == "y" || val == "m")
  | .not inner => do return !(← evaluateExpr inner)
  | .and left right => do if ← evaluateExpr left then evaluateExpr right else return false
  | .or left right => do if ← evaluateExpr left then return true else evaluateExpr right
  | .equal left right => do return (← getExprValue t left) == (← getExprValue t right)
  | .notEqual left right => do return (← getExprValue t left) != (← getExprValue t right)
  | .less left right => compareExprs t left right (· < 0)
  | .lessEqual left right => compareExprs t left right (· ≤ 0)
  | .greater left right => compareExprs t left right (· > 0)
  | .greaterEqual left right => compareExprs t left right (· ≥ 0)

/-! ## The resolver of the menu -/

namespace ExprEvaluator

def getExprValue : Expr → String
  | .symbol name => (t.getValue name).getD "n"
  | .const val => val
  | _ => "n"

def evaluate : Expr → Bool
  | .symbol name => t.isEnabled name
  | .const val => val.toLower == "y" || val.toLower == "m"
  | .and left right => evaluate left && evaluate right
  | .or left right => evaluate left || evaluate right
  | .not inner => !evaluate inner
  | .equal left right => getExprValue t left == getExprValue t right
  | .notEqual left right => getExprValue t left != getExprValue t right
  | _ => false

end ExprEvaluator

structure Dependency where
  symbol : String
  condition : Option Expr

structure DependencyResolver where
  dependsMap : String → Option (List Dependency)

inductive DependencyError
  | conditionNotMet (symbol condition : String)

def formatExpr : Expr → String
  | .symbol s => s
  | .const c => c
  | .not inner => "!" ++ formatExpr inner
  | .and left right => "(" ++ formatExpr left ++ " && " ++ formatExpr right ++ ")"
  | .or left right => "(" ++ formatExpr left ++ " || " ++ formatExpr right ++ ")"
  | .equal left right => formatExpr left ++ " = " ++ formatExpr right
  | .notEqual left right => formatExpr left ++ " != " ++ formatExpr right
  | .less left right => formatExpr left ++ " < " ++ formatExpr right
  | .lessEqual left right => formatExpr left ++ " <= " ++ formatExpr right
  | .greater left right => formatExpr left ++ " > " ++ formatExpr right
  | .greaterEqual left right => formatExpr left ++ " >= " ++ formatExpr right

def collectSymbols : Expr → List String → List String
  | .symbol name, symbols => symbols ++ [name]
  | .const _, symbols => symbols
  | .not inner, symbols => collectSymbols inner symbols
  | .and left right, symbols | .or left right, symbols | .equal left right, symbols | .notEqual left right, symbols
  | .less left right, symbols | .lessEqual left right, symbols | .greater left right, symbols
  | .greaterEqual left right, symbols => collectSymbols right (collectSymbols left symbols)

namespace DependencyResolver

def new : DependencyResolver := ⟨fun _ => none⟩

variable (r : DependencyResolver)

/-- What `process_config` does with the `depends` property. -/
def processConfig (name : String) (depends : Option Expr) : DependencyResolver :=
  match depends with
  | none => r
  | some expr =>
    { r with dependsMap := Function.update r.dependsMap name (some ((collectSymbols expr []).map (⟨·, some expr⟩))) }

def canEnable (symbol : String) : Except DependencyError Unit :=
  match r.dependsMap symbol with
  | some (⟨_, some condition⟩ :: _) =>
    if ExprEvaluator.evaluate t condition then .ok ()
    else .error (.conditionNotMet symbol (formatExpr condition))
  | _ => .ok ()

end DependencyResolver

/-! ## The menu's reading -/

/-- An operand of a comparison, as the menu takes it. -/
def lowerOperand : Expr → Expr
  | .symbol name => .symbol name
  | .const val => .const val
  | _ => .const "n"

/-- The expression the menu reads in place of the one given: the order comparisons are `n`, and constants have no
upper case. -/
def lowered : Expr → Expr
  | .symbol name => .symbol name
  | .const val => .const val.toLower
  | .not inner => .not (lowered inner)
  | .and left right => .and (lowered left) (lowered right)
  | .or left right => .or (lowered left) (lowered right)
  | .equal left right => .equal (lowerOperand left) (lowerOperand right)
  | .notEqual left right => .notEqual (lowerOperand left) (lowerOperand right)
  | _ => .const "n"

@[simp] theorem getExprValue_lowerOperand (e : Expr) :
    getExprValue t (lowerOperand e) = .ok (ExprEvaluator.getExprValue t e) := by
  cases e <;> rfl

theorem evaluateExpr_lowered (e : Expr) : evaluateExpr t (lowered e) = .ok (ExprEvaluator.evaluate t e) := by
  induction e with
  | symbol name => rfl
  | const val => rfl
  | not inner ih =>
    simp only [lowered, evaluateExpr, ExprEvaluator.evaluate, ih]
    rfl
  | and left right ihl ihr =>
    simp only [lowered, evaluateExpr, ExprEvaluator.evaluate, ihl, ihr]
    cases ExprEvaluator.evaluate t left <;> rfl
  | or left right ihl ihr =>
    simp only [lowered, evaluateExpr, ExprEvaluator.evaluate, ihl, ihr]
    cases ExprEvaluator.evaluate t left <;> rfl
  | equal left right =>
    simp only [lowered, evaluateExpr, ExprEvaluator.evaluate, getExprValue_lowerOperand]
    rfl
  | notEqual left right =>
    simp only [lowered, evaluateExpr, ExprEvaluator.evaluate, getExprValue_lowerOperand]
    rfl
  | _ => rfl

theorem canEnable_processConfig (r : DependencyResolver) (name : String) (e : Expr) :
    (r.processConfig name (some e)).canEnable t name = .ok () ↔
      collectSymbols e [] = [] ∨ evaluateExpr t (lowered e) = .ok true := by
  rw [evaluateExpr_lowered]
  simp only [DependencyResolver.processConfig, DependencyResolver.canEnable, Function.update_self]
  cases collectSymbols e [] with
  | nil => simp
  | cons name names => simp

/-- The menu accepts a symbol whose expression the engine can read exactly when the engine reads it as true, if and
only if what it reads in place of the expression has the same value, or the expression has no symbol and is true. -/
theorem canEnable_iff_evaluateExpr (r : DependencyResolver) (name : String) (e : Expr) (b : Bool)
    (h : evaluateExpr t e = .ok b) :
    ((r.processConfig name (some e)).canEnable t name = .ok () ↔ evaluateExpr t e = .ok true) ↔
      if collectSymbols e [] = [] then b = true else evaluateExpr t (lowered e) = .ok b := by
  rw [canEnable_processConfig, h, evaluateExpr_lowered]
  split
  · simp [*]
  · cases b <;> simp [*]

/-- A symbol `A`, of the value 3. -/
def sampleTable : SymbolTable := ⟨fun name => if name = "A" then some ⟨some "3"⟩ else none⟩

theorem canEnable_iff_notEqual :
    ((DependencyResolver.new.processConfig "B"
      (some (.notEqual (.symbol "A") (.const "n")))).canEnable sampleTable "B" =
        .ok () ↔ evaluateExpr sampleTable (.notEqual (.symbol "A") (.const "n")) = .ok true) :=
  (canEnable_iff_evaluateExpr sampleTable .new "B" (.notEqual (.symbol "A") (.const "n")) true rfl).2
    (by simp [collectSymbols, evaluateExpr_lowered]; rfl)

/-- `A > 2` is true and the menu rejects it, `n` is false and it accepts. -/
theorem canEnable_greater_n :
    evaluateExpr sampleTable (.greater (.symbol "A") (.const "2")) = .ok true ∧
      (DependencyResolver.new.processConfig "B"
        (some (.greater (.symbol "A") (.const "2")))).canEnable sampleTable "B" ≠ .ok () ∧
      evaluateExpr sampleTable (.const "n") = .ok false ∧
      (DependencyResolver.new.processConfig "B" (some (.const "n"))).canEnable sampleTable "B" = .ok () := by
  refine ⟨rfl, ?_, rfl, ?_⟩
  · simp [canEnable_processConfig, evaluateExpr_lowered, collectSymbols, ExprEvaluator.evaluate]
  · simp [canEnable_processConfig, collectSymbols]

end XKernel.Xconfig
