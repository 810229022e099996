import Fareward.Limiter.CreditsBlob

/-!
# Budget mutations

`src/limiter/budget.rs`: what a budget frame asks for and the rules it must meet. The bytes of the
frame are the codec's business; `parseBudgetMutation` starts from the decoded frame.
-/

namespace Fareward.Limiter

/-- `BudgetOperation`. -/
inductive BudgetOperation
  | setDaily
  | setCurrent
  | increaseCurrent
  deriving DecidableEq, Repr

/-- `BudgetMutation`. -/
structure BudgetMutation where
  companyId : Int
  operation : BudgetOperation
  credits : Credits
  deriving DecidableEq, Repr

/-- `BudgetMutationReply`. -/
inductive BudgetMutationReply
  | ok
  | currentMonthNotConfigured
  | overflow
  deriving DecidableEq, Repr

/-- `BudgetMutationFrame`. -/
structure BudgetMutationFrame where
  companyId : Int
  operation : UInt8
  cpu : ℕ
  inference : ℕ
  deriving DecidableEq, Repr

/-- `BudgetProtocolError`, apart from the codec's own. -/
inductive BudgetProtocolError
  | invalidCompany
  | invalidOperation (value : UInt8)
  | creditOverflow
  deriving DecidableEq, Repr

/-- `i64::MAX as u64`. -/
def i64MaxNat : ℕ := 2 ^ 63 - 1

def BudgetOperation.ofByte : UInt8 → Except BudgetProtocolError BudgetOperation
  | 1 => .ok .setDaily
  | 2 => .ok .setCurrent
  | 3 => .ok .increaseCurrent
  | value => .error (.invalidOperation value)

/-- `parse_budget_mutation`, from the decoded frame on. -/
def parseBudgetMutation (frame : BudgetMutationFrame) :
    Except BudgetProtocolError BudgetMutation :=
  if frame.companyId ≤ 0 then .error .invalidCompany
  else do
    let operation ← BudgetOperation.ofByte frame.operation
    if i64MaxNat < frame.cpu ∨ i64MaxNat < frame.inference then .error .creditOverflow
    else return ⟨frame.companyId, operation, ⟨frame.cpu, frame.inference⟩⟩

end Fareward.Limiter
