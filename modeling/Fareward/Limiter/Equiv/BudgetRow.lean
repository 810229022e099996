import Fareward.Lib.Machine
import Fareward.Limiter.BudgetRow
import Fareward.Limiter.Equiv.Steps

/-!
# When a budget row can be read back

A row is the cells of two halves, each as it was last written (`cellsOf`). The writes keep the
halves apart, but the read does not: the entitlement cells are decoded as not nullable, so a row
that only `upsert_budget_usage` has written to cannot be loaded. Every other row gives both halves
back.
-/

namespace Fareward.Limiter

variable {context : String} {value : ℕ} {budget : StoredBudget} {b : Option StoredBudget}
  {u : Option StoredBudgetUsage} {usage : StoredBudgetUsage} {table' : BudgetTable}

/-! ### Writes that fit their columns -/

def StoredBudget.Fits (b : StoredBudget) : Prop :=
  b.daily.cpu ≤ i64MaxNat ∧ b.daily.inference ≤ i64MaxNat ∧ b.monthlyCeiling.cpu ≤ i64MaxNat ∧
    b.monthlyCeiling.inference ≤ i64MaxNat ∧ b.lastSet.cpu ≤ i64MaxNat ∧
    b.lastSet.inference ≤ i64MaxNat

instance (b : StoredBudget) : Decidable b.Fits := inferInstanceAs (Decidable (_ ∧ _))

def StoredBudgetUsage.Fits (u : StoredBudgetUsage) : Prop :=
  u.dayUsed.cpu ≤ i64MaxNat ∧ u.dayUsed.inference ≤ i64MaxNat ∧ u.monthUsed.cpu ≤ i64MaxNat ∧
    u.monthUsed.inference ≤ i64MaxNat ∧ u.dayExtraCpu ≤ i64MaxNat ∧ u.monthExtraCpu ≤ i64MaxNat

instance (u : StoredBudgetUsage) : Decidable u.Fits := inferInstanceAs (Decidable (_ ∧ _))

/-- The entitlements written for company `c`, oldest first. -/
def budgetsOf (c : Int) (writes : List BudgetWrite) : List StoredBudget :=
  writes.filterMap fun
    | .budget b => if b.companyId = c ∧ b.Fits then some b else none
    | .usage _ => none

/-- The usage counters written for company `c`, oldest first. -/
def usagesOf (c : Int) (writes : List BudgetWrite) : List StoredBudgetUsage :=
  writes.filterMap fun
    | .budget _ => none
    | .usage u => if u.companyId = c ∧ u.Fits then some u else none

/-! ### Rows as two halves -/

/-- The cells of a row whose halves were last written as `b` and `u`. -/
def cellsOf (b : Option StoredBudget) (u : Option StoredBudgetUsage) : BudgetCells where
  dailyCpu := b.map fun b => ↑b.daily.cpu
  dailyInference := b.map fun b => ↑b.daily.inference
  budgetMonthStartDay := b.map (·.budgetMonthStartDay)
  monthlyCpuCeiling := b.map fun b => ↑b.monthlyCeiling.cpu
  monthlyInferenceCeiling := b.map fun b => ↑b.monthlyCeiling.inference
  lastSetCpu := b.map fun b => ↑b.lastSet.cpu
  lastSetInference := b.map fun b => ↑b.lastSet.inference
  updated := b.map (·.updated)
  usageDayPeriod := u.map (·.dayPeriod)
  dayCpuUsed := u.map fun u => ↑u.dayUsed.cpu
  dayInferenceUsed := u.map fun u => ↑u.dayUsed.inference
  usageMonthStartDay := u.map (·.monthStartDay)
  monthCpuUsed := u.map fun u => ↑u.monthUsed.cpu
  monthInferenceUsed := u.map fun u => ↑u.monthUsed.inference
  dayExtraCpuUsed := u.map fun u => ↑u.dayExtraCpu
  monthExtraCpuUsed := u.map fun u => ↑u.monthExtraCpu
  usageUpdated := u.map (·.updated)

/-- The row whose halves were last written as `b` and `u`; there is none before the first write. -/
def rowOf : Option StoredBudget → Option StoredBudgetUsage → Option BudgetCells
  | none, none => none
  | b, u => some (cellsOf b u)

theorem rowOf_getD (b : Option StoredBudget) (u : Option StoredBudgetUsage) :
    (rowOf b u).getD .null = cellsOf b u := by
  cases b <;> cases u <;> rfl

theorem toBigint_eq (h : value ≤ i64MaxNat) :
    toBigint context value = .ok (value : Int) := if_pos h

theorem toBigint_bind_ok {next : Int → Except String BudgetTable}
    (h : toBigint context value >>= next = .ok table') :
    value ≤ i64MaxNat ∧ next value = .ok table' := by
  obtain ⟨cell, hcell, h⟩ := bind_eq_ok.mp h
  unfold toBigint at hcell
  split_ifs at hcell with hle
  exact ⟨hle, Except.ok.inj hcell ▸ h⟩

/-- `upsert_budget` replaces the entitlement half. -/
theorem upsertBudget_eq {table : BudgetTable} (hrow : table budget.companyId = rowOf b u)
    (hfits : budget.Fits) :
    table.upsertBudget budget =
      .ok (Function.update table budget.companyId (rowOf (some budget) u)) := by
  obtain ⟨h₁, h₂, h₃, h₄, h₅, h₆⟩ := hfits
  unfold BudgetTable.upsertBudget
  rw [toBigint_eq h₁, toBigint_eq h₂, toBigint_eq h₃, toBigint_eq h₄, toBigint_eq h₅,
    toBigint_eq h₆, hrow, rowOf_getD]
  rfl

/-- `upsert_budget_usage` replaces the usage half. -/
theorem upsertBudgetUsage_eq {table : BudgetTable} (hrow : table usage.companyId = rowOf b u)
    (hfits : usage.Fits) :
    table.upsertBudgetUsage usage =
      .ok (Function.update table usage.companyId (rowOf b (some usage))) := by
  obtain ⟨h₁, h₂, h₃, h₄, h₅, h₆⟩ := hfits
  unfold BudgetTable.upsertBudgetUsage
  rw [toBigint_eq h₁, toBigint_eq h₂, toBigint_eq h₃, toBigint_eq h₄, toBigint_eq h₅,
    toBigint_eq h₆, hrow, rowOf_getD]
  cases b <;> rfl

theorem upsertBudget_ok {table : BudgetTable} (h : table.upsertBudget budget = .ok table') :
    budget.Fits := by
  obtain ⟨h₁, h⟩ := toBigint_bind_ok h
  obtain ⟨h₂, h⟩ := toBigint_bind_ok h
  obtain ⟨h₃, h⟩ := toBigint_bind_ok h
  obtain ⟨h₄, h⟩ := toBigint_bind_ok h
  obtain ⟨h₅, h⟩ := toBigint_bind_ok h
  obtain ⟨h₆, h⟩ := toBigint_bind_ok h
  exact ⟨h₁, h₂, h₃, h₄, h₅, h₆⟩

theorem upsertBudgetUsage_ok {table : BudgetTable}
    (h : table.upsertBudgetUsage usage = .ok table') : usage.Fits := by
  obtain ⟨h₁, h⟩ := toBigint_bind_ok h
  obtain ⟨h₂, h⟩ := toBigint_bind_ok h
  obtain ⟨h₃, h⟩ := toBigint_bind_ok h
  obtain ⟨h₄, h⟩ := toBigint_bind_ok h
  obtain ⟨h₅, h⟩ := toBigint_bind_ok h
  obtain ⟨h₆, h⟩ := toBigint_bind_ok h
  exact ⟨h₁, h₂, h₃, h₄, h₅, h₆⟩

/-! ### Sequences of writes -/

theorem budgetsOf_cons_budget (c : Int) (b : StoredBudget) (writes : List BudgetWrite) :
    budgetsOf c (.budget b :: writes) =
      if b.companyId = c ∧ b.Fits then b :: budgetsOf c writes else budgetsOf c writes := by
  unfold budgetsOf
  split_ifs with h
  · exact List.filterMap_cons_some (if_pos h)
  · exact List.filterMap_cons_none (if_neg h)

theorem usagesOf_cons_usage (c : Int) (u : StoredBudgetUsage) (writes : List BudgetWrite) :
    usagesOf c (.usage u :: writes) =
      if u.companyId = c ∧ u.Fits then u :: usagesOf c writes else usagesOf c writes := by
  unfold usagesOf
  split_ifs with h
  · exact List.filterMap_cons_some (if_pos h)
  · exact List.filterMap_cons_none (if_neg h)

theorem getLast?_cons_or {α : Type} (a : α) (as : List α) (o : Option α) :
    (a :: as).getLast?.or o = as.getLast?.or (some a) := by
  rw [List.getLast?_cons]
  cases as.getLast? <;> rfl

/-- **The halves of a row are independent**: after any writes a row holds each half as it was last
written. -/
theorem writeAll_row :
    ∀ (writes : List BudgetWrite) {table : BudgetTable} {b : Int → Option StoredBudget}
      {u : Int → Option StoredBudgetUsage}, (∀ c, table c = rowOf (b c) (u c)) → ∀ c,
      table.writeAll writes c = rowOf ((budgetsOf c writes).getLast?.or (b c))
        ((usagesOf c writes).getLast?.or (u c))
  | [], table, b, u, hrow, c => hrow c
  | .budget budget :: writes, table, b, u, hrow, c => by
    rw [budgetsOf_cons_budget]
    have husages : usagesOf c (.budget budget :: writes) = usagesOf c writes := rfl
    rw [husages, BudgetTable.writeAll, BudgetTable.write]
    by_cases hfits : budget.Fits
    · rw [upsertBudget_eq (hrow budget.companyId) hfits]
      have hrow' : ∀ c, Function.update table budget.companyId
          (rowOf (some budget) (u budget.companyId)) c =
          rowOf (Function.update b budget.companyId (some budget) c) (u c) := by
        intro c
        by_cases hc : c = budget.companyId
        · subst hc
          rw [Function.update_self, Function.update_self]
        · rw [Function.update_of_ne hc, Function.update_of_ne hc, hrow]
      dsimp only
      rw [writeAll_row writes hrow' c]
      by_cases hc : budget.companyId = c
      · rw [if_pos ⟨hc, hfits⟩, getLast?_cons_or, hc, Function.update_self]
      · rw [if_neg fun h => hc h.1, Function.update_of_ne (Ne.symm hc)]
    · rw [if_neg fun h => hfits h.2]
      cases hw : table.upsertBudget budget with
      | ok => exact absurd (upsertBudget_ok hw) hfits
      | error => exact writeAll_row writes hrow c
  | .usage usage :: writes, table, b, u, hrow, c => by
    rw [usagesOf_cons_usage]
    have hbudgets : budgetsOf c (.usage usage :: writes) = budgetsOf c writes := rfl
    rw [hbudgets, BudgetTable.writeAll, BudgetTable.write]
    by_cases hfits : usage.Fits
    · rw [upsertBudgetUsage_eq (hrow usage.companyId) hfits]
      have hrow' : ∀ c, Function.update table usage.companyId
          (rowOf (b usage.companyId) (some usage)) c =
          rowOf (b c) (Function.update u usage.companyId (some usage) c) := by
        intro c
        by_cases hc : c = usage.companyId
        · subst hc
          rw [Function.update_self, Function.update_self]
        · rw [Function.update_of_ne hc, Function.update_of_ne hc, hrow]
      dsimp only
      rw [writeAll_row writes hrow' c]
      by_cases hc : usage.companyId = c
      · rw [if_pos ⟨hc, hfits⟩, getLast?_cons_or, hc, Function.update_self]
      · rw [if_neg fun h => hc h.1, Function.update_of_ne (Ne.symm hc)]
    · rw [if_neg fun h => hfits h.2]
      cases hw : table.upsertBudgetUsage usage with
      | ok => exact absurd (upsertBudgetUsage_ok hw) hfits
      | error => exact writeAll_row writes hrow c

/-! ### Reading a row back -/

/-- What a row whose halves were last written as `b` and `u` should read as. -/
def halvesOf (c : Int) (b : Option StoredBudget) (u : Option StoredBudgetUsage) : StoredBudgetRow :=
  ⟨{ b.getD .empty with companyId := c }, (u.map (·.extra)).getD .empty⟩

theorem decodeRow_some (c : Int) (b : StoredBudget) (u : Option StoredBudgetUsage) :
    BudgetTable.decodeRow c (cellsOf (some b) u) = .ok (halvesOf c (some b) u) := by
  have hpos : ∀ n : ℕ, ¬(n : Int) < 0 := fun n => by omega
  cases u with
  | none =>
    simp [BudgetTable.decodeRow, cellsOf, required, halvesOf, StoredExtraUsage.empty, hpos]
    rfl
  | some =>
    simp [BudgetTable.decodeRow, cellsOf, required, halvesOf, StoredBudgetUsage.extra, hpos]
    rfl

theorem decodeRow_none (c : Int) (u : Option StoredBudgetUsage) :
    BudgetTable.decodeRow c (cellsOf none u) = .error "company_credit_budget row decode failed" :=
  rfl

/-- What `load_budget` should answer when the halves were last written as `b` and `u`. -/
def lastWritten (c : Int) : Option StoredBudget → Option StoredBudgetUsage → Option StoredBudgetRow
  | none, none => none
  | b, u => some (halvesOf c b u)

/-- A row is read back exactly if its entitlement half was written, or neither half was. -/
theorem loadBudget_rowOf {table : BudgetTable} {c : Int} (hrow : table c = rowOf b u) :
    table.loadBudget c = .ok (lastWritten c b u) ↔ b ≠ none ∨ u = none := by
  unfold BudgetTable.loadBudget
  rw [hrow]
  cases b with
  | some b =>
    have hload : (do return some (← BudgetTable.decodeRow c (cellsOf (some b) u)) :
        Except String (Option StoredBudgetRow)) = .ok (some (halvesOf c (some b) u)) := by
      rw [decodeRow_some]
      rfl
    cases u <;> simpa [rowOf, lastWritten] using hload
  | none =>
    cases u with
    | none => simp [rowOf, lastWritten]
    | some u =>
      have hload : (do return some (← BudgetTable.decodeRow c (cellsOf none (some u))) :
          Except String (Option StoredBudgetRow)) =
          .error "company_credit_budget row decode failed" := by
        rw [decodeRow_none]
        rfl
      simp [rowOf, lastWritten, hload]

/-- **When a budget can be loaded.** After any writes from an empty table, `load_budget` succeeds
with both halves as they were last written if and only if the company's entitlement was written or
its usage never was. -/
theorem loadBudget_lastWritten_iff (writes : List BudgetWrite) (c : Int) :
    BudgetTable.loadBudget (BudgetTable.writeAll (fun _ => none) writes) c =
        .ok (lastWritten c (budgetsOf c writes).getLast? (usagesOf c writes).getLast?) ↔
      budgetsOf c writes ≠ [] ∨ usagesOf c writes = [] := by
  have hrow : BudgetTable.writeAll (fun _ => none) writes c =
      rowOf ((budgetsOf c writes).getLast?.or none) ((usagesOf c writes).getLast?.or none) :=
    writeAll_row writes (b := fun _ => none) (u := fun _ => none) (fun _ => rfl) c
  rw [Option.or_none, Option.or_none] at hrow
  rw [loadBudget_rowOf hrow, Ne, List.getLast?_eq_none_iff, List.getLast?_eq_none_iff]

/-! ### The table behind the limiter -/

/-- The table that the store of the limiter stands for. -/
def LimiterStore.table (store : LimiterStore) : BudgetTable :=
  fun c => rowOf (store.budgets c) (store.budgetUsages c)

theorem table_upsertBudget (store : LimiterStore) {b : StoredBudget} (hfits : b.Fits) :
    store.table.upsertBudget b = .ok (store.upsertBudget b).table := by
  rw [upsertBudget_eq (rfl : _ = rowOf (store.budgets _) (store.budgetUsages _)) hfits]
  congr 1
  funext c
  by_cases hc : c = b.companyId <;> simp [LimiterStore.table, LimiterStore.upsertBudget, hc]

theorem table_upsertBudgetUsage (store : LimiterStore) {u : StoredBudgetUsage} (hfits : u.Fits) :
    store.table.upsertBudgetUsage u = .ok (store.upsertBudgetUsage u).table := by
  rw [upsertBudgetUsage_eq (rfl : _ = rowOf (store.budgets _) (store.budgetUsages _)) hfits]
  congr 1
  funext c
  by_cases hc : c = u.companyId <;> simp [LimiterStore.table, LimiterStore.upsertBudgetUsage, hc]

/-- Every entitlement is stored under the company it names. -/
def LimiterStore.Owned (store : LimiterStore) : Prop :=
  ∀ c b, store.budgets c = some b → b.companyId = c

theorem owned_upsertBudget {store : LimiterStore} (hown : store.Owned) (b : StoredBudget) :
    (store.upsertBudget b).Owned := by
  intro c b' hb'
  unfold LimiterStore.upsertBudget at hb'
  dsimp only at hb'
  rw [Function.update_apply] at hb'
  split_ifs at hb' with hc
  · rw [hc, Option.some.inj hb']
  · exact hown c b' hb'

theorem table_loadBudget {store : LimiterStore} (hown : store.Owned) (c : Int) :
    store.table.loadBudget c =
      if store.budgets c = none ∧ store.budgetUsages c ≠ none then
        .error "company_credit_budget row decode failed"
      else .ok (store.loadBudget c) := by
  have hrow : store.table c = rowOf (store.budgets c) (store.budgetUsages c) := rfl
  cases hb : store.budgets c with
  | none =>
    cases hu : store.budgetUsages c with
    | none => simp [BudgetTable.loadBudget, LimiterStore.loadBudget, hrow, hb, hu, rowOf]
    | some u =>
      have hcells : store.table c = some (cellsOf none (some u)) := by rw [hrow, hb, hu]; rfl
      unfold BudgetTable.loadBudget
      rw [hcells]
      rfl
  | some b =>
    have hsome : store.budgets c ≠ none := by rw [hb]; simp
    have hload := (loadBudget_rowOf hrow).mpr (.inl hsome)
    have hhalves : lastWritten c (some b) (store.budgetUsages c) = store.loadBudget c := by
      unfold LimiterStore.loadBudget
      rw [hb]
      cases store.budgetUsages c <;> simp [lastWritten, halvesOf, ← hown c b hb]
    rw [hload, hb, hhalves, if_neg (by simp)]

/-- **The Scylla table refines the store of the limiter.** As long as every entitlement is stored
under the company it names, which both writes keep, the writes whose values fit their columns are
those of the store, and the read is that of the store, except that it fails on a row whose
entitlement half nobody has written. -/
theorem table_refines (store : LimiterStore) (hown : store.Owned) :
    (∀ b : StoredBudget, b.Fits →
      store.table.upsertBudget b = .ok (store.upsertBudget b).table ∧
        (store.upsertBudget b).Owned) ∧
    (∀ u : StoredBudgetUsage, u.Fits →
      store.table.upsertBudgetUsage u = .ok (store.upsertBudgetUsage u).table ∧
        (store.upsertBudgetUsage u).Owned) ∧
    ∀ c, store.table.loadBudget c =
      if store.budgets c = none ∧ store.budgetUsages c ≠ none then
        .error "company_credit_budget row decode failed"
      else .ok (store.loadBudget c) :=
  ⟨fun b hb => ⟨table_upsertBudget store hb, owned_upsertBudget hown b⟩,
    fun _ hu => ⟨table_upsertBudgetUsage store hu, hown⟩, table_loadBudget hown⟩

def writtenBudget : StoredBudget :=
  ⟨7, ⟨100, 10⟩, 20820, ⟨3000, 300⟩, ⟨3000, 300⟩, 1800000000⟩

def writtenUsage : StoredBudgetUsage :=
  ⟨7, 20833, ⟨40, 4⟩, 20820, ⟨900, 90⟩, 5, 50, 1800000060⟩

/-- Both halves of a row are written and read back. -/
theorem table_refines_written :
    (do ((← LimiterStore.empty.table.upsertBudget writtenBudget).upsertBudgetUsage writtenUsage) >>=
      (·.loadBudget 7)) = .ok (some ⟨writtenBudget, writtenUsage.extra⟩) := by
  obtain ⟨hbudget, hown⟩ := (table_refines .empty nofun).1 writtenBudget (by decide)
  obtain ⟨husage, hown⟩ := (table_refines _ hown).2.1 writtenUsage (by decide)
  have hload := (table_refines _ hown).2.2 7
  rw [hbudget]
  dsimp only [bind, Except.bind]
  rw [husage]
  exact hload

/-- A charge that the pool pays for a company without an entitlement, and a flush of it. -/
def pooledCharge : List Action :=
  let keys : List UsageKey := [⟨7, 42, 106000000⟩, ⟨7, 42, 200020833⟩, ⟨7, -1, 106000000⟩,
    ⟨7, -1, 200020833⟩]
  let writes := (List.replicate 5 [Action.flush (.write true true), .flush .mark]).flatten
  List.flatten [[.admission sampleRequest 1800000000 0 (fun _ => .done), .flush .start,
    .flush (.collect keys), .flush (.collectPlatform [⟨0, -1, 106000000⟩])], writes,
    [.flush (.prune none), .flush (.budget (some 1800000000)), .flush (.budgetCollect [7]),
      .flush (.budgetWrite true true), .flush .budgetMark]]

/-- The next cold load of the company fails. -/
theorem pooledCharge_unloadable :
    ∃ w, Reaches (step sampleConfig) (fun _ a => a.Parsed) (World.boot .empty) w ∧
      w.process.store.table.loadBudget 7 = .error "company_credit_budget row decode failed" :=
  exists_of_runList pooledCharge (by decide +kernel)

end Fareward.Limiter
