import TradingStrategy.Proofs.ActionRoundTrip

set_option autoImplicit false

namespace TradingStrategy

theorem RiskUnit.ofToken_token (u : RiskUnit) : ofToken u.token = u := by
  cases u with
  | percent => rfl
  | currency => rfl

theorem Threshold.ofParams_compile (t : Threshold) :
    ofParams t.compile = if t.enabled then t else {} := by
  obtain ⟨_ | _, basis, value⟩ := t
  · rfl
  · simp [compile, ofParams, RiskUnit.ofToken_token]

theorem Trailing.ofParams_compile (t : Trailing) :
    ofParams t.compile = if t.enabled then t else {} := by
  obtain ⟨_ | _, basis, x, y⟩ := t
  · rfl
  · simp [compile, ofParams, RiskUnit.ofToken_token]

theorem WaitTrade.ofParams_compile (w : WaitTrade) :
    ofParams w.compile = if w.enabled then w else {} := by
  obtain ⟨_ | _, basis, value⟩ := w
  · rfl
  · rfl

def ReEntry.capped (r : ReEntry) : ReEntry := { r with maxCount := min r.maxCount limit }

theorem ReEntry.ofParams_compile (r : ReEntry) :
    ofParams r.compile = if r.enabled then r.capped else {} := by
  obtain ⟨_ | _, basis, value, maxCount⟩ := r
  · rfl
  · simp [compile, ofParams, capped, min_limit (min_le_limit maxCount)]

-- What is read from params is on, or as in a new leg.

theorem Threshold.ofParams_settled (p : SentFeature) :
    (if (ofParams p).enabled then ofParams p else {}) = ofParams p := by
  rw [ofParams]
  split <;> rfl

theorem Trailing.ofParams_settled (p : SentTrailing) :
    (if (ofParams p).enabled then ofParams p else {}) = ofParams p := by
  rw [ofParams]
  split <;> rfl

theorem WaitTrade.ofParams_settled (p : SentFeature) :
    (if (ofParams p).enabled then ofParams p else {}) = ofParams p := by
  rw [ofParams]
  split <;> rfl

theorem ReEntry.ofParams_settled (p : SentReEntry) :
    (if (ofParams p).enabled then (ofParams p).capped else {}) = ofParams p := by
  rw [ofParams]
  split
  next value _ => simp [capped, min_limit (min_le_limit (p.maxCount.getD 0))]
  next => rfl

/-- The leg with every feature that is off as in a new leg, and the re-entries that are on
capped. -/
def Leg.reloaded (l : Leg) : Leg :=
  let new := Leg.standard l.terms.id
  { terms := l.terms
    target := if l.target.enabled then l.target else new.target
    stopLoss := if l.stopLoss.enabled then l.stopLoss else new.stopLoss
    trailing := if l.trailing.enabled then l.trailing else new.trailing
    wait := if l.wait.enabled then l.wait else new.wait
    targetReEntry :=
      if l.targetReEntry.enabled then l.targetReEntry.capped else new.targetReEntry
    stopReEntry := if l.stopReEntry.enabled then l.stopReEntry.capped else new.stopReEntry }

theorem Leg.restore_compile (l : Leg) : l.compile.restore = l.reloaded := by
  rw [compile, SentLeg.restore, Threshold.ofParams_compile, Threshold.ofParams_compile,
    Trailing.ofParams_compile, WaitTrade.ofParams_compile, ReEntry.ofParams_compile,
    ReEntry.ofParams_compile]
  rfl

theorem SentLeg.reloaded_restore (p : SentLeg) : p.restore.reloaded = p.restore := by
  exact (Leg.mk.injEq ..).mpr ⟨rfl, Threshold.ofParams_settled p.target,
    Threshold.ofParams_settled p.stopLoss, Trailing.ofParams_settled p.trailing,
    WaitTrade.ofParams_settled p.wait, ReEntry.ofParams_settled p.targetReEntry,
    ReEntry.ofParams_settled p.stopReEntry⟩

theorem SentLeg.restore_twice (p : SentLeg) : p.restore.compile.restore = p.restore := by
  rw [Leg.restore_compile, reloaded_restore]

def ItemContent.reloaded : ItemContent → ItemContent
  | .position leg => .position leg.reloaded
  | .action a => .action a

namespace Call

theorem body?_ofBody (action : String) (body : ItemContent) :
    (ofBody body).body? action = .ok (some body.reloaded) := by
  cases body with
  | position leg =>
    rw [ItemContent.reloaded, ← leg.restore_compile]
    rfl
  | action a =>
    cases a with
    | squareOffAll => rfl
    | stopWaitTriggers => rfl

theorem bodies_map_ofBody (action : String) (contents : List ItemContent) :
    bodies action (contents.map ofBody) = contents.map ItemContent.reloaded := by
  induction contents with
  | nil => rfl
  | cons body rest ih =>
    rw [List.map_cons, bodies_cons (body?_ofBody action body), ih]
    rfl

end Call

namespace Action

variable {a y : Action}

structure Reloaded (a y : Action) : Prop where
  name : y.name = a.name
  bodies : y.items.map Item.body = (Item.sorted a.items).map fun item => item.body.reloaded
  inOrder : Item.InOrder y.items
  sent : y.compile = a.compile

theorem reloaded_of_restore {action : String} {source rest : IdSource} (narrow : source.Narrow)
    (done : (a.compile.restore action).exec source = (.ok y, rest)) : a.Reloaded y := by
  obtain ⟨name, inOrder, _, bodies⟩ := SentAction.restore_ok narrow done
  refine ⟨name, ?_, inOrder, SentAction.compile_restored a.compile_canonical narrow done⟩
  have sent : a.compile.act = ((Item.sorted a.items).map Item.body).map Call.ofBody := by
    rw [List.map_map]
    rfl
  rw [bodies, sent, Call.bodies_map_ofBody, List.map_map]
  rfl

/-- Saved and loaded again, an action is as it was up to what is not sent, and is sent as before.
Whatever the params of a leg are, the leg that they are read as is read again from what it is sent
as. -/
theorem reloads (a : Action) (action : String) {source : IdSource} (narrow : source.Narrow) :
    (source.Distinct a.items.length →
      ∃ y rest, (a.compile.restore action).exec source = (.ok y, rest)) ∧
    (∀ y rest, (a.compile.restore action).exec source = (.ok y, rest) → a.Reloaded y) ∧
    ∀ p : SentLeg, p.restore.compile.restore = p.restore := by
  have calls : a.compile.act.length = a.items.length := by
    rw [compile, List.length_map, Item.length_sorted]
  refine ⟨fun distinct => ?_, fun _ _ => reloaded_of_restore narrow, SentLeg.restore_twice⟩
  exact (SentAction.restore_draws a.compile_canonical).succeeds (calls ▸ distinct)

-- The leg has a target that is off, and more re-entries than the backend accepts.
def resold : Action :=
  let leg : Leg :=
    { Leg.standard "leg_1" with
      target := ⟨false, .currency, .ofInt 40⟩
      stopReEntry := ⟨true, "ReCost", .zero, 25⟩ }
  ⟨"Sell again", [⟨"leg", 7, .position leg⟩, ⟨"close", 3, .action .squareOffAll⟩]⟩

theorem resold_reloads :
    IdSource.wrapping.Narrow ∧ IdSource.wrapping.Distinct resold.items.length ∧
      ∃ y rest, (resold.compile.restore "a1").exec .wrapping = (.ok y, rest) ∧
        y.items.map Item.body = [.action .squareOffAll,
          .position { Leg.standard "leg_1" with stopReEntry := ⟨true, "ReCost", .zero, 20⟩ }] ∧
        y.compile = resold.compile := by
  have distinct : IdSource.wrapping.Distinct resold.items.length :=
    IdSource.distinct_wrapping (by decide)
  obtain ⟨succeeds, reloaded, _⟩ := reloads resold "a1" IdSource.narrow_wrapping
  obtain ⟨y, rest, done⟩ := succeeds distinct
  refine ⟨IdSource.narrow_wrapping, distinct, y, rest, done, ?_, (reloaded y rest done).sent⟩
  have sorted : Item.sorted resold.items = resold.items.reverse := by
    simp [Item.sorted, resold, List.mergeSort]
  rw [(reloaded y rest done).bodies, sorted]
  rfl

end Action

end TradingStrategy
