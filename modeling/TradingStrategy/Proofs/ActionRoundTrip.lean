import TradingStrategy.Action.Node
import TradingStrategy.Proofs.Draws
import TradingStrategy.Proofs.Effects

set_option autoImplicit false

namespace TradingStrategy

-- A risk feature is wholly absent, or wholly there with its switch on.

def SentFeature.Whole (f : SentFeature) : Prop :=
  f = {} ∨ ∃ basis value, f = ⟨some true, some basis, some value⟩

def SentTrailing.Whole (f : SentTrailing) : Prop :=
  f = {} ∨ ∃ basis x y, f = ⟨some true, some basis, some x, some y⟩

def SentReEntry.Whole (f : SentReEntry) : Prop :=
  f = {} ∨ ∃ basis value count, f = ⟨some true, some basis, some value, some count⟩

def RiskUnit.Named (basis : Option String) : Prop := ∀ t, basis = some t → t = "%" ∨ t = "val"

def ReEntry.Limited (count : Option UInt32) : Prop := ∀ n, count = some n → n ≤ ReEntry.limit

structure SentLeg.Canonical (p : SentLeg) : Prop where
  target : p.target.Whole ∧ RiskUnit.Named p.target.basis
  stopLoss : p.stopLoss.Whole ∧ RiskUnit.Named p.stopLoss.basis
  trailing : p.trailing.Whole ∧ RiskUnit.Named p.trailing.basis
  wait : p.wait.Whole
  targetReEntry : p.targetReEntry.Whole ∧ ReEntry.Limited p.targetReEntry.maxCount
  stopReEntry : p.stopReEntry.Whole ∧ ReEntry.Limited p.stopReEntry.maxCount

theorem RiskUnit.token_ofToken {t : String} (named : t = "%" ∨ t = "val") :
    (ofToken t).token = t := by
  rcases named with rfl | rfl
  · rfl
  · rfl

theorem RiskUnit.named_token (u : RiskUnit) : Named (some u.token) := by
  intro t same
  cases u with
  | percent => exact .inl (Option.some.inj same).symm
  | currency => exact .inr (Option.some.inj same).symm

theorem Threshold.compile_ofParams {f : SentFeature} (whole : f.Whole)
    (named : RiskUnit.Named f.basis) : (ofParams f).compile = f := by
  rcases whole with rfl | ⟨basis, value, rfl⟩
  · rfl
  · simp [ofParams, compile, RiskUnit.token_ofToken (named basis rfl)]

theorem Threshold.compile_canonical (t : Threshold) :
    t.compile.Whole ∧ RiskUnit.Named t.compile.basis := by
  rw [compile]
  split
  next => exact ⟨.inr ⟨_, _, rfl⟩, t.basis.named_token⟩
  next => exact ⟨.inl rfl, fun t same => by cases same⟩

theorem Trailing.compile_ofParams {f : SentTrailing} (whole : f.Whole)
    (named : RiskUnit.Named f.basis) : (ofParams f).compile = f := by
  rcases whole with rfl | ⟨basis, x, y, rfl⟩
  · rfl
  · simp [ofParams, compile, RiskUnit.token_ofToken (named basis rfl)]

theorem Trailing.compile_canonical (t : Trailing) :
    t.compile.Whole ∧ RiskUnit.Named t.compile.basis := by
  rw [compile]
  split
  next => exact ⟨.inr ⟨_, _, _, rfl⟩, t.basis.named_token⟩
  next => exact ⟨.inl rfl, fun t same => by cases same⟩

theorem WaitTrade.compile_ofParams {f : SentFeature} (whole : f.Whole) :
    (ofParams f).compile = f := by
  rcases whole with rfl | ⟨basis, value, rfl⟩
  · rfl
  · rfl

theorem WaitTrade.compile_whole (w : WaitTrade) : w.compile.Whole := by
  rw [compile]
  split
  next => exact .inr ⟨_, _, rfl⟩
  next => exact .inl rfl

theorem ReEntry.min_limit {n : UInt32} (below : n ≤ limit) : min n limit = n := by
  show (if n ≤ limit then n else limit) = n
  rw [if_pos below]

theorem ReEntry.min_le_limit (n : UInt32) : min n limit ≤ limit := by
  show (if n ≤ limit then n else limit) ≤ limit
  split
  next below => exact below
  next => exact UInt32.le_refl limit

theorem ReEntry.compile_ofParams {f : SentReEntry} (whole : f.Whole)
    (limited : ReEntry.Limited f.maxCount) : (ofParams f).compile = f := by
  rcases whole with rfl | ⟨basis, value, count, rfl⟩
  · rfl
  · have kept : min (min count limit) limit = count := by
      rw [min_limit (limited count rfl), min_limit (limited count rfl)]
    simp [ofParams, compile, kept]

theorem ReEntry.compile_canonical (r : ReEntry) :
    r.compile.Whole ∧ ReEntry.Limited r.compile.maxCount := by
  rw [compile]
  split
  next =>
    refine ⟨.inr ⟨_, _, _, rfl⟩, fun n same => ?_⟩
    rw [← Option.some.inj same]
    exact min_le_limit _
  next => exact ⟨.inl rfl, fun n same => by cases same⟩

theorem SentLeg.compile_restore {p : SentLeg} (canonical : p.Canonical) :
    p.restore.compile = p := by
  rw [restore, Leg.compile, Threshold.compile_ofParams canonical.target.1 canonical.target.2,
    Threshold.compile_ofParams canonical.stopLoss.1 canonical.stopLoss.2,
    Trailing.compile_ofParams canonical.trailing.1 canonical.trailing.2,
    WaitTrade.compile_ofParams canonical.wait,
    ReEntry.compile_ofParams canonical.targetReEntry.1 canonical.targetReEntry.2,
    ReEntry.compile_ofParams canonical.stopReEntry.1 canonical.stopReEntry.2]

theorem Leg.compile_canonical (l : Leg) : l.compile.Canonical :=
  ⟨l.target.compile_canonical, l.stopLoss.compile_canonical, l.trailing.compile_canonical,
    l.wait.compile_whole, l.targetReEntry.compile_canonical, l.stopReEntry.compile_canonical⟩

namespace Call

inductive Canonical : Call → Prop
  | leg {params : SentLeg} (canonical : params.Canonical) : Canonical ⟨addLeg, some params⟩
  | instruction (a : Instruction) : Canonical ⟨a.func, none⟩

theorem canonical_ofBody (body : ItemContent) : (ofBody body).Canonical := by
  cases body with
  | position leg => exact .leg leg.compile_canonical
  | action a => exact .instruction a

theorem Canonical.body? {call : Call} (canonical : call.Canonical) (action : String) :
    ∃ body, call.body? action = .ok (some body) ∧ ofBody body = call := by
  cases canonical with
  | @leg params canonical =>
    exact ⟨.position params.restore, rfl, by rw [ofBody, SentLeg.compile_restore canonical]⟩
  | instruction a =>
    cases a with
    | squareOffAll => exact ⟨.action .squareOffAll, rfl, rfl⟩
    | stopWaitTriggers => exact ⟨.action .stopWaitTriggers, rfl, rfl⟩

def lacksParams (call : Call) : Bool := call.func = addLeg && call.params.isNone

theorem body?_of_lacksParams {call : Call} (lacks : call.lacksParams = true) (action : String) :
    call.body? action = .error (.missingLegParams action) := by
  simp only [lacksParams, Bool.and_eq_true, decide_eq_true_eq, Option.isNone_iff_eq_none] at lacks
  rw [body?, if_pos lacks.1, lacks.2]

theorem exists_body? {call : Call} (given : call.lacksParams = false) (action : String) :
    ∃ body, call.body? action = .ok body := by
  rw [body?]
  split
  next leg =>
    cases params : call.params with
    | some p => exact ⟨_, rfl⟩
    | none => simp [lacksParams, leg, params] at given
  next => exact ⟨_, rfl⟩

theorem Canonical.lacksParams_eq_false {call : Call} (canonical : call.Canonical) :
    call.lacksParams = false := by
  cases canonical with
  | leg => rfl
  | instruction a => cases a <;> rfl

def bodies (action : String) (calls : List Call) : List ItemContent :=
  calls.filterMap fun call => (call.body? action).toOption.join

theorem bodies_cons {action : String} {call : Call} {body : Option ItemContent}
    (known : call.body? action = .ok body) (others : List Call) :
    bodies action (call :: others) = body.toList ++ bodies action others := by
  rw [bodies, List.filterMap_cons, known]
  cases body <;> rfl

theorem map_ofBody_bodies {action : String} {calls : List Call}
    (canonical : ∀ call ∈ calls, call.Canonical) : (bodies action calls).map ofBody = calls := by
  induction calls with
  | nil => rfl
  | cons call others ih =>
    rw [List.forall_mem_cons] at canonical
    obtain ⟨body, known, same⟩ := canonical.1.body? action
    rw [bodies_cons known, List.map_append, ih canonical.2]
    exact congrArg (· :: others) same

theorem length_bodies {calls : List Call} (canonical : ∀ call ∈ calls, call.Canonical)
    (action : String) : (bodies action calls).length = calls.length := by
  have same : (bodies action calls).map ofBody = calls := map_ofBody_bodies canonical
  rw [← List.length_map ofBody, same]

end Call

namespace Item

def InOrder (items : List Item) : Prop :=
  items.map Item.order = (List.range items.length).map UInt32.ofNat

theorem map_numbered {α : Type} (f : Item → α) (blind : ∀ x order, f { x with order } = f x)
    (items : List Item) : (numbered items).map f = items.map f := by
  have same : (f ∘ fun e : Item × Nat => { e.1 with order := UInt32.ofNat e.2 }) = f ∘ Prod.fst :=
    funext fun e => blind e.1 _
  rw [numbered, List.map_map, same, ← List.map_map, List.zipIdx_map_fst]

theorem length_sorted (items : List Item) : (sorted items).length = items.length :=
  List.length_mergeSort ..

theorem length_numbered (items : List Item) : (numbered items).length = items.length := by
  rw [numbered, List.length_map, List.length_zipIdx]

theorem inOrder_numbered (items : List Item) : InOrder (numbered items) := by
  have orders : (numbered items).map Item.order = (items.zipIdx.map Prod.snd).map UInt32.ofNat := by
    rw [numbered, List.map_map, List.map_map]
    rfl
  rw [InOrder, orders, List.zipIdx_map_snd, List.range_eq_range', length_numbered]

theorem InOrder.order {items : List Item} (inOrder : InOrder items) {i : Nat}
    (inside : i < items.length) : items[i].order = UInt32.ofNat i := by
  have place := congrArg (·[i]?) inOrder
  simpa [inside] using place

-- Numbers below 2 ^ 32 do not wrap, so their order is that of the items.
theorem InOrder.sorted {items : List Item} (inOrder : InOrder items)
    (few : items.length ≤ UInt32.size) : sorted items = items := by
  have ascending : (items.map Item.order).Pairwise (· ≤ ·) := by
    rw [inOrder, List.pairwise_map]
    refine List.pairwise_lt_range.imp_of_mem fun {i j} _ inside less => ?_
    have below : j < UInt32.size := Nat.lt_of_lt_of_le (List.mem_range.1 inside) few
    rw [UInt32.le_iff_toNat_le, UInt32.toNat_ofNat_of_lt' below,
      UInt32.toNat_ofNat_of_lt' (Nat.lt_trans less below)]
    exact Nat.le_of_lt less
  refine List.mergeSort_of_pairwise ((List.pairwise_map.1 ascending).imp fun le => ?_)
  exact decide_eq_true le

theorem InOrder.numbered {items : List Item} (inOrder : InOrder items) :
    numbered items = items := by
  refine List.ext_getElem (length_numbered items) fun i _ inside => ?_
  simp [Item.numbered, ← inOrder.order inside]

end Item

namespace Action

theorem compile_canonical (a : Action) : ∀ call ∈ a.compile.act, call.Canonical := by
  intro call member
  obtain ⟨item, _, rfl⟩ := List.mem_map.1 member
  exact Call.canonical_ofBody item.body

theorem addItem_of_inOrder {a : Action} (inOrder : Item.InOrder a.items)
    (few : a.items.length ≤ UInt32.size) (id : String) (body : ItemContent) :
    a.addItem id body =
      { a with items := a.items ++ [⟨id, UInt32.ofNat a.items.length, body⟩] } := by
  rw [addItem, renumber, inOrder.sorted few, inOrder.numbered]

theorem inOrder_addItem (a : Action) (id : String) (body : ItemContent) :
    Item.InOrder (a.addItem id body).items := by
  have before : Item.InOrder a.renumber.items := Item.inOrder_numbered _
  rw [Item.InOrder] at before ⊢
  simp [addItem, before, List.range_succ]

end Action

namespace SentAction

open IdSource (Given)

variable {action : String} {source rest : IdSource}

theorem addItems_known {call : Call} {body : ItemContent}
    (known : call.body? action = .ok (some body)) (others : List Call) (taken : List String)
    (node : Action) :
    addItems action (call :: others) taken node =
      Drawing.relabel .ids (Drawing.uniqueAmong "item" taken) >>= fun drawn =>
        addItems action others drawn.2 (node.addItem drawn.1 body) := by
  rw [addItems, known]
  rfl

theorem addItems_invariant {P : List String → Action → Prop}
    (kept : ∀ {taken left : List String} {node : Action} {id : String} {source rest : IdSource}
      (body : ItemContent), P taken node →
      (Drawing.uniqueAmong "item" taken).exec source = (.ok (id, left), rest) →
      P left (node.addItem id body))
    {calls : List Call} {taken : List String} {node y : Action} (begins : P taken node)
    (done : (addItems action calls taken node).exec source = (.ok y, rest)) :
    ∃ left, P left y := by
  induction calls generalizing taken node source with
  | nil =>
    rw [addItems, Drawing.pure_eq_ok_iff] at done
    exact ⟨taken, done.1 ▸ begins⟩
  | cons call others ih =>
    rw [addItems, Drawing.bind_eq_ok_iff] at done
    obtain ⟨body, _, _, done⟩ := done
    cases body with
    | none => exact ih begins done
    | some body =>
      obtain ⟨⟨id, left⟩, _, drawn, done⟩ := Drawing.bind_eq_ok_iff.1 done
      exact ih (kept body begins (Drawing.relabel_eq_ok_iff.1 drawn)) done

theorem inOrder_of_restore {c : SentAction} {y : Action}
    (done : (c.restore action).exec source = (.ok y, rest)) : Item.InOrder y.items := by
  have empty : Item.InOrder (Action.empty c.description).items := rfl
  obtain ⟨_, inOrder⟩ := addItems_invariant (P := fun _ node => Item.InOrder node.items)
    (fun body _ _ => Action.inOrder_addItem _ _ body) empty done
  exact inOrder

theorem addItems_ok {calls : List Call} (narrow : source.Narrow) {taken : List String}
    (given : Given "item" taken) {node y : Action} (count : taken.length = node.items.length)
    (inOrder : Item.InOrder node.items)
    (done : (addItems action calls taken node).exec source = (.ok y, rest)) :
    y.name = node.name ∧ Item.InOrder y.items ∧ y.items.length ≤ UInt32.size ∧
      y.items.map Item.body = node.items.map Item.body ++ Call.bodies action calls := by
  induction calls generalizing source taken node with
  | nil =>
    rw [addItems, Drawing.pure_eq_ok_iff] at done
    rw [← done.1, Call.bodies, List.filterMap_nil, List.append_nil]
    exact ⟨rfl, inOrder, count ▸ given.length_le, rfl⟩
  | cons call others ih =>
    rw [addItems, Drawing.bind_eq_ok_iff] at done
    obtain ⟨body, _, read, done⟩ := done
    rw [Drawing.exec_lift] at read
    obtain ⟨known, rfl⟩ := Prod.mk.inj read
    rw [Call.bodies_cons known]
    cases body with
    | none => exact ih narrow given count inOrder done
    | some body =>
      obtain ⟨⟨id, taken'⟩, middle, drawn, done⟩ := Drawing.bind_eq_ok_iff.1 done
      have unique := Drawing.relabel_eq_ok_iff.1 drawn
      obtain ⟨rfl, given'⟩ := Drawing.uniqueAmong_ok narrow given unique
      have narrow' : middle.Narrow :=
        ((Drawing.keepsDraws_uniqueAmong "item" taken).relabel _).narrow drawn narrow
      -- Each item has an id of its own, so there are too few of them for the numbers to wrap.
      have added := Action.addItem_of_inOrder inOrder (count ▸ given.length_le) id body
      have later := ih narrow' given' (by simp [added, count])
        (Action.inOrder_addItem node id body) done
      rw [added] at later
      simpa using later

theorem restore_ok {c : SentAction} (narrow : source.Narrow) {y : Action}
    (done : (c.restore action).exec source = (.ok y, rest)) :
    y.name = c.description ∧ Item.InOrder y.items ∧ y.items.length ≤ UInt32.size ∧
      y.items.map Item.body = Call.bodies action c.act := by
  have empty : Item.InOrder (Action.empty c.description).items := rfl
  exact addItems_ok narrow ⟨List.nodup_nil, by simp⟩ rfl empty done

theorem compile_restored {c : SentAction} (canonical : ∀ call ∈ c.act, call.Canonical)
    (narrow : source.Narrow) {y : Action}
    (done : (c.restore action).exec source = (.ok y, rest)) : y.compile = c := by
  obtain ⟨name, inOrder, few, bodies⟩ := restore_ok narrow done
  have calls : (y.items.map Item.body).map Call.ofBody = c.act := by
    rw [bodies, Call.map_ofBody_bodies canonical]
  rw [List.map_map] at calls
  rw [Action.compile, inOrder.sorted few, name]
  exact congrArg (SentAction.mk c.description) calls

theorem addItems_unknown {call : Call} (unknown : call.body? action = .ok none)
    (others : List Call) (taken : List String) (node : Action) :
    addItems action (call :: others) taken node = addItems action others taken node := by
  rw [addItems, unknown]
  rfl

def fault? (action : String) (calls : List Call) : Option RestoreError :=
  if calls.any Call.lacksParams then some (.missingLegParams action) else none

theorem addItems_ends (calls : List Call) (taken : List String) (node : Action) :
    (addItems action calls taken node).Ends taken (Call.bodies action calls).length (fun _ => [])
      (fault? action calls) := by
  induction calls generalizing taken node with
  | nil => exact (Drawing.draws_pure node fun _ => taken).forget
  | cons call others ih =>
    cases lacks : call.lacksParams with
    | true =>
      rw [fault?, List.any_cons, lacks, Bool.true_or, if_pos rfl, addItems,
        Call.body?_of_lacksParams lacks]
      exact fun source _ => ⟨source, rfl⟩
    | false =>
      obtain ⟨body, known⟩ := Call.exists_body? lacks action
      rw [fault?, List.any_cons, lacks, Bool.false_or, Call.bodies_cons known]
      cases body with
      | none =>
        rw [addItems_unknown known]
        exact ih taken node
      | some body =>
        rw [addItems_known known, List.length_append]
        exact ((Drawing.draws_uniqueAmong "item" taken).relabel RestoreError.ids).ends.bind
          fun drawn _ _ _ => ih drawn.2 _

theorem restore_ends (c : SentAction) (action : String) :
    (c.restore action).Ends [] (Call.bodies action c.act).length (fun _ => [])
      (fault? action c.act) :=
  addItems_ends c.act [] _

def lacksParams (c : SentAction) : Bool := c.act.any Call.lacksParams

theorem lacksParams_eq_false {c : SentAction} (canonical : ∀ call ∈ c.act, call.Canonical) :
    c.lacksParams = false := by
  rw [lacksParams, List.any_eq_false]
  exact fun call member => by simp [(canonical call member).lacksParams_eq_false]

theorem fault?_act (action : String) (c : SentAction) :
    fault? action c.act = if c.lacksParams then some (.missingLegParams action) else none := rfl

theorem restore_draws {c : SentAction} (canonical : ∀ call ∈ c.act, call.Canonical) :
    (c.restore action).Draws [] c.act.length fun _ => [] := by
  have ends := c.restore_ends action
  rw [Call.length_bodies canonical, fault?_act, lacksParams_eq_false canonical] at ends
  exact ends

theorem keepsDraws_addItems (calls : List Call) (taken : List String) (node : Action) :
    (addItems action calls taken node).KeepsDraws := by
  induction calls generalizing taken node with
  | nil => exact Drawing.keepsDraws_pure node
  | cons call others ih =>
    have lifted : (liftM (call.body? action) : Drawing RestoreError _).KeepsDraws :=
      fun source => congrArg (·.2.draw) (Drawing.exec_lift (call.body? action) source)
    refine lifted.bind fun known => ?_
    cases known with
    | none => exact ih taken node
    | some body =>
      exact ((Drawing.keepsDraws_uniqueAmong "item" taken).relabel _).bind fun drawn =>
        ih drawn.2 _

theorem keepsDraws_restore (c : SentAction) : (c.restore action).KeepsDraws :=
  keepsDraws_addItems c.act [] _

end SentAction

end TradingStrategy
