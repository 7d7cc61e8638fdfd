import Mathlib.Tactic.MkIffOfInductiveProp
import TradingStrategy.Action.Node
import TradingStrategy.Proofs.Lossless

set_option autoImplicit false

namespace TradingStrategy

open Wire (Flat Lossless Scalar)

namespace Json

variable {j : Json} {es : List (String × Json)}

theorem plainWord_of_settled (settled : j.settled = true) : j.plainWord = j := by
  cases j with
  | object => contradiction
  | _ => rfl

theorem kept?_of_settled (settled : j.settled = true) : j.kept? = some j := by
  unfold kept?
  rw [normalize_of_settled settled]
  cases j with
  | array | object => contradiction
  | _ => rfl

theorem kept?_of_flat (flat : ∀ e ∈ es, e.2.settled = true) :
    (object es).kept? = some (object es) := by
  obtain ⟨ns, made⟩ := exists_normalizeEntries [] fun e member =>
    ⟨e.2, normalize_of_settled (flat e member)⟩
  have words : es.map (fun e => (e.1, e.2.plainWord)) = es := by
    rw [List.map_congr_left fun e member => by rw [plainWord_of_settled (flat e member)]]
    exact List.map_id es
  unfold kept?
  rw [normalize, made, Option.map_some, Option.map_some, Option.some.injEq]
  split
  next form =>
    obtain rfl := object.inj form
    have empty := flat _ List.mem_cons_self
    contradiction
  next form =>
    obtain rfl := object.inj form
    rw [words]
  next form => contradiction
  next form _ => exact absurd rfl (form es)

-- Whatever is like an object of scalars is one, of the same scalars.
theorem Alike.flat (alike : (Json.object es).Alike j) (flat : ∀ e ∈ es, e.2.settled = true) :
    ∃ fs, j = .object fs ∧ ∀ e ∈ fs, e.2.settled = true := by
  obtain ⟨fs, rfl, nodup, lookups⟩ := alike.object
  refine ⟨fs, rfl, fun e member => ?_⟩
  have held := lookups e.1
  rw [Entries.lookup_of_mem nodup member] at held
  obtain ⟨j, found, alike⟩ := exists_of_rel_some_right held
  have settled := flat _ (Entries.mem_of_lookup found)
  rwa [alike.settled settled]

end Json

theorem Tagged.plain {name : String} {data : Json} (plain : data.Plain) :
    (Json.record [("type", some (.string name)), ("data", some data)]).Plain := by
  have word : (Json.string name).Plain := Json.plain_of_settled rfl
  exact Wire.plain_record (by simp) (by simp [word, plain])

theorem Tagged.exists_ofJson? {name : String} {data j : Json}
    (alike : (Json.record [("type", some (.string name)), ("data", some data)]).Alike j)
    (kept : ∀ d, data.Alike d → d.kept? = some d) :
    ∃ d, data.Alike d ∧ Tagged.ofJson? j = some ⟨.string name, d⟩ := by
  obtain ⟨fs, rfl, nodup, lookups⟩ := alike.object
  have hasType : Option.Rel Json.Alike (some (.string name)) (fs.lookup "type") := lookups "type"
  have hasData : Option.Rel Json.Alike (some data) (fs.lookup "data") := lookups "data"
  obtain ⟨t, type, same⟩ := exists_of_rel_some_left hasType
  obtain ⟨d, body, like⟩ := exists_of_rel_some_left hasData
  obtain rfl := same.settled rfl
  refine ⟨d, like, ?_⟩
  rw [Tagged.ofJson?, Fields.ofJson?_object nodup]
  simp [Fields.get?, type, body, kept d like]

theorem Wire.Flat.kept?_eq {α : Type} [Wire α] {x : α} (flat : Flat x) {j : Json}
    (alike : (Wire.toJson x).Alike j) : j.kept? = some j := by
  obtain ⟨es, form, settled⟩ := flat.form
  rw [form] at alike
  obtain ⟨fs, rfl, settledToo⟩ := alike.flat settled
  exact Json.kept?_of_flat settledToo

@[simp] theorem Segment.scalar (s : Segment) : Scalar s := by
  cases s <;> exact ⟨rfl, rfl⟩

@[simp] theorem Transaction.scalar (t : Transaction) : Scalar t := by
  cases t <;> exact ⟨rfl, rfl⟩

@[simp] theorem OptionKind.scalar (k : OptionKind) : Scalar k := by
  cases k <;> exact ⟨rfl, rfl⟩

@[simp] theorem StrikeBy.scalar (s : StrikeBy) : Scalar s := by
  cases s
  exact ⟨rfl, rfl⟩

@[simp] theorem Expiry.scalar (e : Expiry) : Scalar e := by
  cases e <;> exact ⟨rfl, rfl⟩

@[simp] theorem RiskUnit.scalar (u : RiskUnit) : Scalar u := by
  cases u <;> exact ⟨rfl, rfl⟩

@[simp] theorem Instruction.scalar (a : Instruction) : Scalar a := by
  cases a <;> exact ⟨rfl, rfl⟩

namespace LegTerms

variable {t : LegTerms}

theorem settled_of_mem_fields : ∀ p ∈ t.fields, ∀ w ∈ p.2, w.settled = true := by
  simp [fields, Scalar.settled]

theorem ofFields?_eq {f : Fields} (held : f.Holds t.fields) : ofFields? f = some t := by
  obtain ⟨id, segment, transaction, kind, quantity, strikeBy, strike, expiry, expiryNo, _⟩ := held
  simp [ofFields?, Fields.required_eq id, Fields.required_eq segment,
    Fields.required_eq transaction, Fields.optional_eq kind (by simp) rfl,
    Fields.required_eq quantity, Fields.required_eq strikeBy, Fields.required_eq strike,
    Fields.required_eq expiry, Fields.required_eq expiryNo]

end LegTerms

@[mk_iff]
structure Leg.Writable (l : Leg) : Prop where
  target : l.target.value.isFinite = true
  stopLoss : l.stopLoss.value.isFinite = true
  trailingX : l.trailing.x.isFinite = true
  trailingY : l.trailing.y.isFinite = true
  wait : l.wait.value.isFinite = true
  targetReEntry : l.targetReEntry.value.isFinite = true
  stopReEntry : l.stopReEntry.value.isFinite = true

instance : DecidablePred Leg.Writable := fun _ =>
  decidable_of_iff' _ (Leg.writable_iff _)

theorem Leg.flat {l : Leg} (writable : l.Writable) : Flat l := by
  have target := Wire.scalar_binary64 writable.target
  have stop := Wire.scalar_binary64 writable.stopLoss
  have moveX := Wire.scalar_binary64 writable.trailingX
  have moveY := Wire.scalar_binary64 writable.trailingY
  have wait := Wire.scalar_binary64 writable.wait
  have again := Wire.scalar_binary64 writable.targetReEntry
  have againStop := Wire.scalar_binary64 writable.stopReEntry
  refine .of_record rfl (fun _ => rfl) rfl (by decide) ?_ ?_
  · rw [List.forall_mem_append]
    refine ⟨LegTerms.settled_of_mem_fields, ?_⟩
    simp [Scalar.settled, target, stop, moveX, moveY, wait, again, againStop]
  · intro f held
    rw [Fields.holds_append] at held
    obtain ⟨terms, isTarget, targetOn, targetValue, isStop, stopOn, stopValue, isTrailing,
      trailingOn, x, y, isWait, waitOn, waitValue, isAgain, againOn, againValue, againMax,
      isAgainStop, againStopOn, againStopValue, againStopMax, _⟩ := held
    simp [LegTerms.ofFields?_eq terms, Fields.required_eq isTarget, Fields.required_eq targetOn,
      Fields.required_eq targetValue target.lossless, Fields.required_eq isStop,
      Fields.required_eq stopOn, Fields.required_eq stopValue stop.lossless,
      Fields.required_eq isTrailing, Fields.required_eq trailingOn,
      Fields.required_eq x moveX.lossless, Fields.required_eq y moveY.lossless,
      Fields.required_eq isWait, Fields.required_eq waitOn,
      Fields.required_eq waitValue wait.lossless, Fields.required_eq isAgain,
      Fields.required_eq againOn, Fields.required_eq againValue again.lossless,
      Fields.required_eq againMax, Fields.required_eq isAgainStop,
      Fields.required_eq againStopOn, Fields.required_eq againStopValue againStop.lossless,
      Fields.required_eq againStopMax]

@[mk_iff]
structure SentLeg.Writable (p : SentLeg) : Prop where
  target : ∀ x ∈ p.target.value, x.isFinite = true
  stopLoss : ∀ x ∈ p.stopLoss.value, x.isFinite = true
  trailingX : ∀ x ∈ p.trailing.x, x.isFinite = true
  trailingY : ∀ x ∈ p.trailing.y, x.isFinite = true
  wait : ∀ x ∈ p.wait.value, x.isFinite = true
  targetReEntry : ∀ x ∈ p.targetReEntry.value, x.isFinite = true
  stopReEntry : ∀ x ∈ p.stopReEntry.value, x.isFinite = true

instance : DecidablePred SentLeg.Writable := fun _ =>
  decidable_of_iff' _ (SentLeg.writable_iff _)

theorem SentLeg.flat {p : SentLeg} (writable : p.Writable) : Flat p := by
  have finite {o : Option Binary64} (each : ∀ x ∈ o, x.isFinite = true) : ∀ x ∈ o, Scalar x :=
    fun x held => Wire.scalar_binary64 (each x held)
  have read {o : Option Binary64} (each : ∀ x ∈ o, x.isFinite = true) : ∀ x ∈ o, Lossless x :=
    fun x held => (finite each x held).lossless
  refine .of_record rfl (fun _ => rfl) rfl (by decide) ?_ ?_
  · rw [List.forall_mem_append]
    refine ⟨LegTerms.settled_of_mem_fields, ?_⟩
    have target := finite writable.target
    have stop := finite writable.stopLoss
    have moveX := finite writable.trailingX
    have moveY := finite writable.trailingY
    have wait := finite writable.wait
    have again := finite writable.targetReEntry
    have againStop := finite writable.stopReEntry
    clear finite read
    simp only [List.forall_mem_cons, Option.forall_mem_map]
    simp_all [Scalar.settled]
  · intro f held
    rw [Fields.holds_append] at held
    obtain ⟨terms, isTarget, targetOn, targetValue, isStop, stopOn, stopValue, isTrailing,
      trailingOn, x, y, isWait, waitOn, waitValue, isAgain, againOn, againValue, againMax,
      isAgainStop, againStopOn, againStopValue, againStopMax, _⟩ := held
    simp [LegTerms.ofFields?_eq terms, Fields.optional_eq isTarget (by simp) rfl,
      Fields.optional_eq targetOn (by simp) rfl,
      Fields.optional_eq targetValue (read writable.target) rfl,
      Fields.optional_eq isStop (by simp) rfl, Fields.optional_eq stopOn (by simp) rfl,
      Fields.optional_eq stopValue (read writable.stopLoss) rfl,
      Fields.optional_eq isTrailing (by simp) rfl, Fields.optional_eq trailingOn (by simp) rfl,
      Fields.optional_eq x (read writable.trailingX) rfl,
      Fields.optional_eq y (read writable.trailingY) rfl,
      Fields.optional_eq isWait (by simp) rfl, Fields.optional_eq waitOn (by simp) rfl,
      Fields.optional_eq waitValue (read writable.wait) rfl,
      Fields.optional_eq isAgain (by simp) rfl, Fields.optional_eq againOn (by simp) rfl,
      Fields.optional_eq againValue (read writable.targetReEntry) rfl,
      Fields.optional_eq againMax (by simp) rfl, Fields.optional_eq isAgainStop (by simp) rfl,
      Fields.optional_eq againStopOn (by simp) rfl,
      Fields.optional_eq againStopValue (read writable.stopReEntry) rfl,
      Fields.optional_eq againStopMax (by simp) rfl]

-- A feature that is off is sent without its numbers.
theorem Leg.Writable.compile {l : Leg} (writable : l.Writable) : l.compile.Writable := by
  obtain ⟨target, stop, x, y, wait, again, againStop⟩ := writable
  constructor
  all_goals
    simp only [Leg.compile, Threshold.compile, Trailing.compile, WaitTrade.compile,
      ReEntry.compile]
    split <;> simp [*]

def ItemContent.Writable : ItemContent → Prop
  | .position leg => leg.Writable
  | .action _ => True

instance : DecidablePred ItemContent.Writable
  | .position leg => inferInstanceAs (Decidable leg.Writable)
  | .action _ => .isTrue trivial

theorem ItemContent.lossless {c : ItemContent} (writable : c.Writable) : Lossless c := by
  cases c with
  | position leg =>
    have flat := Leg.flat writable
    refine ⟨Tagged.plain flat.lossless.plain, fun j alike => ?_⟩
    obtain ⟨d, like, opened⟩ := Tagged.exists_ofJson? alike fun _ => flat.kept?_eq
    show (Tagged.ofJson? j).bind _ = some (ItemContent.position leg)
    rw [opened, Option.bind_some]
    simp [Wire.word?, flat.lossless.reads d like]
  | action a =>
    have scalar := Instruction.scalar a
    refine ⟨Tagged.plain scalar.lossless.plain, fun j alike => ?_⟩
    obtain ⟨d, like, opened⟩ := Tagged.exists_ofJson? alike fun _ like => by
      rw [like.settled scalar.settled]
      exact Json.kept?_of_settled scalar.settled
    show (Tagged.ofJson? j).bind _ = some (ItemContent.action a)
    rw [opened, Option.bind_some]
    simp [Wire.word?, List.lookup_cons, scalar.lossless.reads d like]

theorem Item.lossless {i : Item} (writable : i.body.Writable) : Lossless i := by
  have body := ItemContent.lossless writable
  refine .of_record rfl (fun _ => rfl) rfl (by decide)
    (by simp [Wire.Lossless.plain, body.plain]) ?_
  rintro f ⟨id, order, content, _⟩
  simp [Fields.required_eq id, Fields.required_eq order, Fields.required_eq content body]

def Action.Writable (a : Action) : Prop := ∀ i ∈ a.items, i.body.Writable

instance : DecidablePred Action.Writable := fun a =>
  inferInstanceAs (Decidable (∀ i ∈ a.items, i.body.Writable))

theorem Action.lossless {a : Action} (writable : a.Writable) : Lossless a := by
  have items := Wire.lossless_list fun i member => Item.lossless (writable i member)
  refine .of_record rfl (fun _ => rfl) rfl (by decide)
    (by simp [Wire.Lossless.plain, items.plain]) ?_
  rintro f ⟨name, list, _⟩
  simp [Fields.required_eq name, Fields.required_eq list items]

def Call.Writable (c : Call) : Prop := ∀ p ∈ c.params, p.Writable

instance : DecidablePred Call.Writable := fun c =>
  inferInstanceAs (Decidable (∀ p ∈ c.params, p.Writable))

theorem Call.lossless {c : Call} (writable : c.Writable) : Lossless c := by
  have params : ∀ p ∈ c.params, Lossless p := fun p held =>
    (SentLeg.flat (writable p held)).lossless
  refine .of_record rfl (fun _ => rfl) rfl (by decide) ?_ ?_
  · simp_all [Wire.Lossless.plain]
  · rintro f ⟨func, leg, _⟩
    simp [Fields.required_eq func, Fields.optional_eq leg params rfl]

def SentAction.Writable (a : SentAction) : Prop := ∀ c ∈ a.act, c.Writable

instance : DecidablePred SentAction.Writable := fun a =>
  inferInstanceAs (Decidable (∀ c ∈ a.act, c.Writable))

theorem SentAction.lossless {a : SentAction} (writable : a.Writable) : Lossless a := by
  have calls := Wire.lossless_list fun c member => Call.lossless (writable c member)
  refine .of_record rfl (fun _ => rfl) rfl (by decide)
    (by simp [Wire.Lossless.plain, calls.plain]) ?_
  rintro f ⟨description, act, _⟩
  simp [Fields.required_eq description, Fields.required_eq act calls]

theorem ItemContent.Writable.ofBody {c : ItemContent} (writable : c.Writable) :
    (Call.ofBody c).Writable := by
  cases c with
  | position leg =>
    have sent : leg.compile.Writable := Leg.Writable.compile writable
    simpa [Call.ofBody, Call.Writable] using sent
  | action a => simp [Call.ofBody, Call.Writable]

theorem Action.Writable.compile {a : Action} (writable : a.Writable) : a.compile.Writable :=
  List.forall_mem_map.2 fun i member => (writable i (List.mem_mergeSort.1 member)).ofBody

end TradingStrategy
