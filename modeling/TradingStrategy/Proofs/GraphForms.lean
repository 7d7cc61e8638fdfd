import Mathlib.Tactic.MkIffOfInductiveProp
import TradingStrategy.Graph.Basic
import TradingStrategy.Proofs.Lossless

set_option autoImplicit false

namespace TradingStrategy

open Wire (Lossless Scalar)

namespace Text

variable {sep : Char} {cs before after : List Char}

theorem cutLast_eq_none_iff : cutLast sep cs = none ↔ sep ∉ cs := by
  induction cs with
  | nil => simp [cutLast]
  | cons c rest ih =>
    rw [cutLast, List.mem_cons, not_or, ← ih]
    split
    next found => simp [found]
    next missing => simp [missing, eq_comm]

theorem cutLast_append (before : List Char) (absent : sep ∉ after) :
    cutLast sep (before ++ sep :: after) = some (before, after) := by
  induction before with
  | nil => simp [cutLast, cutLast_eq_none_iff.2 absent]
  | cons c rest ih => rw [List.cons_append, cutLast, ih]

theorem cutLast_eq_some_iff :
    cutLast sep cs = some (before, after) ↔ cs = before ++ sep :: after ∧ sep ∉ after := by
  constructor
  · intro cut
    induction cs generalizing before with
    | nil => cases cut
    | cons c rest ih =>
      rw [cutLast] at cut
      split at cut
      next earlier later found =>
        cases cut
        obtain ⟨rfl, absent⟩ := ih found
        exact ⟨rfl, absent⟩
      next missing =>
        split at cut
        next same =>
          cases cut
          exact ⟨same ▸ rfl, cutLast_eq_none_iff.1 missing⟩
        next => cases cut
  · intro holds
    obtain ⟨rfl, absent⟩ := holds
    exact cutLast_append before absent

theorem splitLast_eq_none_iff {s : String} : splitLast sep s = none ↔ sep ∉ s.toList := by
  rw [splitLast, Option.map_eq_none_iff, cutLast_eq_none_iff]

theorem splitLast_eq_some_iff {s node side : String} :
    splitLast sep s = some (node, side) ↔
      s.toList = node.toList ++ sep :: side.toList ∧ sep ∉ side.toList := by
  rw [← cutLast_eq_some_iff, splitLast, Option.map_eq_some_iff]
  constructor
  · intro holds
    obtain ⟨parts, cut, same⟩ := holds
    obtain ⟨rfl, rfl⟩ := Prod.mk.inj same
    simpa using cut
  · intro cut
    exact ⟨_, cut, by simp⟩

end Text

def Period.Writable (p : Period) : Prop := p ≠ .prevN 0

instance : DecidablePred Period.Writable := fun p =>
  inferInstanceAs (Decidable (p ≠ .prevN 0))

theorem Period.scalar {p : Period} (writable : p.Writable) : Scalar p :=
  ⟨rfl, Period.ofText?_text writable⟩

def Border.ofName (name : String) : Border :=
  if name = "top" then .top
  else if name = "bottom" then .bottom
  else if name = "left" then .left
  else if name = "right" then .right
  else .other name

def Border.names : List String := ["top", "bottom", "left", "right"]

theorem Border.text_ofName (name : String) : (ofName name).text = name := by
  unfold ofName
  split_ifs <;> simp_all [text]

theorem Border.ofName_eq_other_iff {name : String} :
    ofName name = .other name ↔ name ∉ names := by
  unfold ofName names
  split_ifs <;> simp_all

namespace Handle

theorem ofText_of_unsplit {s : String} (whole : Text.splitLast '-' s = none) :
    ofText s = ⟨"", .other s⟩ := by
  rw [ofText, parse, whole]

theorem ofText_of_split {s node side : String}
    (split : Text.splitLast '-' s = some (node, side)) : ofText s = ⟨node, .ofName side⟩ := by
  simp only [ofText, parse, split, Border.ofName]
  split_ifs <;> rfl

/-- A known side needs a node before it, or it is taken for a side of another name; a side of
another name has no dash, and is no known one unless it stands alone. -/
def Writable (h : Handle) : Prop :=
  match h.side with
  | .other name =>
    '-' ∉ name.toList ∧ (h.node = "" ∨ name ∉ ["top", "bottom", "left", "right"])
  | _ => h.node ≠ ""

instance : DecidablePred Handle.Writable
  | ⟨_, .other _⟩ => inferInstanceAs (Decidable (_ ∧ _))
  | ⟨_, .top⟩ | ⟨_, .bottom⟩ | ⟨_, .left⟩ | ⟨_, .right⟩ => inferInstanceAs (Decidable (_ ≠ _))

theorem splitLast_text {h : Handle} (node : h.node ≠ "") (plain : '-' ∉ h.side.text.toList) :
    Text.splitLast '-' h.text = some (h.node, h.side.text) :=
  Text.splitLast_eq_some_iff.2 ⟨by simp [text, node], plain⟩

theorem ofText_text {h : Handle} (writable : h.Writable) : ofText h.text = h := by
  obtain ⟨node, side⟩ := h
  cases side with
  | other name =>
    obtain ⟨plain, distinct⟩ := writable
    by_cases alone : node = ""
    · subst alone
      exact ofText_of_unsplit (Text.splitLast_eq_none_iff.2 plain)
    · have split := splitLast_text (h := ⟨node, .other name⟩) alone plain
      have unknown := distinct.resolve_left alone
      rw [ofText_of_split split]
      exact congrArg (Handle.mk node) (Border.ofName_eq_other_iff.2 unknown)
  | _ =>
    rw [ofText_of_split (splitLast_text writable (by simp [Border.text]))]
    rfl

theorem readAs (h : Handle) : Wire.ReadAs h (ofText h.text) := by
  intro j alike
  rw [alike.settled rfl]
  rfl

end Handle

@[mk_iff]
structure Position.Writable (p : Position) : Prop where
  x : p.x.isFinite = true
  y : p.y.isFinite = true

instance : DecidablePred Position.Writable := fun _ =>
  decidable_of_iff' _ (Position.writable_iff _)

theorem Position.lossless {p : Position} (writable : p.Writable) : Lossless p := by
  have x := (Wire.scalar_binary64 writable.x).lossless
  have y := (Wire.scalar_binary64 writable.y).lossless
  refine .of_record rfl (fun _ => rfl) rfl (by decide) (by simp [x.plain, y.plain]) ?_
  rintro f ⟨hasX, hasY, _⟩
  simp [Fields.required_eq hasX x, Fields.required_eq hasY y]

@[simp] theorem Node.Kind.scalar (k : Node.Kind) : Scalar k := by
  cases k <;> exact ⟨rfl, rfl⟩

@[simp] theorem Edge.Kind.scalar (k : Edge.Kind) : Scalar k := by
  cases k <;> exact ⟨rfl, rfl⟩

theorem Node.lossless {n : Node} (writable : n.position.Writable) : Lossless n := by
  have position := Position.lossless writable
  refine .of_record rfl (fun _ => rfl) rfl (by decide)
    (by simp [Wire.Lossless.plain, position.plain]) ?_
  rintro f ⟨id, kind, place, _⟩
  simp [Fields.required_eq id, Fields.required_eq kind, Fields.required_eq place position]

@[simp] theorem EdgeDetail.lossless (d : EdgeDetail) : Lossless d := by
  refine .of_record rfl (fun _ => rfl) rfl (by decide) (by simp [Wire.Lossless.plain]) ?_
  rintro f ⟨sequence, sourceCondition, _⟩
  simp [Fields.optional_eq sequence (by simp) rfl,
    Fields.optional_eq sourceCondition (by simp) rfl]

@[mk_iff]
structure Edge.Writable (e : Edge) : Prop where
  sourceHandle : ∀ h ∈ e.sourceHandle, h.Writable
  targetHandle : ∀ h ∈ e.targetHandle, h.Writable

instance : DecidablePred Edge.Writable := fun _ =>
  decidable_of_iff' _ (Edge.writable_iff _)

def Edge.reread (e : Edge) : Edge :=
  { e with
    sourceHandle := e.sourceHandle.map fun h => .ofText h.text
    targetHandle := e.targetHandle.map fun h => .ofText h.text }

theorem Edge.readAs_reread (e : Edge) : Wire.ReadAs e e.reread := by
  refine .of_record rfl (fun _ => rfl) rfl (by decide) ?_
  rintro f ⟨id, tail, head, sourceHandle, targetHandle, kind, data, _⟩
  simp [reread, Fields.required_eq id, Fields.required_eq tail, Fields.required_eq head,
    Fields.optional_readAs sourceHandle (fun h _ => h.readAs) rfl,
    Fields.optional_readAs targetHandle (fun h _ => h.readAs) rfl,
    Fields.required_eq kind, Fields.optional_eq data (by simp) rfl]

theorem Edge.plain (e : Edge) : (Wire.toJson e).Plain := by
  have handle (h : Handle) : (Wire.toJson h).Plain := Json.plain_of_settled rfl
  refine Wire.plain_record (by simp) ?_
  simp [Wire.Lossless.plain, handle]

theorem Edge.lossless {e : Edge} (writable : e.Writable) : Lossless e := by
  have kept {o : Option Handle} (each : ∀ h ∈ o, h.Writable) :
      (o.map fun h => Handle.ofText h.text) = o :=
    (Option.map_congr fun h held => Handle.ofText_text (each h held)).trans Option.map_id'
  have same : e.reread = e := by
    rw [reread, kept writable.sourceHandle, kept writable.targetHandle]
  have reads := e.readAs_reread
  rw [same] at reads
  exact ⟨e.plain, reads⟩

@[mk_iff]
structure Graph.Writable (g : Graph) : Prop where
  nodes : ∀ n ∈ g.nodes, n.position.Writable
  edges : ∀ e ∈ g.edges, e.Writable

instance : DecidablePred Graph.Writable := fun _ =>
  decidable_of_iff' _ (Graph.writable_iff _)

theorem Graph.lossless {g : Graph} (writable : g.Writable) : Lossless g := by
  have nodes := Wire.lossless_list fun n member => Node.lossless (writable.nodes n member)
  have edges := Wire.lossless_list fun e member => Edge.lossless (writable.edges e member)
  refine .of_record rfl (fun _ => rfl) rfl (by decide) (by simp [nodes.plain, edges.plain]) ?_
  rintro f ⟨hasNodes, hasEdges, _⟩
  simp [Fields.required_eq hasNodes nodes, Fields.required_eq hasEdges edges]

end TradingStrategy
