import TradingStrategy.Proofs.GraphForms
import TradingStrategy.Proofs.PayloadRoundTrip

set_option autoImplicit false

namespace TradingStrategy

namespace Handle

variable {s node side : String}

def Nodeless (s : String) : Prop := ∃ side, s = "-" ++ side ∧ '-' ∉ side.toList

theorem nodeless_iff : Nodeless s ↔ ∃ side, Text.splitLast '-' s = some ("", side) := by
  refine exists_congr fun side => ?_
  rw [Text.splitLast_eq_some_iff, ← String.toList_inj]
  simp

theorem text_ofText_of_nodeless (split : Text.splitLast '-' s = some ("", side)) :
    (ofText s).text = side := by
  rw [ofText_of_split split, text, Border.text_ofName]
  rfl

theorem text_ofText_iff (s : String) : (ofText s).text = s ↔ ¬ Nodeless s := by
  rw [nodeless_iff]
  cases split : Text.splitLast '-' s with
  | none => simp [ofText_of_unsplit split, text, Border.text]
  | some parts =>
    obtain ⟨node, side⟩ := parts
    have chars := (Text.splitLast_eq_some_iff.1 split).1
    by_cases alone : node = ""
    · subst alone
      have shorter : side ≠ s := by
        intro same
        have lengths := congrArg List.length chars
        simp [same] at lengths
      simp [text_ofText_of_nodeless split, shorter]
    · have kept : node ++ "-" ++ side = s := by
        rw [← String.toList_inj, chars]
        simp
      simp [ofText_of_split split, text, alone, Border.text_ofName, kept]

def bareSides : List String := ["-top", "-bottom", "-left", "-right"]

theorem bareSides_eq : bareSides = Border.names.map ("-" ++ ·) := rfl

theorem mem_bareSides_iff : "-" ++ side ∈ bareSides ↔ side ∈ Border.names := by
  rw [bareSides_eq]
  exact List.mem_map_of_injective fun a b same => by simpa [← String.toList_inj] using same

theorem nodeless_of_mem_bareSides (bare : s ∈ bareSides) : Nodeless s := by
  have plain : ∀ name ∈ Border.names, '-' ∉ name.toList := by decide
  rw [bareSides_eq] at bare
  obtain ⟨name, member, rfl⟩ := List.mem_map.1 bare
  exact ⟨name, rfl, plain name member⟩

theorem reread_iff (s : String) : ofText (ofText s).text = ofText s ↔ s ∉ bareSides := by
  by_cases nodeless : Nodeless s
  · obtain ⟨side, rfl, plain⟩ := nodeless
    have split : Text.splitLast '-' ("-" ++ side) = some ("", side) :=
      Text.splitLast_eq_some_iff.2 ⟨by simp, plain⟩
    have whole := ofText_of_unsplit (Text.splitLast_eq_none_iff.2 plain)
    rw [text_ofText_of_nodeless split, whole, ofText_of_split split, mem_bareSides_iff,
      ← Border.ofName_eq_other_iff, Handle.mk.injEq]
    exact ⟨fun same => same.2.symm, fun other => ⟨rfl, other.symm⟩⟩
  · rw [(text_ofText_iff s).2 nodeless]
    exact ⟨fun _ bare => nodeless (nodeless_of_mem_bareSides bare), fun _ => rfl⟩

-- A text of a right side is read again as one of another side only if it has no node.
theorem right_reread_iff (s : String) :
    ((ofText (ofText s).text).side = .right ↔ (ofText s).side = .right) ↔ s ≠ "-right" := by
  by_cases bare : s ∈ bareSides
  · have each : ∀ s ∈ bareSides,
        ((ofText (ofText s).text).side = .right ↔ (ofText s).side = .right) ↔ s ≠ "-right" := by
      decide +kernel
    exact each s bare
  · rw [(reread_iff s).2 bare]
    exact ⟨fun _ same => bare (same ▸ by decide), fun _ => .rfl⟩

end Handle

namespace Edge

open Handle (ofText)

def leavingAt (e : Edge) (text : Option String) : Edge :=
  { e with sourceHandle := text.map ofText }

theorem isLink_leavingAt (e : Edge) (text : Option String) :
    (e.leavingAt text).isLink =
      (e.isCondition && !text.any fun s => (ofText s).side = .right) := by
  cases text <;> rfl

theorem isLink_reread_leavingAt (e : Edge) (text : Option String) :
    (e.leavingAt text).reread.isLink =
      (e.isCondition && !text.any fun s => (ofText (ofText s).text).side = .right) := by
  cases text <;> rfl

theorem isLink_reread_iff (e : Edge) (text : Option String) :
    (e.leavingAt text).reread.isLink = (e.leavingAt text).isLink ↔
      ¬ (e.isCondition = true ∧ text = some "-right") := by
  rw [isLink_leavingAt, isLink_reread_leavingAt]
  cases text with
  | none => simp
  | some s =>
    cases e.isCondition with
    | false => simp
    | true => simpa using Handle.right_reread_iff s

end Edge

theorem Payload.edges_resaved {p : Payload} {overrides : List (String × Capabilities)}
    {source rest : IdSource} {t : Strategy}
    (done : (p.restore overrides).exec source = (.ok t, rest)) :
    (t.compile overrides).edges = p.edges :=
  (congrArg Graph.edges (restored_of_restore done).1.graph).trans p.edges_graph

theorem Edge.ofJson?_toJson (edges : List Edge) :
    Wire.ofJson? (Wire.toJson edges) = some (edges.map Edge.reread) := by
  have plain : (Wire.toJson edges).Plain := by
    apply Json.plain_array
    rw [List.forall_mem_map]
    exact fun e _ => e.plain
  exact Wire.readAs_list (fun e _ => e.readAs_reread) _ (.refl plain)

/-- A text is written back as it was unless its only dash is its first character, and what is
written is read as the same handle unless the text is that of a known side without a node. Of these
only the right side matters to a condition edge, which becomes a link. Loading and saving do nothing
else to handles. -/
theorem Handle.kept_iff (s : String) (e : Edge) (p : Payload)
    (overrides : List (String × Capabilities)) (source : IdSource) :
    ((ofText s).text = s ↔ ¬ Nodeless s) ∧
    (ofText (ofText s).text = ofText s ↔ s ∉ bareSides) ∧
    (∀ text, (e.leavingAt text).reread.isLink = (e.leavingAt text).isLink ↔
      ¬ (e.isCondition = true ∧ text = some "-right")) ∧
    ∀ t rest, (p.restore overrides).exec source = (.ok t, rest) →
      (t.compile overrides).edges = p.edges ∧
        Wire.ofJson? (Wire.toJson (t.compile overrides).edges) =
          some (p.edges.map Edge.reread) := by
  refine ⟨text_ofText_iff s, reread_iff s, e.isLink_reread_iff, fun t rest done => ?_⟩
  have same := Payload.edges_resaved done
  exact ⟨same, same ▸ Edge.ofJson?_toJson p.edges⟩

def tilted : Payload :=
  { Payload.handMade with
    data := []
    actions := .empty
    conditions := .empty
    edges := [(Edge.condition Graph.startId "c1").leavingAt (some "-right")] }

-- Loaded and saved, the edge leaves on no known side and is a link.
theorem tilted_straightened :
    ∃ t rest, (tilted.restore []).exec .counter = (.ok t, rest) ∧
      (t.compile []).edges = tilted.edges ∧ tilted.edges.map Edge.isLink = [false] ∧
      ∃ edges : List Edge, Wire.ofJson? (Wire.toJson (t.compile []).edges) = some edges ∧
        edges.map Edge.isLink = [true] := by
  obtain ⟨t, rest, done⟩ : ∃ t rest, (tilted.restore []).exec .counter = (.ok t, rest) :=
    ⟨_, _, rfl⟩
  have kept := Handle.kept_iff "-right" (.condition Graph.startId "c1") tilted [] .counter
  obtain ⟨same, read⟩ := kept.2.2.2 t rest done
  exact ⟨t, rest, done, same, by decide +kernel, _, read, by decide +kernel⟩

theorem Handle.dash_lost :
    (ofText "-middle").text = "middle" ∧ ofText "-right" = ⟨"", .right⟩ ∧
      (ofText "-right").text = "right" ∧ ofText "right" = ⟨"", .other "right"⟩ ∧
      ¬ ∀ s, (ofText s).text = s := by
  refine ⟨by decide +kernel, by decide +kernel, by decide +kernel, by decide +kernel, ?_⟩
  intro kept
  exact absurd (kept "-middle") (by decide +kernel)

end TradingStrategy
