import TradingStrategy.Proofs.Sound
import TradingStrategy.Strategy.Payload

set_option autoImplicit false

namespace TradingStrategy

namespace Payload

theorem keys_restoreConditions {registry : Registry} {sent : List (String × SentCondition)}
    {source rest : IdSource} {made : List (String × Condition)}
    (done : (restoreConditions registry sent).exec source = (.ok made, rest)) :
    made.map Prod.fst = sent.map Prod.fst := by
  induction sent generalizing source made with
  | nil =>
    rw [restoreConditions, Drawing.pure_eq_ok_iff] at done
    rw [← done.1]
    rfl
  | cons entry others ih =>
    simp only [restoreConditions, Drawing.bind_eq_ok_iff, Drawing.pure_eq_ok_iff] at done
    obtain ⟨condition, _, _, later, _, drawn, rfl, rfl⟩ := done
    simp [ih drawn]

theorem keys_restoreActions {sent : List (String × SentAction)} {source rest : IdSource}
    {made : List (String × Action)}
    (done : (restoreActions sent).exec source = (.ok made, rest)) :
    made.map Prod.fst = sent.map Prod.fst := by
  induction sent generalizing source made with
  | nil =>
    rw [restoreActions, Drawing.pure_eq_ok_iff] at done
    rw [← done.1]
    rfl
  | cons entry others ih =>
    simp only [restoreActions, Drawing.bind_eq_ok_iff, Drawing.pure_eq_ok_iff] at done
    obtain ⟨action, _, _, later, _, drawn, rfl, rfl⟩ := done
    simp [ih drawn]

theorem restore_ok {p : Payload} {overrides : List (String × Capabilities)}
    {source rest : IdSource} {t : Strategy}
    (done : (p.restore overrides).exec source = (.ok t, rest)) :
    t.graph = p.graph ∧ t.conditions.keys = p.conditions.keys ∧
      t.actions.keys = p.actions.keys := by
  simp only [restore, Drawing.bind_eq_ok_iff, Drawing.pure_eq_ok_iff] at done
  obtain ⟨⟨_, _⟩, _, _, ⟨_, _⟩, _, _, actions, _, actionsDone, conditions, _, conditionsDone,
    rfl, _⟩ := done
  exact ⟨rfl, Dict.keys_ofList (keys_restoreConditions conditionsDone),
    Dict.keys_ofList (keys_restoreActions actionsDone)⟩

end Payload

namespace Strategy

theorem mem_keys_compileWith (registry : Registry) (s : Strategy) (id : String) :
    (id ∈ (s.compileWith registry).conditions.keys ↔
        s.graph.isKind .condition id = true ∧ id ∈ s.conditions.keys) ∧
      (id ∈ (s.compileWith registry).actions.keys ↔
        s.graph.isKind .action id = true ∧ id ∈ s.actions.keys) := by
  simp only [compileWith, Dict.keys_map]
  exact ⟨Dict.mem_keys_filter _ _ _, Dict.mem_keys_filter _ _ _⟩

theorem Sound.keys_compileWith {s : Strategy} {path : List String}
    (sound : s.Sound path) (registry : Registry) (id : String) :
    (id ∈ (s.compileWith registry).conditions.keys ↔ s.graph.isKind .condition id = true) ∧
      (id ∈ (s.compileWith registry).actions.keys ↔ s.graph.isKind .action id = true) := by
  rw [(mem_keys_compileWith registry s id).1, (mem_keys_compileWith registry s id).2,
    ← Dict.contains_iff, ← Dict.contains_iff, sound.conditions, sound.actions]
  exact ⟨and_self_iff, and_self_iff⟩

theorem Sound.reload {s t : Strategy} {path : List String} (sound : s.Sound path)
    {overrides : List (String × Capabilities)} {source rest : IdSource}
    (done : ((s.compile overrides).restore overrides).exec source = (.ok t, rest)) :
    s.SameFrame t := by
  obtain ⟨graph, conditions, actions⟩ := Payload.restore_ok done
  obtain ⟨start, first, _⟩ := sound.shaped.start?_eq
  refine ⟨?_, fun id => ?_, fun id => ?_⟩
  · have saved : (⟨s.graph.nodes, s.graph.edges⟩ : Graph).start?.isSome = true := by
      rw [show (⟨s.graph.nodes, s.graph.edges⟩ : Graph).start? = some start from first]
      rfl
    rw [graph]
    exact if_pos saved
  · rw [Bool.eq_iff_iff, Dict.contains_iff, conditions, compile, (sound.keys_compileWith _ id).1,
      sound.conditions]
  · rw [Bool.eq_iff_iff, Dict.contains_iff, actions, compile, (sound.keys_compileWith _ id).2,
      sound.actions]

end Strategy

namespace Editor

/-- A run of commands, and of savings and loadings, leads from one strategy to another. -/
inductive Reaches (e : Editor) (s : Strategy) : Strategy → Prop
  | refl : Reaches e s s
  | command {t : Strategy} (reached : Reaches e s t) (command : Command) (source : IdSource) :
    Reaches e s (e.apply t command source).1
  | reload {t u : Strategy} (reached : Reaches e s t) {overrides : List (String × Capabilities)}
    {source rest : IdSource}
    (done : ((t.compile overrides).restore overrides).exec source = (.ok u, rest)) : Reaches e s u

def Reachable (e : Editor) (s : Strategy) : Prop := ∃ name, e.Reaches (e.initial name) s

variable {e : Editor} {s t : Strategy}

theorem Reaches.sound (reaches : e.Reaches s t) {path : List String} (sound : s.Sound path) :
    ∃ path, t.Sound path := by
  induction reaches with
  | refl => exact ⟨path, sound⟩
  | @command t _ command source ih =>
    obtain ⟨before, sound⟩ := ih
    rcases e.apply_cases t command source with ⟨_, same⟩ | ⟨created, _, effect⟩
    · rw [same]
      exact ⟨before, sound⟩
    · exact ⟨_, sound.effect effect⟩
  | reload _ done ih =>
    obtain ⟨before, sound⟩ := ih
    exact ⟨before, sound.sameFrame (sound.reload done)⟩

theorem Reachable.sound (reachable : e.Reachable s) : s.Sound s.graph.chainedConditions := by
  obtain ⟨name, reaches⟩ := reachable
  obtain ⟨path, sound⟩ := reaches.sound (.initial name e.layout.start)
  rw [sound.shaped.chainedConditions_eq]
  exact sound

def session (e : Editor) (s : Strategy) : List Command → IdSource → Strategy
  | [], _ => s
  | command :: rest, source =>
    let next := e.apply s command source
    session e next.1 rest next.2.2

theorem Reaches.session (reaches : e.Reaches s t) (commands : List Command) (source : IdSource) :
    e.Reaches s (e.session t commands source) := by
  induction commands generalizing t source with
  | nil => exact reaches
  | cons command rest ih => exact ih (reaches.command command source) _

theorem reachable_session (e : Editor) (name : String) (commands : List Command)
    (source : IdSource) : e.Reachable (e.session (e.initial name) commands source) :=
  ⟨name, Reaches.refl.session commands source⟩

def standard : Editor := .make .standard IdSource.defaultAttempts

-- Two conditions and three actions below each other; the first condition fans out to the second
-- action.
def outline : Strategy :=
  standard.session (standard.initial "Straddle")
    [.insertCondition none, .insertCondition none, .insertAction none, .insertAction none,
      .insertAction none, .connect "condition_00000000" "action_00000007"] .counter

def draft : Strategy :=
  (standard.apply outline (.connect "condition_00000000" "action_00000006") .counter).1

theorem graph_outline : outline.graph =
    { nodes :=
        [⟨Graph.startId, .start, .origin⟩,
          ⟨"condition_00000000", .condition, ⟨.zero, .ofInt 150⟩⟩,
          ⟨"condition_00000003", .condition, ⟨.zero, .ofInt 300⟩⟩,
          ⟨"action_00000006", .action, ⟨.ofInt 400, .ofInt 150⟩⟩,
          ⟨"action_00000007", .action, ⟨.ofInt 400, .ofInt 300⟩⟩,
          ⟨"action_00000008", .action, ⟨.ofInt 400, .ofInt 450⟩⟩]
      edges :=
        [.condition Graph.startId "condition_00000000",
          .condition "condition_00000000" "condition_00000003",
          (Edge.action "condition_00000000" "action_00000007").setSequence 1] } := by
  decide +kernel

-- The action that is connected later is the upper one.
theorem draft_eq : draft = { outline with graph :=
    { outline.graph with edges :=
      [.condition Graph.startId "condition_00000000",
        .condition "condition_00000000" "condition_00000003",
        (Edge.action "condition_00000000" "action_00000007").setSequence 2,
        (Edge.action "condition_00000000" "action_00000006").setSequence 1] } } := by
  have accepted : (standard.apply outline (.connect "condition_00000000" "action_00000006")
      .counter).2.1.accepted = true := by decide +kernel
  obtain ⟨_, _, effect⟩ := effect_of_accepted accepted
  obtain ⟨_, _, _, made⟩ := Strategy.connect_ok effect
  have upper : (Binary64.ofInt 150).rank < (Binary64.ofInt 300).rank := by decide +kernel
  have places : ((outline.graph.addEdge (.action "condition_00000000" "action_00000006")).ranked
      "condition_00000000").map (·.place) = [3, 2] := by
    have sorts : (outline.graph.addEdge
        (.action "condition_00000000" "action_00000006")).ranked "condition_00000000" =
        [⟨2, (Binary64.ofInt 300).rank, 1⟩,
          ⟨3, (Binary64.ofInt 150).rank, 0xFFFFFFFF⟩].mergeSort Graph.Ranked.le := by
      rw [graph_outline]
      rfl
    rw [sorts]
    simp [List.mergeSort, Graph.Ranked.le, Int.lt_asymm upper, Int.ne_of_gt upper]
  rw [draft, made, Graph.numberFanOut, places]
  decide +kernel

def draftAfter (command : Command) : Graph := (standard.apply draft command .counter).1.graph

theorem reachable_draft : standard.Reachable draft :=
  ⟨_, (Reaches.refl.session _ _).command _ _⟩

end Editor

end TradingStrategy
