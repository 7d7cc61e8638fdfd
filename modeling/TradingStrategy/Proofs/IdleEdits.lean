import TradingStrategy.Proofs.Emission
import TradingStrategy.Proofs.UniqueIds

set_option autoImplicit false

namespace TradingStrategy

namespace Row

variable {registry : Registry}

theorem compileAll?_filter_written (rows : List Row) :
    compileAll? registry (rows.filter fun r => !r.isBlank) = compileAll? registry rows := by
  have written (p : Progress) (other : p ≠ .blank) (r : Row) :
      (!r.isBlank && decide (r.progress registry = p)) = decide (r.progress registry = p) := by
    cases blank : r.isBlank with
    | false => rfl
    | true => simp [progress, blank, other.symm]
  have complete : ((rows.filter fun r => !r.isBlank).filter fun r =>
      r.progress registry = .complete) = rows.filter fun r => r.progress registry = .complete := by
    rw [List.filter_filter]
    refine List.filter_congr fun r _ => ?_
    rw [Bool.and_comm, written _ (by decide)]
  have started : ((rows.filter fun r => !r.isBlank).any fun r =>
      r.progress registry = .started) = rows.any fun r => r.progress registry = .started := by
    rw [List.any_filter]
    simp only [written _ (by decide : Progress.started ≠ .blank)]
  simp only [compileAll?, complete, started]

theorem compileAll?_congr {rows rows' : List Row}
    (same : (rows'.filter fun r => !r.isBlank) = rows.filter fun r => !r.isBlank) :
    compileAll? registry rows' = compileAll? registry rows := by
  rw [← compileAll?_filter_written, same, compileAll?_filter_written]

end Row

namespace Block

variable {registry : Registry} {b : Block}

theorem omitted_iff : ¬ b.Emitted registry ↔ Row.compileAll? registry b.rows = none := by
  rw [← isSome_compileAll?, Bool.not_eq_true, Option.isSome_eq_false_iff, Option.isNone_iff_eq_none]

theorem omitted_ofFirst (id sub : String) : ¬ (ofFirst id (.blank sub)).Emitted registry := by
  rw [omitted_iff]
  rfl

theorem written_concat_blank (b : Block) (sub : String) :
    (({ b with subSections := b.subSections ++ [.blank sub] } : Block).rows.filter
      fun r => !r.isBlank) = b.rows.filter fun r => !r.isBlank := by
  rw [rows, List.map_append, List.filter_append]
  exact List.append_nil _

theorem written_filter {keep : SubSection → Bool}
    (blank : ∀ s ∈ b.subSections, keep s = false → s.row.isBlank = true) :
    (({ b with subSections := b.subSections.filter keep } : Block).rows.filter
      fun r => !r.isBlank) = b.rows.filter fun r => !r.isBlank := by
  rw [rows, rows, List.filter_map, List.filter_map, List.filter_filter]
  refine congrArg _ (List.filter_congr fun s member => ?_)
  cases kept : keep s with
  | true => exact Bool.and_true _
  | false => simp [blank s member kept]

end Block

namespace Condition

open ConditionPart (following joined_cons emitted_eq)

variable {registry : Registry} {c d : Condition} {condition block : String}

theorem joined_move {relations relations' : List Relation} {move : Nat → Nat}
    {sent : List (Nat × List BlockPart)}
    (same : ∀ p ∈ sent.tail,
      relations'[move p.1 - 1]?.getD .and = relations[p.1 - 1]?.getD .and) :
    joined relations' (sent.map (Prod.map move id)) = joined relations sent := by
  cases sent with
  | nil => rfl
  | cons first rest =>
    rw [List.map_cons, joined_cons, joined_cons]
    refine congrArg _ ?_
    rw [List.tail_cons] at same
    induction rest with
    | nil => rfl
    | cons p later ih =>
      rw [List.forall_mem_cons] at same
      rw [List.map_cons, following, following, ih same.2, Prod.map_fst, Prod.map_snd, same.1, id_eq]

theorem mem_emitted {bs : List Block} {p : Nat × List BlockPart} :
    p ∈ emitted registry bs ↔
      ∃ b, bs[p.1]? = some b ∧ Row.compileAll? registry b.rows = some p.2 := by
  obtain ⟨i, ts⟩ := p
  simp only [emitted, List.mem_filterMap, Option.map_eq_some_iff, Prod.exists, Prod.mk.injEq,
    List.mem_zipIdx_iff_getElem?]
  grind

theorem lt_length_of_mem_emitted {bs : List Block} {p : Nat × List BlockPart}
    (member : p ∈ emitted registry bs) : p.1 < bs.length := by
  obtain ⟨b, place, _⟩ := mem_emitted.1 member
  exact (List.getElem?_eq_some_iff.1 place).1

theorem pairwise_emitted (registry : Registry) (bs : List Block) :
    (emitted registry bs).Pairwise fun p q => p.1 < q.1 := by
  have places : (bs.zipIdx.map Prod.snd).Pairwise (· < ·) := by
    rw [List.zipIdx_map_snd]
    exact List.pairwise_lt_range'
  refine (List.pairwise_map.1 places).filterMap _ fun p q earlier x made y made' => ?_
  obtain ⟨_, _, rfl⟩ := Option.map_eq_some_iff.1 made
  obtain ⟨_, _, rfl⟩ := Option.map_eq_some_iff.1 made'
  exact earlier

theorem exists_lt_of_mem_tail {bs : List Block} {p : Nat × List BlockPart}
    (member : p ∈ (emitted registry bs).tail) :
    p ∈ emitted registry bs ∧ ∃ q ∈ emitted registry bs, q.1 < p.1 := by
  have increasing := pairwise_emitted registry bs
  cases sent : emitted registry bs with
  | nil => simp [sent] at member
  | cons first rest =>
    rw [sent] at member increasing
    exact ⟨List.mem_cons_of_mem _ member, first, List.mem_cons_self,
      (List.pairwise_cons.1 increasing).1 p member⟩

theorem emitted_append (registry : Registry) (bs others : List Block) :
    emitted registry (bs ++ others) =
      emitted registry bs ++ (others.zipIdx bs.length).filterMap (emit? registry) := by
  rw [emitted, List.zipIdx_append, List.filterMap_append, Nat.zero_add]
  rfl

theorem emitted_concat {b : Block} (omitted : ¬ b.Emitted registry) (bs : List Block) :
    emitted registry (bs ++ [b]) = emitted registry bs := by
  rw [emitted_append]
  simp [emit?, Block.omitted_iff.1 omitted]

theorem emitted_congr {bs bs' : List Block}
    (same : (bs'.map fun b => Row.compileAll? registry b.rows) =
      bs.map fun b => Row.compileAll? registry b.rows) :
    emitted registry bs' = emitted registry bs := by
  have eq (bs : List Block) : emitted registry bs =
      (bs.map fun b => Row.compileAll? registry b.rows).zipIdx.filterMap fun p =>
        p.1.map (p.2, ·) := by
    rw [List.zipIdx_map, List.filterMap_map]
    rfl
  rw [eq, same, ← eq]

theorem emitted_mirror (registry : Registry) (relations : List Relation) (bs : List Block) :
    emitted registry (Block.mirror relations bs) = emitted registry bs := by
  rw [emitted_eq, Block.map_rows_mirror, ← emitted_eq]

def closed (place i : Nat) : Nat := if i < place then i else i - 1

theorem emitted_removed {b : Block} (omitted : ¬ b.Emitted registry) (before after : List Block) :
    emitted registry (before ++ after) =
      (emitted registry (before ++ b :: after)).map (Prod.map (closed before.length) id) := by
  -- Places before the block stay as they are, and those beyond it are one less.
  have earlier : (emitted registry before).map (Prod.map (closed before.length) id) =
      emitted registry before := by
    refine (List.map_congr_left fun p member => ?_).trans (List.map_id _)
    have inside := lt_length_of_mem_emitted member
    rw [Prod.map, closed, if_pos inside]
    rfl
  have later : ((after.zipIdx (before.length + 1)).filterMap (emit? registry)).map
        (Prod.map (closed before.length) id) =
      (after.zipIdx before.length).filterMap (emit? registry) := by
    rw [List.zipIdx_succ, List.filterMap_map, List.map_filterMap]
    refine List.filterMap_congr fun p member => ?_
    have beyond := List.le_snd_of_mem_zipIdx member
    have shifted : closed before.length (p.2 + 1) = p.2 := by
      rw [closed, if_neg (by omega), Nat.add_sub_cancel]
    rw [Function.comp_apply, emit?, emit?, Option.map_map]
    refine congrArg (Option.map · _) (funext fun ts => ?_)
    rw [Function.comp_apply, Prod.map_apply, shifted, id_eq]
  have none : emit? registry (b, before.length) = none := by
    simp [emit?, Block.omitted_iff.1 omitted]
  rw [emitted_append, emitted_append, List.zipIdx_cons, List.filterMap_cons_none none,
    List.map_append, earlier, later]

/-- A block that is not sent takes with it the relation before it, or after it if it is the first
block; then the block after it is the first that can be sent, and no relation stands before that. -/
theorem joined_removed {relations : List Relation} {before after : List Block} {b : Block}
    (omitted : ¬ b.Emitted registry) :
    joined (relations.eraseIdx (before.length - 1)) (emitted registry (before ++ after)) =
      joined relations (emitted registry (before ++ b :: after)) := by
  have apart : ∀ p ∈ emitted registry (before ++ b :: after), p.1 ≠ before.length := by
    intro p member same
    obtain ⟨b', place, compiled⟩ := mem_emitted.1 member
    rw [same, Keyed.getElem?_split, Option.some.injEq] at place
    rw [← place, Block.omitted_iff.1 omitted] at compiled
    contradiction
  rw [emitted_removed omitted]
  refine joined_move fun p member => ?_
  obtain ⟨sent, q, sentBefore, earlier⟩ := exists_lt_of_mem_tail member
  have place := apart p sent
  have placeBefore := apart q sentBefore
  rw [List.getElem?_eraseIdx, closed]
  by_cases left : p.1 < before.length
  · rw [if_pos left, if_pos (by omega)]
  · have shifted : p.1 - 1 - 1 + 1 = p.1 - 1 := by omega
    rw [if_neg left, if_neg (by omega), shifted]

def SendsAs (registry : Registry) (d c : Condition) : Prop :=
  ∀ node actions, d.compile registry node actions = c.compile registry node actions

theorem sendsAs_of_joined (header : d.header = c.header)
    (parts : joined d.blockRelations (emitted registry d.blocks) =
      joined c.blockRelations (emitted registry c.blocks)) : d.SendsAs registry c := by
  intro node actions
  simp only [compile, header, parts]

theorem Aligned.sendsAs_addBlock (aligned : c.Aligned) {b : Block} (omitted : ¬ b.Emitted registry)
    (relation : Relation) : (c.addBlock b relation).SendsAs registry c := by
  have kept : joined (c.addBlock b relation).blockRelations
      ((emitted registry c.blocks).map (Prod.map id id)) =
        joined c.blockRelations (emitted registry c.blocks) := by
    refine joined_move fun p member => ?_
    obtain ⟨sent, q, _, earlier⟩ := exists_lt_of_mem_tail member
    have inside := lt_length_of_mem_emitted sent
    have count := aligned.count
    show (if c.blocks.isEmpty then c.blockRelations
      else c.blockRelations ++ [relation])[p.1 - 1]?.getD .and = _
    split
    next => rfl
    next => rw [List.getElem?_append_left (by omega)]
  have blocks : emitted registry (c.addBlock b relation).blocks = emitted registry c.blocks := by
    show emitted registry (Block.mirror _ (c.blocks ++ [b])) = _
    rw [emitted_mirror, emitted_concat omitted]
  refine sendsAs_of_joined ?_ ?_
  · rfl
  · rw [Prod.map_id, List.map_id] at kept
    rw [blocks, kept]

theorem Rewrites.sendsAs {b b' : Block} (rewrites : c.Rewrites d block b b')
    (same : (b'.rows.filter fun r => !r.isBlank) = b.rows.filter fun r => !r.isBlank) :
    d.SendsAs registry c := by
  obtain ⟨before, after, split, rfl⟩ := rewrites
  refine sendsAs_of_joined ?_ (congrArg _ (emitted_congr ?_))
  · rfl
  · rw [split.whole]
    simp only [List.map_append, List.map_cons, Row.compileAll?_congr same]

/-- An edit of the condition that only puts in or takes out what is not sent, and the ids of the
parts that it takes out. -/
inductive Idle (registry : Registry) (id : String) (c : Condition) : Command → List String → Prop
  | addBlock (relation : Relation) : Idle registry id c (.addBlock id relation) []
  | addSubSection {b : Block} (member : b ∈ c.blocks) :
    Idle registry id c (.addSubSection id b.id) []
  | removeSubSection {b : Block} {s : SubSection} (member : b ∈ c.blocks)
    (within : s ∈ b.subSections) (blank : s.row.isBlank = true) :
    Idle registry id c (.removeSubSection id b.id s.id) [s.id]
  | removeBlock {b : Block} (member : b ∈ c.blocks) (omitted : ¬ b.Emitted registry) :
    Idle registry id c (.removeBlock id b.id) b.partIds

structure IdleChange (registry : Registry) (gone new : List String) (c d : Condition) : Prop where
  parts : (gone ++ d.partIds).Perm (new ++ c.partIds)
  sends : d.SendsAs registry c

theorem IdleChange.refl (registry : Registry) (c : Condition) : IdleChange registry [] [] c c :=
  ⟨.refl _, fun _ _ => rfl⟩

theorem idle_addBlock (aligned : c.Aligned) (block sub : String) (relation : Relation) :
    IdleChange registry [] [block, sub] c
      (c.addBlock (.ofFirst block (.blank sub)) relation) := by
  refine ⟨?_, aligned.sendsAs_addBlock (Block.omitted_ofFirst block sub) relation⟩
  rw [partIds_addBlock, List.nil_append]
  exact List.perm_append_comm

theorem idle_removeBlock (aligned : c.Aligned) (unique : c.partIds.Nodup) {b : Block}
    (member : b ∈ c.blocks) (omitted : ¬ b.Emitted registry) (id : String) :
    ∃ d, c.removeBlock id b.id = .ok d ∧ IdleChange registry b.partIds [] c d := by
  obtain ⟨before, after, split⟩ := Keyed.exists_split (block_ids_nodup unique) member
  have place : c.blockIndex id b.id = .ok before.length :=
    blockIndex_eq_ok_iff.2 ⟨before, b, after, split, rfl⟩
  refine ⟨_, removeBlock_eq_ok_iff.2 ⟨before, b, after, split, (aligned.inside place).2, rfl⟩,
    ?_, sendsAs_of_joined ?_ ?_⟩
  · rw [partIds_mirrored, partIds, partIds, split.whole, List.flatMap_append, List.flatMap_append,
      List.flatMap_cons, List.nil_append]
    exact List.perm_append_comm_assoc ..
  · rfl
  · show joined _ (emitted registry (Block.mirror _ (before ++ after))) = _
    rw [emitted_mirror, split.whole]
    exact joined_removed omitted

theorem idle_addSubSection (unique : c.partIds.Nodup) {b : Block} (member : b ∈ c.blocks)
    (id sub : String) :
    ∃ d, c.addSubSection id b.id (.blank sub) = .ok d ∧ IdleChange registry [] [sub] c d := by
  obtain ⟨before, after, split⟩ := Keyed.exists_split (block_ids_nodup unique) member
  have rewrites : c.Rewrites _ b.id b { b with subSections := b.subSections ++ [.blank sub] } :=
    ⟨before, after, split, rfl⟩
  obtain ⟨others, whole, whole'⟩ := rewrites.partIds_perm
  refine ⟨_, addSubSection_eq_ok_iff.2 ⟨b, rewrites⟩, ?_,
    rewrites.sendsAs (b.written_concat_blank sub)⟩
  have grown := (b.partIds_concat_perm (.blank sub)).append_right others
  exact whole'.trans (grown.trans (whole.symm.cons sub))

theorem idle_removeSubSection (unique : c.partIds.Nodup) {b : Block} {s : SubSection}
    (member : b ∈ c.blocks) (within : s ∈ b.subSections) (blank : s.row.isBlank = true)
    (id : String) :
    ∃ d, c.removeSubSection id b.id s.id = .ok d ∧ IdleChange registry [s.id] [] c d := by
  obtain ⟨before, after, split⟩ := Keyed.exists_split (block_ids_nodup unique) member
  have ids := subSection_ids_nodup unique member
  have rewrites : c.Rewrites _ b.id b
      { b with subSections := b.subSections.filter (·.id != s.id) } := ⟨before, after, split, rfl⟩
  obtain ⟨others, whole, whole'⟩ := rewrites.partIds_perm
  refine ⟨_, removeSubSection_eq_ok_iff.2 ⟨b, ⟨s, within, rfl⟩, rewrites⟩, ?_,
    rewrites.sendsAs (Block.written_filter fun other listed dropped => ?_)⟩
  · have shrunk := (Block.partIds_filter_perm ids within).append_right others
    exact (whole'.cons s.id).trans (shrunk.trans whole.symm)
  · have same : other = s := List.inj_on_of_nodup_map ids listed within (by simpa using dropped)
    rw [same, blank]

end Condition

def Command.addsPart : Command → Bool
  | .addBlock .. | .addSubSection .. => true
  | _ => false

namespace Editor

variable {e : Editor} {s t : Strategy} {source rest : IdSource}

theorem apply_of_settled {command : Command} {r : Except EditError Strategy}
    (settles : e.perform s command = settled r) (done : r = .ok t) :
    e.apply s command source = (t, .applied none, source) := by
  rw [apply_eq_applied_iff, settles]
  exact settled_eq_ok_iff.2 ⟨done, rfl, rfl⟩

variable {α : Type} {draw : Drawing Refusal α} {edit : α → Except EditError Strategy}
  {name : α → String}

theorem apply_of_drawn {command : Command} {a : α}
    (performs : e.perform s command = (do
      let a ← Drawing.relabel .refused draw
      let (u, _) ← settled (edit a)
      return (u, some (name a))))
    (drawn : draw.exec source = (.ok a, rest)) (edited : edit a = .ok t) :
    e.apply s command source = (t, .applied (some (name a)), rest) := by
  rw [apply_eq_applied_iff, performs]
  have settles : (settled (edit a)).exec rest = (.ok (t, none), rest) :=
    settled_eq_ok_iff.2 ⟨edited, rfl, rfl⟩
  exact Drawing.bind_eq_ok_iff.2 ⟨a, rest, Drawing.relabel_eq_ok_iff.2 drawn,
    Drawing.bind_eq_ok_iff.2 ⟨(t, none), rest, settles, rfl⟩⟩

theorem apply_of_undrawn {command : Command} {reason : Refusal}
    (performs : e.perform s command = (do
      let a ← Drawing.relabel .refused draw
      let (u, _) ← settled (edit a)
      return (u, some (name a))))
    (failed : draw.exec source = (.error reason, rest)) :
    e.apply s command source = (s, .refused reason, rest) := by
  rw [apply, performs, Drawing.exec_bind, Drawing.exec_relabel, failed]

/-- What is not sent can be put in and taken out wherever it stands: the condition is sent as
before, and nothing else changes. Only an addition can be refused, for want of an id. -/
theorem Reaches.idle_edit (registry : Registry) (begins : e.Begins s) (reaches : e.Reaches s t)
    {id : String} {c : Condition} (held : t.conditions.get? id = some c) {command : Command}
    {gone : List String} (idle : c.Idle registry id command gone) (source : IdSource) :
    ∃ d new, (e.apply t command source).1 =
        { t with conditions := t.conditions.insert id d } ∧
      Condition.IdleChange registry gone new c d ∧
      ((e.apply t command source).2.1 = .applied new.head? ∧
          command.addsPart = !new.isEmpty ∨
        new = [] ∧ command.addsPart = true ∧
          ∃ stem, (e.apply t command source).2.1 = .refused (.idCollision stem e.attempts)) := by
  have listed : c ∈ t.conditions.values := Dict.mem_values_iff.2 ⟨id, held⟩
  have aligned := (reaches.aligned begins.aligned).conditions c listed
  have unique := reaches.uniqueParts begins.uniqueParts c listed
  have edited {edit : Condition → Except EditError Condition} {d : Condition}
      (done : edit c = .ok d) :
      editCondition t id edit = .ok { t with conditions := t.conditions.insert id d } :=
    editCondition_eq_ok_iff.2 ⟨c, d, held, done, rfl⟩
  -- A refused addition is told as putting the same condition back.
  have unchanged : t = { t with conditions := t.conditions.insert id c } := by
    rw [Dict.insert_of_get? held]
  cases idle with
  | addBlock relation =>
    rcases e.newBlock_cases t source with ⟨block, sub, rest, drawn⟩ | ⟨stem, rest, failed⟩
    · let add (c : Condition) := c.addBlock (.ofFirst block (.blank sub)) relation
      have done : editCondition t id (fun c => .ok (add c)) = _ := edited rfl
      rw [apply_of_drawn rfl drawn done]
      exact ⟨_, _, rfl, Condition.idle_addBlock aligned block sub relation, .inl ⟨rfl, rfl⟩⟩
    · rw [apply_of_undrawn rfl failed]
      exact ⟨_, _, unchanged, .refl registry c, .inr ⟨rfl, rfl, stem, rfl⟩⟩
  | addSubSection member =>
    rcases Drawing.unique_cases "sub" e.attempts t.usesPartId source with
      ⟨sub, rest, drawn⟩ | ⟨rest, failed⟩
    · obtain ⟨d, done, change⟩ := Condition.idle_addSubSection unique member id sub
      rw [apply_of_drawn rfl drawn (edited done)]
      exact ⟨d, _, rfl, change, .inl ⟨rfl, rfl⟩⟩
    · rw [apply_of_undrawn rfl failed]
      exact ⟨_, _, unchanged, .refl registry c, .inr ⟨rfl, rfl, "sub", rfl⟩⟩
  | removeSubSection member within blank =>
    obtain ⟨d, done, change⟩ := Condition.idle_removeSubSection unique member within blank id
    rw [apply_of_settled rfl (edited done)]
    exact ⟨d, _, rfl, change, .inl ⟨rfl, rfl⟩⟩
  | removeBlock member omitted =>
    obtain ⟨d, done, change⟩ := Condition.idle_removeBlock aligned unique member omitted id
    rw [apply_of_settled rfl (edited done)]
    exact ⟨d, _, rfl, change, .inl ⟨rfl, rfl⟩⟩

def week : Strategy :=
  standard.session (standard.initial "Week")
    [.insertCondition none, .addBlock "condition_00000000" .or,
      .addBlock "condition_00000000" .and,
      .updateSubSection "condition_00000000" "block_00000001"
        ⟨"sub_00000002", Condition.weekday "MONDAY"⟩,
      .updateSubSection "condition_00000000" "block_00000005"
        ⟨"sub_00000006", Condition.weekday "FRIDAY"⟩] .counter

def weekGap : Block := ⟨"block_00000003", [.blank "sub_00000004"], .and⟩

def weekRule : Condition :=
  { header := ⟨"Condition 1", .entry, 1, false, false⟩
    blocks :=
      [⟨"block_00000001", [⟨"sub_00000002", Condition.weekday "MONDAY"⟩], .or⟩, weekGap,
        ⟨"block_00000005", [⟨"sub_00000006", Condition.weekday "FRIDAY"⟩], .and⟩]
    blockRelations := [.or, .and] }

theorem week_idle_edit :
    standard.Begins (standard.initial "Week") ∧
      standard.Reaches (standard.initial "Week") week ∧
      week.conditions.get? "condition_00000000" = some weekRule ∧
      weekRule.Idle Catalog.builtin.registry "condition_00000000"
        (.removeBlock "condition_00000000" weekGap.id) weekGap.partIds ∧
      (∃ d, (standard.apply week (.removeBlock "condition_00000000" weekGap.id) .counter).1 =
          { week with conditions := week.conditions.insert "condition_00000000" d } ∧
        Condition.IdleChange Catalog.builtin.registry weekGap.partIds [] weekRule d) ∧
      (standard.apply week (.removeBlock "condition_00000000" weekGap.id) .counter).2.1 =
        .applied none ∧
      (weekRule.compile Catalog.builtin.registry "c1" []).parts =
        [.block [.comparison ⟨"day_of_week", "==", .string "MONDAY"⟩], .join .and,
          .block [.comparison ⟨"day_of_week", "==", .string "FRIDAY"⟩]] := by
  have begins : standard.Begins (standard.initial "Week") := .new "Week"
  have reaches : standard.Reaches (standard.initial "Week") week := Reaches.refl.session _ _
  have held : week.conditions.get? "condition_00000000" = some weekRule := by decide +kernel
  have omitted : ¬ weekGap.Emitted Catalog.builtin.registry := by decide +kernel
  have member : weekGap ∈ weekRule.blocks := by decide +kernel
  have idle : weekRule.Idle Catalog.builtin.registry "condition_00000000"
      (.removeBlock "condition_00000000" weekGap.id) weekGap.partIds := .removeBlock member omitted
  obtain ⟨d, new, left, change, ⟨outcome, adds⟩ | ⟨_, adds, _⟩⟩ :=
    Reaches.idle_edit Catalog.builtin.registry begins reaches held idle .counter
  · obtain rfl : new = [] := by simpa [Command.addsPart] using adds
    exact ⟨begins, reaches, held, idle, ⟨d, left, change⟩, outcome, by decide +kernel⟩
  · contradiction

end Editor

end TradingStrategy
