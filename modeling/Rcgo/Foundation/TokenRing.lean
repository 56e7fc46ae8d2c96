import Rcgo.Foundation.MessageRing
import Mathlib.Data.Set.Basic
import Mathlib.Logic.Function.Basic
import Mathlib.Tactic.Common

/-!
# Detecting that a ring is passive

Nodes on a ring send tokens, alarms and the result of the detection to their
successors in order.  A node that becomes passive starts a token, and passive nodes
pass it on.  An alarm makes all nodes active again.  The detection is right as long
as no node becomes passive while an old token of it is still on the way.
-/

namespace Rcgo.Foundation

universe u

/-- What nodes send to their successors. -/
inductive Notice (ι : Type u) where
  | token (origin : ι)
  | alarm
  | finish

/-- The nodes with what each has still to receive. -/
structure RingState (ι : Type u) where
  passive : ι → Prop
  queue : ι → List (Notice ι)

variable {ι : Type u}

/-! ## Arcs -/

/-- The nodes from the start up to the place, without the place unless it is the start. -/
structure Arc (next : ι → ι) (start place : ι) (members : Set ι) : Prop where
  start_mem : start ∈ members
  before : ∀ node, next node ∈ members → next node = start ∨ node ∈ members
  last : ∀ node, next node = place → node ∈ members

variable {next : ι → ι} {start place : ι} {members : Set ι}

theorem arc_singleton (injective : Function.Injective next) (start : ι) :
    Arc next start (next start) {start} where
  start_mem := rfl
  before _ isStart := Or.inl isStart
  last _ isPlace := injective isPlace

theorem Arc.extend (arc : Arc next start place members) (injective : Function.Injective next) :
    Arc next start (next place) (insert place members) where
  start_mem := Or.inr arc.start_mem
  before node isMember := by
    cases isMember with
    | inl isPlace => exact Or.inr (Or.inr (arc.last node isPlace))
    | inr isMember => exact (arc.before node isMember).imp_right Or.inr
  last _ isPlace := Or.inl (injective isPlace)

theorem Arc.whole (arc : Arc next start start members)
    (goesRound : ∀ node, ∃ count, next^[count] node = start) (node : ι) : node ∈ members := by
  have back : ∀ other, next other ∈ members → other ∈ members := by
    intro other isMember
    cases arc.before other isMember with
    | inl isStart => exact arc.last other isStart
    | inr isMember => exact isMember
  obtain ⟨count, reaches⟩ := goesRound node
  have atEnd : next^[count] node ∈ members := reaches ▸ arc.start_mem
  clear reaches
  induction count with
  | zero => exact atEnd
  | succ count inductionHypothesis =>
      rw [Function.iterate_succ_apply'] at atEnd
      exact inductionHypothesis (back _ atEnd)

/-! ## The protocol -/

namespace RingState

/-- What a node may become, keep of its queue and send. -/
inductive Move (state : RingState ι) (node : ι) :
    Prop → List (Notice ι) → Option (Notice ι) → Prop where
  | stay : Move state node (state.passive node) (state.queue node) none
  | drop {notice : Notice ι} {rest : List (Notice ι)}
      (isHead : state.queue node = notice :: rest) :
      Move state node (state.passive node) rest none
  | launch (active : ¬state.passive node)
      (fresh : ∀ other, Notice.token node ∉ state.queue other) :
      Move state node True (state.queue node) (some (.token node))
  | alarm (active : ¬state.passive node) :
      Move state node (state.passive node) (state.queue node) (some .alarm)
  | relay {rest : List (Notice ι)} (isHead : state.queue node = .alarm :: rest) :
      Move state node False rest (some .alarm)
  | forward {origin : ι} {rest : List (Notice ι)} (isPassive : state.passive node)
      (isHead : state.queue node = .token origin :: rest) (isOther : origin ≠ node) :
      Move state node (state.passive node) rest (some (.token origin))
  | finish {rest : List (Notice ι)} (isPassive : state.passive node)
      (isHead : state.queue node = .token node :: rest) :
      Move state node (state.passive node) rest (some .finish)
  | passOn {rest : List (Notice ι)} (isPassive : state.passive node)
      (isHead : state.queue node = .finish :: rest) :
      Move state node (state.passive node) rest (some .finish)

/-- A token of a passive node has only passed passive nodes, and no alarm reaches them
before it reaches the origin of the token. -/
structure Guarded (state : RingState ι) (next : ι → ι) (origin place : ι)
    (members : Set ι) : Prop where
  arc : Arc next origin place members
  passive : ∀ node ∈ members, state.passive node
  quiet : ∀ node ∈ members, node ≠ origin → Notice.alarm ∉ state.queue node
  behind : ¬[Notice.token origin, .alarm].Sublist (state.queue place)

/-- The invariant of the detection. -/
structure Detects (state : RingState ι) (next : ι → ι) : Prop where
  guards : ∀ origin place, Notice.token origin ∈ state.queue place → state.passive origin →
    ∃ members, state.Guarded next origin place members
  finished : ∀ place, Notice.finish ∈ state.queue place →
    ∀ node, state.passive node ∧ Notice.alarm ∉ state.queue node

variable {state : RingState ι} {node origin place : ι} {passive : Prop}
  {rest : List (Notice ι)} {sent : Option (Notice ι)}

theorem Move.kept (move : state.Move node passive rest sent) :
    rest.Sublist (state.queue node) := by
  cases move with
  | stay => exact List.Sublist.refl _
  | launch active fresh => exact List.Sublist.refl _
  | alarm active => exact List.Sublist.refl _
  | drop isHead => exact isHead ▸ List.sublist_cons_self _ _
  | relay isHead => exact isHead ▸ List.sublist_cons_self _ _
  | forward isPassive isHead isOther => exact isHead ▸ List.sublist_cons_self _ _
  | finish isPassive isHead => exact isHead ▸ List.sublist_cons_self _ _
  | passOn isPassive isHead => exact isHead ▸ List.sublist_cons_self _ _

/-! ## The nodes after a move -/

variable [DecidableEq ι]

/-- One node is changed, and something is sent to its successor. -/
def after (state : RingState ι) (next : ι → ι) (node : ι) (passive : Prop)
    (rest : List (Notice ι)) (sent : Option (Notice ι)) : RingState ι where
  passive := Function.update state.passive node passive
  queue :=
    let queue := Function.update state.queue node rest
    Function.update queue (next node) (queue (next node) ++ sent.toList)

theorem mem_after {notice : Notice ι} (kept : rest.Sublist (state.queue node))
    (isMember : notice ∈ (state.after next node passive rest sent).queue place) :
    notice ∈ state.queue place ∨ place = next node ∧ sent = some notice := by
  let ring : MessageRing ι Prop (Notice ι) := ⟨state.passive, state.queue⟩
  have keeps : rest.Sublist (ring.queue node) := kept
  have isMessage : notice ∈ (ring.after next node passive rest sent).queue place := isMember
  exact MessageRing.mem_after keeps isMessage

theorem sublist_after {first second : Notice ι} (kept : rest.Sublist (state.queue node))
    (isSublist : [first, second].Sublist
      ((state.after next node passive rest sent).queue place)) :
    [first, second].Sublist (state.queue place) ∨ place = next node ∧ sent = some second := by
  let ring : MessageRing ι Prop (Notice ι) := ⟨state.passive, state.queue⟩
  have keeps : rest.Sublist (ring.queue node) := kept
  have areMessages : [first, second].Sublist
      ((ring.after next node passive rest sent).queue place) := isSublist
  exact MessageRing.sublist_after keeps areMessages

theorem Guarded.after {members : Set ι} (guarded : state.Guarded next origin place members)
    (kept : rest.Sublist (state.queue node))
    (staysPassive : ∀ other ∈ members,
      (state.after next node passive rest sent).passive other)
    (noAlarm : sent = some .alarm → node ∉ members) :
    (state.after next node passive rest sent).Guarded next origin place members where
  arc := guarded.arc
  passive := staysPassive
  quiet other isMember notOrigin isAlarm := by
    cases mem_after kept isAlarm with
    | inl wasAlarm => exact guarded.quiet other isMember notOrigin wasAlarm
    | inr isNew =>
        have isNode := guarded.arc.before node (isNew.1 ▸ isMember)
        exact noAlarm isNew.2 (isNode.resolve_left (isNew.1 ▸ notOrigin))
  behind isBehind := by
    cases sublist_after kept isBehind with
    | inl wasBehind => exact guarded.behind wasBehind
    | inr isNew => exact noAlarm isNew.2 (guarded.arc.last node isNew.1.symm)

theorem passive_after_self :
    (state.after next node (state.passive node) rest sent).passive = state.passive :=
  Function.update_eq_self ..

theorem passive_after_node : (state.after next node passive rest sent).passive node = passive := by
  rw [after]
  simp only [Function.update_self]

theorem passive_after_of_ne {other : ι} (notNode : other ≠ node) :
    (state.after next node passive rest sent).passive other = state.passive other := by
  rw [after]
  simp only [Function.update_of_ne notNode]

/-! ## The invariant -/

theorem Detects.guards_after (detects : state.Detects next)
    (kept : rest.Sublist (state.queue node))
    (notToken : ∀ origin, sent ≠ some (.token origin))
    (noAlarm : sent = some .alarm → ¬state.passive node) :
    ∀ origin place, Notice.token origin ∈
        (state.after next node (state.passive node) rest sent).queue place →
      (state.after next node (state.passive node) rest sent).passive origin →
      ∃ members, (state.after next node (state.passive node) rest sent).Guarded next origin
        place members := by
  intro origin place isToken isPassive
  rw [passive_after_self] at isPassive
  cases mem_after kept isToken with
  | inr isNew => exact absurd isNew.2 (notToken origin)
  | inl wasToken =>
      obtain ⟨members, guarded⟩ := detects.guards origin place wasToken isPassive
      refine ⟨members, guarded.after kept ?_ ?_⟩
      · rw [passive_after_self]
        exact guarded.passive
      · intro isAlarm isMember
        exact noAlarm isAlarm (guarded.passive node isMember)

theorem Detects.finished_after (detects : state.Detects next)
    (kept : rest.Sublist (state.queue node)) (noAlarm : sent ≠ some .alarm)
    (finishes : sent = some .finish →
      ∀ other, state.passive other ∧ Notice.alarm ∉ state.queue other) :
    ∀ place, Notice.finish ∈
        (state.after next node (state.passive node) rest sent).queue place →
      ∀ other, (state.after next node (state.passive node) rest sent).passive other ∧
        Notice.alarm ∉ (state.after next node (state.passive node) rest sent).queue other := by
  intro place isFinish other
  have before : ∀ other, state.passive other ∧ Notice.alarm ∉ state.queue other := by
    cases mem_after kept isFinish with
    | inl wasFinish => exact detects.finished place wasFinish
    | inr isNew => exact finishes isNew.2
  rw [passive_after_self]
  refine ⟨(before other).1, fun isAlarm => ?_⟩
  cases mem_after kept isAlarm with
  | inl wasAlarm => exact (before other).2 wasAlarm
  | inr isNew => exact noAlarm isNew.2

theorem Detects.launch (detects : state.Detects next) (injective : Function.Injective next)
    (active : ¬state.passive node) (fresh : ∀ other, Notice.token node ∉ state.queue other) :
    (state.after next node True (state.queue node) (some (.token node))).Detects next where
  guards origin place isToken isPassive := by
    have becomes : ∀ other, state.passive other →
        (state.after next node True (state.queue node) (some (.token node))).passive other := by
      intro other wasPassive
      have notNode : other ≠ node := fun isNode => active (isNode ▸ wasPassive)
      rw [passive_after_of_ne notNode]
      exact wasPassive
    cases mem_after (.refl _) isToken with
    | inl wasToken =>
        have notNode : origin ≠ node := fun isNode => fresh place (isNode ▸ wasToken)
        have wasPassive : state.passive origin := by
          rw [passive_after_of_ne notNode] at isPassive
          exact isPassive
        obtain ⟨members, guarded⟩ := detects.guards origin place wasToken wasPassive
        exact ⟨members, guarded.after (.refl _)
          (fun other isMember => becomes other (guarded.passive other isMember)) (by rintro ⟨⟩)⟩
    | inr isNew =>
        have isOrigin : node = origin := by
          have := Option.some.inj isNew.2
          cases this
          rfl
        rw [isNew.1, ← isOrigin]
        refine ⟨{node}, arc_singleton injective node, ?_, ?_, ?_⟩
        · rintro other rfl
          rw [passive_after_node]
          trivial
        · intro other isMember notNode
          exact absurd isMember notNode
        · intro isBehind
          cases sublist_after (.refl _) isBehind with
          | inl wasBehind => exact fresh _ (wasBehind.subset List.mem_cons_self)
          | inr isAlarm => cases isAlarm.2
  finished place isFinish := by
    cases mem_after (.refl _) isFinish with
    | inl wasFinish => exact absurd (detects.finished place wasFinish node).1 active
    | inr isNew => cases isNew.2

theorem Detects.relay (detects : state.Detects next)
    (isHead : state.queue node = .alarm :: rest) :
    (state.after next node False rest (some .alarm)).Detects next where
  guards origin place isToken isPassive := by
    have kept : rest.Sublist (state.queue node) := isHead ▸ List.sublist_cons_self _ _
    have isAlarm : Notice.alarm ∈ state.queue node := isHead ▸ List.mem_cons_self
    have notNode : origin ≠ node := by
      intro isNode
      rw [isNode, passive_after_node] at isPassive
      exact isPassive
    cases mem_after kept isToken with
    | inr isNew => cases isNew.2
    | inl wasToken =>
        obtain ⟨members, guarded⟩ :=
          detects.guards origin place wasToken (passive_after_of_ne notNode ▸ isPassive)
        have notMember : node ∉ members := fun isMember =>
          guarded.quiet node isMember notNode.symm isAlarm
        refine ⟨members, guarded.after kept ?_ fun _ => notMember⟩
        intro other isMember
        have isOther : other ≠ node := by
          rintro rfl
          exact notMember isMember
        rw [passive_after_of_ne isOther]
        exact guarded.passive other isMember
  finished place isFinish := by
    have isAlarm : Notice.alarm ∈ state.queue node := isHead ▸ List.mem_cons_self
    cases mem_after (isHead ▸ List.sublist_cons_self _ _) isFinish with
    | inl wasFinish => exact absurd isAlarm (detects.finished place wasFinish node).2
    | inr isNew => cases isNew.2

theorem Detects.forward (detects : state.Detects next) (injective : Function.Injective next)
    (isPassive : state.passive node) (isHead : state.queue node = .token origin :: rest)
    (isOther : origin ≠ node) :
    (state.after next node (state.passive node) rest (some (.token origin))).Detects next where
  guards other place isToken isPassiveOther := by
    have kept : rest.Sublist (state.queue node) := isHead ▸ List.sublist_cons_self _ _
    have wasHead : Notice.token origin ∈ state.queue node := isHead ▸ List.mem_cons_self
    rw [passive_after_self] at isPassiveOther
    have keeps : ∀ members, state.Guarded next other place members →
        (state.after next node (state.passive node) rest (some (.token origin))).Guarded next
          other place members := by
      intro members guarded
      refine guarded.after kept ?_ (by rintro ⟨⟩)
      rw [passive_after_self]
      exact guarded.passive
    cases mem_after kept isToken with
    | inl wasToken =>
        obtain ⟨members, guarded⟩ := detects.guards other place wasToken isPassiveOther
        exact ⟨members, keeps members guarded⟩
    | inr isNew =>
        obtain ⟨rfl, isSent⟩ := isNew
        have isOrigin : origin = other := by
          have := Option.some.inj isSent
          cases this
          rfl
        subst isOrigin
        obtain ⟨members, guarded⟩ := detects.guards origin node wasHead isPassiveOther
        have noAlarm : Notice.alarm ∉ state.queue node := by
          intro isAlarm
          apply guarded.behind
          rw [isHead] at isAlarm ⊢
          cases isAlarm with
          | tail _ inRest => exact (List.singleton_sublist.mpr inRest).cons_cons _
        refine ⟨insert node members, guarded.arc.extend injective, ?_, ?_, ?_⟩
        · rw [passive_after_self]
          rintro member (rfl | isMember)
          · exact isPassive
          · exact guarded.passive member isMember
        · intro member isMember notOrigin isAlarm
          have wasAlarm : Notice.alarm ∈ state.queue member :=
            (mem_after kept isAlarm).resolve_right (by rintro ⟨_, ⟨⟩⟩)
          cases isMember with
          | inl isNode => exact noAlarm (isNode ▸ wasAlarm)
          | inr isMember => exact guarded.quiet member isMember notOrigin wasAlarm
        · intro isBehind
          have wasBehind : [Notice.token origin, .alarm].Sublist (state.queue (next node)) :=
            (sublist_after kept isBehind).resolve_right (by rintro ⟨_, ⟨⟩⟩)
          obtain ⟨_, other⟩ := detects.guards origin (next node)
            (wasBehind.subset List.mem_cons_self) isPassiveOther
          exact other.behind wasBehind
  finished := detects.finished_after (isHead ▸ List.sublist_cons_self _ _) (by rintro ⟨⟩)
    (by rintro ⟨⟩)

theorem Detects.all_passive (detects : state.Detects next)
    (goesRound : ∀ first last, ∃ count, next^[count] first = last)
    (isPassive : state.passive node) (isHead : state.queue node = .token node :: rest) :
    ∀ other, state.passive other ∧ Notice.alarm ∉ state.queue other := by
  intro other
  obtain ⟨members, guarded⟩ :=
    detects.guards node node (isHead ▸ List.mem_cons_self) isPassive
  have isMember := guarded.arc.whole (fun start => goesRound start node) other
  refine ⟨guarded.passive other isMember, ?_⟩
  by_cases isNode : other = node
  · intro isAlarm
    apply guarded.behind
    rw [isNode, isHead] at isAlarm
    rw [isHead]
    cases isAlarm with
    | tail _ inRest => exact (List.singleton_sublist.mpr inRest).cons_cons _
  · exact guarded.quiet other isMember isNode

theorem Detects.after (detects : state.Detects next) (injective : Function.Injective next)
    (goesRound : ∀ first last, ∃ count, next^[count] first = last)
    (move : state.Move node passive rest sent) :
    (state.after next node passive rest sent).Detects next := by
  have kept := move.kept
  cases move with
  | stay =>
      exact ⟨detects.guards_after kept (by rintro _ ⟨⟩) (by rintro ⟨⟩),
        detects.finished_after kept (by rintro ⟨⟩) (by rintro ⟨⟩)⟩
  | drop isHead =>
      exact ⟨detects.guards_after kept (by rintro _ ⟨⟩) (by rintro ⟨⟩),
        detects.finished_after kept (by rintro ⟨⟩) (by rintro ⟨⟩)⟩
  | launch active fresh => exact detects.launch injective active fresh
  | alarm active =>
      refine ⟨detects.guards_after kept (by rintro _ ⟨⟩) fun _ => active, ?_⟩
      intro place isFinish
      cases mem_after kept isFinish with
      | inl wasFinish => exact absurd (detects.finished place wasFinish node).1 active
      | inr isNew => cases isNew.2
  | relay isHead => exact detects.relay isHead
  | forward isPassive isHead isOther =>
      exact detects.forward injective isPassive isHead isOther
  | finish isPassive isHead =>
      exact ⟨detects.guards_after kept (by rintro _ ⟨⟩) (by rintro ⟨⟩),
        detects.finished_after kept (by rintro ⟨⟩) fun _ =>
          detects.all_passive goesRound isPassive isHead⟩
  | passOn isPassive isHead =>
      exact ⟨detects.guards_after kept (by rintro _ ⟨⟩) (by rintro ⟨⟩),
        detects.finished_after kept (by rintro ⟨⟩) fun _ =>
          detects.finished node (isHead ▸ List.mem_cons_self)⟩

end RingState

end Rcgo.Foundation
