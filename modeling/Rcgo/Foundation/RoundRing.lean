import Rcgo.Foundation.MessageRing
import Mathlib.Data.Nat.Find

/-!
# Rounds on a ring

Nodes wait for a round, join it one after the other and leave it when an alarm goes
round.  A node that joins while an alarm is on the ring may be left behind with no one
to wake it; where an alarm still comes to it, or there is none, it is not.
-/

namespace Rcgo.Foundation

universe u

/-- Before, at and behind the start of a round. -/
inductive Phase where
  | early
  | waiting
  | late
  deriving DecidableEq

/-- What nodes of a round send to their successors. -/
inductive RoundNotice (ι : Type u) where
  | check (origin : ι)
  | alarm (origin : ι)
  deriving DecidableEq

abbrev RoundRing (ι : Type u) := MessageRing ι Phase (RoundNotice ι)

variable {ι : Type u} {next : ι → ι} {start origin node : ι}

/-! ## The way of an alarm -/

/-- An alarm at the start gets to the node before it gets back to its origin. -/
def Travels (next : ι → ι) (start origin node : ι) : Prop :=
  ∃ count, next^[count] start = node ∧ ∀ before ≤ count, next^[before] start ≠ origin

theorem Travels.origin_ne (travels : Travels next start origin node) : start ≠ origin := by
  obtain ⟨count, _, avoids⟩ := travels
  exact avoids 0 (Nat.zero_le count)

theorem Travels.advance (travels : Travels next start origin node) (notNode : node ≠ start) :
    Travels next (next start) origin node := by
  obtain ⟨count, isNode, avoids⟩ := travels
  cases count with
  | zero => exact absurd isNode.symm notNode
  | succ count =>
      refine ⟨count, isNode, fun before isBefore => ?_⟩
      exact avoids (before + 1) (Nat.succ_le_succ isBefore)

theorem travels_of_ne (goesRound : ∀ first last, ∃ count, next^[count] first = last)
    (notOrigin : node ≠ origin) : Travels next (next origin) origin node := by
  classical
  have arrives := goesRound (next origin) node
  obtain ⟨count, isNode, isLeast⟩ : ∃ count, next^[count] (next origin) = node ∧
      ∀ fewer < count, next^[fewer] (next origin) ≠ node :=
    ⟨Nat.find arrives, Nat.find_spec arrives, fun _ isFewer => Nat.find_min arrives isFewer⟩
  refine ⟨count, isNode, fun before isBefore isOrigin => ?_⟩
  cases Nat.eq_or_lt_of_le isBefore with
  | inl isSame =>
      rw [isSame, isNode] at isOrigin
      exact notOrigin isOrigin
  | inr isLess =>
      -- going on from the origin takes fewer steps
      have isFewer : count - (before + 1) < count := by omega
      apply isLeast _ isFewer
      calc next^[count - (before + 1)] (next origin)
          = next^[count - (before + 1)] (next^[before + 1] (next origin)) := by
            rw [Function.iterate_succ_apply', isOrigin]
        _ = next^[count] (next origin) := by
            rw [← Function.iterate_add_apply, Nat.sub_add_cancel isLess]
        _ = node := isNode

/-! ## The protocol -/

namespace RoundRing

variable {ring : RoundRing ι} {phase : Phase} {rest : List (RoundNotice ι)}
  {sent : Option (RoundNotice ι)}

/-- What a node may become, keep of its queue and send. -/
inductive Move (ring : RoundRing ι) (node : ι) :
    Phase → List (RoundNotice ι) → Option (RoundNotice ι) → Prop where
  | stay : Move ring node (ring.status node) (ring.queue node) none
  | drop {notice : RoundNotice ι} {rest : List (RoundNotice ι)}
      (isHead : ring.queue node = notice :: rest)
      (joins : ∀ origin, ring.status node = .waiting → notice = .check origin → origin = node)
      (relays : ∀ origin, notice = .alarm origin → origin = node) :
      Move ring node (ring.status node) rest none
  | settle (phase : Phase) (isEarly : ring.status node = .early) (notLate : phase ≠ .late) :
      Move ring node phase (ring.queue node) none
  | start (isWaiting : ring.status node = .waiting) :
      Move ring node .late (ring.queue node) (some (.check node))
  | join {origin : ι} {rest : List (RoundNotice ι)} (isWaiting : ring.status node = .waiting)
      (isHead : ring.queue node = .check origin :: rest) (isOther : origin ≠ node) :
      Move ring node .late rest (some (.check origin))
  | relay {origin : ι} {rest : List (RoundNotice ι)}
      (isHead : ring.queue node = .alarm origin :: rest) (isOther : origin ≠ node) :
      Move ring node .early rest (some (.alarm origin))
  | raise (notWaiting : ring.status node ≠ .waiting) :
      Move ring node .early (ring.queue node) (some (.alarm node))

def Recalled (ring : RoundRing ι) (next : ι → ι) (node : ι) : Prop :=
  ∃ place origin, RoundNotice.alarm origin ∈ ring.queue place ∧ Travels next place origin node

def Calm (ring : RoundRing ι) : Prop :=
  ∀ place origin, RoundNotice.alarm origin ∉ ring.queue place

/-- Each node behind the start of a round is recalled as soon as there is an alarm. -/
def Alerts (ring : RoundRing ι) (next : ι → ι) : Prop :=
  ∀ node, ring.status node = .late → ring.Recalled next node ∨ ring.Calm

/-- The successor of a node is behind the start or will be, or the node is recalled. -/
def Followed (ring : RoundRing ι) (next : ι → ι) (node : ι) : Prop :=
  ring.status (next node) = .late ∨
    (ring.status (next node) = .waiting ∧
      ∃ origin, origin ≠ next node ∧ RoundNotice.check origin ∈ ring.queue (next node)) ∨
    ring.Recalled next node

/-- No node goes behind the start of a round alone. -/
def Linked (ring : RoundRing ι) (next : ι → ι) : Prop :=
  ∀ node, ring.status node = .late → ring.Followed next node

theorem Move.kept (move : ring.Move node phase rest sent) : rest.Sublist (ring.queue node) := by
  cases move with
  | stay => exact List.Sublist.refl _
  | settle phase isEarly notLate => exact List.Sublist.refl _
  | start isWaiting => exact List.Sublist.refl _
  | raise notWaiting => exact List.Sublist.refl _
  | drop isHead joins relays => exact isHead ▸ List.sublist_cons_self _ _
  | join isWaiting isHead isOther => exact isHead ▸ List.sublist_cons_self _ _
  | relay isHead isOther => exact isHead ▸ List.sublist_cons_self _ _

variable [DecidableEq ι]

/-! ## Alarms -/

theorem Recalled.after {other : ι} (recalled : ring.Recalled next other)
    (move : ring.Move node phase rest sent)
    (notReset : other = node → ∀ origin, sent ≠ some (.alarm origin)) :
    Recalled (ring.after next node phase rest sent) next other := by
  obtain ⟨place, origin, isAlarm, travels⟩ := recalled
  by_cases isPlace : place = node
  · have stays : RoundNotice.alarm origin ∈ rest →
        Recalled (ring.after next node phase rest sent) next other := fun inRest =>
      ⟨place, origin, MessageRing.mem_after_of_mem isAlarm fun _ => inRest, travels⟩
    rw [isPlace] at isAlarm travels
    cases move with
    | stay => exact stays isAlarm
    | settle phase isEarly notLate => exact stays isAlarm
    | start isWaiting => exact stays isAlarm
    | raise notWaiting => exact stays isAlarm
    | @drop notice rest isHead joins relays =>
        rw [isHead] at isAlarm
        cases isAlarm with
        | head => exact absurd (relays origin rfl).symm travels.origin_ne
        | tail _ inRest => exact stays inRest
    | @join first rest isWaiting isHead isOther =>
        rw [isHead] at isAlarm
        cases isAlarm with
        | tail _ inRest => exact stays inRest
    | @relay first rest isHead isOther =>
        rw [isHead] at isAlarm
        cases isAlarm with
        | tail _ inRest => exact stays inRest
        | head =>
            have notNode : other ≠ node := fun isSame => notReset isSame origin rfl
            exact ⟨next node, origin, MessageRing.mem_after_sent rfl, travels.advance notNode⟩
  · refine ⟨place, origin, MessageRing.mem_after_of_mem isAlarm ?_, travels⟩
    exact fun isSame => absurd isSame isPlace

theorem Calm.after (calm : ring.Calm) (move : ring.Move node phase rest sent)
    (notAlarm : ∀ origin, sent ≠ some (.alarm origin)) :
    Calm (ring.after next node phase rest sent) := by
  intro place origin isAlarm
  cases MessageRing.mem_after move.kept isAlarm with
  | inl wasAlarm => exact calm place origin wasAlarm
  | inr isNew => exact notAlarm origin isNew.2

theorem recalled_of_alarm (goesRound : ∀ first last, ∃ count, next^[count] first = last)
    (alerts : ring.Alerts next) (move : ring.Move node phase rest sent) {origin other : ι}
    (isSent : sent = some (.alarm origin)) (notNode : other ≠ node)
    (isLate : ring.status other = .late) :
    Recalled (ring.after next node phase rest sent) next other := by
  have persists : ring.Recalled next other →
      Recalled (ring.after next node phase rest sent) next other := fun recalled =>
    recalled.after move fun isSame => absurd isSame notNode
  cases move with
  | stay => cases isSent
  | drop isHead joins relays => cases isSent
  | settle phase isEarly notLate => cases isSent
  | start isWaiting => cases isSent
  | join isWaiting isHead isOther => cases isSent
  | @relay first rest isHead isOther =>
      cases alerts other isLate with
      | inl recalled => exact persists recalled
      | inr calm => exact absurd (isHead ▸ List.mem_cons_self) (calm node first)
  | raise notWaiting =>
      exact ⟨next node, node, MessageRing.mem_after_sent rfl, travels_of_ne goesRound notNode⟩

/-! ## The invariants -/

theorem Alerts.after (goesRound : ∀ first last, ∃ count, next^[count] first = last)
    (alerts : ring.Alerts next) (move : ring.Move node phase rest sent)
    (timely : ring.status node = .waiting → phase = .late → ring.Recalled next node ∨ ring.Calm) :
    Alerts (ring.after next node phase rest sent) next := by
  intro other isLate
  have quiet : (∀ origin, sent ≠ some (.alarm origin)) → ring.Recalled next other ∨ ring.Calm →
      Recalled (ring.after next node phase rest sent) next other ∨
        Calm (ring.after next node phase rest sent) := fun notAlarm before =>
    before.imp (fun recalled => recalled.after move fun _ => notAlarm)
      fun calm => calm.after move notAlarm
  by_cases isNode : other = node
  · rw [isNode, MessageRing.status_after_node] at isLate
    rw [isNode] at quiet ⊢
    cases move with
    | stay => exact quiet (by rintro _ ⟨⟩) (alerts node isLate)
    | drop isHead joins relays => exact quiet (by rintro _ ⟨⟩) (alerts node isLate)
    | settle phase isEarly notLate => exact absurd isLate notLate
    | start isWaiting => exact quiet (by rintro _ ⟨⟩) (timely isWaiting rfl)
    | join isWaiting isHead isOther => exact quiet (by rintro _ ⟨⟩) (timely isWaiting rfl)
    | relay isHead isOther => cases isLate
    | raise notWaiting => cases isLate
  · rw [MessageRing.status_after_of_ne isNode] at isLate
    by_cases isAlarm : ∃ origin, sent = some (.alarm origin)
    · obtain ⟨origin, isSent⟩ := isAlarm
      exact Or.inl (recalled_of_alarm goesRound alerts move isSent isNode isLate)
    · exact quiet (fun origin isSent => isAlarm ⟨origin, isSent⟩) (alerts other isLate)

theorem Followed.after_of_ne {other : ι} (followed : ring.Followed next other)
    (move : ring.Move node phase rest sent) (notNext : next other ≠ node)
    (notReset : other = node → ∀ origin, sent ≠ some (.alarm origin)) :
    Followed (ring.after next node phase rest sent) next other := by
  rw [Followed, MessageRing.status_after_of_ne notNext]
  refine followed.imp_right fun follows => follows.imp ?_ fun recalled =>
    recalled.after move notReset
  rintro ⟨isWaiting, origin, isOther, isCheck⟩
  exact ⟨isWaiting, origin, isOther, MessageRing.mem_after_of_mem isCheck fun isNode =>
    absurd isNode notNext⟩

theorem Followed.after_next (goesRound : ∀ first last, ∃ count, next^[count] first = last)
    (alerts : ring.Alerts next) (move : ring.Move (next node) phase rest sent)
    (isLate : ring.status node = .late) (notNext : node ≠ next node)
    (followed : ring.Followed next node) :
    Followed (ring.after next (next node) phase rest sent) next node := by
  rcases followed with nextLate | ⟨nextWaits, origin, isOther, isCheck⟩ | recalled
  · have stays : phase = .late →
        Followed (ring.after next (next node) phase rest sent) next node :=
      fun isPhase => Or.inl (MessageRing.status_after_node.trans isPhase)
    cases move with
    | stay => exact stays nextLate
    | drop isHead joins relays => exact stays nextLate
    | settle phase isEarly notLate =>
        have := isEarly.symm.trans nextLate
        cases this
    | start isWaiting => exact stays rfl
    | join isWaiting isHead isFirst => exact stays rfl
    | relay isHead isFirst =>
        exact Or.inr (Or.inr
          (recalled_of_alarm goesRound alerts (.relay isHead isFirst) rfl notNext isLate))
    | raise notWaiting =>
        exact Or.inr (Or.inr
          (recalled_of_alarm goesRound alerts (.raise notWaiting) rfl notNext isLate))
  · have stays : phase = .waiting → RoundNotice.check origin ∈ rest →
        Followed (ring.after next (next node) phase rest sent) next node :=
      fun isPhase inRest => Or.inr (Or.inl ⟨MessageRing.status_after_node.trans isPhase, origin,
        isOther, MessageRing.mem_after_of_mem isCheck fun _ => inRest⟩)
    cases move with
    | stay => exact stays nextWaits isCheck
    | @drop notice rest isHead joins relays =>
        rw [isHead] at isCheck
        cases isCheck with
        | head => exact absurd (joins origin nextWaits rfl) isOther
        | tail _ inRest => exact stays nextWaits inRest
    | settle phase isEarly notLate =>
        have := isEarly.symm.trans nextWaits
        cases this
    | start isWaiting => exact Or.inl MessageRing.status_after_node
    | join isWaiting isHead isFirst => exact Or.inl MessageRing.status_after_node
    | relay isHead isFirst =>
        exact Or.inr (Or.inr
          (recalled_of_alarm goesRound alerts (.relay isHead isFirst) rfl notNext isLate))
    | raise notWaiting => exact absurd nextWaits notWaiting
  · exact Or.inr (Or.inr (recalled.after move fun isNext => absurd isNext notNext))

theorem Linked.after (goesRound : ∀ first last, ∃ count, next^[count] first = last)
    (linked : ring.Linked next) (alerts : ring.Alerts next)
    (move : ring.Move node phase rest sent)
    (joins : next node ≠ node → ∀ origin, ring.status node = .waiting →
      sent = some (.check origin) → ring.Recalled next node ∨
        ring.status (next node) = .late ∨
          ring.status (next node) = .waiting ∧ origin ≠ next node) :
    Linked (ring.after next node phase rest sent) next := by
  intro other isLate
  by_cases isNode : other = node
  · rw [isNode, MessageRing.status_after_node] at isLate
    rw [isNode]
    by_cases isNext : next node = node
    · rw [Followed, isNext, MessageRing.status_after_node]
      exact Or.inl isLate
    · have joined : ∀ origin, ring.status node = .waiting → sent = some (.check origin) →
          Followed (ring.after next node phase rest sent) next node := by
        intro origin isWaiting isSent
        rw [Followed, MessageRing.status_after_of_ne isNext]
        rcases joins isNext origin isWaiting isSent with recalled | nextLate | ⟨nextWaits, isOther⟩
        · exact Or.inr (Or.inr (recalled.after move (isSent ▸ by rintro _ _ ⟨⟩)))
        · exact Or.inl nextLate
        · exact Or.inr (Or.inl ⟨nextWaits, origin, isOther, MessageRing.mem_after_sent isSent⟩)
      cases move with
      | stay =>
          exact (linked node isLate).after_of_ne .stay isNext (by rintro _ _ ⟨⟩)
      | drop isHead ignores relays =>
          exact (linked node isLate).after_of_ne (.drop isHead ignores relays) isNext
            (by rintro _ _ ⟨⟩)
      | settle phase isEarly notLate => exact absurd isLate notLate
      | start isWaiting => exact joined node isWaiting rfl
      | join isWaiting isHead isOther => exact joined _ isWaiting rfl
      | relay isHead isOther => cases isLate
      | raise notWaiting => cases isLate
  · rw [MessageRing.status_after_of_ne isNode] at isLate
    by_cases isNext : next other = node
    · subst isNext
      exact (linked other isLate).after_next goesRound alerts move isLate isNode
    · exact (linked other isLate).after_of_ne move isNext fun isSame => absurd isSame isNode

omit [DecidableEq ι] in
theorem Linked.all_late (linked : ring.Linked next)
    (goesRound : ∀ first last, ∃ count, next^[count] first = last)
    (isEmpty : ∀ place, ring.queue place = []) (isLate : ring.status node = .late) (other : ι) :
    ring.status other = .late := by
  have nextLate : ∀ node, ring.status node = .late → ring.status (next node) = .late := by
    intro node isLate
    rcases linked node isLate with nextLate | ⟨_, origin, _, isCheck⟩ | ⟨place, origin, isAlarm, _⟩
    · exact nextLate
    · rw [isEmpty] at isCheck
      cases isCheck
    · rw [isEmpty] at isAlarm
      cases isAlarm
  obtain ⟨count, isOther⟩ := goesRound node other
  rw [← isOther]
  clear isOther
  induction count with
  | zero => exact isLate
  | succ count inductionHypothesis =>
      rw [Function.iterate_succ_apply']
      exact nextLate _ inductionHypothesis

end RoundRing

end Rcgo.Foundation
