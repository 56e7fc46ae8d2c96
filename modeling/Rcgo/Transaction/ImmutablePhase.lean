import Rcgo.Transaction.Activation

/-!
# The immutable phase

The frames of the transitions that activate stay on the stack, one above the
other, and are chained through their base pointers.
-/

namespace Rcgo.Transaction

/-! ## Frames -/

/-- The frame of a transition that has executed an activate statement, with
the memory when the statement finished. -/
structure Frame where
  start : Nat
  layout : Layout
  body : Nat
  snapshot : Memory

namespace Frame

def basePointer (frame : Frame) : Nat :=
  frame.start + frame.layout.arguments + wordSize

def limit (frame : Frame) : Nat :=
  frame.basePointer + wordSize + frame.layout.locals

/-- The frame holds its deferred body, and its parameters and locals are those
of the snapshot. -/
def Holds (frame : Frame) (memory : Memory) : Prop :=
  memory (frame.basePointer - wordSize) = frame.body ∧
    ∀ a, frame.layout.Own frame.basePointer a → memory a = frame.snapshot a

theorem own_inside {frame : Frame} {a : Nat} (own : frame.layout.Own frame.basePointer a) :
    frame.start ≤ a ∧ a < frame.limit := by
  simp only [Layout.Own, basePointer, limit, wordSize] at *
  omega

theorem Holds.congr {frame : Frame} {memory other : Memory} (holds : frame.Holds memory)
    (same : ∀ a, frame.start ≤ a → a < frame.limit → other a = memory a) :
    frame.Holds other := by
  constructor
  · rw [same]
    · exact holds.1
    · simp only [basePointer, wordSize]
      omega
    · simp only [limit, basePointer, wordSize]
      omega
  · intro a own
    obtain ⟨above, below⟩ := own_inside own
    rw [same a above below]
    exact holds.2 a own

end Frame

/-- The frames that are chained from `head` to `target`, last one first. -/
def FrameChain (memory : Memory) : Nat → List Frame → Nat → Prop
  | head, [], target => head = target
  | head, frame :: rest, target =>
      head = frame.basePointer ∧ frame.Holds memory ∧ FrameChain memory (memory head) rest target

/-- The frames lie one above the other, last one first. -/
def Stacked (low : Nat) : List Frame → Nat → Prop
  | [], high => low ≤ high
  | frame :: rest, high => frame.limit ≤ high ∧ Stacked low rest frame.start

theorem FrameChain.append
    {memory : Memory} {middle target : Nat} {second : List Frame}
    (rest : FrameChain memory middle second target) :
    ∀ {first : List Frame} {head : Nat},
      FrameChain memory head first middle → FrameChain memory head (first ++ second) target
  | [], _, isMiddle => by
      rw [FrameChain] at isMiddle
      rw [isMiddle]
      exact rest
  | _ :: _, _, ⟨isHead, holds, tail⟩ => ⟨isHead, holds, rest.append tail⟩

theorem Stacked.le {low : Nat} :
    ∀ {frames : List Frame} {high : Nat}, Stacked low frames high → low ≤ high
  | [], _, stacked => stacked
  | frame :: _, _, ⟨below, rest⟩ => by
      have atLeast := rest.le
      simp only [Frame.limit, Frame.basePointer, wordSize] at below
      omega

theorem Stacked.append
    {low middle : Nat} {second : List Frame} (rest : Stacked low second middle) :
    ∀ {first : List Frame} {high : Nat},
      Stacked middle first high → Stacked low (first ++ second) high
  | [], high, atLeast => by
      cases second with
      | nil => exact Nat.le_trans rest atLeast
      | cons frame tail => exact ⟨Nat.le_trans rest.1 atLeast, rest.2⟩
  | _ :: _, _, ⟨below, tail⟩ => ⟨below, rest.append tail⟩

theorem Stacked.mem {low : Nat} :
    ∀ {frames : List Frame} {high : Nat}, Stacked low frames high →
      ∀ frame ∈ frames, low ≤ frame.start ∧ frame.limit ≤ high
  | [], _, _ => fun _ member => absurd member List.not_mem_nil
  | head :: rest, high, ⟨below, tail⟩ => by
      intro frame member
      rcases List.mem_cons.mp member with isHead | inRest
      · rw [isHead]
        exact ⟨tail.le, below⟩
      · obtain ⟨above, within⟩ := tail.mem frame inRest
        refine ⟨above, ?_⟩
        simp only [Frame.limit, Frame.basePointer, wordSize] at *
        omega

theorem FrameChain.congr
    {memory other : Memory} {low target : Nat} :
    ∀ {frames : List Frame} {head high : Nat},
      FrameChain memory head frames target → Stacked low frames high →
        (∀ a, low ≤ a → a < high → other a = memory a) →
          FrameChain other head frames target
  | [], _, _, chain, _, _ => chain
  | frame :: rest, head, high, ⟨isHead, holds, tail⟩, ⟨below, stacked⟩, same => by
      have atLeast := stacked.le
      have inFrame : ∀ a, frame.start ≤ a → a < frame.limit → other a = memory a :=
        fun a above within => same a (by omega) (by omega)
      refine ⟨isHead, holds.congr inFrame, ?_⟩
      have sameLink : other head = memory head := by
        apply inFrame
        · rw [isHead, Frame.basePointer]
          omega
        · rw [isHead, Frame.limit]
          simp only [wordSize]
          omega
      rw [sameLink]
      apply tail.congr stacked
      intro a above within
      apply same a above
      simp only [Frame.limit, Frame.basePointer] at below
      omega

/-! ## Events -/

namespace Event

variable {σ : Type}

/-- The frame and the body of an executed activate statement. -/
def activation : Event σ → Option (Nat × Nat)
  | activate basePointer body => some (basePointer, body)
  | _ => none

/-- The frame of an activate statement that has finished, with the memory. -/
def finished : Event σ → Option (Nat × Memory)
  | activated basePointer memory => some (basePointer, memory)
  | _ => none

def isDeferred : Event σ → Bool
  | deferred _ _ => true
  | _ => false

end Event

/-- The events of an immutable phase in which these frames have been
activated, last one first. -/
structure ImmutableEvents {σ : Type} (events : List (Event σ)) (frames : List Frame) :
    Prop where
  notDeferred : ∀ event ∈ events, event.isDeferred = false
  activations :
    events.filterMap Event.activation =
      frames.reverse.map fun frame => (frame.basePointer, frame.body)
  finished :
    (events.filterMap Event.finished).Perm
      (frames.map fun frame => (frame.basePointer, frame.snapshot))

theorem ImmutableEvents.append
    {σ : Type} {first second : List (Event σ)} {firstFrames secondFrames : List Frame}
    (firstEvents : ImmutableEvents first firstFrames)
    (secondEvents : ImmutableEvents second secondFrames) :
    ImmutableEvents (first ++ second) (secondFrames ++ firstFrames) := by
  refine ⟨?_, ?_, ?_⟩
  · intro event member
    rcases List.mem_append.mp member with inFirst | inSecond
    · exact firstEvents.notDeferred event inFirst
    · exact secondEvents.notDeferred event inSecond
  · rw [List.filterMap_append, firstEvents.activations, secondEvents.activations,
      List.reverse_append, List.map_append]
  · rw [List.filterMap_append, List.map_append]
    exact (firstEvents.finished.append secondEvents.finished).trans List.perm_append_comm

/-! ## Execution -/

section Execution

variable {σ : Type} {code : Nat → Body σ}

/-- What a part of the immutable phase does: it activates the frames above
`low` and leaves the memory below `low` as it was, except for the addresses
`own`. -/
structure Ran (code : Nat → Body σ) (low : Nat) (own : Nat → Prop)
    (before after : Executor σ) (frames : List Frame) : Prop where
  basePointer : after.basePointer = before.basePointer
  currentInfo : after.currentInfo = before.currentInfo
  chain :
    FrameChain after.memory after.mutablePhaseBasePointer frames
      before.mutablePhaseBasePointer
  stacked : Stacked low frames after.top
  compiled : ∀ frame ∈ frames, (code frame.body).layout = frame.layout
  memory : ∀ a, a < low → ¬ own a → after.memory a = before.memory a
  trace :
    ∃ events, after.trace = before.trace ++ events ∧ ImmutableEvents events frames

theorem Ran.refl (code : Nat → Body σ) (exec : Executor σ) (own : Nat → Prop) :
    Ran code exec.top own exec exec [] := by
  refine ⟨rfl, rfl, rfl, le_rfl, ?_, fun _ _ _ => rfl, [], (List.append_nil _).symm, ?_⟩
  · intro frame member
    exact absurd member List.not_mem_nil
  · refine ⟨?_, rfl, List.Perm.refl _⟩
    intro event member
    exact absurd member List.not_mem_nil

theorem Ran.trans
    {low : Nat} {own : Nat → Prop} {before middle after : Executor σ}
    {first second : List Frame} (firstRan : Ran code low own before middle first)
    (secondRan : Ran code middle.top own middle after second)
    (ownBelow : ∀ a, own a → a < low) :
    Ran code low own before after (second ++ first) := by
  have lowLe := firstRan.stacked.le
  refine ⟨secondRan.basePointer.trans firstRan.basePointer,
    secondRan.currentInfo.trans firstRan.currentInfo, ?_,
    firstRan.stacked.append secondRan.stacked, ?_, ?_, ?_⟩
  · refine FrameChain.append ?_ secondRan.chain
    apply firstRan.chain.congr firstRan.stacked
    intro a above below
    apply secondRan.memory a below
    intro isOwn
    exact absurd (ownBelow a isOwn) (Nat.not_lt_of_le above)
  · intro frame member
    rcases List.mem_append.mp member with inSecond | inFirst
    · exact secondRan.compiled frame inSecond
    · exact firstRan.compiled frame inFirst
  · intro a below notOwn
    rw [secondRan.memory a (by omega) notOwn]
    exact firstRan.memory a below notOwn
  · obtain ⟨firstEvents, firstTrace, firstSpec⟩ := firstRan.trace
    obtain ⟨secondEvents, secondTrace, secondSpec⟩ := secondRan.trace
    refine ⟨firstEvents ++ secondEvents, ?_, firstSpec.append secondSpec⟩
    rw [secondTrace, firstTrace, List.append_assoc]

theorem Ran.record (code : Nat → Body σ) {layout : Layout} {α : Type} (phase : Phase σ layout α)
    (exec : Executor σ) (event : Execution σ α → Event σ)
    (notDeferred : ∀ execution, (event execution).isDeferred = false)
    (notActivate : ∀ execution, (event execution).activation = none)
    (notFinished : ∀ execution, (event execution).finished = none) :
    Ran code exec.top (layout.Own exec.basePointer) exec (exec.record phase event).2 [] := by
  refine ⟨rfl, rfl, rfl, le_rfl, ?_, ?_, [event (exec.execution phase)], rfl, ?_⟩
  · intro frame member
    exact absurd member List.not_mem_nil
  · intro a below notOwn
    exact phase.writes ⟨exec.basePointer, exec.top, exec.currentInfo⟩ _ _ a below notOwn
  · refine ⟨?_, ?_, ?_⟩
    · intro other member
      rw [List.mem_singleton.mp member]
      exact notDeferred _
    · rw [List.filterMap_cons_none (notActivate _)]
      rfl
    · rw [List.filterMap_cons_none (notFinished _)]
      exact List.Perm.refl _

theorem Ran.mono {low : Nat} {own wider : Nat → Prop} {before after : Executor σ}
    {frames : List Frame} (ran : Ran code low own before after frames)
    (within : ∀ a, own a → wider a) : Ran code low wider before after frames :=
  ⟨ran.basePointer, ran.currentInfo, ran.chain, ran.stacked, ran.compiled,
   fun a below notWider => ran.memory a below (fun isOwn => notWider (within a isOwn)), ran.trace⟩

theorem Ran.prepend
    {low start : Nat} {own : Nat → Prop} {before middle after : Executor σ}
    {frames : List Frame} (first : Ran code low own before middle [])
    (second : Ran code start (fun _ => False) middle after frames)
    (below : ∀ a, a < start → a < low ∧ ¬ own a) :
    Ran code start (fun _ => False) before after frames := by
  obtain ⟨firstEvents, firstTrace, firstSpec⟩ := first.trace
  obtain ⟨secondEvents, secondTrace, secondSpec⟩ := second.trace
  have link : middle.mutablePhaseBasePointer = before.mutablePhaseBasePointer := first.chain
  refine ⟨second.basePointer.trans first.basePointer,
    second.currentInfo.trans first.currentInfo, link ▸ second.chain, second.stacked,
    second.compiled, ?_, firstEvents ++ secondEvents, ?_, ?_⟩
  · intro a belowStart _
    rw [second.memory a belowStart id]
    exact first.memory a (below a belowStart).1 (below a belowStart).2
  · rw [secondTrace, firstTrace, List.append_assoc]
  · have both := firstSpec.append secondSpec
    rw [List.append_nil] at both
    exact both

theorem Ran.pushAll (code : Nat → Body σ) (exec : Executor σ) (own : Nat → Prop) (words : List Nat) :
    Ran code exec.top own exec (exec.onStack fun stack => stack.pushAll words) [] := by
  obtain ⟨basePointer, top, below⟩ := Stack.pushAll_spec words exec.toStack
  have ran := Ran.refl code exec own
  refine ⟨basePointer, rfl, rfl, ?_, ran.compiled, fun a belowTop _ => below a belowTop, ran.trace⟩
  rw [Stacked, Executor.onStack, top]
  exact Nat.le_add_right _ _

theorem Ran.restore {low : Nat} {own : Nat → Prop} {before middle after : Executor σ}
    {info : Nat} {frames : List Frame}
    (ran : Ran code low own middle after frames)
    (isMiddle : middle = { before with currentInfo := info }) :
    Ran code low own before { after with currentInfo := before.currentInfo } frames := by
  subst isMiddle
  exact ⟨ran.basePointer, rfl, ran.chain, ran.stacked, ran.compiled, ran.memory, ran.trace⟩

mutual

/-- A transition activates its own frame, if it activates, and frames above
it.  Otherwise its saved base pointer stays. -/
theorem Transition.call_spec {layout : Layout} :
    ∀ (transition : Transition code layout) (exec : Executor σ) (start : Nat),
      exec.basePointer = start + layout.arguments + wordSize →
      exec.basePointer + wordSize + layout.locals ≤ exec.top →
        ∃ frames, Ran code start (fun _ => False) exec (transition.call exec) frames ∧
          ((frames = [] ∧
              (transition.call exec).memory exec.basePointer = exec.memory exec.basePointer) ∨
            ∃ above body snapshot, frames = above ++ [⟨start, layout, body, snapshot⟩])
  | .mk immutable activation, exec, start, place, room => by
      obtain ⟨before, isBefore⟩ :
          ∃ before : Executor σ, before = { exec with currentInfo := exec.receiver layout } :=
        ⟨_, rfl⟩
      have samePointer : before.basePointer = exec.basePointer := by rw [isBefore]
      have sameTop : before.top = exec.top := by rw [isBefore]
      have ran :=
        Ran.record code immutable before .immutable (fun _ => rfl) (fun _ => rfl) fun _ => rfl
      have below :
          ∀ a, a < start → a < before.top ∧ ¬ layout.Own before.basePointer a := by
        intro a belowStart
        simp only [Layout.Own, wordSize] at *
        omega
      simp only [Transition.call, ← isBefore]
      cases (before.record immutable .immutable).1 with
      | none =>
          have atLeast : start ≤ before.top := by
            simp only [wordSize] at place
            omega
          have nothing : Ran code start (fun _ => False)
              (before.record immutable .immutable).2 (before.record immutable .immutable).2 [] := by
            have same := Ran.refl code
              (before.record immutable .immutable).2
              (fun _ => False)
            exact ⟨same.basePointer, same.currentInfo, same.chain, atLeast, same.compiled,
              fun _ _ _ => rfl, same.trace⟩
          refine ⟨[], (ran.prepend nothing below).restore isBefore, Or.inl ⟨rfl, ?_⟩⟩
          have unchanged := ran.memory exec.basePointer (by
            rw [sameTop]
            simp only [wordSize] at *
            omega) (by
            simp only [Layout.Own, samePointer, wordSize]
            omega)
          exact unchanged.trans (by rw [isBefore])
      | some statement =>
          obtain ⟨above, body, snapshot, executed⟩ :=
            (activation statement).execute_spec
              (before.record immutable .immutable).2 start
              (samePointer.trans place) (by
                have sameBoth := room
                rw [← samePointer, ← sameTop] at sameBoth
                exact sameBoth)
          exact
            ⟨_, (ran.prepend executed below).restore isBefore,
              Or.inr ⟨above, body, snapshot, rfl⟩⟩

theorem Activation.execute_spec {layout : Layout} :
    ∀ (activation : Activation code layout) (exec : Executor σ) (start : Nat),
      exec.basePointer = start + layout.arguments + wordSize →
      exec.basePointer + wordSize + layout.locals ≤ exec.top →
        ∃ above body snapshot,
          Ran code start (fun _ => False) exec (activation.execute exec)
            (above ++ [⟨start, layout, body, snapshot⟩])
  | .mk portCalls body compiled, exec, start, place, room => by
      obtain ⟨linked, isLinked⟩ :
          ∃ linked : Executor σ,
            linked =
              { exec with
                memory :=
                  Function.update
                    (Function.update exec.memory exec.basePointer exec.mutablePhaseBasePointer)
                    (exec.basePointer - wordSize) body
                mutablePhaseBasePointer := exec.basePointer
                trace := exec.trace ++ [.activate exec.basePointer body] } :=
        ⟨_, rfl⟩
      have samePointer : linked.basePointer = exec.basePointer := by rw [isLinked]
      have sameTop : linked.top = exec.top := by rw [isLinked]
      obtain ⟨frames, ran⟩ :=
        portCalls.execute_spec linked (by rw [samePointer, sameTop]; exact room)
      have isExecuted :
          (Activation.mk portCalls body compiled).execute exec =
            (portCalls.execute linked).log
              (.activated (portCalls.execute linked).basePointer
                (portCalls.execute linked).memory) := by
        rw [isLinked]
        rfl
      rw [isExecuted]
      obtain ⟨after, isAfter⟩ : ∃ after, after = portCalls.execute linked := ⟨_, rfl⟩
      rw [← isAfter] at ran ⊢
      have pointer : after.basePointer = exec.basePointer := ran.basePointer.trans samePointer
      obtain ⟨events, isTrace, spec⟩ := ran.trace
      have isFrame :
          (Frame.mk start layout body after.memory).basePointer = exec.basePointer := place.symm
      -- the words around the base pointer are neither parameters nor locals
      have untouched :
          ∀ a, a < start ∨ a = exec.basePointer - wordSize ∨ a = exec.basePointer →
            after.memory a = linked.memory a := by
        intro a isSpecial
        apply ran.memory
        · rw [sameTop]
          simp only [wordSize] at *
          omega
        · simp only [Layout.Own, samePointer, wordSize] at *
          omega
      have positive : exec.basePointer ≠ exec.basePointer - wordSize := by
        simp only [wordSize] at *
        omega
      have holdsBody : after.memory (exec.basePointer - wordSize) = body := by
        rw [untouched _ (Or.inr (Or.inl rfl)), isLinked]
        exact Function.update_self _ _ _
      have holdsLink : after.memory exec.basePointer = exec.mutablePhaseBasePointer := by
        rw [untouched _ (Or.inr (Or.inr rfl)), isLinked]
        exact (Function.update_of_ne positive _ _).trans (Function.update_self _ _ _)
      have ownChain :
          FrameChain after.memory linked.mutablePhaseBasePointer
            [⟨start, layout, body, after.memory⟩] exec.mutablePhaseBasePointer := by
        rw [isLinked]
        refine ⟨isFrame.symm, ⟨?_, fun _ _ => rfl⟩, holdsLink⟩
        rw [isFrame]
        exact holdsBody
      have chain := ownChain.append ran.chain
      refine ⟨frames, body, after.memory, pointer, ?_, chain, ?_, ?_, ?_, ?_⟩
      · rw [Executor.log, ran.currentInfo, isLinked]
      · have ownStacked :
            Stacked start [⟨start, layout, body, after.memory⟩] exec.top := by
          refine ⟨?_, le_rfl⟩
          rw [Frame.limit, isFrame]
          exact room
        exact ownStacked.append (sameTop ▸ ran.stacked)
      · intro frame member
        rcases List.mem_append.mp member with inFrames | isOwn
        · exact ran.compiled frame inFrames
        · rw [List.mem_singleton.mp isOwn]
          exact compiled
      · intro a below _
        rw [Executor.log, untouched a (Or.inl below), isLinked]
        simp only [wordSize] at *
        exact
          (Function.update_of_ne (by omega) _ _).trans (Function.update_of_ne (by omega) _ _)
      · refine ⟨.activate exec.basePointer body ::
          (events ++ [.activated exec.basePointer after.memory]), ?_, ?_, ?_, ?_⟩
        · rw [Executor.log, isTrace, isLinked, pointer]
          simp
        · intro event member
          rcases List.mem_cons.mp member with isActivate | inRest
          · rw [isActivate]
            rfl
          · rcases List.mem_append.mp inRest with inEvents | isActivated
            · exact spec.notDeferred event inEvents
            · rw [List.mem_singleton.mp isActivated]
              rfl
        · rw [List.filterMap_cons_some (rfl : Event.activation (.activate _ _) = some _),
            List.filterMap_append, spec.activations, List.reverse_append, List.map_append]
          simp only [List.reverse_singleton, List.map_singleton, isFrame]
          rw [List.filterMap_cons_none rfl, List.filterMap_nil, List.append_nil,
            List.singleton_append]
        · rw [List.filterMap_cons_none rfl, List.filterMap_append, List.map_append]
          apply spec.finished.append
          rw [List.map_singleton, isFrame]
          exact List.Perm.refl _

theorem PortCalls.execute_spec {layout : Layout} :
    ∀ (portCalls : PortCalls code layout) (exec : Executor σ),
      exec.basePointer + wordSize + layout.locals ≤ exec.top →
        ∃ frames,
          Ran code exec.top (layout.Own exec.basePointer) exec (portCalls.execute exec) frames
  | .nil, exec, _ => ⟨[], Ran.refl code exec _⟩
  | .cons arrayOffset arguments portOffset ports rest, exec, room => by
      have ownBelow : ∀ a, layout.Own exec.basePointer a → a < exec.top := by
        intro a own
        simp only [Layout.Own, wordSize] at *
        omega
      obtain ⟨indexed, isIndexed⟩ :
          ∃ e, e = (exec.record arrayOffset .arrayOffset).2 := ⟨_, rfl⟩
      have indexRan :=
        Ran.record code arrayOffset exec .arrayOffset (fun _ => rfl) (fun _ => rfl) fun _ => rfl
      rw [← isIndexed] at indexRan
      obtain ⟨evaluated, isEvaluated⟩ :
          ∃ e, e = (indexed.record arguments (.arguments _)).2 := ⟨_, rfl⟩
      have argumentsRan :=
        Ran.record code arguments indexed (.arguments _) (fun _ => rfl) (fun _ => rfl) fun _ => rfl
      rw [← isEvaluated] at argumentsRan
      obtain ⟨pushed, isPushed⟩ :
          ∃ e, e = evaluated.onStack fun stack =>
            stack.pushAll (indexed.record arguments (.arguments _)).1.toList := ⟨_, rfl⟩
      have pushRan :=
        Ran.pushAll code evaluated (layout.Own exec.basePointer)
          (indexed.record arguments (.arguments _)).1.toList
      rw [← isPushed] at pushRan
      rw [indexRan.basePointer] at argumentsRan
      have before := (indexRan.trans argumentsRan ownBelow).trans pushRan ownBelow
      obtain ⟨port, isPort⟩ :
          ∃ port, port = ports (pushed.receiver layout + portOffset +
            (exec.record arrayOffset .arrayOffset).1) :=
        ⟨_, rfl⟩
      obtain ⟨frames, activated⟩ :=
        (ports (pushed.receiver layout + portOffset +
          (exec.record arrayOffset .arrayOffset).1)).activate_spec indexed.top pushed
      rw [← isPort] at activated
      have through := before.trans (activated.mono fun _ impossible => impossible.elim) ownBelow
      obtain ⟨after, isAfter⟩ :
          ∃ after, after = port.activate indexed.top pushed.basePointer pushed := ⟨_, rfl⟩
      rw [← isAfter] at through
      have restRoom : after.basePointer + wordSize + layout.locals ≤ after.top := by
        rw [through.basePointer]
        exact Nat.le_trans room through.stacked.le
      obtain ⟨restFrames, restRan⟩ := rest.execute_spec after restRoom
      rw [through.basePointer] at restRan
      have isExecuted :
          (PortCalls.cons arrayOffset arguments portOffset ports rest).execute exec =
            rest.execute after := by
        rw [isAfter, isPort, isPushed, isEvaluated, isIndexed]
        rfl
      rw [isExecuted]
      exact ⟨_, through.trans restRan ownBelow⟩

theorem Port.activate_spec {count : Nat} :
    ∀ (port : Port code count) (topBefore : Nat) (exec : Executor σ),
      ∃ frames,
        Ran code exec.top (fun _ => False) exec
          (port.activate topBefore exec.basePointer exec) frames
  | .null, _, exec => ⟨[], Ran.refl code exec _⟩
  | .cons parameter instance_ locals reaction next, topBefore, exec => by
      obtain ⟨framed, isFramed⟩ :
          ∃ framed : Executor σ,
            framed =
              exec.onStack fun stack =>
                stack.enter parameter instance_ topBefore count exec.mutablePhaseBasePointer
                  locals :=
        ⟨_, rfl⟩
      obtain ⟨basePointer, top, below⟩ :=
        exec.toStack.enter_spec parameter instance_ topBefore count exec.mutablePhaseBasePointer
          locals
      have isPointer : framed.basePointer =
          exec.top + (Layout.ofReaction parameter count locals).arguments + wordSize := by
        rw [isFramed]
        exact basePointer
      obtain ⟨frames, called, _⟩ :=
        reaction.call_spec framed exec.top isPointer (by
          rw [isPointer, isFramed]
          exact le_of_eq top.symm)
      obtain ⟨after, isAfter⟩ :
          ∃ after : Executor σ,
            after =
              (reaction.call framed).onStack fun stack =>
                { stack with basePointer := exec.basePointer } :=
        ⟨_, rfl⟩
      have ran : Ran code exec.top (fun _ => False) exec after frames := by
        obtain ⟨events, isTrace, spec⟩ := called.trace
        rw [isFramed] at called isTrace
        rw [isAfter, isFramed]
        refine ⟨rfl, called.currentInfo, called.chain, called.stacked, called.compiled, ?_,
          events, isTrace, spec⟩
        intro a belowTop _
        exact (called.memory a belowTop id).trans (below a belowTop)
      obtain ⟨restFrames, restRan⟩ := next.activate_spec topBefore after
      have samePointer : after.basePointer = exec.basePointer := ran.basePointer
      rw [samePointer] at restRan
      have isActivated :
          (Port.cons parameter instance_ locals reaction next).activate topBefore
              exec.basePointer exec =
            next.activate topBefore exec.basePointer after := by
        rw [isAfter, isFramed]
        rfl
      rw [isActivated]
      exact ⟨_, ran.trans restRan fun _ impossible => impossible.elim⟩

end

end Execution

end Rcgo.Transaction
