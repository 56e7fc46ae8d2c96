import Rcgo.Code.LocalVariables
import Rcgo.Transaction.Stack

/-!
# The slots of parameters

The offsets that the memory model allocates for parameters, as addresses in the
frame of a callable: the slots lie one behind the other below the instruction
pointer.
-/

namespace Rcgo.Transaction

open Rcgo.Code

/-- The number of words that a value of the type takes on the stack. -/
def wordsOf (type : DataType) : Nat :=
  type.sizeOnStack.getD 0 / wordSize

def wordsOfAll (types : List DataType) : Nat :=
  (types.map wordsOf).sum

/-- `base_pointer_ + offset`. -/
def slotAddress (basePointer : Nat) (offset : Arch.Word) : Nat :=
  (BitVec.ofNat 64 basePointer + offset).toNat

def typesOf (symbols : List StackSymbol) : List DataType :=
  symbols.map StackSymbol.type

/-- The slots of the symbols lie one behind the other from `start` to `stop`. -/
def Consecutive (basePointer : Nat) : Nat → List StackSymbol → Nat → Prop
  | start, [], stop => start = stop
  | start, symbol :: rest, stop =>
      slotAddress basePointer symbol.offset = start ∧
        Consecutive basePointer (start + wordSize * wordsOf symbol.type) rest stop

/-- The words lie in the memory from the address on. -/
def HoldsAt (memory : Memory) (address : Nat) (words : List Nat) : Prop :=
  ∀ j (isWord : j < words.length), memory (address + wordSize * j) = words[j]

def Finds (memory : Memory) (basePointer : Nat) (symbols : List StackSymbol)
    (values : List (List Nat)) : Prop :=
  List.Forall₂ (fun symbol words => words.length = wordsOf symbol.type ∧
    HoldsAt memory (slotAddress basePointer symbol.offset) words) symbols values

/-- The values lie in the memory one behind the other. -/
def HoldsFrom (memory : Memory) : Nat → List (List Nat) → Prop
  | _, [] => True
  | start, words :: rest =>
      HoldsAt memory start words ∧ HoldsFrom memory (start + wordSize * words.length) rest

section Words

variable {type : DataType} {types others : List DataType}

theorem wordSize_mul_wordsOf {size : Nat} (isSize : type.sizeOnStack = some size) :
    wordSize * wordsOf type = size := by
  have divides : wordSize ∣ size := by
    rcases Option.map_eq_some_iff.mp isSize with ⟨n, _, rfl⟩
    exact dvd_aligned n
  rw [wordsOf, isSize, Option.getD_some]
  exact Nat.mul_div_cancel' divides

theorem wordsOf_pointer (component : DataType) : wordsOf (.pointer component) = 1 := by
  rw [wordsOf, DataType.sizeOnStack, DataType.size]
  rfl

theorem wordsOf_int : wordsOf (.basic .int) = 1 := by
  rw [wordsOf, DataType.sizeOnStack, DataType.size]
  rfl

@[simp]
theorem wordsOfAll_nil : wordsOfAll [] = 0 :=
  rfl

@[simp]
theorem wordsOfAll_cons : wordsOfAll (type :: types) = wordsOf type + wordsOfAll types := by
  rw [wordsOfAll, List.map_cons, List.sum_cons]
  rfl

@[simp]
theorem wordsOfAll_append : wordsOfAll (types ++ others) = wordsOfAll types + wordsOfAll others := by
  rw [wordsOfAll, List.map_append, List.sum_append]
  rfl

theorem typesOf_append (symbols others : List StackSymbol) :
    typesOf (symbols ++ others) = typesOf symbols ++ typesOf others :=
  List.map_append

@[simp]
theorem typesOf_cons (symbol : StackSymbol) (symbols : List StackSymbol) :
    typesOf (symbol :: symbols) = symbol.type :: typesOf symbols :=
  rfl

end Words

/-- The offset that lies so many bytes below the base pointer. -/
def below (depth : Nat) : Arch.Word :=
  -(BitVec.ofNat 64 depth)

/-- The symbols have the offsets below `depth` in which they lie one behind the
other. -/
def Descending (depth : Nat) : List StackSymbol → Prop
  | [] => True
  | symbol :: rest =>
      symbol.offset = below (depth + wordSize * wordsOfAll (typesOf (symbol :: rest))) ∧
        Descending depth rest

section Allocation

variable {memoryModel after : MemoryModel} {symbols : List StackSymbol} {depth : Nat}

theorem allocateParameter_spec {parameter : Parameter} {symbol : StackSymbol}
    (runs : allocateParameter memoryModel parameter = some (symbol, after))
    (isDepth : memoryModel.argumentsOffset = below depth) :
    symbol = ⟨below (depth + wordSize * wordsOf parameter.type), parameter.type⟩ ∧
      after.argumentsOffset = below (depth + wordSize * wordsOf parameter.type) := by
  rw [allocateParameter, MemoryModel.argumentsPush, Arch.sizeOnStack_eq] at runs
  simp only [Option.map_map, Option.map_eq_some_iff, Function.comp_apply, Prod.mk.injEq] at runs
  rcases runs with ⟨size, isSize, isSymbol, isAfter⟩
  have isOffset : memoryModel.argumentsOffset - BitVec.ofNat 64 size =
      below (depth + wordSize * wordsOf parameter.type) := by
    rw [isDepth, wordSize_mul_wordsOf isSize, below, below, BitVec.ofNat_add, BitVec.neg_add]
  rw [isOffset] at isSymbol isAfter
  rw [← isSymbol, ← isAfter]
  refine ⟨rfl, ?_⟩
  split <;> rfl

theorem allocateParameters_spec {parameters : List Parameter}
    (runs : allocateParameters memoryModel parameters = some (symbols, after))
    (isDepth : memoryModel.argumentsOffset = below depth) :
    typesOf symbols = parameters.map Parameter.type ∧ Descending depth symbols ∧
      after.argumentsOffset = below (depth + wordSize * wordsOfAll (typesOf symbols)) := by
  induction parameters generalizing symbols after with
  | nil =>
      cases runs
      exact ⟨rfl, trivial, isDepth⟩
  | cons parameter rest inductionHypothesis =>
      simp only [allocateParameters, Option.bind_eq_bind, Option.bind_eq_some_iff, Prod.exists] at runs
      rcases runs with ⟨others, middle, restRuns, symbol, last, isSymbol, isResult⟩
      rw [Option.some.injEq, Prod.mk.injEq] at isResult
      rcases isResult with ⟨rfl, rfl⟩
      rcases inductionHypothesis restRuns with ⟨areTypes, descending, isOffset⟩
      rcases allocateParameter_spec isSymbol isOffset with ⟨isParameter, isAfter⟩
      have sum : depth + wordSize * wordsOfAll (typesOf others) + wordSize * wordsOf parameter.type =
          depth + wordSize * wordsOfAll (parameter.type :: typesOf others) := by
        rw [wordsOfAll_cons, Nat.mul_add]
        omega
      rw [sum] at isParameter isAfter
      rw [isParameter]
      exact ⟨by rw [typesOf_cons, areTypes]; rfl, ⟨rfl, descending⟩, isAfter⟩

theorem allocateParameter_receiver {parameter : Parameter} {symbol : StackSymbol}
    (runs : allocateParameter memoryModel parameter = some (symbol, after)) :
    after.receiverOffset =
      if parameter.kind = .receiver then some symbol.offset else memoryModel.receiverOffset := by
  rw [allocateParameter, MemoryModel.argumentsPush] at runs
  simp only [Option.map_map, Option.map_eq_some_iff, Function.comp_apply, Prod.mk.injEq] at runs
  rcases runs with ⟨size, _, isSymbol, isAfter⟩
  rw [← isSymbol, ← isAfter]
  split <;> rfl

theorem allocateParameters_receiver {parameters : List Parameter}
    (runs : allocateParameters memoryModel parameters = some (symbols, after))
    (noReceiver : ∀ parameter ∈ parameters, parameter.kind ≠ .receiver) :
    after.receiverOffset = memoryModel.receiverOffset := by
  induction parameters generalizing symbols after with
  | nil =>
      cases runs
      rfl
  | cons parameter rest inductionHypothesis =>
      simp only [allocateParameters, Option.bind_eq_bind, Option.bind_eq_some_iff, Prod.exists] at runs
      rcases runs with ⟨others, middle, restRuns, symbol, last, isSymbol, isResult⟩
      rw [Option.some.injEq, Prod.mk.injEq] at isResult
      rw [← isResult.2, allocateParameter_receiver isSymbol,
        if_neg (noReceiver parameter List.mem_cons_self)]
      exact inductionHypothesis restRuns fun other isOther =>
        noReceiver other (List.mem_cons_of_mem _ isOther)

theorem allocateParameters_makeReceiver {receiver : DataType} {types : List DataType}
    (runs : allocateParameters memoryModel
      (Parameter.makeReceiver receiver :: types.map Parameter.make) = some (symbols, after)) :
    after.receiverOffset = symbols.head?.map StackSymbol.offset := by
  simp only [allocateParameters, Option.bind_eq_bind, Option.bind_eq_some_iff, Prod.exists] at runs
  rcases runs with ⟨others, middle, restRuns, symbol, last, isSymbol, isResult⟩
  rw [Option.some.injEq, Prod.mk.injEq] at isResult
  rw [← isResult.1, ← isResult.2]
  exact allocateParameter_receiver isSymbol

end Allocation

section Addresses

variable {basePointer start depth : Nat} {symbols : List StackSymbol} {memory other : Memory}
  {values : List (List Nat)}

theorem slotAddress_below (inSpace : basePointer < 2 ^ 64) (le : depth ≤ basePointer) :
    slotAddress basePointer (below depth) = basePointer - depth := by
  have isDifference : BitVec.ofNat 64 basePointer + below depth =
      BitVec.ofNat 64 (basePointer - depth) := by
    rw [below, ← BitVec.sub_eq_add_neg, BitVec.sub_eq_iff_eq_add, ← BitVec.ofNat_add,
      Nat.sub_add_cancel le]
  rw [slotAddress, isDifference, BitVec.toNat_ofNat]
  exact Nat.mod_eq_of_lt (by omega)

theorem Descending.consecutive (descending : Descending depth symbols) (start : Nat)
    (inSpace : basePointer < 2 ^ 64)
    (isBase : basePointer = start + wordSize * wordsOfAll (typesOf symbols) + depth) :
    Consecutive basePointer start symbols (basePointer - depth) := by
  induction symbols generalizing start with
  | nil =>
      rw [isBase, typesOf, List.map_nil, wordsOfAll_nil]
      exact (Nat.add_sub_cancel _ _).symm
  | cons symbol rest inductionHypothesis =>
      constructor
      · rw [descending.1, slotAddress_below inSpace (by omega)]
        omega
      · apply inductionHypothesis descending.2
        rw [isBase, typesOf_cons, wordsOfAll_cons, Nat.mul_add]
        omega

theorem Descending.append {others : List StackSymbol}
    (descending : Descending (depth + wordSize * wordsOfAll (typesOf others)) symbols)
    (othersDescending : Descending depth others) : Descending depth (symbols ++ others) := by
  induction symbols with
  | nil => exact othersDescending
  | cons symbol rest inductionHypothesis =>
      refine ⟨?_, inductionHypothesis descending.2⟩
      change symbol.offset = below (depth + wordSize * wordsOfAll (typesOf (symbol :: rest ++ others)))
      rw [descending.1, typesOf_append, wordsOfAll_append, Nat.mul_add]
      congr 1
      omega

theorem HoldsAt.congr {address : Nat} {words : List Nat} (holds : HoldsAt memory address words)
    (same : ∀ a, address ≤ a → a < address + wordSize * words.length → other a = memory a) :
    HoldsAt other address words := by
  intro j isWord
  rw [same, holds j isWord]
  · exact Nat.le_add_right _ _
  · exact Nat.add_lt_add_left (Nat.mul_lt_mul_of_pos_left isWord (by decide)) _

theorem pushAll_append (stack : Stack) (words others : List Nat) :
    stack.pushAll (words ++ others) = (stack.pushAll words).pushAll others := by
  induction words generalizing stack with
  | nil => rfl
  | cons word rest inductionHypothesis => exact inductionHypothesis (stack.push word)

theorem holdsAt_pushAll (stack : Stack) (words : List Nat) :
    HoldsAt (stack.pushAll words).memory stack.top words := by
  induction words generalizing stack with
  | nil =>
      intro j isWord
      exact absurd isWord (Nat.not_lt_zero j)
  | cons word rest inductionHypothesis =>
      intro j isWord
      cases j with
      | zero =>
          have kept := (Stack.pushAll_spec rest (stack.push word)).2.2
          rw [Stack.pushAll, Nat.mul_zero, Nat.add_zero, kept stack.top]
          · exact Function.update_self _ _ _
          · rw [Stack.top_push]
            exact Nat.lt_add_of_pos_right (by decide)
      | succ j =>
          have holds := inductionHypothesis (stack.push word) j (Nat.lt_of_succ_lt_succ isWord)
          rw [Stack.top_push] at holds
          rw [Stack.pushAll, List.getElem_cons_succ, ← holds, Nat.mul_succ]
          congr 1
          omega

theorem HoldsFrom.congr (holds : HoldsFrom memory start values)
    (same : ∀ a, start ≤ a → a < start + wordSize * (values.map List.length).sum → other a = memory a) :
    HoldsFrom other start values := by
  induction values generalizing start with
  | nil => trivial
  | cons words rest inductionHypothesis =>
      rw [List.map_cons, List.sum_cons, Nat.mul_add] at same
      exact ⟨holds.1.congr fun a above before => same a above (by omega),
        inductionHypothesis holds.2 fun a above before => same a (by omega) (by omega)⟩

theorem holdsFrom_append {rest : List (List Nat)} :
    HoldsFrom memory start (values ++ rest) ↔
      HoldsFrom memory start values ∧
        HoldsFrom memory (start + wordSize * (values.map List.length).sum) rest := by
  induction values generalizing start with
  | nil => simp [HoldsFrom]
  | cons words others inductionHypothesis =>
      rw [List.cons_append, HoldsFrom, HoldsFrom, inductionHypothesis, List.map_cons, List.sum_cons,
        Nat.mul_add, ← Nat.add_assoc, and_assoc]

theorem HoldsAt.holdsFrom (holds : HoldsAt memory start values.flatten) :
    HoldsFrom memory start values := by
  induction values generalizing start with
  | nil => trivial
  | cons words rest inductionHypothesis =>
      constructor
      · intro j isWord
        rw [holds j (by rw [List.flatten_cons, List.length_append]; omega)]
        exact List.getElem_append_left isWord
      · apply inductionHypothesis
        intro j isWord
        have found := holds (words.length + j) (by
          rw [List.flatten_cons, List.length_append]
          omega)
        simp only [List.flatten_cons] at found
        rw [List.getElem_append_right (Nat.le_add_right _ _), Nat.mul_add, ← Nat.add_assoc] at found
        rw [found]
        congr 1
        exact Nat.add_sub_cancel_left _ _

theorem Consecutive.finds {stop : Nat} (consecutive : Consecutive basePointer start symbols stop)
    (holds : HoldsFrom memory start values)
    (lengths : values.map List.length = (typesOf symbols).map wordsOf) :
    Finds memory basePointer symbols values := by
  induction symbols generalizing start values with
  | nil =>
      rw [typesOf, List.map_nil, List.map_nil, List.map_eq_nil_iff] at lengths
      rw [lengths]
      exact List.Forall₂.nil
  | cons symbol rest inductionHypothesis =>
      cases values with
      | nil => cases lengths
      | cons words others =>
          rw [typesOf_cons, List.map_cons, List.map_cons, List.cons.injEq] at lengths
          refine List.Forall₂.cons ⟨lengths.1, ?_⟩ ?_
          · rw [consecutive.1]
            exact holds.1
          · have restHolds := holds.2
            rw [lengths.1] at restHolds
            exact inductionHypothesis consecutive.2 restHolds lengths.2

end Addresses

end Rcgo.Transaction
