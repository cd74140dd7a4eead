import LimitOrderBook.StepSystem
import Mathlib.Data.Nat.ModEq
import Mathlib.Data.Nat.Bitwise

namespace LimitOrderBook.LfQueue

/-!
# The queue between two threads

The model of `core/lfqueue.hpp`.  One producer and one consumer take the steps
of their calls in any order.  Indices have `width` bits and wrap; the slots are
a power of two and are chosen by a mask.  The values that were pushed and
popped, and how full the queue was when a failing call looked, are recorded
beside the state of the queue.
-/

section Queue

variable {α : Type} {width : Nat}

/-- Where the producer is in `try_push`. -/
inductive Producer (α : Type) (width : Nat) where
  | idle
  | ownLoaded (data : α) (prod : BitVec width)
  | bothLoaded (data : α) (prod cons : BitVec width) (unpopped : Nat)
  | writing (data : α) (prod : BitVec width)
  | written (data : α) (prod : BitVec width)

/-- Where the consumer is in `try_pop`, which loads the other index first. -/
inductive Consumer (α : Type) (width : Nat) where
  | idle
  | otherLoaded (prod : BitVec width) (unpopped : Nat)
  | bothLoaded (prod cons : BitVec width) (unpopped : Nat)
  | reading (cons : BitVec width)
  | done (data : α) (cons : BitVec width)

structure State (α : Type) (width : Nat) where
  prodIdx : BitVec width := 0
  consIdx : BitVec width := 0
  buffers : Nat → α
  producer : Producer α width := .idle
  consumer : Consumer α width := .idle
  pushed : List α := []
  popped : List α := []
  pushFailures : List Nat := []
  popFailures : List Nat := []

/-- `is_empty`. -/
def isEmpty (prod cons : BitVec width) : Bool :=
  decide (prod = cons)

/-- `is_full`. -/
def isFull (size : Nat) (prod cons : BitVec width) : Bool :=
  decide (prod - cons = BitVec.ofNat width size)

/-- The slot of an index. -/
def slot (size : Nat) (index : BitVec width) : Nat :=
  (index &&& BitVec.ofNat width (size - 1)).toNat

/-- A call to `try_push`, and the next step of one of the threads. -/
inductive Action (α : Type) where
  | push (data : α)
  | produce
  | consume

namespace State

/-- The values that have been pushed and not yet popped. -/
def unpopped (state : State α width) : Nat :=
  state.pushed.length - state.popped.length

/-- The next step of `try_push`. -/
def produce (size : Nat) (state : State α width) : Option (State α width) :=
  match state.producer with
  | .idle => none
  | .ownLoaded data prod =>
      some { state with
        producer := .bothLoaded data prod state.consIdx state.unpopped }
  | .bothLoaded data prod cons seen =>
      if isFull size prod cons then
        some { state with
          producer := .idle
          pushFailures := seen :: state.pushFailures }
      else
        some { state with producer := .writing data prod }
  | .writing data prod =>
      some { state with
        buffers := Function.update state.buffers (slot size prod) data
        producer := .written data prod }
  | .written data prod =>
      some { state with
        prodIdx := prod + 1
        producer := .idle
        pushed := state.pushed ++ [data] }

/-- The next step of `try_pop`; from `idle`, the first of a new call. -/
def consume (size : Nat) (state : State α width) : State α width :=
  match state.consumer with
  | .idle =>
      { state with consumer := .otherLoaded state.prodIdx state.unpopped }
  | .otherLoaded prod seen =>
      { state with consumer := .bothLoaded prod state.consIdx seen }
  | .bothLoaded prod cons seen =>
      if isEmpty prod cons then
        { state with
          consumer := .idle
          popFailures := seen :: state.popFailures }
      else
        { state with consumer := .reading cons }
  | .reading cons =>
      { state with consumer := .done (state.buffers (slot size cons)) cons }
  | .done data cons =>
      { state with
        consIdx := cons + 1
        consumer := .idle
        popped := state.popped ++ [data] }

/-- One step of the system; `try_push` is called when no call is running. -/
def step (size : Nat) (state : State α width) :
    Action α → Except Unit (State α width)
  | .push data =>
      match state.producer with
      | .idle =>
          .ok { state with producer := .ownLoaded data state.prodIdx }
      | _ => .error ()
  | .produce =>
      match state.produce size with
      | some next => .ok next
      | none => .error ()
  | .consume => .ok (state.consume size)

/-- States that two threads reach from an empty queue. -/
def Reachable (size : Nat) (zero : α) : State α width → Prop :=
  StepSystem.Reachable (step size) id
    fun state => state = { buffers := fun _ => zero }

end State

/-! ## Indices that wrap -/

/-- Distances up to the size are told apart although the indices wrap. -/
theorem ofNat_inj_of_le
    {size first second : Nat} (narrow : size < 2 ^ width)
    (firstSmall : first ≤ size) (secondSmall : second ≤ size) :
    BitVec.ofNat width first = BitVec.ofNat width second ↔
      first = second := by
  constructor
  · intro same
    have sameNat := congrArg BitVec.toNat same
    rwa [BitVec.toNat_ofNat, BitVec.toNat_ofNat,
      Nat.mod_eq_of_lt (firstSmall.trans_lt narrow),
      Nat.mod_eq_of_lt (secondSmall.trans_lt narrow)] at sameNat
  · rintro rfl
    rfl

theorem ofNat_sub (cons seen : Nat) :
    BitVec.ofNat width (cons + seen) - BitVec.ofNat width cons =
      BitVec.ofNat width seen := by
  rw [BitVec.ofNat_add, BitVec.add_comm, BitVec.add_sub_cancel]

theorem isFull_iff
    {size cons seen : Nat} (narrow : size < 2 ^ width) (small : seen ≤ size) :
    isFull size (BitVec.ofNat width (cons + seen))
      (BitVec.ofNat width cons) = true ↔ seen = size := by
  rw [isFull, decide_eq_true_eq, ofNat_sub]
  exact ofNat_inj_of_le narrow small (Nat.le_refl _)

theorem isEmpty_iff
    {size cons seen : Nat} (narrow : size < 2 ^ width) (small : seen ≤ size) :
    isEmpty (BitVec.ofNat width (cons + seen))
      (BitVec.ofNat width cons) = true ↔ seen = 0 := by
  rw [isEmpty, decide_eq_true_eq]
  constructor
  · intro same
    have distance := congrArg (· - BitVec.ofNat width cons) same
    simp only [ofNat_sub, BitVec.sub_self] at distance
    exact (ofNat_inj_of_le narrow small (Nat.zero_le _)).mp distance
  · rintro rfl
    rfl

/-- The mask picks the same slot before and after an index has wrapped. -/
theorem slot_ofNat
    {bits : Nat} (narrow : 2 ^ bits < 2 ^ width) (index : Nat) :
    slot (2 ^ bits) (BitVec.ofNat width index) = index % 2 ^ bits := by
  have maskSmall : 2 ^ bits - 1 < 2 ^ width :=
    (Nat.sub_le _ _).trans_lt narrow
  have divides : 2 ^ bits ∣ 2 ^ width :=
    Nat.pow_dvd_pow 2 (Nat.pow_lt_pow_iff_right (by decide) |>.mp narrow).le
  rw [slot, BitVec.toNat_and, BitVec.toNat_ofNat, BitVec.toNat_ofNat,
    Nat.mod_eq_of_lt maskSmall, Nat.and_two_pow_sub_one_eq_mod,
    Nat.mod_mod_of_dvd _ divides]

/-- Indices less than a ring apart have slots of their own. -/
theorem slot_ne
    {size first second : Nat} (before : first < second)
    (near : second < first + size) : first % size ≠ second % size := by
  intro same
  have modEq : first ≡ second [MOD size] := same
  have divides := (Nat.modEq_iff_dvd' before.le).mp modEq
  have far := Nat.le_of_dvd (by omega) divides
  omega

/-! ## The invariant -/

/-- What the producer knows at each of its steps. -/
def ProducerKnows (size : Nat) (state : State α width) : Prop :=
  match state.producer with
  | .idle => True
  | .ownLoaded _ prod => prod = BitVec.ofNat width state.pushed.length
  | .bothLoaded _ prod cons seen =>
      prod = BitVec.ofNat width state.pushed.length ∧ seen ≤ size ∧
        ∃ loaded ≤ state.popped.length, cons = BitVec.ofNat width loaded ∧
          state.pushed.length = loaded + seen
  | .writing _ prod =>
      prod = BitVec.ofNat width state.pushed.length ∧
        state.pushed.length < state.popped.length + size
  | .written data prod =>
      prod = BitVec.ofNat width state.pushed.length ∧
        state.pushed.length < state.popped.length + size ∧
        state.buffers (state.pushed.length % size) = data

/-- What the consumer knows at each of its steps. -/
def ConsumerKnows (size : Nat) (state : State α width) : Prop :=
  match state.consumer with
  | .idle => True
  | .otherLoaded prod seen =>
      prod = BitVec.ofNat width (state.popped.length + seen) ∧ seen ≤ size ∧
        state.popped.length + seen ≤ state.pushed.length
  | .bothLoaded prod cons seen =>
      prod = BitVec.ofNat width (state.popped.length + seen) ∧ seen ≤ size ∧
        state.popped.length + seen ≤ state.pushed.length ∧
        cons = BitVec.ofNat width state.popped.length
  | .reading cons =>
      cons = BitVec.ofNat width state.popped.length ∧
        state.popped.length < state.pushed.length
  | .done data cons =>
      cons = BitVec.ofNat width state.popped.length ∧
        state.pushed[state.popped.length]? = some data

/-- A bounded queue of the values that were pushed and not yet popped. -/
structure Invariant (size : Nat) (state : State α width) : Prop where
  prodIdx : state.prodIdx = BitVec.ofNat width state.pushed.length
  consIdx : state.consIdx = BitVec.ofNat width state.popped.length
  first : state.popped <+: state.pushed
  bounded : state.pushed.length ≤ state.popped.length + size
  held : ∀ i, state.popped.length ≤ i → i < state.pushed.length →
    state.pushed[i]? = some (state.buffers (i % size))
  producer : ProducerKnows size state
  consumer : ConsumerKnows size state
  pushFailures : ∀ seen ∈ state.pushFailures, seen = size
  popFailures : ∀ seen ∈ state.popFailures, seen = 0

namespace Invariant

variable {size bits : Nat} {state next : State α width}

theorem ordered (holds : Invariant size state) :
    state.popped.length ≤ state.pushed.length :=
  holds.first.length_le

theorem seen_eq (holds : Invariant size state) :
    state.popped.length + state.unpopped = state.pushed.length := by
  have ordered := holds.ordered
  unfold State.unpopped
  omega

theorem initial (zero : α) (size : Nat) :
    Invariant size ({ buffers := fun _ => zero } : State α width) where
  prodIdx := rfl
  consIdx := rfl
  first := List.prefix_refl []
  bounded := Nat.zero_le _
  held i _ inside := absurd inside (Nat.not_lt_zero i)
  producer := trivial
  consumer := trivial
  pushFailures _ member := absurd member List.not_mem_nil
  popFailures _ member := absurd member List.not_mem_nil

/-- A new call loads the producer's own index. -/
theorem push
    (holds : Invariant size state) (data : α) :
    Invariant size { state with producer := .ownLoaded data state.prodIdx } :=
  ⟨holds.prodIdx, holds.consIdx, holds.first, holds.bounded, holds.held,
    holds.prodIdx, holds.consumer, holds.pushFailures, holds.popFailures⟩

/-- Writing touches neither an unpopped value nor the consumer's slot. -/
theorem write
    (holds : Invariant (2 ^ bits) state) (narrow : 2 ^ bits < 2 ^ width)
    {data : α} {prod : BitVec width}
    (writing : state.producer = .writing data prod) :
    Invariant (2 ^ bits)
      { state with
        buffers := Function.update state.buffers (slot (2 ^ bits) prod) data
        producer := .written data prod } := by
  have knows := holds.producer
  unfold ProducerKnows at knows
  rw [writing] at knows
  obtain ⟨isProd, room⟩ := knows
  have isSlot : slot (2 ^ bits) prod = state.pushed.length % 2 ^ bits := by
    rw [isProd, slot_ofNat narrow]
  refine ⟨holds.prodIdx, holds.consIdx, holds.first, holds.bounded, ?_,
    ⟨isProd, room, ?_⟩, holds.consumer, holds.pushFailures,
    holds.popFailures⟩
  · intro i unpopped inside
    have apart : i % 2 ^ bits ≠ slot (2 ^ bits) prod := by
      rw [isSlot]
      exact slot_ne inside (by dsimp only at unpopped; omega)
    dsimp only
    rw [Function.update_of_ne apart]
    exact holds.held i unpopped inside
  · dsimp only
    rw [isSlot, Function.update_self]

/-- Publishing makes the written value the last of the queue. -/
theorem publish
    (holds : Invariant size state) {data : α} {prod : BitVec width}
    (written : state.producer = .written data prod) :
    Invariant size
      { state with
        prodIdx := prod + 1
        producer := .idle
        pushed := state.pushed ++ [data] } := by
  have knows := holds.producer
  unfold ProducerKnows at knows
  rw [written] at knows
  obtain ⟨isProd, room, isData⟩ := knows
  have length : (state.pushed ++ [data]).length = state.pushed.length + 1 :=
    List.length_append
  refine ⟨?_, holds.consIdx, holds.first.trans (List.prefix_append _ _), ?_,
    ?_, trivial, ?_, holds.pushFailures, holds.popFailures⟩
  · dsimp only
    rw [length, isProd, BitVec.ofNat_add]
    rfl
  · dsimp only
    omega
  · intro i unpopped inside
    dsimp only at unpopped inside ⊢
    by_cases last : i < state.pushed.length
    · rw [List.getElem?_append_left last]
      exact holds.held i unpopped last
    · obtain rfl : i = state.pushed.length := by omega
      rw [List.getElem?_concat_length, isData]
  · have consumerKnows := holds.consumer
    unfold ConsumerKnows at consumerKnows ⊢
    dsimp only
    cases consumer : state.consumer with
    | idle => trivial
    | otherLoaded prod seen =>
        rw [consumer] at consumerKnows
        exact ⟨consumerKnows.1, consumerKnows.2.1, by omega⟩
    | bothLoaded prod cons seen =>
        rw [consumer] at consumerKnows
        exact ⟨consumerKnows.1, consumerKnows.2.1, by omega,
          consumerKnows.2.2.2⟩
    | reading cons =>
        rw [consumer] at consumerKnows
        exact ⟨consumerKnows.1, by omega⟩
    | done value cons =>
        rw [consumer] at consumerKnows
        have inside := List.getElem?_eq_some_iff.mp consumerKnows.2
        refine ⟨consumerKnows.1, ?_⟩
        rw [List.getElem?_append_left inside.1]
        exact consumerKnows.2

/-- Every step of the producer. -/
theorem produce
    (holds : Invariant (2 ^ bits) state) (narrow : 2 ^ bits < 2 ^ width)
    (produced : state.produce (2 ^ bits) = some next) :
    Invariant (2 ^ bits) next := by
  have knows := holds.producer
  unfold State.produce at produced
  unfold ProducerKnows at knows
  cases producer : state.producer with
  | idle =>
      rw [producer] at produced
      cases produced
  | ownLoaded data prod =>
      rw [producer] at produced knows
      cases produced
      have seen := holds.seen_eq
      have bounded := holds.bounded
      exact ⟨holds.prodIdx, holds.consIdx, holds.first, bounded, holds.held,
        ⟨knows, by omega, state.popped.length, Nat.le_refl _, holds.consIdx,
          seen.symm⟩, holds.consumer, holds.pushFailures, holds.popFailures⟩
  | bothLoaded data prod cons seen =>
      rw [producer] at produced knows
      obtain ⟨isProd, small, loaded, old, isCons, length⟩ := knows
      have full := @isFull_iff width (2 ^ bits) loaded seen narrow small
      rw [← length, ← isProd, ← isCons] at full
      dsimp only at produced
      split_ifs at produced with isFull
      · cases produced
        refine ⟨holds.prodIdx, holds.consIdx, holds.first, holds.bounded,
          holds.held, trivial, holds.consumer, ?_, holds.popFailures⟩
        intro other member
        rcases List.mem_cons.mp member with rfl | earlier
        · exact full.mp isFull
        · exact holds.pushFailures other earlier
      · cases produced
        have room : seen ≠ 2 ^ bits := fun isSize => isFull (full.mpr isSize)
        exact ⟨holds.prodIdx, holds.consIdx, holds.first, holds.bounded,
          holds.held, ⟨isProd, by dsimp only; omega⟩, holds.consumer,
          holds.pushFailures, holds.popFailures⟩
  | writing data prod =>
      rw [producer] at produced
      cases produced
      exact holds.write narrow producer
  | written data prod =>
      rw [producer] at produced
      cases produced
      exact holds.publish producer

/-- The value that was read is the first of the queue. -/
theorem take
    (holds : Invariant size state) {data : α} {cons : BitVec width}
    (done : state.consumer = .done data cons) :
    Invariant size
      { state with
        consIdx := cons + 1
        consumer := .idle
        popped := state.popped ++ [data] } := by
  have knows := holds.consumer
  unfold ConsumerKnows at knows
  rw [done] at knows
  obtain ⟨isCons, isData⟩ := knows
  have inside := (List.getElem?_eq_some_iff.mp isData).1
  have length : (state.popped ++ [data]).length = state.popped.length + 1 :=
    List.length_append
  refine ⟨holds.prodIdx, ?_, ?_, ?_, ?_, ?_, trivial, holds.pushFailures,
    holds.popFailures⟩
  · dsimp only
    rw [length, isCons, BitVec.ofNat_add]
    rfl
  · have taken := List.prefix_iff_eq_take.mp holds.first
    have next : state.popped ++ [data] =
        state.pushed.take (state.popped.length + 1) := by
      rw [List.take_add_one, isData, ← taken]
      rfl
    dsimp only
    rw [next]
    exact List.take_prefix _ _
  · have bounded := holds.bounded
    dsimp only
    omega
  · intro i unpopped inPushed
    dsimp only at unpopped
    exact holds.held i (by omega) inPushed
  · have producerKnows := holds.producer
    unfold ProducerKnows at producerKnows ⊢
    dsimp only
    cases producer : state.producer with
    | idle => trivial
    | ownLoaded value prod =>
        rw [producer] at producerKnows
        exact producerKnows
    | bothLoaded value prod cons seen =>
        rw [producer] at producerKnows
        obtain ⟨isProd, small, loaded, old, isLoaded, seenLength⟩ :=
          producerKnows
        exact ⟨isProd, small, loaded, by omega, isLoaded, seenLength⟩
    | writing value prod =>
        rw [producer] at producerKnows
        exact ⟨producerKnows.1, by omega⟩
    | written value prod =>
        rw [producer] at producerKnows
        exact ⟨producerKnows.1, by omega, producerKnows.2.2⟩

/-- Every step of the consumer. -/
theorem consume
    (holds : Invariant (2 ^ bits) state) (narrow : 2 ^ bits < 2 ^ width) :
    Invariant (2 ^ bits) (state.consume (2 ^ bits)) := by
  have knows := holds.consumer
  unfold State.consume
  unfold ConsumerKnows at knows
  cases consumer : state.consumer with
  | idle =>
      have seen := holds.seen_eq
      have bounded := holds.bounded
      have isProd : state.prodIdx =
          BitVec.ofNat width (state.popped.length + state.unpopped) := by
        rw [seen]
        exact holds.prodIdx
      exact ⟨holds.prodIdx, holds.consIdx, holds.first, bounded, holds.held,
        holds.producer, ⟨isProd, by omega, seen.le⟩, holds.pushFailures,
        holds.popFailures⟩
  | otherLoaded prod seen =>
      rw [consumer] at knows
      exact ⟨holds.prodIdx, holds.consIdx, holds.first, holds.bounded,
        holds.held, holds.producer,
        ⟨knows.1, knows.2.1, knows.2.2, holds.consIdx⟩, holds.pushFailures,
        holds.popFailures⟩
  | bothLoaded prod cons seen =>
      rw [consumer] at knows
      obtain ⟨isProd, small, inside, isCons⟩ := knows
      have empty := @isEmpty_iff width (2 ^ bits) state.popped.length seen
        narrow small
      rw [← isProd, ← isCons] at empty
      dsimp only
      split_ifs with isEmpty
      · refine ⟨holds.prodIdx, holds.consIdx, holds.first, holds.bounded,
          holds.held, holds.producer, trivial, holds.pushFailures, ?_⟩
        intro other member
        rcases List.mem_cons.mp member with rfl | earlier
        · exact empty.mp isEmpty
        · exact holds.popFailures other earlier
      · have some_left : seen ≠ 0 := fun isZero =>
          isEmpty (empty.mpr isZero)
        exact ⟨holds.prodIdx, holds.consIdx, holds.first, holds.bounded,
          holds.held, holds.producer, ⟨isCons, by dsimp only; omega⟩,
          holds.pushFailures, holds.popFailures⟩
  | reading cons =>
      rw [consumer] at knows
      obtain ⟨isCons, inside⟩ := knows
      have isSlot : slot (2 ^ bits) cons =
          state.popped.length % 2 ^ bits := by
        rw [isCons, slot_ofNat narrow]
      refine ⟨holds.prodIdx, holds.consIdx, holds.first, holds.bounded,
        holds.held, holds.producer, ⟨isCons, ?_⟩, holds.pushFailures,
        holds.popFailures⟩
      dsimp only
      rw [isSlot]
      exact holds.held _ (Nat.le_refl _) inside
  | done data cons => exact holds.take consumer

theorem reachable
    (narrow : 2 ^ bits < 2 ^ width) {zero : α}
    (reaches : State.Reachable (2 ^ bits) zero state) :
    Invariant (2 ^ bits) state := by
  refine StepSystem.Reachable.invariant reaches ?_ ?_
  · rintro state rfl
    exact initial zero _
  · intro state action next holds stepped
    cases action with
    | push data =>
        unfold State.step at stepped
        cases producer : state.producer with
        | idle =>
            rw [producer] at stepped
            cases stepped
            exact holds.push data
        | _ =>
            rw [producer] at stepped
            cases stepped
    | produce =>
        unfold State.step at stepped
        cases produced : state.produce (2 ^ bits) with
        | none =>
            rw [produced] at stepped
            cases stepped
        | some result =>
            rw [produced] at stepped
            cases stepped
            exact holds.produce narrow produced
    | consume =>
        cases stepped
        exact holds.consume narrow

end Invariant

/--
The queue is a bounded queue.  In every state that the threads reach: the
popped values are the first ones that were pushed; the distance of the indices
is the number of values in the queue and at most the size; every value in the
queue is in its slot; a slot that is written holds none of them and is not
being read; and calls failed only when the queue was full or empty at their
load of the other index.
-/
theorem refines_bounded_fifo
    {bits : Nat} (wide : 2 * 2 ^ bits ≤ 2 ^ width) {zero : α}
    {state : State α width}
    (reaches : State.Reachable (2 ^ bits) zero state) :
    state.popped <+: state.pushed ∧
      (state.prodIdx - state.consIdx).toNat =
        state.pushed.length - state.popped.length ∧
      state.pushed.length - state.popped.length ≤ 2 ^ bits ∧
      (∀ i, state.popped.length ≤ i → i < state.pushed.length →
        state.pushed[i]? = some (state.buffers (i % 2 ^ bits))) ∧
      (∀ data prod, state.producer = .writing data prod →
        (∀ i, state.popped.length ≤ i → i < state.pushed.length →
          slot (2 ^ bits) prod ≠ i % 2 ^ bits) ∧
        ∀ cons, state.consumer = .reading cons →
          slot (2 ^ bits) prod ≠ slot (2 ^ bits) cons) ∧
      (∀ seen ∈ state.pushFailures, seen = 2 ^ bits) ∧
      (∀ seen ∈ state.popFailures, seen = 0) := by
  have positive := Nat.two_pow_pos bits
  have narrow : 2 ^ bits < 2 ^ width := by omega
  have holds := Invariant.reachable narrow reaches
  have seen := holds.seen_eq
  have bounded := holds.bounded
  have apart (data : α) (prod : BitVec width)
      (writing : state.producer = .writing data prod) (i : Nat)
      (unpopped : state.popped.length ≤ i)
      (inside : i < state.pushed.length) :
      slot (2 ^ bits) prod ≠ i % 2 ^ bits := by
    have knows := holds.producer
    unfold ProducerKnows at knows
    rw [writing] at knows
    rw [knows.1, slot_ofNat narrow]
    exact (slot_ne inside (by omega)).symm
  refine ⟨holds.first, ?_, by omega, holds.held, ?_, holds.pushFailures,
    holds.popFailures⟩
  · rw [holds.prodIdx, holds.consIdx, ← seen, ofNat_sub,
      BitVec.toNat_ofNat, Nat.mod_eq_of_lt (by omega)]
    omega
  · intro data prod writing
    refine ⟨apart data prod writing, ?_⟩
    intro cons reading
    have knows := holds.consumer
    unfold ConsumerKnows at knows
    rw [reading] at knows
    rw [knows.1, slot_ofNat narrow]
    exact apart data prod writing _ (Nat.le_refl _) knows.2

end Queue

/-- Five values through two slots, with indices that wrap after four. -/
theorem refines_bounded_fifo_wraps :
    ∃ state : State Nat 2, State.Reachable (2 ^ 1) 0 state ∧
      state.pushed = [0, 1, 2, 3, 4] ∧ state.popped <+: state.pushed ∧
      state.popped.length = 4 ∧
      (state.prodIdx - state.consIdx).toNat = 1 := by
  let start : State Nat 2 := { buffers := fun _ => 0 }
  let turn (data : Nat) : List (Action Nat) :=
    [.push data, .produce, .produce, .produce, .produce]
  let calls : List (Action Nat) :=
    [0, 1, 2, 3].flatMap (fun data => turn data ++
      List.replicate 5 .consume) ++ turn 4
  let outcome := StepSystem.run (State.step (2 ^ 1)) id start calls
  have ends : outcome.map (fun results =>
      ((StepSystem.last id start results).pushed,
        (StepSystem.last id start results).popped.length)) =
      .ok ([0, 1, 2, 3, 4], 4) := by
    decide +kernel
  cases ran : outcome with
  | error fault =>
      rw [ran] at ends
      cases ends
  | ok results =>
      rw [ran] at ends
      have both := Except.ok.inj ends
      have starts : State.Reachable (2 ^ 1) 0 start := .start rfl
      have reaches : State.Reachable (2 ^ 1) 0
          (StepSystem.last id start results) :=
        StepSystem.Reachable.run starts ran
      obtain ⟨first, distance, _⟩ :=
        refines_bounded_fifo (by decide) reaches
      have pushed := congrArg Prod.fst both
      have popped := congrArg Prod.snd both
      dsimp only at pushed popped
      refine ⟨_, reaches, pushed, first, popped, ?_⟩
      rw [distance, pushed, popped]
      rfl

end LimitOrderBook.LfQueue
