import Mathlib
import Escalation.Policy.Sink

/-!
# What a writer is asked

A writer is any machine with a state that answers when bytes are offered to it and can be flushed
(`Writer`). Writing to the end is a conversation with it: it is offered what it has not consumed
yet, until nothing is left or it answers that it took nothing or failed (`Writer.Converses`). An
answer consumes as many bytes as it claims, and never more than were offered, so what is left is
always cut off at a place inside what was offered.

Each round consumes a byte at least, so no writer can keep the conversation going for more rounds
than there are bytes. The writer is flushed exactly if it consumed everything, which it does unless
it refuses (`Writer.conversation_ends`). What a writer received that takes what it claims is then
the beginning of the text, and all of it if it never refused.
-/

set_option autoImplicit false
set_option relaxedAutoImplicit false

namespace Escalation

/-! ### Answers -/

namespace WriteAnswer

/-- How many of the bytes offered an answer consumes. -/
def consumed (offered : ℕ) : WriteAnswer → ℕ
  | .accepted count => min count offered
  | .failed => 0

/-- The answer ends the conversation: the writer failed, or it took nothing. -/
def Refuses : WriteAnswer → Prop
  | .accepted 0 | .failed => True
  | .accepted (_ + 1) => False

theorem consumed_le (offered : ℕ) (answer : WriteAnswer) : answer.consumed offered ≤ offered := by
  cases answer with
  | accepted count => exact Nat.min_le_right count offered
  | failed => exact Nat.zero_le offered

/-- An answer that ends the conversation consumes nothing. -/
theorem consumed_of_refuses {answer : WriteAnswer} (h : answer.Refuses) (offered : ℕ) :
    answer.consumed offered = 0 := by
  cases answer with
  | accepted count =>
    cases count with
    | zero => exact Nat.zero_min offered
    | succ count => exact h.elim
  | failed => rfl

/-- Any other answer consumes a byte at least, where any are offered. -/
theorem consumed_pos {answer : WriteAnswer} (h : ¬ answer.Refuses) {offered : ℕ}
    (hoffered : 0 < offered) : 0 < answer.consumed offered := by
  cases answer with
  | accepted count =>
    cases count with
    | zero => exact absurd trivial h
    | succ count => exact Nat.lt_min.mpr ⟨count.succ_pos, hoffered⟩
  | failed => exact absurd trivial h

end WriteAnswer

/-- The bytes from a place on. Beyond the end there is no such place. -/
def sliceFrom? (bytes : List UInt8) (place : ℕ) : Option (List UInt8) :=
  if place ≤ bytes.length then some (bytes.drop place) else none

theorem sliceFrom?_eq_some_iff {bytes rest : List UInt8} {place : ℕ} :
    sliceFrom? bytes place = some rest ↔ place ≤ bytes.length ∧ bytes.drop place = rest := by
  unfold sliceFrom?
  split_ifs with hplace
  · simp [hplace]
  · simp [hplace]

/-! ### Writers -/

/-- A writer with a state: it answers when bytes are offered to it, and it can be flushed. -/
structure Writer (σ : Type) where
  /-- It is offered bytes. -/
  write : List UInt8 → StateM σ WriteAnswer
  /-- It is flushed. -/
  flush : StateM σ Unit

/-- What a writer is asked. -/
inductive WriterCall
  /-- It is offered bytes, and answers. -/
  | write (offered : List UInt8) (answer : WriteAnswer)
  /-- It is flushed. -/
  | flush

/-- Bytes that were offered, and the answer. -/
abbrev Offer := List UInt8 × WriteAnswer

/-- How many bytes were consumed of several offers. -/
def consumedBy (offers : List Offer) : ℕ :=
  (offers.map fun offer ↦ offer.2.consumed offer.1.length).sum

@[simp] theorem consumedBy_nil : consumedBy [] = 0 := rfl

@[simp] theorem consumedBy_cons (offer : Offer) (offers : List Offer) :
    consumedBy (offer :: offers) = offer.2.consumed offer.1.length + consumedBy offers := by
  simp [consumedBy]

namespace Writer

variable {σ : Type}

/-- The writer, which notes what it is asked. -/
def noting (writer : Writer σ) : Writer (σ × List WriterCall) where
  write bytes := fun (state, calls) ↦
    let (answer, reached) := (writer.write bytes).run state
    (answer, reached, calls ++ [.write bytes answer])
  flush := fun (state, calls) ↦ ((), (writer.flush.run state).2, calls ++ [.flush])

/-- The writer takes what it claims to have taken, where `taken` is what it has. -/
structure Honest (writer : Writer σ) (taken : σ → List UInt8) : Prop where
  accepted {bytes : List UInt8} {state reached : σ} {count : ℕ} :
    (writer.write bytes).run state = (.accepted count, reached) →
      taken reached = taken state ++ bytes.take count
  failed {bytes : List UInt8} {state reached : σ} :
    (writer.write bytes).run state = (.failed, reached) → taken reached = taken state
  flush (state : σ) : taken (writer.flush.run state).2 = taken state

/-- A conversation about bytes that are left: what is offered and answered, whether the writer is
flushed at the end, and the state it is in then. -/
inductive Converses (writer : Writer σ) : List UInt8 → σ → List Offer → Bool → σ → Prop
  /-- Everything is consumed, so the writer is flushed. -/
  | flushed {state : σ} : Converses writer [] state [] true (writer.flush.run state).2
  /-- The writer refuses. -/
  | refused {bytes : List UInt8} {state reached : σ} {answer : WriteAnswer} : bytes ≠ [] →
    (writer.write bytes).run state = (answer, reached) → answer.Refuses →
      Converses writer bytes state [(bytes, answer)] false reached
  /-- The writer consumes some of the bytes, and the rest is left. -/
  | consumed {bytes rest : List UInt8} {state reached last : σ} {answer : WriteAnswer}
    {offers : List Offer} {flushed : Bool} : bytes ≠ [] →
    (writer.write bytes).run state = (answer, reached) → ¬ answer.Refuses →
    sliceFrom? bytes (answer.consumed bytes.length) = some rest →
    Converses writer rest reached offers flushed last →
      Converses writer bytes state ((bytes, answer) :: offers) flushed last

variable {writer : Writer σ} {bytes : List UInt8} {state last : σ} {offers : List Offer}
  {flushed : Bool}

section Rounds

variable {byte : UInt8} {rest : List UInt8} {reached : σ}

/-- A writer that refuses is not asked again. -/
theorem writeFully_of_refuses {answer : WriteAnswer} (hrefuses : answer.Refuses)
    (h : (writer.write (byte :: rest)).run state = (answer, reached)) :
    (writeFully writer.write writer.flush (byte :: rest)).run state = ((), reached) := by
  rw [writeFully_cons, StateT.run_bind, h]
  rcases answer with (_ | more) | _
  · rfl
  · exact hrefuses.elim
  · rfl

/-- A writer that claims to have taken something is asked for what is left. -/
theorem writeFully_of_accepted {more : ℕ}
    (h : (writer.write (byte :: rest)).run state = (.accepted (more + 1), reached)) :
    (writeFully writer.write writer.flush (byte :: rest)).run state =
      (writeFully writer.write writer.flush (rest.drop more)).run reached := by
  rw [writeFully_cons, StateT.run_bind, h]
  rfl

theorem noting_write {answer : WriteAnswer} (h : (writer.write bytes).run state = (answer, reached))
    (calls : List WriterCall) : (writer.noting.write bytes).run (state, calls) =
      (answer, reached, calls ++ [.write bytes answer]) := by
  change (((writer.write bytes).run state).1, ((writer.write bytes).run state).2,
    calls ++ [.write bytes ((writer.write bytes).run state).1]) = _
  rw [h]

/-- What is left behind an answer is cut off at a place inside what was offered. -/
theorem sliceFrom?_consumed (more : ℕ) : sliceFrom? (byte :: rest)
    ((WriteAnswer.accepted (more + 1)).consumed (byte :: rest).length) = some (rest.drop more) := by
  unfold sliceFrom?
  rw [if_pos (WriteAnswer.consumed_le _ _)]
  change some ((byte :: rest).drop (min (more + 1) (rest.length + 1))) = _
  rw [Nat.succ_min_succ, List.drop_succ_cons]
  rcases Nat.le_total more rest.length with hle | hle
  · rw [Nat.min_eq_left hle]
  · rw [Nat.min_eq_right hle, List.drop_length, List.drop_of_length_le hle]

end Rounds

/-- Writing to the end is a conversation with the writer, whether its calls are noted or not. -/
theorem exists_converses (writer : Writer σ) (bytes : List UInt8) (state : σ)
    (calls : List WriterCall) : ∃ offers flushed last,
      writer.Converses bytes state offers flushed last ∧
      (writeFully writer.noting.write writer.noting.flush bytes).run (state, calls) =
        ((), last, calls ++ offers.map (fun offer ↦ .write offer.1 offer.2) ++
          if flushed then [.flush] else []) ∧
      (writeFully writer.write writer.flush bytes).run state = ((), last) := by
  -- What is noted comes behind earlier calls, which grow with each round, so they are not fixed.
  induction bytes using writeFully.induct generalizing state calls with
  | case1 =>
    refine ⟨[], true, _, .flushed, ?_, ?_⟩
    · rw [writeFully_nil, List.map_nil, List.append_nil, if_pos rfl]
      rfl
    · rw [writeFully_nil]
      rfl
  | case2 byte rest ih =>
    obtain ⟨answer, reached, hanswer⟩ : ∃ answer reached,
        (writer.write (byte :: rest)).run state = (answer, reached) := ⟨_, _, rfl⟩
    have hnoted := noting_write hanswer calls
    by_cases hrefuses : answer.Refuses
    · refine ⟨_, _, _, .refused (by simp) hanswer hrefuses, ?_, ?_⟩
      · rw [writeFully_of_refuses hrefuses hnoted]
        simp
      · exact writeFully_of_refuses hrefuses hanswer
    · obtain ⟨more, rfl⟩ : ∃ more, answer = .accepted (more + 1) := by
        rcases answer with (_ | more) | _
        · exact absurd trivial hrefuses
        · exact ⟨more, rfl⟩
        · exact absurd trivial hrefuses
      obtain ⟨offers, flushed, last, hconverses, hcalls, hlast⟩ :=
        ih more reached (calls ++ [.write (byte :: rest) (.accepted (more + 1))])
      refine ⟨_, flushed, last,
        .consumed (by simp) hanswer hrefuses (sliceFrom?_consumed more) hconverses, ?_, ?_⟩
      · rw [writeFully_of_accepted hnoted, hcalls]
        simp
      · rw [writeFully_of_accepted hanswer, hlast]

/-! ### How a conversation goes -/

namespace Converses

variable {writer : Writer σ} {bytes : List UInt8} {state last : σ} {offers : List Offer}
  {flushed : Bool}

/-- Every round consumes a byte at least. -/
theorem length_le (h : writer.Converses bytes state offers flushed last) :
    offers.length ≤ bytes.length := by
  induction h with
  | flushed => exact Nat.le_refl 0
  | refused hbytes => exact List.length_pos_iff.mpr hbytes
  | consumed hbytes _ hrefuses hslice _ ih =>
    obtain ⟨hplace, rfl⟩ := sliceFrom?_eq_some_iff.mp hslice
    have hpos := WriteAnswer.consumed_pos hrefuses (List.length_pos_iff.mpr hbytes)
    rw [List.length_drop] at ih
    rw [List.length_cons]
    omega

/-- What is offered is what was not consumed before, and what the answer leaves of it is cut off
inside it. -/
theorem offered (h : writer.Converses bytes state offers flushed last) (i : ℕ)
    (hi : i < offers.length) : offers[i].1 ≠ [] ∧
      offers[i].1 = bytes.drop (consumedBy (offers.take i)) ∧
      sliceFrom? offers[i].1 (offers[i].2.consumed offers[i].1.length) =
        some (bytes.drop (consumedBy (offers.take (i + 1)))) := by
  induction h generalizing i with
  | flushed => exact absurd hi (Nat.not_lt_zero i)
  | refused hbytes _ hrefuses =>
    obtain rfl : i = 0 := Nat.lt_one_iff.mp hi
    refine ⟨hbytes, rfl, ?_⟩
    rw [sliceFrom?_eq_some_iff]
    exact ⟨WriteAnswer.consumed_le _ _, by simp⟩
  | consumed hbytes _ _ hslice _ ih =>
    obtain ⟨hplace, rfl⟩ := sliceFrom?_eq_some_iff.mp hslice
    cases i with
    | zero =>
      refine ⟨hbytes, rfl, ?_⟩
      rw [sliceFrom?_eq_some_iff]
      exact ⟨hplace, by simp⟩
    | succ i =>
      obtain ⟨hsome, hdrop, hcut⟩ := ih i (Nat.lt_of_succ_lt_succ hi)
      simp only [List.getElem_cons_succ, List.take_succ_cons, consumedBy_cons]
      rw [List.drop_drop] at hdrop hcut
      exact ⟨hsome, hdrop, hcut⟩

/-- Nothing follows a refusal. -/
theorem succ_eq_length_of_refuses (h : writer.Converses bytes state offers flushed last) (i : ℕ)
    (hi : i < offers.length) (hrefuses : offers[i].2.Refuses) : i + 1 = offers.length := by
  induction h generalizing i with
  | flushed => exact absurd hi (Nat.not_lt_zero i)
  | refused => exact congrArg (· + 1) (Nat.lt_one_iff.mp hi)
  | consumed _ _ htaken _ _ ih =>
    cases i with
    | zero => exact absurd hrefuses htaken
    | succ i => exact congrArg (· + 1) (ih i (Nat.lt_of_succ_lt_succ hi) hrefuses)

/-- The writer is flushed unless it refuses. -/
theorem flushed_iff (h : writer.Converses bytes state offers flushed last) :
    flushed = true ↔ ∀ offer ∈ offers, ¬ offer.2.Refuses := by
  induction h with
  | flushed => simp
  | refused _ _ hrefuses => simp [hrefuses]
  | consumed _ _ htaken _ _ ih => simp [htaken, ih]

/-- No more is consumed than there is. -/
theorem consumedBy_le (h : writer.Converses bytes state offers flushed last) :
    consumedBy offers ≤ bytes.length := by
  induction h with
  | flushed => exact Nat.le_refl 0
  | refused => simp [WriteAnswer.consumed_le]
  | consumed _ _ _ hslice _ ih =>
    obtain ⟨hplace, rfl⟩ := sliceFrom?_eq_some_iff.mp hslice
    rw [List.length_drop] at ih
    rw [consumedBy_cons]
    dsimp only
    omega

/-- The writer is flushed exactly if everything is consumed. -/
theorem consumedBy_eq_length_iff (h : writer.Converses bytes state offers flushed last) :
    consumedBy offers = bytes.length ↔ flushed = true := by
  induction h with
  | flushed => simp
  | refused hbytes _ hrefuses =>
    have hpos := List.length_pos_iff.mpr hbytes
    simp only [consumedBy_cons, consumedBy_nil, WriteAnswer.consumed_of_refuses hrefuses,
      Bool.false_eq_true, iff_false]
    omega
  | consumed _ _ _ hslice _ ih =>
    obtain ⟨hplace, rfl⟩ := sliceFrom?_eq_some_iff.mp hslice
    rw [List.length_drop] at ih
    rw [consumedBy_cons, ← ih]
    dsimp only
    omega

/-- A writer that takes what it claims to take has received what was consumed. -/
theorem received (h : writer.Converses bytes state offers flushed last)
    {taken : σ → List UInt8} (hhonest : writer.Honest taken) :
    taken last = taken state ++ bytes.take (consumedBy offers) := by
  induction h with
  | flushed => simp [hhonest.flush]
  | @refused bytes state reached answer _ hanswer hrefuses =>
    rw [consumedBy_cons, consumedBy_nil, WriteAnswer.consumed_of_refuses hrefuses]
    rcases answer with (_ | more) | _
    · simpa using hhonest.accepted hanswer
    · exact hrefuses.elim
    · simpa using hhonest.failed hanswer
  | @consumed bytes rest state reached last answer offers flushed _ hanswer htaken hslice _ ih =>
    obtain ⟨hplace, rfl⟩ := sliceFrom?_eq_some_iff.mp hslice
    rcases answer with count | _
    · have hcount : bytes.take count = bytes.take (min count bytes.length) := by
        rw [← List.take_eq_take_min]
      rw [ih, hhonest.accepted hanswer, hcount, consumedBy_cons, List.append_assoc, List.take_add]
      rfl
    · exact absurd trivial htaken

end Converses

/-- Writing to the end makes at most as many offers as there are bytes. Each offers just the bytes
that were not consumed before, of which the answer leaves what lies behind a place inside them;
nothing is asked behind an answer that refuses. The writer is flushed once if everything was
consumed, which is if it never refused, and is not flushed otherwise. So a writer that takes what it
claims has received a beginning of the bytes, and all of them if it never refused. -/
theorem conversation_ends (writer : Writer σ) (state : σ) (bytes : List UInt8) :
    ∃ offers last,
      (writeFully writer.noting.write writer.noting.flush bytes).run (state, []) =
        ((), last, offers.map (fun offer ↦ .write offer.1 offer.2) ++
          if consumedBy offers = bytes.length then [.flush] else []) ∧
      (writeFully writer.write writer.flush bytes).run state = ((), last) ∧
      offers.length ≤ bytes.length ∧
      (∀ i (hi : i < offers.length), offers[i].1 ≠ [] ∧
        offers[i].1 = bytes.drop (consumedBy (offers.take i)) ∧
        sliceFrom? offers[i].1 (offers[i].2.consumed offers[i].1.length) =
          some (bytes.drop (consumedBy (offers.take (i + 1)))) ∧
        (offers[i].2.Refuses → i + 1 = offers.length)) ∧
      (consumedBy offers = bytes.length ↔ ∀ offer ∈ offers, ¬ offer.2.Refuses) ∧
      ∀ taken, writer.Honest taken → ∃ received, taken last = taken state ++ received ∧
        received <+: bytes ∧ (received = bytes ↔ ∀ offer ∈ offers, ¬ offer.2.Refuses) := by
  obtain ⟨offers, flushed, last, h, hcalls, hlast⟩ := exists_converses writer bytes state []
  have hall : consumedBy offers = bytes.length ↔ ∀ offer ∈ offers, ¬ offer.2.Refuses :=
    h.consumedBy_eq_length_iff.trans h.flushed_iff
  refine ⟨offers, last, ?_, hlast, h.length_le, fun i hi ↦ ?_, hall, fun taken hhonest ↦ ?_⟩
  · rw [hcalls, List.nil_append]
    simp only [h.consumedBy_eq_length_iff]
  · obtain ⟨hsome, hdrop, hcut⟩ := h.offered i hi
    exact ⟨hsome, hdrop, hcut, h.succ_eq_length_of_refuses i hi⟩
  · refine ⟨_, h.received hhonest, List.take_prefix _ bytes, ?_⟩
    rw [← hall, List.take_eq_self_iff]
    exact ⟨fun hle ↦ Nat.le_antisymm h.consumedBy_le hle, Nat.le_of_eq ∘ Eq.symm⟩

/-- A writer that takes one byte at a time, and only so many times. -/
def trickle : Writer (ℕ × List UInt8) where
  write bytes := fun (budget, taken) ↦
    match budget with
    | 0 => (.accepted 0, 0, taken)
    | budget + 1 => (.accepted 1, budget, taken ++ bytes.take 1)
  flush := pure ()

/-- A writer that gives up has received a beginning of the bytes. -/
theorem conversation_with_trickle : trickle.Honest Prod.snd ∧ ∃ received,
    ((writeFully trickle.write trickle.flush [116, 114, 117, 110]).run (3, [])).2.2 = received ∧
      received <+: [116, 114, 117, 110] := by
  have hhonest : trickle.Honest Prod.snd := by
    refine ⟨fun {bytes state reached count} hwrite ↦ ?_, fun {bytes state reached} hwrite ↦ ?_,
      fun _ ↦ rfl⟩
    · obtain ⟨budget, taken⟩ := state
      cases budget with
      | zero =>
        cases hwrite
        simp
      | succ budget =>
        cases hwrite
        rfl
    · obtain ⟨budget, taken⟩ := state
      cases budget <;> cases hwrite
  obtain ⟨offers, last, -, hlast, -, -, -, hreceived⟩ :=
    trickle.conversation_ends (3, []) [116, 114, 117, 110]
  obtain ⟨received, htaken, hprefix, -⟩ := hreceived Prod.snd hhonest
  refine ⟨hhonest, received, ?_, hprefix⟩
  rw [hlast]
  exact htaken

end Writer

end Escalation
