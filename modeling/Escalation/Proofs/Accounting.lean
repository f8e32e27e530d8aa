import Escalation.Proofs.Ownership

/-!
# Every part of a run keeps the books

A part that is started where the books are in order leaves them in order, with known objects in
hand, whether it returns or raises (`Machine.Balances`). As runs are watched, this is said of a part
together with the same part under fewer watches: both end in the same way, or the first is stopped
where the second goes on (`Machine.Tallies`, `Run.Books`). So a single pass through what the
interpreter does says how the books are wherever a run is stopped and at its end, and that nothing
comes back between two moments of a run.

What has nothing to do with overrides leaves the books alone (`Run.books_of_aside`). Letting go of
an object takes it out of hand, whatever its destructor does (`Run.books_relinquish`); an operation
has nothing more in hand behind it than before (`Run.books_perform`), and a dispatch has the object
in hand whose handler runs (`Run.books_deliver`). The tasks of a run keep the books at every depth
of nesting (`Interpreter.books_runUntil`, `Interpreter.books_run`).
-/

set_option autoImplicit false
set_option relaxedAutoImplicit false

namespace Escalation

/-! ### Ends that keep the books -/

namespace Machine

variable {base machine after : Machine} {stop : Machine → Prop} {held left : List ObjectId}
  {α β : Type}

/-- Behind this end the books are in order, with some objects in hand, and nothing that was
destroyed before has come back. Where the run is stopped, a fact says how. -/
def Balances (base : Machine) (stop : Machine → Prop) (left : List ObjectId) :
    EStateM.Result Interrupt Machine α → Prop
  | .ok _ after | .error (.raised _) after => after.Accounts left ∧ base.Ages after
  | .error .stopped moment => stop moment ∧ base.Ages moment
  | .error .aborted _ | .error .exhausted _ => True

namespace Balances

variable {result : EStateM.Result Interrupt Machine α} {interrupt : Interrupt}

theorem of_ages (h : after.Balances stop left result) (hages : base.Ages after) :
    base.Balances stop left result := by
  rcases result with ⟨value, last⟩ | ⟨payload | _ | _ | _, last⟩
  · exact ⟨h.1, hages.trans h.2⟩
  · exact ⟨h.1, hages.trans h.2⟩
  · trivial
  · trivial
  · exact ⟨h.1, hages.trans h.2⟩

/-- What breaks a part off breaks off what it is a part of. -/
theorem error (h : base.Balances stop left (.error interrupt after : EStateM.Result _ _ α)) :
    base.Balances stop left (.error interrupt after : EStateM.Result _ _ β) := by
  cases interrupt <;> exact h

/-- What breaks a part off without a raise breaks it off whatever was in hand. -/
theorem of_break (hbreak : ∀ payload, interrupt ≠ .raised payload)
    (h : base.Balances stop held (.error interrupt after : EStateM.Result _ _ α)) :
    base.Balances stop left (.error interrupt after : EStateM.Result _ _ β) := by
  cases interrupt with
  | raised payload => exact absurd rfl (hbreak payload)
  | _ => exact h

end Balances

/-- Two ends of a part of which the first is watched more: they are the same end, or the first is
stopped and the second comes later. -/
def Tallies (base : Machine) (stop : Machine → Prop) (left : List ObjectId)
    (result other : EStateM.Result Interrupt Machine α) : Prop :=
  result = other ∧ base.Balances stop left other ∨
    ∃ moment, result = .error .stopped moment ∧ base.Ages moment ∧ moment.Balances stop left other

namespace Tallies

variable {result other : EStateM.Result Interrupt Machine α}

theorem of_ages (h : after.Tallies stop left result other) (hages : base.Ages after) :
    base.Tallies stop left result other := by
  rcases h with ⟨hsame, hend⟩ | ⟨moment, hstopped, hmoment, hend⟩
  · exact .inl ⟨hsame, hend.of_ages hages⟩
  · exact .inr ⟨moment, hstopped, hages.trans hmoment, hend⟩

theorem balances (h : base.Tallies stop left result other) : base.Balances stop left other := by
  rcases h with ⟨-, hend⟩ | ⟨moment, -, hmoment, hend⟩
  · exact hend
  · exact hend.of_ages hmoment

end Tallies

end Machine

namespace Run

open Machine

section Ends

variable {α : Type} {body : Run α} {cleanup : Run Unit} {machine after : Machine}

/-- The end of a part that returns or raises. -/
def ended (outcome : Except Payload α) (after : Machine) : EStateM.Result Interrupt Machine α :=
  match outcome with
  | .ok value => .ok value after
  | .error payload => .error (.raised payload) after

/-- How a part ends with its cleanup, where the part has ended and its cleanup has in some way. -/
def tidied : Except Payload α → EStateM.Result Interrupt Machine Unit →
    EStateM.Result Interrupt Machine α
  | outcome, .ok _ last => ended outcome last
  | .error _, .error (.raised _) last => .error .aborted last
  | _, .error interrupt last => .error interrupt last

/-- A part returns or raises, or it breaks off. -/
theorem ended_or_broken (result : EStateM.Result Interrupt Machine α) :
    (∃ outcome after, result = ended outcome after) ∨ ∃ interrupt moment,
      (∀ payload, interrupt ≠ .raised payload) ∧ result = .error interrupt moment := by
  rcases result with ⟨value, after⟩ | ⟨payload | _ | _ | _, after⟩
  · exact .inl ⟨.ok value, after, rfl⟩
  · exact .inl ⟨.error payload, after, rfl⟩
  · exact .inr ⟨.aborted, after, fun _ ↦ nofun, rfl⟩
  · exact .inr ⟨.exhausted, after, fun _ ↦ nofun, rfl⟩
  · exact .inr ⟨.stopped, after, fun _ ↦ nofun, rfl⟩

/-- Where a part has ended, its cleanup decides. -/
theorem andFinally_of_ended {outcome : Except Payload α} (h : body machine = ended outcome after) :
    andFinally body cleanup machine = tidied outcome (cleanup after) := by
  unfold andFinally
  cases outcome with
  | ok value =>
    rw [h]
    dsimp only [ended]
    rcases cleanup after with ⟨_, last⟩ | ⟨_ | _ | _ | _, last⟩ <;> rfl
  | error payload =>
    rw [h]
    dsimp only [ended]
    rcases cleanup after with ⟨_, last⟩ | ⟨_ | _ | _ | _, last⟩ <;> rfl

end Ends

end Run

namespace Machine

variable {base after : Machine} {stop : Machine → Prop} {left : List ObjectId} {α : Type}
  {outcome : Except Payload α}

theorem Balances.of_ended (h : base.Balances stop left (Run.ended outcome after)) :
    after.Accounts left ∧ base.Ages after := by
  cases outcome <;> exact h

theorem Balances.ended (hafter : after.Accounts left) (hages : base.Ages after) :
    base.Balances stop left (Run.ended outcome after) := by
  cases outcome <;> exact ⟨hafter, hages⟩

theorem Balances.tidied {result : EStateM.Result Interrupt Machine Unit}
    (h : base.Balances stop left result) : base.Balances stop left (Run.tidied outcome result) := by
  rcases result with ⟨_, last⟩ | ⟨payload | _ | _ | _, last⟩
  · cases outcome <;> exact h
  · cases outcome with
    | ok value => exact h
    | error first => trivial
  all_goals cases outcome <;> exact h

/-- A cleanup that is stopped stops what it belongs to. -/
theorem Tallies.tidied {result other : EStateM.Result Interrupt Machine Unit}
    (h : base.Tallies stop left result other) :
    base.Tallies stop left (Run.tidied outcome result) (Run.tidied outcome other) := by
  rcases h with ⟨rfl, hend⟩ | ⟨moment, rfl, hages, hend⟩
  · exact .inl ⟨rfl, hend.tidied⟩
  · exact .inr ⟨moment, by cases outcome <;> rfl, hages, hend.tidied⟩

end Machine

namespace Run

open Machine

variable {stop : Machine → Prop} {held mid left : List ObjectId} {α β : Type}

/-- A part, and the same part under fewer watches, keep the books: started with some objects in
hand, they end with others. -/
def Books (stop : Machine → Prop) (held left : List ObjectId) (part other : Run α) : Prop :=
  ∀ machine : Machine, machine.Accounts held →
    machine.Tallies stop left (part machine) (other machine)

namespace Books

variable {part other : Run α}

/-- A part that ends in the same way under all watches. -/
theorem of_balances (h : ∀ machine : Machine, machine.Accounts held →
    machine.Balances stop left (part machine)) : Books stop held left part part :=
  fun machine hmachine ↦ Or.inl ⟨rfl, h machine hmachine⟩

/-- A part that returns, and leaves the books as they are. -/
theorem of_ok (h : ∀ machine : Machine, ∃ value after, part machine = .ok value after ∧
    machine.SameBooks after) : Books stop held held part part := by
  refine of_balances fun machine hmachine ↦ ?_
  obtain ⟨value, after, hend, hsame⟩ := h machine
  rw [hend]
  exact ⟨hsame.accounts hmachine, hsame.ages⟩

theorem pure (value : α) : Books stop held held (Pure.pure value : Run α) (Pure.pure value) :=
  of_ok fun machine ↦ ⟨value, machine, rfl, rfl, rfl, rfl⟩

/-- A part behind one that returns. -/
theorem behind {next nextOther : α → Run β} {machine after : Machine} {value : α}
    (hend : part machine = .ok value after) (hages : machine.Ages after)
    (hnext : after.Tallies stop left (next value after) (nextOther value after)) :
    machine.Tallies stop left ((part >>= next) machine) ((part >>= nextOther) machine) := by
  rw [bind_of_ok hend, bind_of_ok hend]
  exact hnext.of_ages hages

/-- A part and what follows it, which leaves in hand what the part does. -/
theorem bind {next nextOther : α → Run β} (hpart : Books stop held left part other)
    (hnext : ∀ value, Books stop left left (next value) (nextOther value)) :
    Books stop held left (part >>= next) (other >>= nextOther) := by
  intro machine hmachine
  rcases hpart machine hmachine with ⟨hsame, hend⟩ | ⟨moment, hstopped, hages, hend⟩
  · rcases hother : other machine with ⟨value, after⟩ | ⟨interrupt, after⟩
    · rw [hother] at hsame hend
      rw [bind_of_ok hsame, bind_of_ok hother]
      exact (hnext value after hend.1).of_ages hend.2
    · rw [hother] at hsame hend
      rw [bind_of_error hsame, bind_of_error hother]
      exact .inl ⟨rfl, hend.error⟩
  · refine .inr ⟨moment, bind_of_error hstopped, hages, ?_⟩
    rcases hother : other machine with ⟨value, after⟩ | ⟨interrupt, after⟩
    · rw [hother] at hend
      rw [bind_of_ok hother]
      exact (hnext value after hend.1).balances.of_ages hend.2
    · rw [hother] at hend
      rw [bind_of_error hother]
      exact hend.error

theorem map (change : α → β) (h : Books stop held left part other) :
    Books stop held left (change <$> part) (change <$> other) := by
  rw [map_eq_pure_bind, map_eq_pure_bind]
  exact h.bind fun _ ↦ .pure _

/-- A part and its cleanup, which takes up what the part has in hand in the end. -/
theorem andFinally {cleanup cleanupOther : Run Unit} (hbody : Books stop held mid part other)
    (hcleanup : Books stop mid left cleanup cleanupOther) :
    Books stop held left (Run.andFinally part cleanup) (Run.andFinally other cleanupOther) := by
  have hbalances {base machine : Machine} (hend : base.Balances stop mid (other machine)) :
      base.Balances stop left (Run.andFinally other cleanupOther machine) := by
    rcases ended_or_broken (other machine) with ⟨outcome, after, hother⟩ | ⟨_, _, hbreak, hother⟩
    · rw [andFinally_of_ended hother]
      rw [hother] at hend
      obtain ⟨hafter, hages⟩ := hend.of_ended
      exact ((hcleanup after hafter).balances.of_ages hages).tidied
    · rw [andFinally_of_break hbreak hother]
      rw [hother] at hend
      exact hend.of_break hbreak
  intro machine hmachine
  rcases hbody machine hmachine with ⟨hsame, hend⟩ | ⟨moment, hstopped, hages, hend⟩
  · have hwhole := hbalances hend
    rcases ended_or_broken (other machine) with ⟨outcome, after, hother⟩ | ⟨_, _, hbreak, hother⟩
    · rw [hother] at hend
      obtain ⟨hafter, hages⟩ := hend.of_ended
      rw [andFinally_of_ended (hsame.trans hother), andFinally_of_ended hother]
      exact ((hcleanup after hafter).of_ages hages).tidied
    · rw [andFinally_of_break hbreak hother] at hwhole ⊢
      exact .inl ⟨andFinally_of_break hbreak (hsame.trans hother), hwhole⟩
  · exact .inr ⟨moment, andFinally_of_break (fun _ ↦ nofun) hstopped, hages, hbalances hend⟩

/-- Where a raise is handed over, only the count of raises changes. -/
theorem intercept (h : Books stop held left part other) :
    Books stop held left (Run.intercept part) (Run.intercept other) := by
  have hbalances {base machine : Machine} (hend : base.Balances stop left (other machine)) :
      base.Balances stop left (Run.intercept other machine) := by
    unfold Run.intercept
    rcases hother : other machine with ⟨value, after⟩ | ⟨payload | _ | _ | _, after⟩
    all_goals rw [hother] at hend
    · exact hend
    · have hsame : after.SameBooks { after with thread := { after.thread with
          unwinding := after.thread.unwinding - 1 } } := ⟨rfl, rfl, rfl⟩
      exact ⟨hsame.accounts hend.1, hend.2.trans hsame.ages⟩
    all_goals exact hend
  intro machine hmachine
  rcases h machine hmachine with ⟨hsame, hend⟩ | ⟨moment, hstopped, hages, hend⟩
  · refine .inl ⟨?_, hbalances hend⟩
    unfold Run.intercept
    rw [hsame]
  · refine .inr ⟨moment, ?_, hages, hbalances hend⟩
    unfold Run.intercept
    rw [hstopped]

/-- A list of parts, one after another. -/
theorem forM {γ : Type} {items : List γ} {first second : γ → Run Unit}
    (h : ∀ item, Books stop held held (first item) (second item)) :
    Books stop held held (items.forM first) (items.forM second) := by
  induction items with
  | nil => exact .pure _
  | cons item rest ih =>
    simp only [List.forM_eq_forM, List.forM_cons] at ih ⊢
    exact (h item).bind fun _ ↦ ih

theorem run_liftM (h : Books stop held left part other) :
    Books stop held left (liftM part : Attempt α).run (liftM other : Attempt α).run :=
  h.map Except.ok

/-- An operation goes on with a value unless it is refused. -/
theorem run_bind {part other : Attempt α} {next nextOther : α → Attempt β}
    (hpart : Books stop held left part.run other.run)
    (hnext : ∀ value, Books stop left left (next value).run (nextOther value).run) :
    Books stop held left (part >>= next).run (other >>= nextOther).run := by
  rw [ExceptT.run_bind, ExceptT.run_bind]
  refine hpart.bind fun outcome ↦ ?_
  cases outcome with
  | ok value => exact hnext value
  | error refusal => exact .pure _

theorem run_pure (value : α) : Books stop held held (Pure.pure value : Attempt α).run
    (Pure.pure value : Attempt α).run := .pure (Except.ok value)

end Books

/-! ### Parts that leave the books alone -/

/-- What has nothing to do with overrides, and finishes, ends with the same books. -/
theorem ended_of_aside {part : Run α} {machine : Machine} (hfinish : Finishes part machine)
    (haside : Aside part) :
    ∃ outcome after, part machine = ended outcome after ∧ machine.SameBooks after := by
  have hsame := haside machine trivial
  unfold Finishes at hfinish
  rcases hend : part machine with ⟨value, after⟩ | ⟨payload | _ | _ | _, after⟩
  all_goals rw [hend] at hfinish hsame
  · exact ⟨.ok value, after, rfl, congrArg Stack.entries hsame.stack, hfinish.objects, hsame.shared⟩
  · exact ⟨.error payload, after, rfl, congrArg Stack.entries hsame.stack, hfinish.objects,
      hsame.shared⟩
  all_goals exact hfinish.elim

theorem books_of_aside {part : Run α} (hfinish : ∀ machine, Finishes part machine)
    (haside : Aside part) : Books stop held held part part := by
  refine .of_balances fun machine hmachine ↦ ?_
  obtain ⟨outcome, after, hend, hsame⟩ := ended_of_aside (hfinish machine) haside
  rw [hend]
  exact .ended (hsame.accounts hmachine) hsame.ages

theorem books_modifyThread {change : Thread → Thread}
    (h : ∀ thread process, Machine.SameBooks ⟨process, thread⟩ ⟨process, change thread⟩) :
    Books stop held held (modifyThread change) (modifyThread change) :=
  .of_ok fun machine ↦ ⟨(), _, rfl, h machine.thread machine.process⟩

theorem books_thread : Books stop held held thread thread :=
  books_of_aside (fun machine ↦ (returns_thread machine).finishes) aside_thread

theorem books_process : Books stop held held process process :=
  books_of_aside (fun machine ↦ (returns_process machine).finishes) aside_process

theorem books_height : Books stop held held height height := books_thread.bind fun _ ↦ .pure _

theorem books_current : Books stop held held current current := books_thread.bind fun _ ↦ .pure _

theorem books_isUnwinding : Books stop held held isUnwinding isUnwinding :=
  books_thread.bind fun _ ↦ .pure _

theorem books_store (slot : String) (failure : Failure) :
    Books stop held held (store slot failure) (store slot failure) :=
  books_modifyThread fun _ _ ↦ ⟨rfl, rfl, rfl⟩

theorem books_record (entry : Record) : Books stop held held (record entry) (record entry) :=
  books_of_aside (fun machine ↦ (returns_record machine entry).finishes) (aside_record entry)

theorem books_writeDiagnostics (text : String) :
    Books stop held held (writeDiagnostics text) (writeDiagnostics text) :=
  books_of_aside (fun machine ↦ (returns_writeDiagnostics machine text).finishes)
    (aside_writeDiagnostics text)

theorem books_traceEvent (level : Level) {target : String} (htarget : target ≠ bridgeTarget)
    (text : String) :
    Books stop held held (traceEvent level target text) (traceEvent level target text) :=
  books_of_aside (fun machine ↦ (returns_traceEvent machine level htarget text).finishes)
    (aside_traceEvent level target text)

theorem books_settings : Books stop held held settings settings :=
  books_of_aside (fun machine ↦ (returns_settings machine).finishes) aside_settings

theorem books_rootSettings : Books stop held held rootSettings rootSettings :=
  books_of_aside (fun machine ↦ (returns_rootSettings machine).finishes) aside_rootSettings

theorem books_build (draft : Draft) : Books stop held held (build draft) (build draft) :=
  books_of_aside (fun machine ↦ (returns_build machine draft).finishes) (aside_build draft)

theorem books_raise (payload : Payload) :
    Books stop held held (raise payload : Run α) (raise payload) :=
  books_of_aside (fun machine ↦ finishes_raise machine payload) (aside_raise payload)

theorem books_absorb (payload : Payload) :
    Books stop held held (absorb payload) (absorb payload) :=
  books_of_aside (fun machine ↦ (returns_absorb machine payload).finishes) (aside_absorb payload)

theorem books_require (refusal : Refusal) (value : Option α) :
    Books stop held held (require refusal value).run (require refusal value).run := by
  cases value <;> exact .pure _

theorem books_findFailure (source : Source) :
    Books stop held held (findFailure source).run (findFailure source).run :=
  books_of_aside (fun machine ↦ finishes_findFailure machine source) (aside_findFailure source)

theorem books_findEvent (kind : EventKind) (source : Source) (line : LineRecipe) :
    Books stop held held (findEvent kind source line).run (findEvent kind source line).run :=
  books_of_aside (fun machine ↦ finishes_findEvent machine kind source line)
    (aside_findEvent kind source line)

theorem books_buildLine (recipe : LineRecipe) :
    Books stop held held (buildLine recipe).run (buildLine recipe).run :=
  books_of_aside (fun machine ↦ finishes_buildLine machine recipe) (aside_buildLine recipe)

theorem books_findLink (destination : Destination) :
    Books stop held held (findLink destination).run (findLink destination).run := by
  cases destination with
  | current => exact books_current.run_liftM
  | root => exact .run_pure _
  | override depth => exact .run_pure _
  | next => exact books_thread.run_liftM.run_bind fun _ ↦
      (books_require _ _).run_bind fun _ ↦ .run_pure _

theorem books_takeGuard (name : String) :
    Books stop held held (takeGuard? name) (takeGuard? name) := by
  refine books_thread.bind fun thread ↦ ?_
  split
  · exact .pure _
  · refine Books.bind ?_ fun _ ↦ .pure _
    exact books_modifyThread fun _ _ ↦ ⟨rfl, rfl, rfl⟩

theorem books_modifyWriter (index : ℕ) (change : ScriptedWriter → ScriptedWriter) :
    Books stop held held (modifyWriter index change) (modifyWriter index change) :=
  books_modifyThread fun _ _ ↦ ⟨rfl, rfl, rfl⟩

theorem books_offer (index : ℕ) (bytes : List UInt8) :
    Books stop held held (offer index bytes) (offer index bytes) := by
  refine books_thread.bind fun thread ↦ ?_
  split
  · exact (books_modifyWriter _ _).bind fun _ ↦ .pure _
  · exact (books_modifyWriter _ _).bind fun _ ↦ books_raise _

theorem books_writeFully (index : ℕ) (bytes : List UInt8) : Books stop held held
    (writeFully (offer index) (flush index) bytes)
    (writeFully (offer index) (flush index) bytes) := by
  induction bytes using writeFully.induct with
  | case1 =>
    rw [writeFully_nil]
    exact books_modifyWriter _ _
  | case2 byte rest ih =>
    rw [writeFully_cons]
    refine (books_offer index _).bind fun answer ↦ ?_
    split
    · exact .pure _
    · exact .pure _
    · exact ih _

/-! ### Catching and handling -/

namespace Books

variable {part other : Run α}

theorem catching (h : Books stop held left part other) :
    Books stop held left (Run.catching part) (Run.catching other) := by
  refine h.intercept.bind fun outcome ↦ ?_
  cases outcome with
  | ok value => exact .pure _
  | error payload => exact (books_absorb payload).bind fun _ ↦ .pure _

theorem withHandling (handling : Option Handling) (h : Books stop held held part other) :
    Books stop held held (Run.withHandling handling part) (Run.withHandling handling other) := by
  refine books_thread.bind fun thread ↦ Books.bind ?_ fun _ ↦ h.andFinally ?_
  · exact books_modifyThread fun _ _ ↦ ⟨rfl, rfl, rfl⟩
  · exact books_modifyThread fun _ _ ↦ ⟨rfl, rfl, rfl⟩

/-- An operation that answers, where its answer is recorded. -/
theorem attempt {op : Op} {action actionOther : Attempt Answer}
    (h : Books stop held held action.run actionOther.run) :
    Books stop held held (Run.attempt op action) (Run.attempt op actionOther) := by
  refine h.bind fun outcome ↦ ?_
  cases outcome with
  | ok answer => exact books_record _
  | error refusal => exact books_record _

end Books

/-! ### Letting go -/

section Tasks

variable {exec other : Exec} (hexec : ∀ task, Books stop held held (exec task) (other task))
include hexec

theorem books_runList (ops : List Op) :
    Books stop held held (runList exec ops) (runList other ops) := by
  refine Books.bind (books_modifyThread fun _ _ ↦ ⟨rfl, rfl, rfl⟩) fun _ ↦ ?_
  exact (Books.forM fun _ ↦ hexec (.perform _)).andFinally (hexec .closeFrame)

theorem books_runCleanup (place : Place) (cleanup : Cleanup) :
    Books stop held held (runCleanup exec place cleanup) (runCleanup other place cleanup) := by
  have hlist := (books_runList hexec cleanup.ops).withHandling none
  unfold runCleanup
  dsimp only
  split
  · refine hlist.catching.bind fun outcome ↦ ?_
    cases outcome with
    | ok value => exact .pure _
    | error failure => exact books_record _
  · exact hlist

theorem books_destroy (override : Override) :
    Books stop held held (destroy exec override) (destroy other override) := by
  unfold destroy
  split
  · refine books_height.bind fun height ↦ (books_record _).bind fun _ ↦ ?_
    exact books_runCleanup hexec .destructor _
  · exact .pure _

/-- Letting go of an object takes it out of hand. If that destroys it, its destructor runs when it
is out of hand already. -/
theorem books_relinquish (object : ObjectId) : Books stop (object :: held) held
    (relinquish exec object) (relinquish other object) := by
  intro machine hmachine
  obtain ⟨override, after, -, hdisown, hafter, hages⟩ := hmachine.disown
  refine Books.behind hdisown hages ?_
  by_cases hlast : machine.owners object = 1
  · rw [if_pos hlast]
    exact books_destroy hexec override after hafter
  · rw [if_neg hlast]
    exact Books.pure () after hafter

/-! ### Installing -/

/-- Installing puts an object in hand on the stack. Where the storage of the thread is gone, the
object is let go. -/
theorem books_install (object : ObjectId) : Books stop (object :: held) held
    (install exec object) (install other object) := by
  intro machine hmachine
  have hread : thread machine = .ok machine.thread machine := rfl
  refine Books.behind hread (.refl machine) ?_
  by_cases htorn : machine.thread.tornDown = true
  · rw [if_pos htorn, if_pos htorn]
    have hsame : machine.SameBooks { machine with thread := { machine.thread with
        stack := machine.thread.stack.skipGeneration } } := ⟨rfl, rfl, rfl⟩
    refine Books.behind rfl hsame.ages ?_
    exact (books_relinquish hexec object).bind (fun _ ↦ books_raise _) _ (hsame.accounts hmachine)
  · rw [if_neg htorn, if_neg htorn]
    obtain ⟨hafter, hages⟩ := hmachine.install rfl
    refine Books.behind rfl hages ?_
    have htrace (guard : Guard) (text : String) : Books stop held held
        (do traceEvent .trace stackTarget text; return guard)
        (do traceEvent .trace stackTarget text; return guard) :=
      (books_traceEvent .trace (by decide) text).bind fun _ ↦ .pure _
    exact htrace _ _ _ hafter

theorem books_pushObject (object : ObjectId) (name : String) (keep : Bool) :
    Books stop (object :: held) held (pushObject exec object name keep)
      (pushObject other object name keep) := by
  refine (books_install hexec object).bind fun guard ↦ Books.bind ?_ fun _ ↦ .pure _
  exact books_modifyThread fun _ _ ↦ ⟨rfl, rfl, rfl⟩

/-- An object that was shared is let go once it is in hand. -/
theorem books_forM_relinquish (before : Option ObjectId) (answer : Answer) :
    Books stop (before.toList ++ held) held
      (do before.forM (relinquish exec); return answer : Run Answer)
      (do before.forM (relinquish other); return answer : Run Answer) := by
  cases before with
  | none => exact .pure answer
  | some object => exact (books_relinquish hexec object).bind fun _ ↦ .pure _

theorem books_share (object : ObjectId) (name : String) :
    Books stop (object :: held) held (share exec object name) (share other object name) := by
  intro machine hmachine
  obtain ⟨hafter, hages⟩ := hmachine.share name rfl
  exact (books_forM_relinquish hexec _ _ _ hafter).of_ages hages

theorem books_unshare (name : String) :
    Books stop held held (unshare exec name) (unshare other name) := by
  intro machine hmachine
  obtain ⟨hafter, hages⟩ := hmachine.unshare name rfl
  exact (books_forM_relinquish hexec _ _ _ hafter).of_ages hages

/-! ### Scopes and policies -/

theorem books_runScope (body : List Op) (deferred : Option Cleanup) :
    Books stop held held (runScope exec body deferred) (runScope other body deferred) := by
  refine Books.bind (books_modifyThread fun _ _ ↦ ⟨rfl, rfl, rfl⟩) fun _ ↦ ?_
  refine (Books.forM fun _ ↦ hexec (.perform _)).andFinally
    (Books.andFinally ?_ (hexec .closeFrame))
  cases deferred with
  | none => exact .pure _
  | some cleanup =>
    refine books_isUnwinding.bind fun unwinding ↦ (books_record _).bind fun _ ↦ ?_
    exact books_runCleanup hexec .deferred cleanup

theorem books_runWithin (object : ObjectId) (body : List Op) :
    Books stop (object :: held) held (runWithin exec object body)
      (runWithin other object body) := by
  refine (books_install hexec object).bind fun guard ↦ Books.bind ?_ fun inside ↦ ?_
  · have hinside := (books_runList hexec body).bind fun _ ↦ books_height
    exact hinside.andFinally (hexec (.release guard))
  · exact books_height.bind fun _ ↦ .pure _

theorem books_deliver_current (event : Event) {answer : Answer} : Books stop held held
    (do exec (.deliver event (← current)); return answer : Run Answer)
    (do other (.deliver event (← current)); return answer : Run Answer) :=
  books_current.bind fun link ↦ (hexec (.deliver event link)).bind fun _ ↦ .pure _

theorem books_logFailure (failure : Failure) :
    Books stop held held (logFailure exec failure) (logFailure other failure) :=
  books_current.bind fun link ↦ hexec (.deliver _ link)

/-- A policy keeps the books, if what writes its lines does. -/
theorem books_conclude (settings : Settings) {write : Line → Run Unit}
    (hwrite : ∀ sent, Books stop held held (write sent) (write sent)) (event : Event) :
    Books stop held held (conclude exec settings write event)
      (conclude other settings write event) := by
  cases event with
  | line sent => exact hwrite sent
  | failure severity reported =>
    refine books_isUnwinding.bind fun unwinding ↦ ?_
    split
    · exact (books_traceEvent .debug (by decide) _).bind fun _ ↦ books_raise _
    · exact books_logFailure hexec reported
    · exact (books_traceEvent .warn (by decide) _).bind fun _ ↦ books_logFailure hexec reported

theorem books_concludeBy (index : ℕ) (event : Event) :
    Books stop held held (concludeBy exec index event) (concludeBy other index event) := by
  refine books_thread.bind fun thread ↦ ?_
  split
  · exact .pure _
  · refine books_conclude hexec _ (fun sent ↦ ?_) event
    split
    · exact books_writeDiagnostics _
    · exact books_writeFully index _

theorem books_concludeAtRoot (event : Event) :
    Books stop held held (concludeAtRoot exec event) (concludeAtRoot other event) :=
  books_rootSettings.bind fun _ ↦ books_conclude hexec _ (fun _ ↦ books_writeDiagnostics _) event

theorem books_handleBy (override : Override) (event : Event) (next : Link) :
    Books stop held held (handleBy exec override event next)
      (handleBy other override event next) := by
  cases override with
  | transparent => exact hexec (.deliver event next)
  | context remark => exact hexec (.deliver _ next)
  | bridge level =>
    cases event with
    | line sent => exact books_settings.bind fun _ ↦ books_record _
    | failure severity reported => exact hexec (.deliver _ next)
  | policy index => exact books_concludeBy hexec index event
  | script script =>
    refine (books_record _).bind fun _ ↦ ?_
    split
    · exact hexec (.deliver event next)
    · exact (books_runList hexec _).withHandling _

/-! ### Operations -/

omit hexec in
/-- Describing an override takes an object in hand, unless it is refused. -/
theorem obtain_eq {machine : Machine} (hmachine : machine.Accounts held) (recipe : Recipe) :
    (∃ object after, (obtain recipe).run machine = .ok (.ok object) after ∧
      after.Accounts (object :: held) ∧ machine.Ages after) ∨
    ∃ refusal, (obtain recipe).run machine = .ok (.error refusal) machine := by
  have hmade (override : Override) : ∃ object after,
      (liftM (newObject override) : Attempt ObjectId).run machine = .ok (.ok object) after ∧
        after.Accounts (object :: held) ∧ machine.Ages after :=
    ⟨_, _, rfl, hmachine.newObject rfl⟩
  cases recipe with
  | transparent => exact .inl (hmade _)
  | script script => exact .inl (hmade _)
  | context remark => exact .inl (hmade _)
  | bridge level => exact .inl (hmade _)
  | policy name =>
    rw [Discipline.run_obtain_policy]
    cases machine.thread.policyNames.find? name with
    | none => exact .inr ⟨_, rfl⟩
    | some index => exact .inl (hmade (.policy index))
  | shared name =>
    rw [Discipline.run_obtain_shared]
    cases hfind : machine.thread.shared.find? name with
    | none => exact .inr ⟨_, rfl⟩
    | some object =>
      have hnamed : object ∈ machine.named := Table.mem_values_of_find? hfind
      obtain ⟨override, after, hacquire, -, hafter, hages⟩ :=
        hmachine.acquire (hmachine.alive (.inr (.inl hnamed)))
      refine .inl ⟨object, after, ?_, hafter, hages⟩
      have hrequired : (require .noSuchShared (some object) : Attempt ObjectId).run machine =
          .ok (.ok object) machine := rfl
      rw [run_bind_of_ok hrequired, run_bind_of_ok (run_liftM_of_ok hacquire)]
      rfl

omit hexec in
/-- An operation goes on with an object in hand unless it is refused. -/
theorem books_obtain_bind (recipe : Recipe) {next nextOther : ObjectId → Run Answer}
    (hnext : ∀ object, Books stop (object :: held) held (next object) (nextOther object)) :
    Books stop held held (do next (← obtain recipe) : Attempt Answer).run
      (do nextOther (← obtain recipe) : Attempt Answer).run := by
  intro machine hmachine
  rw [ExceptT.run_bind, ExceptT.run_bind]
  rcases obtain_eq hmachine recipe with ⟨object, after, hend, hafter, hages⟩ | ⟨refusal, hend⟩
  · exact Books.behind hend hages ((hnext object).run_liftM after hafter)
  · exact Books.behind hend (.refl machine) (Books.pure _ machine hmachine)

theorem books_execute (statement : Statement) (slot : String) (keep : Bool) :
    Books stop held held (execute exec statement slot keep)
      (execute other statement slot keep) := by
  refine books_process.bind fun process ↦ ?_
  cases statement with
  | expect nature holds condition message =>
    dsimp only
    split
    · exact (books_build _).bind fun _ ↦ books_deliver_current hexec _
    · exact .pure _
  | fatal nature durability description =>
    exact (books_build _).bind fun _ ↦ books_deliver_current hexec _
  | line text => exact books_deliver_current hexec _
  | context description =>
    intro machine hmachine
    obtain ⟨hafter, hages⟩ := hmachine.newObject rfl
    exact Books.behind rfl hages (books_pushObject hexec _ slot keep _ hafter)
  | failure nature durability description =>
    exact (books_build _).bind fun _ ↦ (books_store _ _).bind fun _ ↦ .pure _

theorem books_closeFrame :
    Books stop held held (Run.closeFrame exec) (Run.closeFrame other) := by
  refine books_thread.bind fun thread ↦ ?_
  split
  · exact .pure _
  · exact books_modifyThread fun _ _ ↦ ⟨rfl, rfl, rfl⟩
  · refine Books.bind (books_modifyThread fun _ _ ↦ ⟨rfl, rfl, rfl⟩) fun _ ↦ ?_
    exact (hexec (.release _)).andFinally (hexec .closeFrame)

theorem books_installLate (plan : ThreadPlan) :
    Books stop held held (installLate exec plan) (installLate other plan) := by
  intro machine hmachine
  unfold installLate
  by_cases hlate : plan.lateGuard = true
  · rw [if_pos hlate, if_pos hlate]
    obtain ⟨hafter, hages⟩ := hmachine.newObject rfl
    refine Books.behind rfl hages ?_
    exact ((books_install hexec _).bind fun _ ↦ .pure _) _ hafter
  · rw [if_neg hlate, if_neg hlate]
    exact Books.pure none machine hmachine

/-- An operation has in hand behind it what it had before, unless it starts a thread. -/
theorem books_perform {op : Op} (hthread : op.startsThread = false) :
    Books stop held held (perform exec op) (perform other op) := by
  by_cases hlocal : op.Local
  · rw [perform_of_local hlocal other exec]
    exact books_of_aside (fun machine ↦ finishes_perform_of_local machine hlocal exec)
      (aside_perform_of_local hlocal exec)
  cases op with
  | report severity source destination =>
    refine .attempt ((books_findFailure source).run_bind fun failure ↦ ?_)
    refine (books_findLink destination).run_bind fun link ↦ ?_
    exact (hexec (.deliver _ link)).run_liftM.run_bind fun _ ↦ .run_pure _
  | log line destination =>
    refine .attempt ((books_buildLine line).run_bind fun sent ↦ ?_)
    refine (books_findLink destination).run_bind fun link ↦ ?_
    exact (hexec (.deliver _ link)).run_liftM.run_bind fun _ ↦ .run_pure _
  | delegate source line =>
    refine .attempt (books_thread.run_liftM.run_bind fun thread ↦ ?_)
    refine (books_require _ _).run_bind fun handling ↦ ?_
    refine (books_findEvent _ source line).run_bind fun event ↦ ?_
    exact (hexec (.deliver event _)).run_liftM.run_bind fun _ ↦ .run_pure _
  | state statement slot keep =>
    exact .attempt (books_execute hexec statement slot keep).run_liftM
  | push recipe guard keep =>
    exact .attempt (books_obtain_bind recipe fun object ↦ books_pushObject hexec object guard keep)
  | pushContext remark guard keep =>
    have hpush := books_obtain_bind (.context remark) fun object ↦
      books_pushObject hexec object guard keep
    exact .attempt hpush
  | release name =>
    refine .attempt ((books_takeGuard name).run_liftM.run_bind fun taken ↦ ?_)
    refine (books_require _ _).run_bind fun guard ↦ ?_
    refine (hexec (.release guard)).run_liftM.run_bind fun _ ↦ ?_
    exact books_height.run_liftM.run_bind fun _ ↦ .run_pure _
  | forget name =>
    refine .attempt ((books_takeGuard name).run_liftM.run_bind fun taken ↦ ?_)
    refine (books_require _ _).run_bind fun guard ↦ ?_
    exact books_height.run_liftM.run_bind fun _ ↦ .run_pure _
  | share recipe name =>
    exact .attempt (books_obtain_bind recipe fun object ↦ books_share hexec object name)
  | unshare name => exact .attempt (books_unshare hexec name).run_liftM
  | scope body deferred =>
    refine .attempt ((books_runScope hexec body deferred).run_liftM.run_bind fun _ ↦ ?_)
    exact .run_pure _
  | guarded body deferred slot =>
    refine .attempt ((books_runScope hexec body deferred).catching.run_liftM.run_bind ?_)
    intro outcome
    cases outcome with
    | ok value => exact .run_pure _
    | error failure => exact (books_store slot failure).run_liftM.run_bind fun _ ↦ .run_pure _
  | within recipe body =>
    exact .attempt (books_obtain_bind recipe fun object ↦ books_runWithin hexec object body)
  | thread plan ops slot => cases hthread
  | handle policy kind source line =>
    refine .attempt ((books_thread.run_liftM.run_bind fun _ ↦ books_require _ _).run_bind ?_)
    intro index
    refine (books_findEvent kind source line).run_bind fun event ↦ ?_
    exact (books_concludeBy hexec index event).run_liftM.run_bind fun _ ↦ .run_pure _
  | _ => exact absurd trivial hlocal

end Tasks

/-! ### Releases and dispatches -/

section Nested

variable {exec other : Exec}
  (hexec : ∀ {held} task, Books stop held held (exec task) (other task))
include hexec

/-- Objects are let go one after another, while the others are still in hand. -/
theorem books_relinquishAll (objects : List ObjectId) : Books stop (objects ++ held) held
    (relinquishAll exec objects) (relinquishAll other objects) := by
  induction objects with
  | nil => exact .pure ()
  | cons object rest ih => exact (books_relinquish hexec object).andFinally ih

theorem books_release (guard : Guard) :
    Books stop held held (Run.release exec guard) (Run.release other guard) := by
  intro machine hmachine
  by_cases hremoves : machine.thread.tornDown = false ∧ machine.thread.stack.owns guard = true
  · obtain ⟨halive, howns⟩ := hremoves
    obtain ⟨released, hreleased, hrelease⟩ := release_eq_settle halive howns
    obtain ⟨hcut, hages⟩ := hmachine.collects (.release halive howns)
    rw [hrelease, hrelease]
    refine Tallies.of_ages ?_ hages
    rcases hreleased with rfl | rfl
    · refine ((books_relinquishAll hexec _).bind fun _ ↦ ?_) _ hcut
      exact books_traceEvent .trace (by decide) _
    · refine ((books_relinquishAll hexec _).bind fun _ ↦ ?_) _ hcut
      refine books_isUnwinding.bind fun unwinding ↦ ?_
      split
      · exact books_raise _
      · exact .pure ()
  · have hstale : machine.thread.tornDown = true ∨ machine.thread.stack.owns guard = false := by
      simpa [or_iff_not_imp_left] using hremoves
    obtain ⟨report, haside, hfinish, hrelease⟩ := release_eq_report hstale
    rw [hrelease, hrelease]
    exact books_of_aside hfinish haside machine hmachine

/-- While a handler runs, its object is in hand. -/
theorem books_deliver (event : Event) (link : Link) :
    Books stop held held (Run.deliver exec event link) (Run.deliver other event link) := by
  intro machine hmachine
  change machine.Tallies stop held (handOver exec event (machine.thread.stack.resolve link) machine)
    (handOver other event (machine.thread.stack.resolve link) machine)
  rcases hfound : machine.thread.stack.resolve link with _ | ⟨object, next⟩
  · exact books_concludeAtRoot hexec event machine hmachine
  · obtain ⟨override, after, hacquire, -, hafter, hages⟩ :=
      hmachine.acquire (hmachine.alive (.inl (mem_placed_of_resolve hfound)))
    refine Books.behind hacquire hages ?_
    have hhandler : Books stop (object :: held) (object :: held)
        (handleBy exec override event next) (handleBy other override event next) :=
      books_handleBy hexec override event next
    exact hhandler.andFinally (books_relinquish hexec object) after hafter

/-- A task that starts no thread keeps the books if the tasks nested in it do. -/
theorem books_step {task : Task} (hthread : task.startsThread = false) : Books stop held held
    (Interpreter.step exec task) (Interpreter.step other task) := by
  cases task with
  | perform op => exact books_perform hexec hthread
  | deliver event link => exact books_deliver hexec event link
  | closeFrame => exact books_closeFrame hexec
  | release guard => exact books_release hexec guard

end Nested

/-! ### Threads that are waited for -/

theorem books_perform_thread {exec : Exec} (hexec : Unstopped exec) (plan : ThreadPlan)
    (ops : List Op) (slot : String) : Books stop held held
      (perform exec (.thread plan ops slot)) (perform exec (.thread plan ops slot)) := by
  have hrun : Books stop held held (runThread exec plan ops) (runThread exec plan ops) := by
    refine .of_balances fun machine hmachine ↦ ?_
    have hpermits : Contract.resuming.Permits False machine (runThread exec plan ops machine) :=
      Discipline.keeps_runThread hexec plan ops machine trivial
    rcases hend : runThread exec plan ops machine with ⟨value, after⟩ | ⟨payload | _ | _ | _, after⟩
    all_goals rw [hend] at hpermits
    · have hsame : machine.SameBooks after := .of_thread_eq hpermits
      exact ⟨hsame.accounts hmachine, hsame.ages⟩
    · have hsame : machine.SameBooks after := .of_thread_eq hpermits
      exact ⟨hsame.accounts hmachine, hsame.ages⟩
    · trivial
    · trivial
    · exact hpermits.elim
  refine .attempt (hrun.run_liftM.run_bind fun outcome ↦ ?_)
  cases outcome with
  | none => exact .run_pure _
  | some payload =>
    refine (books_absorb payload).run_liftM.run_bind fun failure ↦ ?_
    exact (books_store slot failure).run_liftM.run_bind fun _ ↦ .run_pure _

end Run

/-! ### Every depth of nesting -/

namespace Interpreter

open Run

variable {stop : Machine → Prop} {held : List ObjectId}

/-- Every task keeps the books at every depth of nesting, and goes on from where more watches stop
it. Assumes: a fact holds where the fewer watches stop it. -/
theorem books_runUntil (first : Task → Machine → Bool) {second : Task → Machine → Bool}
    (hsecond : ∀ task machine, second task machine = true → stop machine) (depth : ℕ)
    (task : Task) : Books stop held held
      (runUntil (fun task machine ↦ first task machine || second task machine) depth task)
      (runUntil second depth task) := by
  induction depth generalizing held task with
  | zero => exact fun machine _ ↦ .inl ⟨rfl, trivial⟩
  | succ depth ih =>
    intro machine hmachine
    have hstep : machine.Tallies stop held
        (step (if task.startsThread then run depth else runUntil (fun task machine ↦
          first task machine || second task machine) depth) task machine)
        (step (if task.startsThread then run depth else runUntil second depth) task machine) := by
      by_cases hthread : task.startsThread = true
      · rw [if_pos hthread, if_pos hthread]
        obtain ⟨plan, ops, slot, rfl⟩ := Task.eq_perform_of_startsThread hthread
        exact books_perform_thread (unstopped_run depth) plan ops slot machine hmachine
      · rw [if_neg hthread, if_neg hthread]
        exact books_step ih (by simpa using hthread) machine hmachine
    rw [runUntil_succ, runUntil_succ]
    by_cases hpicked : second task machine = true
    · rw [hpicked, Bool.or_true, if_pos rfl, if_pos rfl]
      exact .inl ⟨rfl, hsecond task machine hpicked, .refl machine⟩
    · rw [Bool.not_eq_true] at hpicked
      rw [hpicked, Bool.or_false, if_neg Bool.false_ne_true]
      by_cases hmore : first task machine = true
      · rw [if_pos hmore]
        exact .inr ⟨machine, rfl, .refl machine, hstep.balances⟩
      · rw [if_neg hmore]
        exact hstep

/-- Every task keeps the books at every depth of nesting. -/
theorem books_run (depth : ℕ) (task : Task) :
    Books stop held held (run depth task) (run depth task) := by
  have hbooks : Books stop held held (runUntil (fun _ _ ↦ false) depth task)
      (runUntil (fun _ _ ↦ false) depth task) :=
    books_runUntil (fun _ _ ↦ false) (fun _ _ h ↦ absurd h Bool.false_ne_true) depth task
  rwa [runUntil_never] at hbooks

end Interpreter

end Escalation
