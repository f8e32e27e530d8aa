import Escalation.Session
import Escalation.Proofs.Aside

/-!
# How often an event is delivered

A handler may send its event on, and whoever receives it then may do the same. Among all deliveries
of a run these are told apart by who asks for them: the override itself, or the operation of its
list that sends the event on (`Interpreter.relaying`). `Interpreter.relay` follows an event on this
way and does something else in place of its delivery to some link. With the delivery itself in that
place it is the run as it is (`Interpreter.relay_delivering`).

A part of a run makes a delivery exactly once if all that comes of the part is determined by what is
done in place of that delivery on one machine, whatever that may be, and is cut short where that is
(`Delivery.OnceIn`).
-/

set_option autoImplicit false
set_option relaxedAutoImplicit false

namespace Escalation

/-! ### Following an event -/

/-- Sends on the event that is being handled. -/
def Op.delegates : Op → Bool
  | .delegate .. => true
  | _ => false

/-- A way to deliver events to links, with some levels of nesting left. -/
abbrev Sending := ℕ → Event → Link → Run Unit

namespace Interpreter

open Run (bind_of_ok)

/-- Delivers events as they are delivered in a run. -/
def delivering : Sending := fun levels event link ↦ run levels (.deliver event link)

/-- The interpreter, with something else in place of deliveries. -/
def handingOn (exec : Exec) (send : Event → Link → Run Unit) : Exec
  | .deliver event link => send event link
  | task => exec task

/-- The interpreter for a handler whose event is sent on in some other way: with `send` where the
override itself does so, with `handOn` where an operation of its list does. -/
def relaying (send handOn : Event → Link → Run Unit) : (levels : ℕ) → Exec
  | _, .deliver event link => send event link
  | levels + 1, .perform (.delegate source line) =>
    Run.perform (handingOn (run levels) handOn) (.delegate source line)
  | levels, task => run levels task

/-- Delivers an event to a link, from where it is sent on in some other way. -/
def passing (send handOn : Event → Link → Run Unit) (levels : ℕ) (event : Event) (link : Link) :
    Run Unit := do
  match (← Run.thread).stack.resolve link with
  | none => Run.concludeAtRoot (run levels) event
  | some (object, next) =>
    match ← Run.acquire object with
    | none => return
    | some override =>
      Run.andFinally (Run.handleBy (relaying send handOn levels) override event next)
        (Run.relinquish (run levels) object)

/-- Delivers an event to a link and follows it from there. Where it, or what its receivers send on,
is about to be delivered to the link `target`, it is sent with `land` instead. -/
def relay (target : Link) (land : Sending) : Sending
  | 0, event, link => if link = target then land 0 event link else throw .exhausted
  | 1, event, link =>
    if link = target then land 1 event link
    else passing (relay target land 0) (relay target land 0) 0 event link
  | levels + 2, event, link =>
    if link = target then land (levels + 2) event link
    else passing (relay target land (levels + 1)) (relay target land levels) (levels + 1) event link

variable {target link : Link} {land : Sending} {levels : ℕ} {event : Event}

theorem relay_of_eq (target : Link) (land : Sending) (levels : ℕ) (event : Event) :
    relay target land levels event target = land levels event target := by
  match levels with
  | 0 | 1 | levels + 2 => exact if_pos rfl

theorem relay_of_ne (h : link ≠ target) : relay target land (levels + 1) event link =
    passing (relay target land levels) (relay target land (levels - 1)) levels event link := by
  match levels with
  | 0 | levels + 1 => exact if_neg h

theorem handingOn_delivering (levels : ℕ) :
    handingOn (run levels) (delivering levels) = run levels := by
  funext task
  cases task <;> rfl

/-- A handler whose event is sent on as always is run as always. -/
theorem relaying_delivering (levels : ℕ) :
    relaying (delivering levels) (delivering (levels - 1)) levels = run levels := by
  funext task
  unfold relaying
  split
  · rfl
  · rename_i levels source line
    rw [Nat.succ_sub_one, handingOn_delivering]
    rfl
  · rfl

/-- All but the operation that sends an event on is performed as always. -/
theorem relaying_perform {send handOn : Event → Link → Run Unit} {op : Op}
    (h : op.delegates = false) (levels : ℕ) :
    relaying send handOn levels (.perform op) = run levels (.perform op) := by
  cases op with
  | delegate source line => cases h
  | _ => rfl

/-- An event that is sent on as always is delivered as always. -/
theorem passing_delivering (levels : ℕ) (event : Event) (link : Link) :
    passing (delivering levels) (delivering (levels - 1)) levels event link =
      delivering (levels + 1) event link := by
  funext machine
  unfold passing
  rw [relaying_delivering]
  change _ = Run.handOver (run levels) event (machine.thread.stack.resolve link) machine
  have hread : Run.thread machine = .ok machine.thread machine := rfl
  rw [bind_of_ok hread]
  cases machine.thread.stack.resolve link <;> rfl

/-- An event that is followed, with nothing else in place of deliveries, is delivered as always. -/
theorem relay_delivering (target : Link) (levels : ℕ) (event : Event) (link : Link) :
    relay target delivering levels event link = delivering levels event link := by
  have hdeliver (levels : ℕ) : relay target delivering levels = delivering levels := by
    induction levels using Nat.strong_induction_on with
    | _ levels ih =>
      funext event link
      by_cases h : link = target
      · rw [h, relay_of_eq]
      cases levels with
      | zero => exact if_neg h
      | succ levels =>
        rw [relay_of_ne h, ih levels (Nat.lt_succ_self _), ih (levels - 1) (by omega),
          passing_delivering]
  rw [hdeliver]

end Interpreter

/-! ### One delivery -/

/-- An event that is about to be delivered, with the levels of nesting that are left for it. -/
structure Delivery where
  /-- The levels of nesting that the tasks of the delivery may use. -/
  levels : ℕ
  /-- The event. -/
  event : Event
  /-- Where it is delivered to. -/
  link : Link
  /-- The machine at the moment. -/
  machine : Machine

namespace Delivery

/-- The part of a run that performs a delivery. -/
def part (delivery : Delivery) (exec : Exec) : Run Unit :=
  Run.deliver exec delivery.event delivery.link

/-- What comes of a delivery that is made in some way. -/
def sent (delivery : Delivery) (send : Sending) : EStateM.Result Interrupt Machine Unit :=
  send (delivery.levels + 1) delivery.event delivery.link delivery.machine

/-- A part of a run, in which events can be sent in some way, makes a delivery exactly once and
nothing else in that way: what comes of the part is determined by what comes of the delivery. -/
def OnceIn {α : Type} (delivery : Delivery) (part : Sending → Run α) (machine : Machine) : Prop :=
  ∃ rest : EStateM.Result Interrupt Machine Unit → EStateM.Result Interrupt Machine α,
    (∀ moment, rest (.error .stopped moment) = .error .stopped moment) ∧
      ∀ send, part send machine = rest (delivery.sent send)

namespace OnceIn

open Run

variable {α β : Type} {delivery next : Delivery} {machine after : Machine} {part : Sending → Run α}

/-- The delivery itself. -/
theorem itself (delivery : Delivery) :
    delivery.OnceIn (fun send ↦ send (delivery.levels + 1) delivery.event delivery.link)
      delivery.machine :=
  ⟨id, fun _ ↦ rfl, fun _ ↦ rfl⟩

/-- It is made just as well in a part that comes to the same. -/
theorem of_eq {other : Sending → Run α} (h : delivery.OnceIn part after)
    (heq : ∀ send, other send machine = part send after) : delivery.OnceIn other machine := by
  obtain ⟨rest, hstopped, hpart⟩ := h
  exact ⟨rest, hstopped, fun send ↦ (heq send).trans (hpart send)⟩

/-- What follows does not send anything. -/
theorem bind (h : delivery.OnceIn part machine) (next : α → Run β) :
    delivery.OnceIn (fun send ↦ part send >>= next) machine := by
  obtain ⟨rest, hstopped, hpart⟩ := h
  refine ⟨fun outcome ↦ ((fun _ ↦ rest outcome) >>= next : Run β) machine, fun moment ↦ ?_,
    fun send ↦ ?_⟩
  · exact bind_of_error (hstopped moment)
  · change EStateM.bind (part send) next machine = EStateM.bind _ next machine
    unfold EStateM.bind
    rw [hpart]

/-- What comes before does not send anything, and returns. -/
theorem behind {first : Run β} {value : β} {part : β → Sending → Run α}
    (hfirst : first machine = .ok value after) (h : delivery.OnceIn (part value) after) :
    delivery.OnceIn (fun send ↦ first >>= fun value ↦ part value send) machine := by
  obtain ⟨rest, hstopped, hpart⟩ := h
  exact ⟨rest, hstopped, fun send ↦ (bind_of_ok hfirst).trans (hpart send)⟩

/-- The cleanup does not send anything. -/
theorem andFinally (h : delivery.OnceIn part machine) (cleanup : Run Unit) :
    delivery.OnceIn (fun send ↦ andFinally (part send) cleanup) machine := by
  obtain ⟨rest, hstopped, hpart⟩ := h
  refine ⟨fun outcome ↦ Run.andFinally (fun _ ↦ rest outcome) cleanup machine, fun moment ↦ ?_,
    fun send ↦ ?_⟩
  · exact andFinally_of_break (fun _ ↦ nofun) (hstopped moment)
  · change Run.andFinally (part send) cleanup machine =
      Run.andFinally (fun _ ↦ rest (delivery.sent send)) cleanup machine
    unfold Run.andFinally
    rw [hpart]

/-- A part that makes a delivery once, which makes another one once. -/
theorem trans {inner : Sending → Sending} (h : delivery.OnceIn part machine)
    (hnext : next.OnceIn (fun send ↦ inner send (delivery.levels + 1) delivery.event delivery.link)
      delivery.machine) : next.OnceIn (fun send ↦ part (inner send)) machine := by
  obtain ⟨rest, hstopped, hpart⟩ := h
  obtain ⟨left, hleft, hinner⟩ := hnext
  refine ⟨fun outcome ↦ rest (left outcome), fun moment ↦ ?_, fun send ↦ ?_⟩
  · exact (congrArg rest (hleft moment)).trans (hstopped moment)
  · exact (hpart (inner send)).trans (congrArg rest (hinner send))

end OnceIn

end Delivery

end Escalation
