import Escalation.Proofs.Chain
import Escalation.Proofs.Floor
import Escalation.Proofs.Forwarding

/-!
# Who receives an event that is sent on

A handler may do a lot before it sends its event on to the link below: install and release
overrides, its own included, and send other events, even to itself (`Override.SendsOn`). The link
is looked up only then, on whatever stack the thread has by that time. As long as nothing below the
handler's own depth was released, what the link leads to stands there since before the handler was
called (`Override.SendsOn.take_entries_eq`).

So an event that each of its receivers sends on goes to what stood at each depth when it was
dispatched, from the top down, and then to the policy of the process (`relay_reaches_all`). The
deliveries are counted in the run itself: each handler sends its event on exactly once
(`Override.SendsOn.onceIn`), so whoever follows the event meets each of them exactly once
(`Delivery.Descends.onceIn`) and none off its way (`Delivery.Descends.relay_eq`).
-/

set_option autoImplicit false
set_option relaxedAutoImplicit false

namespace Escalation

/-! ### Deliveries -/

/-- The list inside an operation that runs in the same handler. -/
def Op.body : Op → List Op
  | .scope body _ | .guarded body _ _ | .within _ body => body
  | _ => []

/-- An operation that does not send on the event that is being handled, and whose lists do not. -/
inductive Op.Withholds : Op → Prop
  | intro {op : Op} : op.delegates = false → (∀ inner ∈ op.body, Withholds inner) → Withholds op

/-- The machine at the beginning of the list of a handler. -/
def Machine.handling (machine : Machine) (event : Event) (next : Link) : Machine :=
  { machine with thread := { machine.thread with
    handling := some { event, next }, frames := [] :: machine.thread.frames } }

/-- The operations of a list, one after another. -/
def performAll (ops : List Op) (exec : Exec) : Run Unit := ops.forM fun op ↦ exec (.perform op)

/-- An override at a depth is given an event, and sends it on to the link below. -/
inductive Override.SendsOn (depth : ℕ) : Override → Delivery → Delivery → Prop
  /-- It does so at once, with its remark if it has one. -/
  | plain {override : Override} {levels : ℕ} {event : Event} {next : Link} {machine : Machine} :
    (∀ script, override ≠ .script script) → override.endFor? event.kind = none →
      SendsOn depth override ⟨levels + 1, event, next, machine⟩
        ⟨levels, event.passThrough override.remark?.toList, next, machine⟩
  /-- It has no handler for the event. -/
  | unhandled {script : Script} {levels : ℕ} {event : Event} {next : Link}
    {machine recorded : Machine} :
    script.handler event.kind = none →
    Run.record (.received script.name event next) machine = .ok () recorded →
      SendsOn depth (.script script) ⟨levels + 1, event, next, machine⟩
        ⟨levels, event, next, recorded⟩
  /-- Its handler does so once. What it does before returns, and releases nothing below the
  override. -/
  | delegated {script : Script} {levels : ℕ} {event changed passed : Event} {next : Link}
    {machine recorded ready sent : Machine} {before behind : List Op} {source : Source}
    {line : LineRecipe} :
    script.handler event.kind = some (before ++ .delegate source line :: behind) →
    (∀ op ∈ before ++ behind, op.Withholds) →
    Run.record (.received script.name event next) machine = .ok () recorded →
    performAll before (Interpreter.run (levels + 2)) (recorded.handling event next) =
      .ok () ready →
    Interpreter.Spares depth (performAll before) (levels + 2) (recorded.handling event next) →
    ready.thread.handling = some { event := changed, next } →
    (Run.findEvent changed.kind source line).run ready = .ok (.ok passed) sent →
      SendsOn depth (.script script) ⟨levels + 2, event, next, machine⟩
        ⟨levels, passed, next, sent⟩

/-- The override that a delivery goes to sends the event on. -/
def Delivery.PassesOn (delivery next : Delivery) : Prop :=
  ∃ depth object override acquired, delivery.link = .override depth ∧
    delivery.machine.thread.stack.resolve delivery.link = some (object, Link.below depth) ∧
    Run.acquire object delivery.machine = .ok (some override) acquired ∧
    override.SendsOn depth { delivery with link := Link.below depth, machine := acquired } next

/-! ### The way of an event -/

/-- The deliveries of an event that goes down from a height of a stack to the root. Each of them
goes to what stands at its depth, and sends the event on with the next one. -/
inductive Delivery.Descends (standing : List (Installed ObjectId)) : ℕ → List Delivery → Prop
  /-- The last delivery goes to the policy of the process. -/
  | root {last : Delivery} : last.link = .root → Descends standing 0 [last]
  /-- The receiver is the override that stands at the depth. -/
  | pass {depth : ℕ} {delivery next : Delivery} {rest : List Delivery} :
    delivery.link = .override depth →
    delivery.machine.thread.stack.entries[depth]? = standing[depth]? →
    delivery.PassesOn next → Descends standing depth (next :: rest) →
      Descends standing (depth + 1) (delivery :: next :: rest)

section SendsOn

open Run

variable {depth : ℕ} {override : Override} {given sent other : Delivery}

/-- An event is sent on to the link that was handed on with it. -/
theorem Override.SendsOn.link_eq (h : override.SendsOn depth given sent) :
    sent.link = given.link := by
  cases h <;> rfl

/-- What stands below an override stands there still when it sends an event on. -/
theorem Override.SendsOn.take_entries_eq (h : override.SendsOn depth given sent)
    (halive : given.machine.thread.tornDown = false)
    (hdepth : depth ≤ given.machine.thread.stack.height) :
    sent.machine.thread.tornDown = false ∧
      sent.machine.thread.stack.entries.toList.take depth =
        given.machine.thread.stack.entries.toList.take depth := by
  cases h with
  | plain hscript hend => exact ⟨halive, rfl⟩
  | @unhandled script levels event next machine recorded hhandler hrecord =>
    have hsame := aside_record (.received script.name event next) machine trivial
    rw [hrecord] at hsame
    have hsame : machine.SameOverrides recorded := hsame
    exact ⟨hsame.tornDown.trans halive, by rw [hsame.stack]⟩
  | @delegated script levels event changed passed next machine recorded ready sent before behind
      source line hhandler hwithholds hrecord hbefore hspares hhandling hfind =>
    have hsame := aside_record (.received script.name event next) machine trivial
    rw [hrecord] at hsame
    have hsame : machine.SameOverrides recorded := hsame
    have hfound := aside_findEvent changed.kind source line ready trivial
    rw [hfind] at hfound
    have hfound : ready.SameOverrides sent := hfound
    obtain ⟨hready, hentries⟩ := hspares.take_entries_eq
      (fun hexec ↦ Discipline.keeps_forM_perform hexec fun _ _ ↦ trivial)
      (fun hexec ↦ .forM fun _ ↦ hexec (.perform _)) (hsame.tornDown.trans halive)
      (by change depth ≤ recorded.thread.stack.height; rw [hsame.stack]; exact hdepth) hbefore
    refine ⟨hfound.tornDown.trans hready, ?_⟩
    rw [hfound.stack, hentries]
    change recorded.thread.stack.entries.toList.take depth = _
    rw [hsame.stack]

/-- Behind operations that return, a list goes on with the next one. -/
theorem performAll_append_cons {before behind : List Op} {op : Op} {exec : Exec}
    {machine after : Machine} (h : performAll before exec machine = .ok () after) :
    performAll (before ++ op :: behind) exec machine =
      (exec (.perform op) >>= fun _ ↦ performAll behind exec) after := by
  unfold performAll at h ⊢
  rw [List.forM_eq_forM] at h ⊢
  rw [List.forM_append, List.forM_cons, bind_of_ok h]

/-- Where the first operations of a list break off, the list does. -/
theorem performAll_append_of_error {before behind : List Op} {exec : Exec}
    {machine after : Machine} {interrupt : Interrupt}
    (h : performAll before exec machine = .error interrupt after) :
    performAll (before ++ behind) exec machine = .error interrupt after := by
  unfold performAll at h ⊢
  rw [List.forM_eq_forM] at h ⊢
  rw [List.forM_append, bind_of_error h]

/-- An operation that sends an event on does nothing else, and records that it returned. -/
theorem perform_delegate_eq {exec : Exec} {source : Source} {line : LineRecipe}
    {handling : Handling} {passed : Event} {ready sent : Machine}
    (hhandling : ready.thread.handling = some handling)
    (hfind : (findEvent handling.event.kind source line).run ready = .ok (.ok passed) sent) :
    perform exec (.delegate source line) ready = (exec (.deliver passed handling.next) >>= fun _ ↦
      record (.performed (Op.delegate source line).name .returned)) sent := by
  have hread : (liftM thread : Attempt Thread).run ready = .ok (.ok ready.thread) ready := rfl
  have hrequire : (require .notHandling ready.thread.handling).run ready =
      .ok (.ok handling) ready := by
    rw [hhandling]
    rfl
  unfold perform attempt
  dsimp only
  rw [ExceptT.run_bind, bind_assoc, bind_of_ok hread]
  dsimp only
  rw [ExceptT.run_bind, bind_assoc, bind_of_ok hrequire]
  dsimp only
  rw [ExceptT.run_bind, bind_assoc, bind_of_ok hfind]
  dsimp only
  rw [ExceptT.run_bind, bind_assoc]
  change ((Except.ok <$> exec (.deliver passed handling.next)) >>= _ : Run Unit) sent = _
  rw [map_eq_pure_bind, bind_assoc]
  rfl

/-- Where a watch stops what is sent on, it stops the handler. -/
theorem Override.SendsOn.stopped {watch : Task → Machine → Bool} {target : Machine}
    (h : override.SendsOn depth given sent)
    (hwatch : ∀ picked moment, watch picked moment = true → moment = target)
    (hsent : Interpreter.runUntil watch (sent.levels + 1) (.deliver sent.event sent.link)
      sent.machine = .error .stopped target) :
    handleBy (Interpreter.runUntil watch given.levels) override given.event given.link
      given.machine = .error .stopped target := by
  cases h with
  | @plain override levels event next machine hscript hend =>
    rcases override with _ | script | remark | level | index
    · exact hsent
    · exact absurd rfl (hscript script)
    · exact hsent
    · cases event with
      | line sent => simp [Override.endFor?, Event.kind] at hend
      | failure severity reported => exact hsent
    · simp [Override.endFor?] at hend
  | @unhandled script levels event next machine recorded hhandler hrecord =>
    unfold handleBy
    dsimp only at hsent ⊢
    rw [bind_of_ok hrecord, hhandler]
    exact hsent
  | @delegated script levels event changed passed next machine recorded ready sent before behind
      source line hhandler hwithholds hrecord hbefore hspares hhandling hfind =>
    unfold handleBy
    dsimp only at hsent ⊢
    rw [bind_of_ok hrecord, hhandler]
    dsimp only
    rw [withHandling_eq]
    refine andFinally_of_break (fun _ ↦ nofun) ?_
    rw [runList_eq]
    refine andFinally_of_break (fun _ ↦ nofun) ?_
    change performAll (before ++ .delegate source line :: behind) _
      (recorded.handling event next) = _
    have hagrees : Agrees (Interpreter.StoppedBy watch)
        (performAll before (Interpreter.runUntil watch (levels + 2)))
        (performAll before (Interpreter.run (levels + 2))) :=
      .forM fun op ↦ Interpreter.agrees_runUntil watch (levels + 2) (.perform op)
    rcases hagrees (recorded.handling event next)
      with hsame | ⟨_, moment, hstop, -, rfl, picked, hpicked⟩
    · rw [performAll_append_cons (hsame.trans hbefore)]
      refine bind_of_error ?_
      rw [Interpreter.runUntil_succ]
      by_cases hpicked : watch (.perform (.delegate source line)) ready = true
      · rw [if_pos hpicked, hwatch _ _ hpicked]
      · rw [if_neg hpicked]
        exact (perform_delegate_eq hhandling hfind).trans (bind_of_error hsent)
    · rw [performAll_append_of_error hstop, hwatch _ _ hpicked]

/-- A list that withholds its event is performed as always, however the event is sent on. -/
theorem performAll_relaying {ops : List Op} (h : ∀ op ∈ ops, op.Withholds)
    (send handOn : Event → Link → Run Unit) (levels : ℕ) :
    performAll ops (Interpreter.relaying send handOn levels) =
      performAll ops (Interpreter.run levels) := by
  induction ops with
  | nil => rfl
  | cons op rest ih =>
    obtain ⟨hdelegates, -⟩ := h op List.mem_cons_self
    have hrest := ih fun inner hinner ↦ h inner (List.mem_cons_of_mem _ hinner)
    unfold performAll at hrest ⊢
    rw [List.forM_eq_forM] at hrest ⊢
    rw [List.forM_cons, List.forM_cons, Interpreter.relaying_perform hdelegates, hrest]

/-- A handler sends its event on exactly once. -/
theorem Override.SendsOn.onceIn (h : override.SendsOn depth given sent) :
    sent.OnceIn (fun send ↦ handleBy
      (Interpreter.relaying (send given.levels) (send (given.levels - 1)) given.levels) override
      given.event given.link) given.machine := by
  cases h with
  | @plain override levels event next machine hscript hend =>
    have hsent := Delivery.OnceIn.itself
      ⟨levels, event.passThrough override.remark?.toList, next, machine⟩
    rcases override with _ | script | remark | level | index
    · exact hsent
    · exact absurd rfl (hscript script)
    · exact hsent
    · cases event with
      | line sent => simp [Override.endFor?, Event.kind] at hend
      | failure severity reported => exact hsent
    · simp [Override.endFor?] at hend
  | @unhandled script levels event next machine recorded hhandler hrecord =>
    unfold handleBy
    refine .behind hrecord ?_
    dsimp only
    rw [hhandler]
    exact .itself ⟨levels, event, next, recorded⟩
  | @delegated script levels event changed passed next machine recorded ready sent before behind
      source line hhandler hwithholds hrecord hbefore hspares hhandling hfind =>
    have hdelegate : Delivery.OnceIn ⟨levels, passed, next, sent⟩ (fun send ↦
        Interpreter.relaying (send (levels + 2)) (send (levels + 1)) (levels + 2)
          (.perform (.delegate source line))) ready :=
      ((Delivery.OnceIn.itself ⟨levels, passed, next, sent⟩).bind _).of_eq
        fun send ↦ perform_delegate_eq hhandling hfind
    have hlist (send : Sending) : performAll (before ++ .delegate source line :: behind)
        (Interpreter.relaying (send (levels + 2)) (send (levels + 1)) (levels + 2))
        (recorded.handling event next) =
        (Interpreter.relaying (send (levels + 2)) (send (levels + 1)) (levels + 2)
          (.perform (.delegate source line)) >>= fun _ ↦
            performAll behind (Interpreter.run (levels + 2))) ready := by
      rw [performAll_append_cons ((congrFun (performAll_relaying
        (fun op hop ↦ hwithholds op (List.mem_append_left _ hop)) _ _ _) _).trans hbefore),
        performAll_relaying fun op hop ↦ hwithholds op (List.mem_append_right _ hop)]
    unfold handleBy
    refine .behind hrecord ?_
    dsimp only
    rw [hhandler]
    have hrun := ((hdelegate.bind _).of_eq hlist).andFinally
      (Interpreter.run (levels + 2) .closeFrame)
    refine (hrun.andFinally (modifyThread fun thread ↦
      { thread with handling := recorded.thread.handling })).of_eq fun send ↦ ?_
    dsimp only
    rw [withHandling_eq]
    rfl

/-- The operation of a list that sends on what is being handled is determined if there is one
only. -/
theorem eq_of_withholds {before behind others rest : List Op} {source otherSource : Source}
    {line otherLine : LineRecipe}
    (h : before ++ .delegate source line :: behind =
      others ++ .delegate otherSource otherLine :: rest)
    (hbefore : ∀ op ∈ before, op.Withholds) (hothers : ∀ op ∈ others, op.Withholds) :
    before = others ∧ source = otherSource ∧ line = otherLine := by
  have hnever {source : Source} {line : LineRecipe} : ¬ (Op.delegate source line).Withholds :=
    fun hwithholds ↦ by cases hwithholds; contradiction
  induction before generalizing others with
  | nil =>
    cases others with
    | nil =>
      injection h with hop
      injection hop with hsource hline
      exact ⟨rfl, hsource, hline⟩
    | cons first left =>
      injection h with hop
      exact absurd (hothers first List.mem_cons_self) (hop ▸ hnever)
  | cons op before ih =>
    cases others with
    | nil =>
      injection h with hop
      exact absurd (hbefore op List.mem_cons_self) (hop ▸ hnever)
    | cons first left =>
      injection h with hop hrest
      obtain ⟨rfl, hsource, hline⟩ := ih hrest (fun op h ↦ hbefore op (List.mem_cons_of_mem _ h))
        fun op h ↦ hothers op (List.mem_cons_of_mem _ h)
      exact ⟨by rw [hop], hsource, hline⟩

/-- What an override sends on is determined. -/
theorem Override.SendsOn.unique (h : override.SendsOn depth given sent)
    (hother : override.SendsOn depth given other) : sent = other := by
  cases h with
  | plain hscript hend =>
    cases hother with
    | plain => rfl
    | unhandled => exact absurd rfl (hscript _)
    | delegated => exact absurd rfl (hscript _)
  | unhandled hhandler hrecord =>
    cases hother with
    | plain hscript => exact absurd rfl (hscript _)
    | unhandled _ hotherRecord =>
      rw [hrecord] at hotherRecord
      cases hotherRecord
      rfl
    | delegated hsome =>
      rw [hhandler] at hsome
      cases hsome
  | @delegated script levels event changed passed next machine recorded ready sent before behind
      source line hhandler hwithholds hrecord hbefore hspares hhandling hfind =>
    cases hother with
    | plain hscript => exact absurd rfl (hscript _)
    | unhandled hnone =>
      rw [hhandler] at hnone
      cases hnone
    | delegated hsame hothers hotherRecord hotherBefore _ hotherHandling hotherFind =>
      rw [hhandler] at hsame
      obtain ⟨rfl, rfl, rfl⟩ := eq_of_withholds (Option.some.inj hsame)
        (fun op h ↦ hwithholds op (List.mem_append_left _ h))
        fun op h ↦ hothers op (List.mem_append_left _ h)
      rw [hrecord] at hotherRecord
      cases hotherRecord
      rw [hbefore] at hotherBefore
      cases hotherBefore
      rw [hhandling] at hotherHandling
      cases hotherHandling
      rw [hfind] at hotherFind
      cases hotherFind
      rfl

end SendsOn

/-! ### The whole way -/

namespace Delivery

open Run

variable {delivery next other start : Delivery}

theorem PassesOn.unique (h : delivery.PassesOn next) (hother : delivery.PassesOn other) :
    next = other := by
  obtain ⟨depth, object, override, acquired, hlink, hresolve, hacquire, hsends⟩ := h
  obtain ⟨place, found, receiver, taken, hplace, hfound, htaken, hsent⟩ := hother
  rw [hlink] at hplace
  cases hplace
  rw [hresolve] at hfound
  cases hfound
  rw [hacquire] at htaken
  cases htaken
  exact hsends.unique hsent

/-- Where a watch stops what is passed on, it stops the delivery. -/
theorem PassesOn.stopped {watch : Task → Machine → Bool} {target : Machine}
    (h : delivery.PassesOn next)
    (hwatch : ∀ picked moment, watch picked moment = true → moment = target)
    (hnext : Interpreter.runUntil watch (next.levels + 1) (.deliver next.event next.link)
      next.machine = .error .stopped target) :
    delivery.part (Interpreter.runUntil watch delivery.levels) delivery.machine =
      .error .stopped target := by
  obtain ⟨depth, object, override, acquired, hlink, hresolve, hacquire, hsends⟩ := h
  change handOver _ _ (delivery.machine.thread.stack.resolve delivery.link) delivery.machine = _
  rw [hresolve]
  unfold handOver
  dsimp only
  rw [bind_of_ok hacquire]
  exact andFinally_of_break (fun _ ↦ nofun) (hsends.stopped hwatch hnext)

/-- An event that is passed on is sent on exactly once. -/
theorem PassesOn.onceIn (h : delivery.PassesOn next) :
    next.OnceIn (fun send ↦ Interpreter.passing (send delivery.levels) (send (delivery.levels - 1))
      delivery.levels delivery.event delivery.link) delivery.machine := by
  obtain ⟨depth, object, override, acquired, hlink, hresolve, hacquire, hsends⟩ := h
  have hread : Run.thread delivery.machine = .ok delivery.machine.thread delivery.machine := rfl
  refine (OnceIn.andFinally hsends.onceIn
    (relinquish (Interpreter.run delivery.levels) object)).of_eq fun send ↦ ?_
  unfold Interpreter.passing
  rw [bind_of_ok hread, hresolve]
  dsimp only
  rw [bind_of_ok hacquire]

/-- A run comes to every delivery that its event is passed on with. -/
theorem comesTo_of_transGen (h : Relation.TransGen PassesOn start delivery) :
    Interpreter.ComesTo start.part start.levels start.machine
      (.deliver delivery.event delivery.link) delivery.machine := by
  classical
  refine ⟨fun task moment ↦
    decide (task = .deliver delivery.event delivery.link ∧ moment = delivery.machine),
    fun other state hpicked ↦ of_decide_eq_true hpicked, ?_⟩
  have hwatch (picked : Task) (moment : Machine) (hpicked : decide (picked =
      .deliver delivery.event delivery.link ∧ moment = delivery.machine) = true) :
      moment = delivery.machine := (of_decide_eq_true hpicked).2
  induction h using Relation.TransGen.head_induction_on with
  | single hpasses =>
    refine hpasses.stopped hwatch ?_
    rw [Interpreter.runUntil_succ, if_pos (decide_eq_true ⟨rfl, rfl⟩)]
  | head hpasses _ ih =>
    refine hpasses.stopped hwatch ?_
    rw [Interpreter.runUntil_succ]
    split
    · rename_i hpicked
      rw [hwatch _ _ hpicked]
    · exact ih

/-- An event that every receiver passes on goes down to the root, along what stood on the stack. -/
theorem exists_descends {standing : List (Installed ObjectId)} {height : ℕ}
    (hpasses : ∀ reached, Relation.ReflTransGen PassesOn delivery reached →
      (reached.machine.thread.stack.resolve reached.link).isSome →
        ∃ next, reached.PassesOn next)
    (hlink : delivery.link = Link.below height)
    (halive : delivery.machine.thread.tornDown = false)
    (hheight : height ≤ standing.length)
    (hentries : delivery.machine.thread.stack.entries.toList.take height =
      standing.take height) :
    ∃ rest, Descends standing height (delivery :: rest) := by
  induction height generalizing delivery with
  | zero => exact ⟨[], .root hlink⟩
  | succ depth ih =>
    have hplace : delivery.machine.thread.stack.entries[depth]? = standing[depth]? := by
      have htake := congrArg (fun entries ↦ entries[depth]?) hentries
      simpa [List.getElem?_take] using htake
    obtain ⟨installed, hinstalled⟩ : ∃ installed, standing[depth]? = some installed :=
      ⟨_, List.getElem?_eq_getElem hheight⟩
    have hresolve : delivery.machine.thread.stack.resolve (.override depth) =
        some (installed.override, Link.below depth) := by
      simp [Stack.resolve, hplace, hinstalled]
    obtain ⟨next, hnext⟩ := hpasses delivery .refl (by rw [hlink]; simp [hresolve])
    have hpassed := hnext
    obtain ⟨place, object, override, acquired, hlinkPlace, -, hacquire, hsends⟩ := hpassed
    obtain rfl : depth = place := by simpa [hlink] using hlinkPlace
    have hsame : delivery.machine.SameOverrides acquired := by
      have hpermits := aside_acquire object delivery.machine trivial
      rw [hacquire] at hpermits
      exact hpermits
    have htake : delivery.machine.thread.stack.entries.toList.take depth = standing.take depth := by
      have hbelow := congrArg (List.take depth) hentries
      rwa [List.take_take, List.take_take, min_eq_left (Nat.le_succ depth)] at hbelow
    have hcovers : depth ≤ delivery.machine.thread.stack.height := by
      obtain ⟨hlt, -⟩ := Array.getElem?_eq_some_iff.mp (hplace.trans hinstalled)
      exact hlt.le
    obtain ⟨hnextAlive, hnextEntries⟩ := hsends.take_entries_eq (hsame.tornDown.trans halive)
      (by simpa only [hsame.stack] using hcovers)
    obtain ⟨rest, hrest⟩ := @ih next
      (fun reached hreached ↦ hpasses reached (.head hnext hreached)) hsends.link_eq hnextAlive
      (Nat.le_of_succ_le hheight) (by rw [hnextEntries]; simpa only [hsame.stack] using htake)
    exact ⟨next :: rest, .pass hlink hplace hnext hrest⟩

/-- An event goes no further than its way leads, and every delivery of the way is come to. -/
theorem Descends.reflTransGen_iff {standing : List (Installed ObjectId)} {height : ℕ}
    {way : List Delivery} (h : Descends standing height way) :
    ∀ {first rest}, way = first :: rest → ∀ reached,
      Relation.ReflTransGen PassesOn first reached ↔ reached ∈ first :: rest := by
  induction h with
  | @root last hlink =>
    rintro first rest ⟨⟩ reached
    rw [List.mem_singleton, Relation.ReflTransGen.cases_head_iff]
    refine ⟨fun h ↦ ?_, fun h ↦ .inl h.symm⟩
    rcases h with rfl | ⟨next, ⟨depth, object, override, acquired, hoverride, -⟩, -⟩
    · rfl
    · rw [hlink] at hoverride
      cases hoverride
  | @pass depth delivery next rest hlink hplace hpasses hrest ih =>
    rintro first others ⟨⟩ reached
    rw [List.mem_cons, ← ih rfl reached, Relation.ReflTransGen.cases_head_iff, eq_comm]
    refine or_congr_right ⟨?_, fun h ↦ ⟨next, hpasses, h⟩⟩
    rintro ⟨other, hother, hreached⟩
    rwa [hpasses.unique hother]

/-- Every delivery of the way goes to the height or further down. -/
theorem Descends.exists_below {standing : List (Installed ObjectId)} {height : ℕ}
    {way : List Delivery} (h : Descends standing height way) {reached : Delivery}
    (hreached : reached ∈ way) : ∃ depth ≤ height, reached.link = Link.below depth := by
  induction h with
  | @root last hlink =>
    obtain rfl := List.mem_singleton.mp hreached
    exact ⟨0, le_rfl, hlink⟩
  | @pass depth delivery next rest hlink hplace hpasses hrest ih =>
    rcases List.mem_cons.mp hreached with rfl | hreached
    · exact ⟨depth + 1, le_rfl, hlink⟩
    · obtain ⟨place, hplace, heq⟩ := ih hreached
      exact ⟨place, hplace.trans (Nat.le_succ depth), heq⟩

/-- Whoever follows an event on its way meets each of its deliveries exactly once. -/
theorem Descends.onceIn {standing : List (Installed ObjectId)} {height : ℕ}
    {way : List Delivery} (h : Descends standing height way) :
    ∀ {first rest}, way = first :: rest → ∀ reached ∈ first :: rest,
      reached.OnceIn (fun land ↦
        Interpreter.relay reached.link land (first.levels + 1) first.event first.link)
        first.machine := by
  have hstays {first : Delivery} : first.OnceIn (fun land ↦
      Interpreter.relay first.link land (first.levels + 1) first.event first.link) first.machine :=
    (OnceIn.itself first).of_eq fun land ↦ by rw [Interpreter.relay_of_eq]
  induction h with
  | @root last hlink =>
    rintro first rest ⟨⟩ reached hreached
    obtain rfl := List.mem_singleton.mp hreached
    exact hstays
  | @pass depth delivery next rest hlink hplace hpasses hrest ih =>
    rintro first others ⟨⟩ reached hreached
    rcases List.mem_cons.mp hreached with rfl | hreached
    · exact hstays
    · obtain ⟨place, hbelow, heq⟩ := hrest.exists_below hreached
      have hne : delivery.link ≠ reached.link := by
        rw [hlink, heq]
        cases place with
        | zero => exact fun h ↦ nomatch h
        | succ place => exact fun h ↦ absurd (Link.override.inj h) (by omega)
      refine (hpasses.onceIn.trans (ih rfl reached hreached)).of_eq fun land ↦ ?_
      rw [Interpreter.relay_of_ne hne]

/-- Whoever follows an event never meets a delivery off its way. -/
theorem Descends.relay_eq {standing : List (Installed ObjectId)} {height : ℕ}
    {way : List Delivery} {target : Link} (h : Descends standing height way) (land : Sending)
    (htarget : ∀ reached ∈ way, reached.link ≠ target) :
    ∀ {first rest}, way = first :: rest →
      first.sent (Interpreter.relay target land) = first.sent Interpreter.delivering := by
  induction h with
  | @root last hlink =>
    rintro first rest ⟨⟩
    have hne := htarget last List.mem_cons_self
    unfold sent
    rw [Interpreter.relay_of_ne hne, hlink]
    rfl
  | @pass depth delivery next rest hlink hplace hpasses hrest ih =>
    rintro first others ⟨⟩
    have hne := htarget delivery List.mem_cons_self
    have hnext := ih (fun reached hreached ↦ htarget reached (List.mem_cons_of_mem _ hreached)) rfl
    obtain ⟨outcome, -, hpart⟩ := hpasses.onceIn
    unfold sent
    rw [Interpreter.relay_of_ne hne, ← Interpreter.passing_delivering]
    exact (hpart _).trans ((congrArg outcome hnext).trans (hpart _).symm)

theorem Descends.length_eq {standing : List (Installed ObjectId)} {height : ℕ}
    {way : List Delivery} (h : Descends standing height way) : way.length = height + 1 := by
  induction h with
  | root => rfl
  | pass _ _ _ _ ih => rw [List.length_cons, ih]

theorem Descends.exists_last {standing : List (Installed ObjectId)} {height : ℕ}
    {way : List Delivery} (h : Descends standing height way) :
    ∃ last, way.getLast? = some last ∧ last.link = .root := by
  induction h with
  | @root last hlink => exact ⟨last, rfl, hlink⟩
  | pass _ _ _ _ ih => simpa only [List.getLast?_cons_cons] using ih

end Delivery

/-- Assumes: an event is delivered to an override in place, and whatever override it is delivered to
sends it on to the link below, unchanged or not; before a handler does so, it may run whatever
returns and releases nothing below its own override.
Then the event goes down through the overrides that stood on the stack when it was dispatched, from
its depth to the bottom and once to each, and last to the policy of the process: the run of the
dispatch comes to each of these deliveries, and whoever follows the event through that run meets
each of them exactly once and none to any other link. -/
theorem relay_reaches_all {start : Delivery} {depth : ℕ}
    (halive : start.machine.thread.tornDown = false) (hlink : start.link = .override depth)
    (hdepth : depth < start.machine.thread.stack.height)
    (hpasses : ∀ reached, Relation.ReflTransGen Delivery.PassesOn start reached →
      (reached.machine.thread.stack.resolve reached.link).isSome →
        ∃ next, reached.PassesOn next) :
    ∃ rest,
      Delivery.Descends start.machine.thread.stack.entries.toList (depth + 1) (start :: rest) ∧
      rest.length = depth + 1 ∧
      (∀ reached, Relation.ReflTransGen Delivery.PassesOn start reached ↔
        reached ∈ start :: rest) ∧
      (∀ reached ∈ rest, Interpreter.ComesTo start.part start.levels start.machine
        (.deliver reached.event reached.link) reached.machine) ∧
      (∀ target, start.sent (Interpreter.relay target Interpreter.delivering) =
        start.part (Interpreter.run start.levels) start.machine) ∧
      (∀ reached ∈ start :: rest, reached.OnceIn (fun land ↦
        Interpreter.relay reached.link land (start.levels + 1) start.event start.link)
          start.machine) ∧
      (∀ target, (∀ reached ∈ start :: rest, reached.link ≠ target) → ∀ land,
        start.sent (Interpreter.relay target land) =
          start.part (Interpreter.run start.levels) start.machine) ∧
      ∃ last, rest.getLast? = some last ∧
        ∀ exec, last.part exec last.machine = Run.concludeAtRoot exec last.event last.machine := by
  obtain ⟨rest, hway⟩ := @Delivery.exists_descends start
    start.machine.thread.stack.entries.toList (depth + 1) hpasses hlink halive hdepth rfl
  have hreached := hway.reflTransGen_iff rfl
  have honce := hway.onceIn rfl
  have helsewhere (target : Link) (land : Sending)
      (htarget : ∀ reached ∈ start :: rest, reached.link ≠ target) :=
    hway.relay_eq land htarget rfl
  cases hway with
  | @pass depth delivery next rest hlink hplace hfirst hrest =>
    refine ⟨next :: rest, .pass hlink hplace hfirst hrest, hrest.length_eq, hreached,
      fun reached hmem ↦ ?_, fun target ↦ ?_, honce,
      fun target htarget land ↦ helsewhere target land htarget, ?_⟩
    · have hway := (hrest.reflTransGen_iff rfl reached).mpr hmem
      exact Delivery.comesTo_of_transGen (.head' hfirst hway)
    · unfold Delivery.sent
      rw [Interpreter.relay_delivering]
      rfl
    · obtain ⟨last, hlast, hroot⟩ := hrest.exists_last
      refine ⟨last, hlast, fun exec ↦ ?_⟩
      unfold Delivery.part
      rw [hroot]
      rfl

/-- Two overrides are installed and a line is delivered to the upper one. Its handler releases its
own override and then sends the line on, which goes to the lower override and then to the root. -/
theorem relay_from_released_override :
    let line : Event := .line { site := { file := "a", line := 1 }, depth := 0, text := "b" }
    let before : List Op := [.release "upper"]
    let upper : Script := { name := "upper", onLine := some (before ++ [.delegate .handled {}]) }
    let machine : Machine :=
      { thread :=
        { stack :=
            { entries := #[{ generation := 0, override := 0 }, { generation := 1, override := 1 }]
              nextGeneration := 2 }
          objects := #[{ override := .transparent, owners := 1 },
            { override := .script upper, owners := 1 }]
          frames := [[{ name := "upper", guard := { depth := 1, generation := 1 } }]] } }
    let start : Delivery := { levels := 3, event := line, link := .override 1, machine }
    machine.thread.tornDown = false ∧ 1 < machine.thread.stack.height ∧
      (∀ reached, Relation.ReflTransGen Delivery.PassesOn start reached →
        (reached.machine.thread.stack.resolve reached.link).isSome →
          ∃ next, reached.PassesOn next) ∧
      ∃ rest, Delivery.Descends machine.thread.stack.entries.toList 2 (start :: rest) ∧
        rest.length = 2 ∧ ∀ reached ∈ start :: rest, reached.OnceIn (fun land ↦
          Interpreter.relay reached.link land 4 line (.override 1)) machine := by
  intro line before upper machine start
  let sent : Machine :=
    { thread :=
      { stack := { entries := #[{ generation := 0, override := 0 }], nextGeneration := 2 }
        objects := #[{ override := .transparent, owners := 1 },
          { override := .script upper, owners := 1 }]
        frames := [[], []]
        handling := some { event := line, next := .override 0 } }
      process := { records :=
        #[.received "upper" line (.override 0), .performed "release" (.depth 1)] } }
  have hwithholds : ∀ op ∈ before ++ [], op.Withholds := by
    intro op hop
    obtain rfl := List.mem_singleton.mp hop
    exact .intro rfl fun _ h ↦ nomatch h
  have hfirst : start.PassesOn ⟨1, line, .override 0, sent⟩ := by
    refine ⟨1, 1, .script upper, _, rfl, rfl, rfl, @Override.SendsOn.delegated 1 upper 1 line line
      line (.override 0) _ _ sent sent before [] .handled {} rfl hwithholds rfl ?_ ?_ rfl rfl⟩
    · apply Eq.refl
    · intro moment
      exact fun h ↦ nomatch h
  obtain ⟨last, hsecond, hroot⟩ : ∃ last, Delivery.PassesOn ⟨1, line, .override 0, sent⟩ last ∧
      last.link = .root :=
    ⟨_, ⟨0, 0, .transparent, _, rfl, rfl, rfl, .plain (fun _ h ↦ nomatch h) rfl⟩, rfl⟩
  have hpasses : ∀ reached, Relation.ReflTransGen Delivery.PassesOn start reached →
      (reached.machine.thread.stack.resolve reached.link).isSome →
        ∃ next, reached.PassesOn next := by
    intro reached hreached hreceived
    rcases Relation.ReflTransGen.cases_head hreached with rfl | ⟨other, hother, hreached⟩
    · exact ⟨_, hfirst⟩
    obtain rfl := hfirst.unique hother
    rcases Relation.ReflTransGen.cases_head hreached with rfl | ⟨other, hother, hreached⟩
    · exact ⟨last, hsecond⟩
    obtain rfl := hsecond.unique hother
    rcases Relation.ReflTransGen.cases_head hreached with rfl | ⟨other, ⟨_, _, _, _, hlink, -⟩, -⟩
    · simp [hroot] at hreceived
    · simp [hroot] at hlink
  obtain ⟨rest, hway, hlength, -, -, -, honce, -⟩ := @relay_reaches_all start 1 rfl rfl
    (show 1 < machine.thread.stack.height from Nat.lt_add_one 1) hpasses
  exact ⟨rfl, Nat.lt_add_one 1, hpasses, rest, hway, hlength, honce⟩

end Escalation
