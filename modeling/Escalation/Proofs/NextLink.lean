import Escalation.Proofs.Refinement

/-!
# What the link below an override means later on

A handler gets the link below its override. The link is meant to lead to what was current when the
override was installed, and it does so as long as that is in place, whatever the handler did
meanwhile. Once that is gone, the link leads to the root only until its depth is taken again, since
a link is a depth and nothing tells it from a later installation there (`next_link_meaning`,
`retakingProgram`). What takes the depth is always newer than the call of the handler
(`History.le_of_meaning_below`).
-/

set_option autoImplicit false
set_option relaxedAutoImplicit false

namespace Escalation

/-- An event is delivered to an override in place, and while it is handled, by whatever program, an
event is sent to the link below that override. It is handed to what is at that depth at the moment.
That is what the link is meant to lead to exactly if that is in place still, or if nothing is at
the depth; in all other cases it was installed after the handler was called. -/
theorem next_link_meaning {before later : List (Move ObjectId)} {object : ObjectId}
    {place depth : ℕ} {event sent : Event} {machine moment : Machine}
    (hmachine : machine.thread.Follows (before ++ .install object :: later))
    (hplace : (History.of (before ++ .install object :: later)).meaning (.override place) =
      some (History.of before).guards.length)
    (hmoment : Interpreter.ComesTo (fun exec ↦ Run.deliver exec event (.override place)) depth
      machine (.deliver sent (Link.below place)) moment) :
    ∃ more,
      let called := History.of (before ++ .install object :: later)
      let now := History.of (before ++ .install object :: later ++ more)
      let promised := now.promised (History.of before)
      moment.thread.Follows (before ++ .install object :: later ++ more) ∧
      (∀ exec, Run.deliver exec sent (Link.below place) moment =
        Run.handOver exec sent
          ((now.stack.resolve (Link.below place)).map fun found ↦ (found.1.2, found.2)) moment) ∧
      (now.meaning (Link.below place) = promised ↔
        promised.isSome ∨ now.meaning (Link.below place) = none) ∧
      (now.meaning (Link.below place) ≠ promised →
        ∃ newer ≥ called.guards.length, now.meaning (Link.below place) = some newer) := by
  have hreaches := Interpreter.reaches_of_comesTo
    (fun hexec ↦ Discipline.keeps_deliver hexec event (.override place))
    (.of_follows hmachine) hmoment
  obtain ⟨more, hfollows⟩ := hreaches
  refine ⟨more, hfollows, fun exec ↦ ?_, ?_, ?_⟩
  · change Run.handOver exec sent (moment.thread.stack.resolve (Link.below place)) moment = _
    rw [hfollows.stack, Stack.resolve_map]
  · exact History.meaning_below_eq_promised_iff hplace
  · exact History.exists_newer_of_ne_promised hplace

/-- An override that leaves an event to the link below sends it to what was current when it was
installed. -/
theorem next_link_of_transparent :
    let sent : Event := .line { site := { file := "a", line := 1 }, depth := 0, text := "b" }
    let stack : Stack ObjectId :=
      { entries := #[{ generation := 0, override := 0 }, { generation := 1, override := 1 }]
        nextGeneration := 2 }
    let machine : Machine :=
      { thread :=
        { stack := stack
          objects := #[{ override := .transparent, owners := 1 },
            { override := .transparent, owners := 1 }] } }
    let moment : Machine :=
      { thread :=
        { stack := stack
          objects := #[{ override := .transparent, owners := 1 },
            { override := .transparent, owners := 2 }] } }
    machine.thread.Follows ([.install 0] ++ .install 1 :: []) ∧
      (History.of [Move.install 0, .install 1]).meaning (.override 1) =
        some (History.of [Move.install 0]).guards.length ∧
      Interpreter.ComesTo (fun exec ↦ Run.deliver exec sent (.override 1)) 1 machine
        (.deliver sent (Link.below 1)) moment ∧
      ∃ more, moment.thread.Follows ([.install 0] ++ .install 1 :: [] ++ more) := by
  intro sent stack machine moment
  have hmachine : machine.thread.Follows ([.install 0] ++ .install 1 :: []) := by
    refine ⟨rfl, ?_⟩
    simp [machine, stack, History.of, History.move, Stack.map, Stack.install]
  have hplace : (History.of [Move.install 0, .install 1]).meaning (.override 1) =
      some (History.of [Move.install 0]).guards.length := by
    simp [History.of, History.move, History.meaning, Stack.resolve, Stack.install]
  have hmoment : Interpreter.ComesTo (fun exec ↦ Run.deliver exec sent (.override 1)) 1 machine
      (.deliver sent (Link.below 1)) moment := by
    classical
    refine ⟨fun task state ↦ decide (task = .deliver sent (Link.below 1) ∧ state = moment),
      fun other state h ↦ of_decide_eq_true h, ?_⟩
    have hpicked : Interpreter.runUntil
        (fun task state ↦ decide (task = .deliver sent (Link.below 1) ∧ state = moment)) 1
          (.deliver sent (Link.below 1)) moment = .error .stopped moment := if_pos (by simp)
    have hdeliver (exec : Exec) : Run.deliver exec sent (.override 1) machine =
      Run.andFinally (exec (.deliver sent (Link.below 1))) (Run.relinquish exec 1) moment := rfl
    dsimp only
    rw [hdeliver]
    unfold Run.andFinally
    rw [hpicked]
  obtain ⟨more, hfollows, -⟩ := next_link_meaning hmachine hplace hmoment
  exact ⟨hmachine, hplace, hmoment, more, hfollows⟩

/-- The name of the scripted override that a record says received an event. -/
def Record.receiver? : Record → Option String
  | .received name .. => some name
  | _ => none

/-- Two overrides are installed and a line is sent. The handler of the upper one releases the guard
of the lower one, which removes both, installs a third one and sends its line on. -/
def retakingProgram : List Op :=
  let quiet (name : String) : Recipe := .script { name, onLine := some [] }
  let handler : List Op :=
    [.guarded [.release "lower"] none "raised", .push (quiet "third") "third" false,
      .delegate .handled {}]
  [.push (quiet "lower") "lower" false,
    .push (.script { name := "upper", onLine := some handler }) "upper" false,
    .log { text := some "hello" } .current]

/-- Once what a link is meant to lead to is gone and its depth is taken again, the link leads to the
newcomer, and the policy of the process writes nothing. -/
theorem next_link_retaken :
    (match Run.runList (Interpreter.run 12) retakingProgram {} with
      | .ok _ after => some (after.process.records.toList.filterMap Record.receiver?,
        after.process.written)
      | .error _ _ => none) = some (["upper", "third"], "") := by
  decide +kernel

end Escalation
