/- # Replaying the log

The log of a machine says which activations began, returned, aborted and landed, but not which ones
there are.  Whoever reads it can keep account of that: the events are replayed on a stack of serial
numbers, each of them being checked against the stack as it is.  No check ever fails, and whenever
an instruction is executed, the stack is that of the machine.

* `Event.replay`, `replay`: one event, and a log;
* `Machine.step_replays`: a step logs what replaying needs to follow it;
* `Machine.Traced`: the states between the calls of an owner who keeps the log;
* `Machine.log_replays`: what replaying comes to, over any sequence of runs.
-/
import BytecodeVm.Console.Natives
import BytecodeVm.Proofs.Machine.Origins
import BytecodeVm.Proofs.Machine.Recursive

namespace BytecodeVm

variable {σ : Type}

/-! ## 1. The replay -/

/-- Replays an event on a stack of serial numbers, the top first, unless the stack is not as the
event says.

* A call at depth 0 begins anew, and any other call finds as many entries as its depth says; then
  the new activation is put on top.
* The activation that returns is on top, and leaves as many entries as its depth says.
* The activation that aborts is on top.
* The activation where an abort lands is somewhere on the stack, and all above it are dropped.

Other events do not matter. -/
def Event.replay (stack : List Nat) : Event → Option (List Nat)
  | called _ frame _ depth =>
    let base := if depth = 0 then [] else stack
    if base.length = depth then some (frame :: base) else none
  | returned frame depth =>
    match stack with
    | top :: rest => if top = frame ∧ rest.length = depth then some rest else none
    | [] => none
  | aborted frame _ => if stack.head? = some frame then some stack else none
  | landed frame _ =>
    match stack.dropWhile (· ≠ frame) with
    | [] => none
    | rest => some rest
  | _ => some stack

/-- The stack that a log leads to, unless a check fails on the way. -/
def replay (events : Array Event) : Option (List Nat) :=
  events.toList.foldlM Event.replay []

/-- Whether an event says something about activations. -/
def Event.isOfActivation : Event → Bool
  | called .. | returned .. | aborted .. | landed .. => true
  | _ => false

/-- The host logs nothing about activations. -/
def Host.LogsApart (host : Host σ) : Prop :=
  ∀ id args heap s, ∀ event ∈ (host.call id args heap s).events, event.isOfActivation = false

theorem Event.replay_of_not_isOfActivation {event : Event} (h : event.isOfActivation = false)
    (stack : List Nat) : event.replay stack = some stack := by
  cases event <;> first | rfl | cases h

theorem replay_push (events : Array Event) (event : Event) :
    replay (events.push event) = (replay events).bind event.replay := by
  simp only [replay, Array.toList_push, List.foldlM_append, List.foldlM_cons, List.foldlM_nil,
    bind_pure]
  rfl

/-- Events that do not matter may be added. -/
theorem replay_append {events : Array Event} {others : List Event}
    (h : ∀ event ∈ others, event.isOfActivation = false) :
    replay (events ++ others) = replay events := by
  induction others generalizing events with
  | nil => simp
  | cons event others ih =>
    obtain ⟨hevent, hothers⟩ := List.forall_mem_cons.mp h
    have hpush : events ++ (event :: others) = events.push event ++ others := by
      apply Array.toList_inj.mp
      simp
    rw [hpush, ih hothers, replay_push]
    cases replay events with
    | none => rfl
    | some stack => exact Event.replay_of_not_isOfActivation hevent stack

/-! ## 2. Steps -/

/-- Where a run goes on, its log leads to the stack of its activations; where it ends, it leads
somewhere. -/
inductive StepResult.Replays : StepResult σ → Prop
  | running {c : Config σ} : replay c.state.events = some c.ids → Replays (.running c)
  | finished {o : Outcome} {s : State σ} : (replay s.events).isSome → Replays (.finished o s)

theorem Callee.events_apart (callee : Callee) (index : UInt16) :
    ∀ event ∈ callee.events index, event.isOfActivation = false := by
  intro event hevent
  cases callee with
  | body b => cases hevent
  | defaultConstructor name =>
    rw [List.mem_singleton.mp hevent]
    rfl

namespace Machine

variable {m : Machine σ} {s : State σ} {callers : List Activation}

/-- A call that is let in is put on what it lies on. -/
theorem replay_enroll {stack base : List Nat} {depth : Nat} (hlog : replay s.events = some stack)
    (hbase : (if depth = 0 then [] else stack) = base) (hdepth : base.length = depth)
    (index : UInt16) (callee : Callee) (argc : Nat) :
    replay (s.enroll index callee argc depth).events = some (s.nextFrame :: base) := by
  have hevents : (s.enroll index callee argc depth).events =
      (s.events ++ callee.events index).push (.called index s.nextFrame argc depth) :=
    rfl
  rw [hevents, replay_push, replay_append (callee.events_apart index), hlog, Option.bind_some,
    Event.replay]
  simp only [hbase, if_pos hdepth]

/-- A call is logged, if it gets as far as taking a serial number. -/
theorem dispatch_replays {stack : List Nat} {depth : Nat} (hlog : replay s.events = some stack)
    (hbase : (if depth = 0 then [] else stack) = callers.map Activation.id)
    (hdepth : callers.length = depth) (index : UInt16) (args : List Value) (keep : Bool) :
    (m.dispatch s index args keep depth callers).Replays := by
  have hsome : (replay s.events).isSome := by
    rw [hlog]
    rfl
  have henroll := replay_enroll hlog hbase (by rw [List.length_map, hdepth]) index
  rcases Nat.lt_or_ge depth m.settings.maxDepth with hd | hd
  · cases hc : m.program.callee? index with
    | none =>
      rw [dispatch, activate_of_missing hd hc]
      exact .finished hsome
    | some callee =>
      cases hf : Frame.create callee.code callee.slots args with
      | error trap =>
        rw [dispatch, activate_of_create_error hd hc hf]
        refine .finished ?_
        rw [henroll callee args.length]
        rfl
      | ok frame =>
        rw [dispatch, activate_of_create hd hc hf]
        exact .running (henroll callee args.length)
  · rw [dispatch, activate_of_tooDeep hd]
    exact .finished hsome

/-- Where an abort lands, replaying finds its way down to the same activation. -/
theorem unwind_replays {a : Activation} (v : Value)
    (hlog : replay s.events = some ((a :: callers).map Activation.id)) :
    (unwind v s a callers).Replays := by
  rcases unwind_cases v s a callers with
    ⟨discarded, b, below, target, rest, -, hsplit, hd, hu⟩ | ⟨-, hu⟩
  · rw [hu]
    refine .running ?_
    have hdrop : ((a :: callers).map Activation.id).dropWhile (· ≠ b.id) =
        b.id :: below.map Activation.id := by
      rw [hsplit, List.map_append, List.dropWhile_append_of_pos]
      · simp
      · intro id hid
        obtain ⟨d, hmem, rfl⟩ := List.mem_map.mp hid
        simpa using hd d hmem
    have hevents : replay (s.events.push (.landed b.id target)) =
        some (b.id :: below.map Activation.id) := by
      rw [replay_push, hlog, Option.bind_some, Event.replay, hdrop]
    exact hevents
  · rw [hu]
    refine .finished ?_
    rw [hlog]
    rfl

/-- Serving a request logs what replaying needs. -/
theorem serve_replays (hhost : m.host.LogsApart) {a : Activation}
    (hdepth : a.depth = callers.length)
    (hlog : replay s.events = some ((a :: callers).map Activation.id)) (request : Request) :
    (m.serve s a callers request).Replays := by
  cases request with
  | proceed | allocate _ | store _ _ _ | enter _ => exact .running hlog
  | call index args keep =>
    rw [serve_call]
    refine dispatch_replays hlog ?_ ?_ index args keep
    · rw [if_neg (Nat.succ_ne_zero _)]
    · rw [List.length_cons, hdepth]
  | native id args =>
    have hreply : replay (s.events ++ (m.host.call id args s.heap s.host).events) =
        some ((a :: callers).map Activation.id) := by
      rw [replay_append (hhost id args s.heap s.host), hlog]
    simp only [serve]
    split
    · exact .running hreply
    · refine .finished ?_
      rw [Option.isSome_iff_exists]
      exact ⟨_, hreply⟩
  | ret v =>
    simp only [serve]
    split
    · refine .finished ?_
      rw [hlog]
      rfl
    · rename_i caller below
      refine .running ?_
      rw [Config.ids_resumed]
      have hreturned : replay (s.events.push (.returned a.id a.depth)) =
          some ((caller :: below).map Activation.id) := by
        rw [replay_push, hlog, Option.bind_some]
        simp [Event.replay, hdepth]
      exact hreturned
  | abort v =>
    have haborted : replay (s.events.push (.aborted a.id (s.heap.render v))) =
        some ((a :: callers).map Activation.id) := by
      rw [replay_push, hlog, Option.bind_some]
      simp [Event.replay]
    exact unwind_replays v haborted
  | leave =>
    simp only [serve]
    split
    · exact .running hlog
    · refine .finished ?_
      rw [hlog]
      rfl

/-- **A step logs what replaying needs to follow it.** -/
theorem step_replays (hhost : m.host.LogsApart) {limit : Nat} {c : Config σ} (hc : c.Levelled limit)
    (hlog : replay c.state.events = some c.ids) : (m.step c).Replays := by
  cases hn : m.next c with
  | error trap f =>
    rw [step_of_next_error hn]
    refine .finished ?_
    rw [hlog]
    rfl
  | ok request f =>
    rw [step_of_next hn]
    exact serve_replays (a := { c.current with frame := f }) hhost hc.current_depth hlog request

/-- **Replaying follows an invocation**, whatever the log led to before. -/
theorem Reaches.replays (hhost : m.host.LogsApart) {index : UInt16} {args : List Value}
    {r : StepResult σ} (hlog : (replay s.events).isSome)
    (h : m.Reaches (m.start s index args) r) : r.Replays := by
  obtain ⟨stack, hstack⟩ := Option.isSome_iff_exists.mp hlog
  have hstart : (m.start s index args).Replays := by
    rw [start_eq_dispatch]
    refine dispatch_replays (s := { s with handlers := [] }) hstack ?_ ?_ index args true
    · rfl
    · rfl
  -- the depths are needed on the way, so that the invariant says where the run has come from
  have key : m.Reaches (m.start s index args) r ∧ r.Replays := by
    refine h.invariant (P := fun r => m.Reaches (m.start s index args) r ∧ r.Replays)
      ⟨.refl _, hstart⟩ ?_
    rintro c ⟨hreach, hc⟩
    cases hc with
    | running hc => exact ⟨hreach.tail, step_replays hhost hreach.levelled hc⟩
  exact key.2

/-! ## 3. Code that does not decode -/

/-- In the run from `r`, the callable is called on the arguments, in the state `s` and while there
are `depth` activations: by the start of the run, or by an instruction. -/
inductive Calls (m : Machine σ) (r : StepResult σ) (index : UInt16) (args : List Value) :
    State σ → Nat → Prop
  | first {s : State σ} : r = m.start s index args → Calls m r index args s 0
  | call {c : Config σ} {keep : Bool} {f : Frame} : m.Reaches r (.running c) →
      m.next c = .ok (.call index args keep) f → Calls m r index args c.state (c.current.depth + 1)

/-- **A call of code that does not decode is the last thing that is logged.** -/
theorem Calls.ends_of_scanSlots {r : StepResult σ} {index : UInt16} {args : List Value}
    {depth : Nat} {callee : Callee} {trap : Trap} (h : m.Calls r index args s depth)
    (hdepth : depth < m.settings.maxDepth) (hcallee : m.program.callee? index = some callee)
    (hscan : callee.code.scanSlots = .error trap) :
    ∃ s', m.Reaches r (.finished (.trapped trap) s') ∧
      s'.events.back? = some (.called index s.nextFrame args.length depth) := by
  have hcreate : Frame.create callee.code callee.slots args = .error trap :=
    Frame.create_error_iff.mpr hscan
  cases h with
  | first hr =>
    refine ⟨State.enroll { s with handlers := [] } index callee args.length 0, ?_, ?_⟩
    · rw [hr, start_eq_dispatch, dispatch, activate_of_create_error hdepth hcallee hcreate]
      exact .refl _
    · exact Array.back?_push
  | @call c keep f hreach hn =>
    refine ⟨c.state.enroll index callee args.length (c.current.depth + 1), ?_, ?_⟩
    · have hstep : m.step c = .finished (.trapped trap)
          (c.state.enroll index callee args.length (c.current.depth + 1)) := by
        rw [step_of_next hn, serve_call, dispatch, activate_of_create_error hdepth hcallee hcreate]
      rw [← hstep]
      exact hreach.tail
    · exact Array.back?_push

/-! ## 4. Over any sequence of runs -/

/-- The states between the calls of an owner who has kept the log from some time on, whatever the
calls came to.  In between, the owner may change everything but the log, to which it adds nothing
about activations. -/
inductive Traced (m : Machine σ) : State σ → Prop
  | new {s : State σ} : s.events = #[] → Traced m s
  | outside {s s' : State σ} {others : List Event} : Traced m s →
      (∀ event ∈ others, event.isOfActivation = false) → s'.events = s.events ++ others →
      Traced m s'
  | call {s s' : State σ} {r : StepResult σ} {o : Outcome} : Traced m s → m.Begins s r →
      m.Reaches r (.finished o s') → Traced m s'

/-- **Replaying follows a run**, be it that of the entry method. -/
theorem Begins.replays (hhost : m.host.LogsApart) {r r' : StepResult σ} (h : m.Begins s r)
    (hlog : (replay s.events).isSome) (hreach : m.Reaches r r') : r'.Replays := by
  cases h with
  | invoke index args => exact hreach.replays hhost hlog
  | run =>
    simp only [startEntry] at hreach
    split at hreach
    · rw [hreach.eq_of_finished]
      exact .finished hlog
    · refine Reaches.replays hhost ?_ hreach
      obtain ⟨stack, hstack⟩ := Option.isSome_iff_exists.mp hlog
      rw [State.log, replay_push, hstack]
      rfl

/-- Between the calls of an owner, no check has failed. -/
theorem Traced.replays (hhost : m.host.LogsApart) (h : m.Traced s) : (replay s.events).isSome := by
  induction h with
  | new hempty =>
    rw [hempty]
    rfl
  | outside _ hothers hevents ih =>
    rw [hevents, replay_append hothers]
    exact ih
  | call _ hbegins hreach ih =>
    cases hbegins.replays hhost ih hreach with
    | finished hlog => exact hlog

/-- **Replaying the log reconstructs the activations, over any sequence of runs.**  The host is one
that logs nothing about activations.  Take any state that an owner can find between two calls, and
any way to go on from there.

* No check of the replay has failed so far, and none fails up to the end of the run.
* Whenever an instruction is about to be executed, the log replays to the serial numbers of the
  activations, the running one on top.
* If the code of a callable that is called does not decode, the run ends there with that trap, and
  the call is the last event of the log. -/
theorem log_replays (m : Machine σ) (hhost : m.host.LogsApart) (s : State σ) (hs : m.Traced s) :
    (replay s.events).isSome ∧ ∀ r, m.Begins s r →
      (∀ c, m.Reaches r (.running c) → replay c.state.events = some c.ids) ∧
      (∀ o s', m.Reaches r (.finished o s') → (replay s'.events).isSome) ∧
      ∀ index args s₁ depth callee trap, m.Calls r index args s₁ depth →
        depth < m.settings.maxDepth → m.program.callee? index = some callee →
        callee.code.scanSlots = .error trap →
        ∃ s', m.Reaches r (.finished (.trapped trap) s') ∧
          s'.events.back? = some (.called index s₁.nextFrame args.length depth) := by
  have hlog := hs.replays hhost
  refine ⟨hlog, ?_⟩
  intro r hbegins
  refine ⟨?_, ?_, ?_⟩
  · intro c hreach
    cases hbegins.replays hhost hlog hreach with
    | running hc => exact hc
  · intro o s' hreach
    cases hbegins.replays hhost hlog hreach with
    | finished hs' => exact hs'
  · intro index args s₁ depth callee trap hcalls hdepth hcallee hscan
    exact hcalls.ends_of_scanSlots hdepth hcallee hscan

end Machine

/-- The console logs the calls of its functions and nothing else. -/
theorem Console.host_logsApart : Console.host.LogsApart := by
  intro id args heap c event hevent
  simp only [host, call] at hevent
  split at hevent
  · cases hevent
  · split at hevent
    · cases hevent
    · split at hevent
      · rw [List.mem_singleton.mp hevent]
        rfl
      · rw [List.mem_singleton.mp hevent]
        rfl

namespace Machine

/-- A method that lands the abort of a callee, prints the value, and then calls code that does not
decode. -/
def landsAndFails : Machine Console where
  program := (ofBodies
    [ ⟨0, 0, (Instr.assemble [.enterAttempt 8, .call 1 0, .callNative 1 1, .call 2 0]).toArray⟩,
      ⟨1, 0, (Instr.assemble [.call 3 0, .ret]).toArray⟩,
      ⟨2, 0, #[0xff]⟩,
      ⟨3, 0, (Instr.assemble [.loadTrue, .abort]).toArray⟩ ]).program
  settings := .default
  host := Console.host

/-- The abort crosses one activation and lands in the next one.  All checks of the replay succeed,
also in a second run, and a call that fails is the last event. -/
theorem landsAndFails_replays :
    ∃ s, landsAndFails.invoke 20 (State.initial ⟨.ofBytes [], .unlimited⟩) 0 [] =
        some (.trapped (.unknownOpcode 0xff 0), s) ∧
      s.events = #[.called 0 0 0 0, .called 1 1 0 1, .called 3 2 0 2, .aborted 2 "true",
        .landed 0 8, .nativeCalled .printLine 1, .called 2 3 0 1] ∧
      (replay s.events).isSome ∧
      (∀ c, landsAndFails.Reaches (landsAndFails.start s 0 []) (.running c) →
        replay c.state.events = some c.ids) ∧
      ∃ s', landsAndFails.Reaches (landsAndFails.start s 2 [])
          (.finished (.trapped (.unknownOpcode 0xff 0)) s') ∧
        s'.events.back? = some (.called 2 s.nextFrame 0 0) := by
  have hrun : (landsAndFails.invoke 20 (State.initial ⟨.ofBytes [], .unlimited⟩) 0 []).map
      (fun e => (e.1, e.2.events)) = some (.trapped (.unknownOpcode 0xff 0),
        #[.called 0 0 0 0, .called 1 1 0 1, .called 3 2 0 2, .aborted 2 "true",
          .landed 0 8, .nativeCalled .printLine 1, .called 2 3 0 1]) := by
    decide +kernel
  obtain ⟨⟨o, s⟩, hinvoke, heq⟩ := Option.map_eq_some_iff.mp hrun
  obtain ⟨rfl, hevents⟩ := Prod.mk.inj heq
  have hend := (exists_invoke_iff landsAndFails _ _ _ _ _).mp ⟨20, hinvoke⟩
  have hs : landsAndFails.Traced s := .call (.new rfl) (.invoke 0 []) hend
  obtain ⟨hlog, hruns⟩ := log_replays landsAndFails Console.host_logsApart s hs
  have hscan : Code.scanSlots #[0xff] = .error (.unknownOpcode 0xff 0) := by
    decide +kernel
  have hlast := (hruns _ (.invoke 2 [])).2.2 2 [] s 0 (.body ⟨2, 0, #[0xff]⟩) _ (.first rfl)
    (by decide) rfl hscan
  exact ⟨s, hinvoke, hevents, hlog, (hruns _ (.invoke 0 [])).1, hlast⟩

end Machine

end BytecodeVm
