/- # What a run sees of its program

A machine reads the constants of its program, and for each callable the first body that there is for
it.  The version, the imports and the declared types are not looked at, nor is the order of bodies of
different callables, nor are bodies that are shadowed by an earlier one of the same callable.

* `Program.SameCode`: programs with the same constants and the same code for every callable;
* `Program.Edit`: the changes that are not seen: to the heading, to the order of bodies, and to bodies
  that are shadowed;
* `Program.sameCode_iff`: programs have the same code exactly if such changes lead from one to the
  other;
* `Machine.RunsAlike.step`: machines for such programs do the same, step by step;
* `Machine.runs_of_sameCode`: their runs and invocations are the same.
-/
import BytecodeVm.Proofs.Machine.Reach
import Mathlib.Data.List.Nodup
import Mathlib.Logic.Relation

namespace BytecodeVm

/-! ## 1. Programs with the same code -/

/-- What running a body takes of it. -/
def Body.runnable (b : Body) : UInt16 × Code :=
  (b.slots, b.code)

namespace Program

/-- The same constants, and for every callable the same slots and code, or no body. -/
structure SameCode (p q : Program) : Prop where
  constants : p.constants = q.constants
  runnable : ∀ index, (p.body? index).map Body.runnable = (q.body? index).map Body.runnable

variable {p q : Program}

theorem callable_of_body? {index : UInt16} {b : Body} (h : p.body? index = some b) :
    b.callable = index := by
  simpa using List.find?_some h

/-- A body that is found is for the callable that it was looked up for, so nothing else can differ. -/
theorem SameCode.body? (h : p.SameCode q) (index : UInt16) : p.body? index = q.body? index := by
  have hrunnable := h.runnable index
  cases hp : p.body? index with
  | none =>
    rw [hp] at hrunnable
    exact (Option.map_eq_none_iff.mp hrunnable.symm).symm
  | some b =>
    rw [hp] at hrunnable
    obtain ⟨b', hq, hsame⟩ := Option.map_eq_some_iff.mp hrunnable.symm
    have hcallable := (callable_of_body? hp).trans (callable_of_body? hq).symm
    obtain ⟨hslots, hcode⟩ := Prod.mk.inj hsame
    rw [hq]
    cases b
    cases b'
    cases hcallable
    cases hslots
    cases hcode
    rfl

theorem SameCode.refl (p : Program) : p.SameCode p :=
  ⟨rfl, fun _ => rfl⟩

theorem SameCode.symm (h : p.SameCode q) : q.SameCode p :=
  ⟨h.constants.symm, fun index => (h.runnable index).symm⟩

theorem SameCode.trans {r : Program} (h : p.SameCode q) (h' : q.SameCode r) : p.SameCode r :=
  ⟨h.constants.trans h'.constants, fun index => (h.runnable index).trans (h'.runnable index)⟩

/-- What the callables of a program stand for is settled by its constants and its code. -/
theorem SameCode.callee? (h : p.SameCode q) (index : UInt16) : p.callee? index = q.callee? index := by
  unfold Program.callee? Program.constant?
  rw [h.body? index, h.constants]

/-! ## 2. Changes that are not seen -/

/-- A change to a program that leaves its code as it is. -/
inductive Edit : Program → Program → Prop
  /-- Another version, other imports, other types. -/
  | heading (p : Program) (major minor : UInt8) (imports : List String) (types : List TypeDecl) :
      Edit p { p with major, minor, imports, types }
  /-- Two neighbouring bodies change places, which are for different callables. -/
  | swap {p : Program} {before after : List Body} {b b' : Body} :
      p.bodies = before ++ b :: b' :: after → b.callable ≠ b'.callable →
      Edit p { p with bodies := before ++ b' :: b :: after }
  /-- A body is left out that comes after another one for the same callable. -/
  | shadowed {p : Program} {before after : List Body} {b : Body} :
      p.bodies = before ++ b :: after → b.callable ∈ before.map Body.callable →
      Edit p { p with bodies := before ++ after }

/-- A change that is not seen leaves the code as it is. -/
theorem Edit.sameCode (h : p.Edit q) : p.SameCode q := by
  cases h with
  | heading major minor imports types => exact ⟨rfl, fun _ => rfl⟩
  | @swap before after b b' hbodies hne =>
    refine ⟨rfl, fun index => ?_⟩
    have hfind : (b :: b' :: after).find? (fun body => decide (body.callable = index)) =
        (b' :: b :: after).find? (fun body => decide (body.callable = index)) := by
      by_cases hb : b.callable = index
      · have hb' : b'.callable ≠ index := fun h => hne (hb.trans h.symm)
        simp [hb, hb']
      · simp [hb, List.find?_cons]
    simp only [Program.body?, hbodies, List.find?_append, hfind]
  | @shadowed before after b hbodies hshadowed =>
    refine ⟨rfl, fun index => ?_⟩
    simp only [Program.body?, hbodies, List.find?_append]
    by_cases hb : b.callable = index
    · -- the search is over before it comes to the body
      obtain ⟨first, hmem, hfirst⟩ := List.mem_map.mp hshadowed
      have hfound : (before.find? fun body => decide (body.callable = index)).isSome := by
        rw [List.find?_isSome]
        exact ⟨first, hmem, by simp [hfirst, hb]⟩
      obtain ⟨found, hfound⟩ := Option.isSome_iff_exists.mp hfound
      simp only [hfound, Option.some_or]
    · simp [hb]

/-! ## 3. All programs with the same code

Two programs with the same code are brought to the same form: shadowed bodies are left out, and then
one list of bodies is a permutation of the other. -/

/-- The bodies that are not shadowed, by those before them or by the given callables. -/
def firstBodies (seen : List UInt16) : List Body → List Body
  | [] => []
  | b :: rest =>
    if b.callable ∈ seen then firstBodies seen rest
    else b :: firstBodies (b.callable :: seen) rest

/-- The program without the bodies that are shadowed. -/
def pruned (p : Program) : Program :=
  { p with bodies := firstBodies [] p.bodies }

/-- A chain of changes that are not seen, in either direction. -/
abbrev Edited : Program → Program → Prop :=
  Relation.EqvGen Edit

theorem Edited.sameCode (h : p.Edited q) : p.SameCode q := by
  induction h with
  | rel _ _ hedit => exact hedit.sameCode
  | refl p => exact .refl p
  | symm _ _ _ ih => exact ih.symm
  | trans _ _ _ _ _ ih ih' => exact ih.trans ih'

/-- Shadowed bodies can be left out one after another. -/
theorem edited_firstBodies (p : Program) (before rest : List Body) (seen : List UInt16)
    (hseen : ∀ index, index ∈ seen ↔ index ∈ before.map Body.callable) :
    Edited { p with bodies := before ++ rest }
      { p with bodies := before ++ firstBodies seen rest } := by
  induction rest generalizing before seen with
  | nil => exact .refl _
  | cons b rest ih =>
    unfold firstBodies
    split
    · rename_i hb
      exact .trans _ _ _ (.rel _ _ (.shadowed rfl ((hseen _).mp hb))) (ih before seen hseen)
    · have hlonger := ih (before ++ [b]) (b.callable :: seen) (by simp [hseen, or_comm])
      simpa using hlonger

theorem edited_pruned (p : Program) : p.Edited p.pruned :=
  edited_firstBodies p [] p.bodies [] (by simp)

theorem callable_firstBodies (bodies : List Body) (seen : List UInt16) :
    ((firstBodies seen bodies).map Body.callable).Nodup ∧
      ∀ b ∈ firstBodies seen bodies, b.callable ∉ seen := by
  induction bodies generalizing seen with
  | nil => simp [firstBodies]
  | cons b rest ih =>
    unfold firstBodies
    split
    · exact ih seen
    · rename_i hb
      obtain ⟨hnodup, hnotSeen⟩ := ih (b.callable :: seen)
      refine ⟨?_, ?_⟩
      · rw [List.map_cons, List.nodup_cons]
        refine ⟨fun hmem => ?_, hnodup⟩
        obtain ⟨b', hb', hsame⟩ := List.mem_map.mp hmem
        exact hnotSeen b' hb' (by simp [hsame])
      · intro b' hmem
        rcases List.mem_cons.mp hmem with rfl | hmem
        · exact hb
        · exact fun hseen => hnotSeen b' hmem (List.mem_cons_of_mem _ hseen)

theorem nodup_pruned (p : Program) : (p.pruned.bodies.map Body.callable).Nodup :=
  (callable_firstBodies p.bodies []).1

/-- Where no body is shadowed, every one is found. -/
theorem mem_bodies_iff (h : (p.bodies.map Body.callable).Nodup) (b : Body) :
    b ∈ p.bodies ↔ p.body? b.callable = some b := by
  constructor
  · intro hmem
    cases hfind : p.body? b.callable with
    | none =>
      have hnone := List.find?_eq_none.mp hfind b hmem
      simp at hnone
    | some b' =>
      have hmem' : b' ∈ p.bodies := List.mem_of_find?_eq_some hfind
      rw [List.inj_on_of_nodup_map h hmem' hmem (callable_of_body? hfind)]
  · intro hfind
    exact List.mem_of_find?_eq_some hfind

/-- Bodies of different callables can be brought into any order. -/
theorem edited_of_perm (p : Program) {bodies bodies' : List Body} (h : bodies.Perm bodies')
    (hnodup : (bodies.map Body.callable).Nodup) (before : List Body) :
    Edited { p with bodies := before ++ bodies } { p with bodies := before ++ bodies' } := by
  induction h generalizing before with
  | nil => exact .refl _
  | cons b _ ih =>
    rw [List.map_cons, List.nodup_cons] at hnodup
    simpa using ih hnodup.2 (before ++ [b])
  | swap b b' rest =>
    have hne : b'.callable ≠ b.callable := by
      intro hsame
      simp [hsame] at hnodup
    exact .rel _ _ (.swap rfl hne)
  | trans hperm _ ih ih' =>
    exact .trans _ _ _ (ih hnodup before) (ih' ((hperm.map _).nodup_iff.mp hnodup) before)

/-- **Programs have the same code exactly if changes that are not seen lead from one to the other.** -/
theorem sameCode_iff : p.SameCode q ↔ p.Edited q := by
  refine ⟨fun h => ?_, Edited.sameCode⟩
  -- what is left of both programs is found in the same way, so it is the same but for the order
  have hsame : p.pruned.SameCode q.pruned :=
    p.edited_pruned.sameCode.symm.trans (h.trans q.edited_pruned.sameCode)
  have hperm : p.pruned.bodies.Perm q.pruned.bodies := by
    refine (List.perm_ext_iff_of_nodup p.nodup_pruned.of_map q.nodup_pruned.of_map).mpr fun b => ?_
    rw [mem_bodies_iff p.nodup_pruned, mem_bodies_iff q.nodup_pruned, hsame.body?]
  have hheading : p.pruned.Edited { q.pruned with bodies := p.pruned.bodies } := by
    have hedit := Edit.heading p.pruned q.major q.minor q.imports q.types
    rw [show p.pruned.constants = q.constants from h.constants] at hedit
    exact .rel _ _ hedit
  have horder : Edited { q.pruned with bodies := p.pruned.bodies } q.pruned :=
    edited_of_perm q.pruned hperm p.nodup_pruned []
  exact p.edited_pruned.trans _ _ _ (hheading.trans _ _ _ (horder.trans _ _ _ q.edited_pruned.symm))

end Program

/-! ## 4. Runs -/

namespace Machine

variable {σ : Type} {m₁ m₂ : Machine σ}

/-- Machines with the same settings and the same host, for programs with the same code. -/
structure RunsAlike (m₁ m₂ : Machine σ) : Prop where
  settings : m₁.settings = m₂.settings
  host : m₁.host = m₂.host
  program : m₁.program.SameCode m₂.program

namespace RunsAlike

theorem literal (h : m₁.RunsAlike m₂) : m₁.literal = m₂.literal := by
  funext index
  unfold Machine.literal
  rw [m₁.literals_eq, m₂.literals_eq, h.program.constants]

/-- A call is let in by both or by neither, and makes the same activation. -/
theorem activate (h : m₁.RunsAlike m₂) (s : State σ) (index : UInt16) (args : List Value)
    (keep : Bool) (depth : Nat) :
    m₁.activate s index args keep depth = m₂.activate s index args keep depth := by
  unfold Machine.activate
  rw [h.settings, h.program.callee?]

theorem serve (h : m₁.RunsAlike m₂) (s : State σ) (a : Activation) (callers : List Activation)
    (request : Request) : m₁.serve s a callers request = m₂.serve s a callers request := by
  cases request with
  | call index args keep => simp only [Machine.serve, h.activate]
  | native id args => simp only [Machine.serve, h.host]
  | _ => rfl

/-- **The machines do the same in one step.** -/
theorem step (h : m₁.RunsAlike m₂) (c : Config σ) : m₁.step c = m₂.step c := by
  have hnext : m₁.next c = m₂.next c := by
    unfold next
    rw [h.literal]
  cases hn : m₂.next c with
  | ok request f => rw [step_of_next hn, step_of_next (hnext.trans hn), h.serve]
  | error trap f => rw [step_of_next_error hn, step_of_next_error (hnext.trans hn)]

/-- **The machines do the same for any number of steps.** -/
theorem complete (h : m₁.RunsAlike m₂) (fuel : Nat) (r : StepResult σ) :
    m₁.complete fuel r = m₂.complete fuel r := by
  induction fuel generalizing r with
  | zero => cases r <;> rfl
  | succ fuel ih =>
    cases r with
    | running c => rw [complete_succ_running, complete_succ_running, h.step, ih]
    | finished o s => rfl

theorem start (h : m₁.RunsAlike m₂) (s : State σ) (index : UInt16) (args : List Value) :
    m₁.start s index args = m₂.start s index args := by
  unfold Machine.start
  rw [h.activate]

/-- The entry method is found among the constants. -/
theorem startEntry (h : m₁.RunsAlike m₂) (s : State σ) : m₁.startEntry s = m₂.startEntry s := by
  unfold Machine.startEntry Machine.entry? Program.methodEndingWith?
  rw [h.settings, h.program.constants]
  split
  · rfl
  · exact h.start _ _ _

end RunsAlike

/-- **A run sees the constants of its program, and the first body of each callable.**  Programs agree
in these exactly if one comes from the other by changes to the version, the imports and the types, to
the order of bodies of different callables, and to bodies that are shadowed.  Then machines that
differ in their programs alone do the same from every state: each invocation, and each run of the entry
method, ends with the same outcome in the same state after the same number of steps, or does not
end. -/
theorem runs_of_sameCode (p q : Program) :
    (p.SameCode q ↔ Relation.EqvGen Program.Edit p q) ∧
    (p.SameCode q → ∀ (settings : Settings) (host : Host σ) (s : State σ) (fuel : Nat),
      (∀ index args,
        ({ program := p, settings, host } : Machine σ).invoke fuel s index args =
          ({ program := q, settings, host } : Machine σ).invoke fuel s index args) ∧
      ({ program := p, settings, host } : Machine σ).runEntry fuel s =
        ({ program := q, settings, host } : Machine σ).runEntry fuel s) := by
  refine ⟨Program.sameCode_iff, fun hcode settings host s fuel => ?_⟩
  have h : RunsAlike (σ := σ) { program := p, settings, host } { program := q, settings, host } :=
    ⟨rfl, rfl, hcode⟩
  refine ⟨fun index args => ?_, ?_⟩
  · rw [invoke_eq_complete, invoke_eq_complete, h.start, h.complete]
  · rw [runEntry_eq_complete, runEntry_eq_complete, h.startEntry, h.complete]

/-- A method that returns what another one returns. -/
def callsOther : Body :=
  ⟨0, 0, (Instr.assemble [.call 1 0, .ret]).toArray⟩

/-- The other method. -/
def answers : Body :=
  ⟨1, 0, (Instr.assemble [.loadTrue, .ret]).toArray⟩

/-- A second body for the other method, which would not end. -/
def loops : Body :=
  ⟨1, 5, (Instr.assemble [.jmp 0]).toArray⟩

/-- The two methods, of which the first is the entry method. -/
def plainProgram : Program where
  major := 1
  minor := 0
  imports := []
  constants := #[.named 0 .method "A::Main()", .named 1 .method "A::Answer()"]
  types := []
  bodies := [callsOther, answers]

/-- The two methods the other way round and the second body, with another heading. -/
def clutteredProgram : Program :=
  { plainProgram with
    major := 2, minor := 7, imports := ["System"], types := [⟨0, [⟨1, 3⟩]⟩]
    bodies := [answers, callsOther, loops] }

/-- Leaving out the second body, putting the methods in order and changing the heading leads from the
one to the other, so both run to the same end. -/
theorem clutteredProgram_runs :
    plainProgram ≠ clutteredProgram ∧
    ∃ s, ({ program := plainProgram, settings := .default, host := (ofBodies []).host } :
        Machine Unit).runEntry 6 (.initial ()) = some (.ok (.bool true), s) ∧
      ({ program := clutteredProgram, settings := .default, host := (ofBodies []).host } :
        Machine Unit).runEntry 6 (.initial ()) = some (.ok (.bool true), s) := by
  have hshadowed : clutteredProgram.Edit
      { clutteredProgram with bodies := [answers, callsOther] ++ [] } :=
    .shadowed rfl (by decide +kernel)
  have hswap : Program.Edit { clutteredProgram with bodies := [answers, callsOther] }
      { clutteredProgram with bodies := [] ++ [callsOther, answers] } :=
    .swap rfl (by decide +kernel)
  have hheading : Program.Edit { clutteredProgram with bodies := [callsOther, answers] }
      plainProgram :=
    .heading _ 1 0 [] []
  have hedits : Relation.EqvGen Program.Edit clutteredProgram plainProgram :=
    .trans _ _ _ (.rel _ _ hshadowed) (.trans _ _ _ (.rel _ _ hswap) (.rel _ _ hheading))
  obtain ⟨hiff, hruns⟩ := runs_of_sameCode (σ := Unit) plainProgram clutteredProgram
  have hsame := (hruns (hiff.mpr hedits.symm) .default (ofBodies []).host (.initial ()) 6).2
  have hplain : (({ program := plainProgram, settings := .default, host := (ofBodies []).host } :
      Machine Unit).runEntry 6 (.initial ())).map Prod.fst = some (.ok (.bool true)) := by
    decide +kernel
  obtain ⟨⟨result, s⟩, hrun, rfl⟩ := Option.map_eq_some_iff.mp hplain
  exact ⟨by decide +kernel, s, hrun, hsame ▸ hrun⟩

end Machine

end BytecodeVm
