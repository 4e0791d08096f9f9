/- # Comparing values

Two values are compared in two ways.  Equality goes by kind, by number, by text and by place; order
goes by text as soon as a string is involved, by number otherwise, and is not there for anything
else.  The six comparing instructions are coherent all the same.

* `Instr.Answers`: what a comparing instruction puts in the place of two values;
* `Heap.compare_of_string`, `Heap.compare_of_numbers`, `Heap.compare_cases`: what the order of two
  values goes by;
* `Heap.compare_swap`, `Heap.compare_then`: reversing an order, and following one by another;
* `Instr.comparisons_coherent`: how the six instructions hang together.
-/
import BytecodeVm.Machine.Execute
import BytecodeVm.Proofs.Stateful

namespace BytecodeVm

open Stateful

/-! ## 1. Orders -/

/-- One order points up and the other one down, so that nothing follows from both together. -/
def Opposed (o o' : Ordering) : Prop :=
  o ≠ .eq ∧ o' = o.swap

instance (o o' : Ordering) : Decidable (Opposed o o') :=
  inferInstanceAs (Decidable (o ≠ .eq ∧ o' = o.swap))

/-- **Following one order by another:** the second decides where the first does not. -/
theorem then_of_not_opposed {α : Type} {cmp : α → α → Ordering} [Std.TransCmp cmp] {x y z : α}
    (h : ¬ Opposed (cmp x y) (cmp y z)) : cmp x z = (cmp x y).then (cmp y z) := by
  cases hxy : cmp x y with
  | lt =>
    cases hyz : cmp y z with
    | lt => exact Std.TransCmp.lt_trans hxy hyz
    | eq => exact Std.TransCmp.lt_of_lt_of_eq hxy hyz
    | gt => simp [Opposed, hxy, hyz] at h
  | eq =>
    cases hyz : cmp y z with
    | lt => exact Std.TransCmp.lt_of_eq_of_lt hxy hyz
    | eq => exact Std.TransCmp.eq_trans hxy hyz
    | gt => exact Std.TransCmp.gt_of_eq_of_gt hxy hyz
  | gt =>
    cases hyz : cmp y z with
    | lt => simp [Opposed, hxy, hyz] at h
    | eq => exact Std.TransCmp.gt_of_gt_of_eq hxy hyz
    | gt => exact Std.TransCmp.gt_trans hxy hyz

/-- The order of two texts, by code points. -/
def textOrder (s t : String) : Ordering :=
  compareOfLessAndEq s t

instance : Std.TransCmp textOrder :=
  inferInstanceAs (Std.TransOrd String)

instance : Std.LawfulEqCmp textOrder :=
  inferInstanceAs (Std.LawfulEqOrd String)

/-! ## 2. Numbers -/

namespace Binary64

variable {x y z : Binary64}

/-- The order of two numbers that are no NaN. -/
def keyOrder (x y : Binary64) : Ordering :=
  compare x.key y.key

instance : Std.TransCmp keyOrder where
  eq_swap := Std.OrientedOrd.eq_swap
  isLE_trans := Std.TransOrd.isLE_trans

theorem keyOrder_eq_iff : keyOrder x y = .eq ↔ x.key = y.key :=
  Std.LawfulEqOrd.compare_eq_iff_eq

theorem partialCompare?_eq_none_iff : x.partialCompare? y = none ↔ x.isNaN ∨ y.isNaN := by
  simp only [partialCompare?, Bool.or_eq_true, ite_eq_left_iff, reduceCtorEq, imp_false, not_not]

/-- **The order of two numbers:** there is none if one of them is a NaN. -/
theorem partialCompare?_eq_some_iff {o : Ordering} :
    x.partialCompare? y = some o ↔ ¬ (x.isNaN ∨ y.isNaN) ∧ keyOrder x y = o := by
  simp [partialCompare?, keyOrder]

theorem partialCompare?_swap (x y : Binary64) :
    y.partialCompare? x = (x.partialCompare? y).map Ordering.swap := by
  cases hxy : x.partialCompare? y with
  | none => rwa [Option.map_none, partialCompare?_eq_none_iff, or_comm, ← partialCompare?_eq_none_iff]
  | some o =>
    obtain ⟨hnan, rfl⟩ := partialCompare?_eq_some_iff.mp hxy
    rw [Option.map_some, partialCompare?_eq_some_iff, or_comm]
    exact ⟨hnan, Std.OrientedCmp.eq_swap⟩

theorem partialCompare?_then {o o' : Ordering} (hxy : x.partialCompare? y = some o)
    (hyz : y.partialCompare? z = some o') (h : ¬ Opposed o o') :
    x.partialCompare? z = some (o.then o') := by
  obtain ⟨hnan, rfl⟩ := partialCompare?_eq_some_iff.mp hxy
  obtain ⟨hnan', rfl⟩ := partialCompare?_eq_some_iff.mp hyz
  refine partialCompare?_eq_some_iff.mpr ⟨?_, then_of_not_opposed h⟩
  exact fun hxz => hxz.elim (fun hx => hnan (.inl hx)) fun hz => hnan' (.inr hz)

/-- Numbers are equal just if they are ordered as such. -/
theorem numericallyEqual_iff : x.numericallyEqual y ↔ x.partialCompare? y = some .eq := by
  rw [partialCompare?_eq_some_iff, keyOrder_eq_iff]
  simp [numericallyEqual]

end Binary64

/-! ## 3. Equality -/

namespace Value

/-- The value is a number by its kind only. -/
def IsNaN (v : Value) : Prop :=
  ∃ x, v = .number x ∧ x.isNaN

/-- **Equality** is that of the logic, except on numbers. -/
theorem equal_iff {a b : Value} : a.equal b ↔
    (∃ x y, a = .number x ∧ b = .number y ∧ x.partialCompare? y = some .eq) ∨
      a.kind ≠ .number ∧ a = b := by
  cases a <;> cases b <;> simp [equal, kind, Binary64.numericallyEqual_iff]

theorem exists_number {v : Value} (h : v.kind = .number) : ∃ x, v = .number x := by
  cases v with
  | number x => exact ⟨x, rfl⟩
  | null | bool b | string text | object place | array place => cases h

theorem exists_string {v : Value} (h : v.isString) : ∃ text, v = .string text := by
  cases v with
  | string text => exact ⟨text, rfl⟩
  | null | bool b | number x | object place | array place => cases h

theorem equal_comm (a b : Value) : a.equal b = b.equal a := by
  refine Bool.eq_iff_iff.mpr ?_
  have hsymm : ∀ {a b : Value}, a.equal b → b.equal a := by
    intro a b h
    rw [equal_iff] at h ⊢
    rcases h with ⟨x, y, rfl, rfl, h⟩ | ⟨hkind, rfl⟩
    · refine .inl ⟨y, x, rfl, rfl, ?_⟩
      rw [Binary64.partialCompare?_swap, h]
      rfl
    · exact .inr ⟨hkind, rfl⟩
  exact ⟨hsymm, hsymm⟩

theorem equal_trans {a b c : Value} (hab : a.equal b) (hbc : b.equal c) : a.equal c := by
  rw [equal_iff] at hab hbc ⊢
  rcases hab with ⟨x, y, rfl, rfl, hxy⟩ | ⟨hkind, rfl⟩
  · rcases hbc with ⟨y', z, hy, rfl, hyz⟩ | ⟨hkind, -⟩
    · obtain rfl : y = y' := Value.number.inj hy
      exact .inl ⟨x, z, rfl, rfl, Binary64.partialCompare?_then hxy hyz (by simp [Opposed])⟩
    · exact absurd rfl hkind
  · exact hbc

theorem equal_self_iff (a : Value) : a.equal a ↔ ¬ a.IsNaN := by
  rw [equal_iff]
  cases a with
  | number x =>
    have hself : x.partialCompare? x = some .eq ↔ ¬ x.isNaN := by
      rw [Binary64.partialCompare?_eq_some_iff, Binary64.keyOrder_eq_iff, or_self]
      exact and_iff_left rfl
    simpa [kind, IsNaN] using hself
  | null | bool b | string text | object place | array place => simp [kind, IsNaN]

end Value

/-! ## 4. Order -/

namespace Heap

variable {h : Heap} {context : Context} {a b c : Value} {o o' : Ordering}

/-- With a string among them, values are ordered by their texts. -/
theorem compare_of_string (hs : a.isString ∨ b.isString) :
    h.compare context a b = .ok (some (textOrder (h.render a) (h.render b))) := by
  rw [compare, if_pos (by simpa using hs)]
  rfl

/-- Numbers are ordered as such. -/
theorem compare_of_numbers (x y : Binary64) :
    h.compare context (.number x) (.number y) = .ok (x.partialCompare? y) :=
  rfl

/-- **When two values can be ordered:** one of them is a string, or both are numbers. -/
theorem compare_cases (h : Heap) (context : Context) (a b : Value) :
    (a.isString ∨ b.isString) ∨ (∃ x y, a = .number x ∧ b = .number y) ∨
      (¬ a.isString ∧ ¬ b.isString ∧ ¬ (a.kind = .number ∧ b.kind = .number) ∧
        ∃ trap, h.compare context a b = .error trap) := by
  cases a <;> cases b <;>
    simp [Value.isString, Value.kind, compare, Value.asNumber, bind, Except.bind]

theorem compare_error_iff : (∃ trap, h.compare context a b = .error trap) ↔
    (¬ a.isString ∧ ¬ b.isString) ∧ ¬ (a.kind = .number ∧ b.kind = .number) := by
  rcases compare_cases h context a b with hs | ⟨x, y, rfl, rfl⟩ | ⟨ha, hb, hkinds, htrap⟩
  · simp only [compare_of_string hs, reduceCtorEq, exists_false, false_iff, not_and]
    exact fun hnone => absurd hs (not_or.mpr hnone)
  · simp [compare_of_numbers, Value.kind]
  · exact ⟨fun _ => ⟨⟨ha, hb⟩, hkinds⟩, fun _ => htrap⟩

/-- **Reversing an order.** -/
theorem compare_swap {order : Option Ordering} (hab : h.compare context a b = .ok order) :
    h.compare context b a = .ok (order.map Ordering.swap) := by
  rcases compare_cases h context a b with hs | ⟨x, y, rfl, rfl⟩ | ⟨-, -, -, trap, htrap⟩
  · rw [compare_of_string hs] at hab
    rw [compare_of_string hs.symm, ← Except.ok.inj hab]
    exact congrArg (fun o => Except.ok (some o)) Std.OrientedCmp.eq_swap
  · rw [compare_of_numbers] at hab
    rw [compare_of_numbers, Binary64.partialCompare?_swap, Except.ok.inj hab]
  · rw [htrap] at hab
    cases hab

/-- Who asks does not matter, if there is an answer. -/
theorem compare_context {order : Option Ordering} (hab : h.compare context a b = .ok order)
    (context' : Context) : h.compare context' a b = .ok order := by
  rcases compare_cases h context a b with hs | ⟨x, y, rfl, rfl⟩ | ⟨-, -, -, trap, htrap⟩
  · rw [compare_of_string hs] at hab ⊢
    exact hab
  · exact hab
  · rw [htrap] at hab
    cases hab

/-- **Following one order by another,** between three numbers, or three values two of which at least
are strings. -/
theorem compare_then (hkinds : (a.kind = .number ∧ b.kind = .number ∧ c.kind = .number) ∨
      (a.isString ∧ b.isString) ∨ (a.isString ∧ c.isString) ∨ (b.isString ∧ c.isString))
    (hab : h.compare context a b = .ok (some o)) (hbc : h.compare context b c = .ok (some o'))
    (hopposed : ¬ Opposed o o') : h.compare context a c = .ok (some (o.then o')) := by
  rcases hkinds with ⟨ha, hb, hc⟩ | hstrings
  · obtain ⟨x, rfl⟩ := Value.exists_number ha
    obtain ⟨y, rfl⟩ := Value.exists_number hb
    obtain ⟨z, rfl⟩ := Value.exists_number hc
    rw [compare_of_numbers] at hab hbc ⊢
    exact congrArg Except.ok
      (Binary64.partialCompare?_then (Except.ok.inj hab) (Except.ok.inj hbc) hopposed)
  · rw [compare_of_string (by tauto)] at hab hbc ⊢
    obtain rfl := Option.some.inj (Except.ok.inj hab)
    obtain rfl := Option.some.inj (Except.ok.inj hbc)
    exact congrArg (fun o => Except.ok (some o)) (then_of_not_opposed hopposed)

/-- There is no order just between two numbers one of which is a NaN. -/
theorem compare_eq_none_iff (context : Context) : h.compare context a b = .ok none ↔
    (a.kind = .number ∧ b.kind = .number) ∧ (a.IsNaN ∨ b.IsNaN) := by
  rcases compare_cases h context a b with hs | ⟨x, y, rfl, rfl⟩ | ⟨-, -, hkinds, trap, htrap⟩
  · have hkinds : ¬ (a.kind = .number ∧ b.kind = .number) := by
      rintro ⟨ha, hb⟩
      obtain ⟨x, rfl⟩ := Value.exists_number ha
      obtain ⟨y, rfl⟩ := Value.exists_number hb
      rcases hs with hs | hs <;> cases hs
    simp [compare_of_string hs, hkinds]
  · simp [compare_of_numbers, Binary64.partialCompare?_eq_none_iff, Value.kind, Value.IsNaN]
  · simp [htrap, hkinds]

/-- **Equal values are ordered as such,** if they are ordered at all. -/
theorem compare_of_equal {order : Option Ordering} (heq : a.equal b)
    (hab : h.compare context a b = .ok order) : order = some .eq := by
  rcases Value.equal_iff.mp heq with ⟨x, y, rfl, rfl, hxy⟩ | ⟨hkind, rfl⟩
  · exact (Except.ok.inj hab).symm.trans hxy
  · rcases compare_cases h context a a with hs | ⟨x, -, rfl, -⟩ | ⟨-, -, -, trap, htrap⟩
    · rw [compare_of_string hs] at hab
      exact (Except.ok.inj hab).symm.trans (congrArg some Std.ReflCmp.compare_self)
    · exact absurd rfl hkind
    · rw [htrap] at hab
      cases hab

/-- Two strings, or two numbers, are equal just if they are ordered as such. -/
theorem compare_eq_iff_equal (context : Context)
    (hkinds : (a.isString ∧ b.isString) ∨ (a.kind = .number ∧ b.kind = .number)) :
    h.compare context a b = .ok (some .eq) ↔ a.equal b := by
  rcases hkinds with ⟨ha, hb⟩ | ⟨ha, hb⟩
  · obtain ⟨s, rfl⟩ := Value.exists_string ha
    obtain ⟨t, rfl⟩ := Value.exists_string hb
    rw [compare_of_string (.inl rfl), Except.ok.injEq, Option.some.injEq,
      Std.LawfulEqCmp.compare_eq_iff_eq]
    simp [render, Value.equal]
  · obtain ⟨x, rfl⟩ := Value.exists_number ha
    obtain ⟨y, rfl⟩ := Value.exists_number hb
    rw [compare_of_numbers, Except.ok.injEq, ← Binary64.numericallyEqual_iff]
    rfl

end Heap

/-! ## 5. The six instructions -/

namespace Instr

/-- Executed on a stack that holds the two values, the second one on top, the instruction replaces
them by the given truth value, and does nothing else to its frame. -/
def Answers (i : Instr) (heap : Heap) (a b : Value) (answer : Bool) : Prop :=
  ∀ (literal : UInt16 → Except Trap Value) (f : Frame) (stack : OperandStack),
    f.stack = b :: a :: stack →
    i.execute literal heap f = .ok .proceed { f with stack := .bool answer :: stack }

/-- The orders that an instruction asks for, if it compares by order. -/
def relation? : Instr → Option (Ordering → Bool)
  | clt => some Ordering.isLT
  | cle => some Ordering.isLE
  | cgt => some Ordering.isGT
  | cge => some Ordering.isGE
  | _ => none

variable {i : Instr} {heap : Heap} {a b : Value} {answer answer' : Bool}

theorem Answers.unique (h : i.Answers heap a b answer) (h' : i.Answers heap a b answer') :
    answer = answer' := by
  have hrun := h (fun _ => .ok .null) { (default : Frame) with stack := [b, a] } [] rfl
  rw [h' (fun _ => .ok .null) { (default : Frame) with stack := [b, a] } [] rfl] at hrun
  cases hrun
  rfl

theorem equality_run (wanted : Bool) {f : Frame} {stack : OperandStack} (op : Opcode)
    (h : f.stack = b :: a :: stack) :
    equality op wanted f = .ok .proceed { f with stack := .bool (a.equal b == wanted) :: stack } := by
  obtain ⟨code, ip, opOffset, slots, _⟩ := f
  cases h
  rfl

theorem relation_run {op : Opcode} {order : Option Ordering}
    (horder : heap.compare (.instruction op) a b = .ok order) (holds : Ordering → Bool) {f : Frame}
    {stack : OperandStack} (h : f.stack = b :: a :: stack) :
    relation heap op holds f =
      .ok .proceed { f with stack := .bool (order.any holds) :: stack } := by
  obtain ⟨code, ip, opOffset, slots, _⟩ := f
  cases h
  simp only [relation, bind, EStateM.bind, Frame.pop, horder]
  rfl

theorem relation_run_error {op : Opcode} {trap : Trap}
    (htrap : heap.compare (.instruction op) a b = .error trap) (holds : Ordering → Bool) {f : Frame}
    {stack : OperandStack} (h : f.stack = b :: a :: stack) :
    relation heap op holds f = .error trap { f with stack } := by
  obtain ⟨code, ip, opOffset, slots, _⟩ := f
  cases h
  simp only [relation, bind, EStateM.bind, Frame.pop, htrap]
  rfl

theorem ceq_answers (heap : Heap) (a b : Value) : ceq.Answers heap a b (a.equal b) := by
  intro literal f stack hstack
  refine (equality_run true ceq.opcode hstack).trans ?_
  rw [beq_true]

theorem cne_answers (heap : Heap) (a b : Value) : cne.Answers heap a b (!a.equal b) := by
  intro literal f stack hstack
  refine (equality_run false cne.opcode hstack).trans ?_
  rw [beq_false]

theorem execute_of_relation? {holds : Ordering → Bool} (h : i.relation? = some holds)
    (literal : UInt16 → Except Trap Value) (heap : Heap) :
    i.execute literal heap = relation heap i.opcode holds := by
  cases i with
  | clt | cle | cgt | cge =>
    cases h
    rfl
  | _ => cases h

/-- **A comparison by order** answers if the values can be ordered, and it answers for their order.
-/
theorem answers_iff {holds : Ordering → Bool} (h : i.relation? = some holds) (context : Context) :
    i.Answers heap a b answer ↔
      ∃ order, heap.compare context a b = .ok order ∧ answer = order.any holds := by
  have hanswers : ∀ {order context}, heap.compare context a b = .ok order →
      i.Answers heap a b (order.any holds) := by
    intro order context horder literal f stack hstack
    rw [execute_of_relation? h]
    exact relation_run (Heap.compare_context horder _) holds hstack
  constructor
  · intro hanswer
    cases horder : heap.compare (.instruction i.opcode) a b with
    | ok order => exact ⟨order, Heap.compare_context horder _, hanswer.unique (hanswers horder)⟩
    | error trap =>
      have hrun := hanswer (fun _ => .ok .null) { (default : Frame) with stack := [b, a] } [] rfl
      rw [execute_of_relation? h, relation_run_error horder holds rfl] at hrun
      cases hrun
  · rintro ⟨order, horder, rfl⟩
    exact hanswers horder

/-- One instruction answers for two values as another one does the other way round, if the orders
that they ask for are each other's reverse. -/
theorem answers_swap {i j : Instr} {holds holds' : Ordering → Bool} (hi : i.relation? = some holds)
    (hj : j.relation? = some holds') (hswap : ∀ o : Ordering, holds o = holds' o.swap) :
    i.Answers heap a b answer ↔ j.Answers heap b a answer := by
  rw [answers_iff hi .host, answers_iff hj .host]
  constructor
  · rintro ⟨order, horder, rfl⟩
    refine ⟨_, Heap.compare_swap horder, ?_⟩
    cases order with
    | none => rfl
    | some o => exact hswap o
  · rintro ⟨order, horder, rfl⟩
    refine ⟨_, Heap.compare_swap horder, ?_⟩
    cases order with
    | none => rfl
    | some o => exact (congrArg holds' o.swap_swap).symm.trans (hswap o.swap).symm

/-- Of two values that are ordered, exactly one is true: the first is less, or greater, or both less
or equal and greater or equal. -/
theorem count_any_some (o : Ordering) : [(some o).any Ordering.isLT, (some o).any Ordering.isGT,
    (some o).any Ordering.isLE && (some o).any Ordering.isGE].count true = 1 := by
  cases o <;> rfl

/-- **The six comparisons are coherent.**  Take any values, and the heap that their references lead
to.

* Equality is answered for all values; it is symmetric and transitive, and reflexive but for a NaN;
  and the other instruction answers the contrary.
* Two values cannot be ordered just if neither is a string and not both are numbers.  If they can
  be, then the other way round too, to the reverse; so greater is less the other way round, and the
  same with equality included.
* Of two values that can be ordered, exactly one is true: the first is less, or it is greater, or it
  is both less or equal and greater or equal; but with a NaN among two numbers, all four
  instructions answer that it is false.
* Equal values are ordered as equal, if they can be ordered; and two strings, or two numbers, that
  are ordered as equal are equal.
* From two orders that do not point in opposite directions a third one follows, between three
  numbers and between three values of which at most one is not a string. -/
theorem comparisons_coherent (heap : Heap) (a b c : Value) :
    (∃ same, ceq.Answers heap a b same ∧ cne.Answers heap a b (!same) ∧
      ceq.Answers heap b a same) ∧
    (ceq.Answers heap a b true → ceq.Answers heap b c true → ceq.Answers heap a c true) ∧
    (ceq.Answers heap a a true ↔ ¬ a.IsNaN) ∧
    (∀ context, (∃ trap, heap.compare context a b = .error trap) ↔
      (¬ a.isString ∧ ¬ b.isString) ∧ ¬ (a.kind = .number ∧ b.kind = .number)) ∧
    (∀ context order, heap.compare context a b = .ok order →
      heap.compare context b a = .ok (order.map Ordering.swap)) ∧
    (∀ answer, cgt.Answers heap a b answer ↔ clt.Answers heap b a answer) ∧
    (∀ answer, cge.Answers heap a b answer ↔ cle.Answers heap b a answer) ∧
    (∀ context order, heap.compare context a b = .ok order → ∃ lt le gt ge,
      (clt.Answers heap a b lt ∧ cle.Answers heap a b le ∧ cgt.Answers heap a b gt ∧
        cge.Answers heap a b ge) ∧
      ((a.kind = .number ∧ b.kind = .number) ∧ (a.IsNaN ∨ b.IsNaN) →
        [lt, le, gt, ge] = [false, false, false, false]) ∧
      (¬ ((a.kind = .number ∧ b.kind = .number) ∧ (a.IsNaN ∨ b.IsNaN)) →
        [lt, gt, le && ge].count true = 1)) ∧
    (∀ context order, ceq.Answers heap a b true → heap.compare context a b = .ok order →
      order = some .eq) ∧
    (∀ context, (a.isString ∧ b.isString) ∨ (a.kind = .number ∧ b.kind = .number) →
      (heap.compare context a b = .ok (some .eq) ↔ ceq.Answers heap a b true)) ∧
    ∀ context o o', (a.kind = .number ∧ b.kind = .number ∧ c.kind = .number) ∨
        (a.isString ∧ b.isString) ∨ (a.isString ∧ c.isString) ∨ (b.isString ∧ c.isString) →
      heap.compare context a b = .ok (some o) → heap.compare context b c = .ok (some o') →
      ¬ Opposed o o' → heap.compare context a c = .ok (some (o.then o')) := by
  have hceq : ∀ a b, ceq.Answers heap a b true ↔ a.equal b := by
    intro a b
    refine ⟨fun h => (ceq_answers heap a b).unique h, fun h => ?_⟩
    rw [← h]
    exact ceq_answers heap a b
  refine ⟨?_, ?_, ?_, ?_, ?_, ?_, ?_, ?_, ?_, ?_, ?_⟩
  · refine ⟨a.equal b, ceq_answers heap a b, cne_answers heap a b, ?_⟩
    rw [Value.equal_comm]
    exact ceq_answers heap b a
  · rw [hceq, hceq, hceq]
    exact Value.equal_trans
  · rw [hceq]
    exact Value.equal_self_iff a
  · exact fun context => Heap.compare_error_iff
  · exact fun context order => Heap.compare_swap
  · exact fun answer => answers_swap rfl rfl (by decide)
  · exact fun answer => answers_swap rfl rfl (by decide)
  · intro context order horder
    have hanswers : ∀ {i : Instr} {holds : Ordering → Bool}, i.relation? = some holds →
        i.Answers heap a b (order.any holds) :=
      fun hi => (answers_iff hi context).mpr ⟨order, horder, rfl⟩
    refine ⟨_, _, _, _, ⟨hanswers rfl, hanswers rfl, hanswers rfl, hanswers rfl⟩, ?_, ?_⟩
    · intro hnan
      rw [(Heap.compare_eq_none_iff context).mpr hnan] at horder
      rw [← Except.ok.inj horder]
      rfl
    · intro hnan
      cases order with
      | none => exact absurd ((Heap.compare_eq_none_iff context).mp horder) hnan
      | some o => exact count_any_some o
  · intro context order heq
    exact Heap.compare_of_equal ((hceq a b).mp heq)
  · intro context hkinds
    rw [hceq]
    exact Heap.compare_eq_iff_equal context hkinds
  · exact fun context o o' => Heap.compare_then

/-- Two objects of one type. -/
def twoPoints : Heap :=
  (Heap.empty.allocate 7).allocate 7

/-- Different objects of one type are ordered as equal texts are once a string is involved, but they
are not equal; and a string between two strings is ordered by both. -/
theorem twoPoints_coherent :
    (∃ same, ceq.Answers twoPoints (.object 0) (.object 1) same ∧
      cne.Answers twoPoints (.object 0) (.object 1) (!same) ∧
      ceq.Answers twoPoints (.object 1) (.object 0) same) ∧
    (∃ trap, twoPoints.compare .host (.object 0) (.object 1) = .error trap) ∧
    twoPoints.compare .host (.object 0) (.string "object#7") = .ok (some .eq) ∧
    twoPoints.compare .host (.string "object#7") (.string "object$") = .ok (some .lt) ∧
    twoPoints.compare .host (.object 0) (.string "object$") = .ok (some .lt) := by
  obtain ⟨hequality, -, -, herror, -⟩ :=
    comparisons_coherent twoPoints (.object 0) (.object 1) .null
  obtain ⟨-, -, -, -, -, -, -, -, -, -, hthen⟩ :=
    comparisons_coherent twoPoints (.object 0) (.string "object#7") (.string "object$")
  have hfirst : twoPoints.compare .host (.object 0) (.string "object#7") = .ok (some .eq) := by
    decide +kernel
  have hsecond : twoPoints.compare .host (.string "object#7") (.string "object$") =
      .ok (some .lt) := by
    decide +kernel
  refine ⟨hequality, (herror .host).mpr (by decide), hfirst, hsecond, ?_⟩
  exact hthen .host _ _ (by decide) hfirst hsecond (by decide)

end Instr

end BytecodeVm
