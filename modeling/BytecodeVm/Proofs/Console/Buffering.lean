/- # Buffering is not noticed

A program that reads from the console cannot tell how its input is buffered.  Two consoles with the
same bytes to come, the same point of failure and the same output answer every list of calls alike:
with the same values and the same traps, after the same bytes, and writing the same.

* `Source.Alike`, `Console.Alike`: streams, and consoles, that differ in their buffering only;
* `Source.takeBytes_respects`, `Source.takeLine_respects`: readings that come to the same on both;
* `Console.call_alike`: a call, on consoles that are alike;
* `Console.replies`: what a list of calls is answered;
* `Console.replies_rebuffered`: the answers under two ways of buffering.
-/
import BytecodeVm.Console.Natives
import BytecodeVm.Proofs.Console.Source
import BytecodeVm.Proofs.Stateful

namespace BytecodeVm

open Stateful

/-! ## 1. Streams -/

namespace Source

variable {stream : List UInt8} {s s' : Source}

/-- Two streams at the same place of the same input, that differ in how they are buffered. -/
structure Alike (stream : List UInt8) (s s' : Source) : Prop where
  rest : s.unread <:+ stream
  unread : s.unread = s'.unread
  failAfter : s.failAfter = s'.failAfter
  shows : s.Shows
  shows' : s'.Shows

theorem Alike.available_eq (h : Alike stream s s') : s.available = s'.available := by
  rw [available, available, h.unread, h.failAfter]

theorem Alike.breaksOff_eq (h : Alike stream s s') : s.breaksOff = s'.breaksOff := by
  rw [breaksOff, breaksOff, h.unread, h.failAfter]

/-- Both streams go on alike, however many looks each of them took. -/
theorem Alike.after (h : Alike stream s s') (n looks looks' : Nat) :
    Alike stream (s.after n looks) (s'.after n looks') where
  rest := (List.drop_suffix n s.unread).trans h.rest
  unread := congrArg (List.drop n) h.unread
  failAfter := congrArg (Option.map (· - n)) h.failAfter
  shows := h.shows
  shows' := h.shows'

theorem Alike.taking (h : Alike stream s s') (bytes : List UInt8) (enough : Bool)
    (looks looks' : Nat) :
    Agree (Alike stream) (s.taking bytes enough looks) (s'.taking bytes enough looks') := by
  simp only [Source.taking, h.breaksOff_eq]
  split
  · exact .ok bytes (h.after _ _ _)
  · exact .error _ (h.after _ _ _)

theorem head_look_respects : Respects (Alike stream) (List.head? <$> look) := by
  intro s s' h
  rw [head_look_eq h.shows, head_look_eq h.shows', h.available_eq, h.breaksOff_eq]
  split
  · exact .error _ (h.after _ _ _)
  · exact .ok _ (h.after _ _ _)

theorem takeBytes_respects (n : Nat) : Respects (Alike stream) (takeBytes n) := by
  intro s s' h
  obtain ⟨looks, heq⟩ := takeBytes_eq h.shows n
  obtain ⟨looks', heq'⟩ := takeBytes_eq h.shows' n
  rw [heq, heq', h.available_eq]
  exact h.taking _ _ _ _

theorem takeLine_respects : Respects (Alike stream) takeLine := by
  intro s s' h
  obtain ⟨looks, heq⟩ := takeLine_eq h.shows
  obtain ⟨looks', heq'⟩ := takeLine_eq h.shows'
  rw [heq, heq', h.available_eq]
  exact h.taking _ _ _ _

end Source

/-! ## 2. Consoles -/

namespace Console

variable {stream : List UInt8} {c c' : Console} {α : Type}

/-- Two consoles at the same place of the same input and with the same output, that differ in how
the input is buffered. -/
structure Alike (stream : List UInt8) (c c' : Console) : Prop where
  source : Source.Alike stream c.source c'.source
  sink : c.sink = c'.sink

theorem onSource_respects {reading : OnSource α} (h : Respects (Source.Alike stream) reading) :
    Respects (Alike stream) (onSource reading) := by
  intro c c' hc
  simp only [onSource]
  rcases (h hc.source).ok_or_error with
    ⟨a, source, source', heq, heq', hsource⟩ | ⟨fault, source, source', heq, heq', hsource⟩
  · simp only [heq, heq']
    exact .ok a ⟨hsource, hc.sink⟩
  · simp only [heq, heq']
    exact .error _ ⟨hsource, hc.sink⟩

theorem onSink_respects (writing : OnSink α) : Respects (Alike stream) (onSink writing) := by
  intro c c' hc
  simp only [onSink, hc.sink]
  cases writing c'.sink with
  | ok a sink => exact .ok a ⟨hc.source, rfl⟩
  | error fault sink => exact .error _ ⟨hc.source, rfl⟩

theorem print_respects (text : String) : Respects (Alike stream) (print text) :=
  (onSink_respects _).bind fun _ => onSink_respects _

theorem printLine_respects (text : String) : Respects (Alike stream) (printLine text) :=
  onSink_respects _

/-- Reading a character looks at the next byte only, whatever else is shown. -/
theorem read_eq : read = (do
    match ← onSource (List.head? <$> Source.look) with
    | none => return ""
    | some first =>
      let bytes ← onSource (Source.takeBytes (sequenceWidth first))
      return (Utf8.decode bytes).getD replacement) := by
  funext c
  simp only [read, onSource, bind, EStateM.bind, Functor.map, EStateM.map]
  cases Source.look c.source with
  | error fault source => rfl
  | ok shown source => cases shown <;> rfl

theorem read_respects : Respects (Alike stream) read := by
  rw [read_eq]
  refine (onSource_respects Source.head_look_respects).bind fun first? => ?_
  cases first? with
  | none => exact .pure _
  | some first =>
    exact (onSource_respects (Source.takeBytes_respects _)).bind fun bytes => .pure _

theorem readLine_respects : Respects (Alike stream) readLine := by
  refine (onSource_respects Source.takeLine_respects).bind fun bytes => ?_
  cases Utf8.decode bytes with
  | none => exact .throw _
  | some line => exact .pure _

theorem readInt_respects : Respects (Alike stream) readInt := by
  refine readLine_respects.bind fun line => ?_
  split
  · exact .pure _
  · split
    · exact .pure _
    · exact .throw _

theorem perform?_respects {heap : Heap} {native : Native} {args : List Value}
    {action : OnConsole Value} (h : perform? heap native args = some action) :
    Respects (Alike stream) action := by
  unfold perform? at h
  split at h
  · cases h
    exact (print_respects _).bind fun _ => .pure _
  · cases h
    exact (printLine_respects _).bind fun _ => .pure _
  · cases h
    exact read_respects.map _
  · cases h
    exact readLine_respects.map _
  · cases h
    exact readInt_respects.map _
  · cases h

/-! ## 3. Calls -/

/-- Two answers to a call that a caller cannot tell apart: the result, the heap and the log are the
same, the same bytes of the input have been consumed, and the same has been written. -/
structure SameReply (stream : List UInt8) (r r' : HostReply Console) : Prop where
  result : r.result = r'.result
  heap : r.heap = r'.heap
  events : r.events = r'.events
  consumed : ∃ bytes, bytes ++ r.state.source.unread = stream ∧
    bytes ++ r'.state.source.unread = stream
  sink : r.state.sink = r'.state.sink

theorem SameReply.of_alike {r r' : HostReply Console} (hresult : r.result = r'.result)
    (hheap : r.heap = r'.heap) (hevents : r.events = r'.events)
    (hstate : Alike stream r.state r'.state) : SameReply stream r r' where
  result := hresult
  heap := hheap
  events := hevents
  consumed := by
    obtain ⟨bytes, hbytes⟩ := hstate.source.rest
    exact ⟨bytes, hbytes, hstate.source.unread ▸ hbytes⟩
  sink := hstate.sink

/-- **A call** on two consoles that are alike is answered alike, and they stay alike. -/
theorem call_alike (h : Alike stream c c') (id : UInt16) (args : List Value) (heap : Heap) :
    SameReply stream (call id args heap c) (call id args heap c') ∧
      Alike stream (call id args heap c).state (call id args heap c').state := by
  suffices hcall : (call id args heap c).result = (call id args heap c').result ∧
      (call id args heap c).heap = (call id args heap c').heap ∧
      (call id args heap c).events = (call id args heap c').events ∧
      Alike stream (call id args heap c).state (call id args heap c').state by
    obtain ⟨hresult, hheap, hevents, hstate⟩ := hcall
    exact ⟨.of_alike hresult hheap hevents hstate, hstate⟩
  unfold call
  cases Native.ofId? id with
  | none => exact ⟨rfl, rfl, rfl, h⟩
  | some native =>
    cases haction : perform? heap native args with
    | none =>
      simp only [haction, true_and]
      exact h
    | some action =>
      rcases (perform?_respects haction h).ok_or_error with
        ⟨v, d, d', heq, heq', hstate⟩ | ⟨trap, d, d', heq, heq', hstate⟩
      · simp only [haction, heq, heq', true_and]
        exact hstate
      · simp only [haction, heq, heq', true_and]
        exact hstate

/-- A call of a native function: its number, its arguments, and the heap in which they lie. -/
structure Call where
  id : UInt16
  args : List Value
  heap : Heap

/-- What a list of calls is answered, one after the other.  A call that traps is followed by the next
one all the same. -/
def replies : List Call → Console → List (HostReply Console)
  | [], _ => []
  | k :: calls, c =>
    let reply := call k.id k.args k.heap c
    reply :: replies calls reply.state

theorem replies_alike (calls : List Call) (h : Alike stream c c') :
    List.Forall₂ (SameReply stream) (replies calls c) (replies calls c') := by
  induction calls generalizing c c' with
  | nil => exact .nil
  | cons k calls ih =>
    obtain ⟨hreply, hstate⟩ := call_alike h k.id k.args k.heap
    exact .cons hreply (ih hstate)

/-- **Buffering is not noticed.**  Take any input, any point at which it fails, if it does, any output
stream, and any two ways of buffering the input, by which each look shows as many bytes as it is
assigned, at least one, if so many are available.  Then any list of calls, whatever their numbers and
arguments, is answered alike, call by call. -/
theorem replies_rebuffered (stream : List UInt8) (failAfter : Option Nat) (sink : Sink)
    (window window' : Nat → Nat) (h : ∀ n, 0 < window n) (h' : ∀ n, 0 < window' n)
    (calls : List Call) :
    List.Forall₂ (SameReply stream)
      (replies calls { source := ⟨stream, failAfter, window, 0⟩, sink })
      (replies calls { source := ⟨stream, failAfter, window', 0⟩, sink }) := by
  have hsource : Source.Alike stream ⟨stream, failAfter, window, 0⟩ ⟨stream, failAfter, window', 0⟩ :=
    { rest := List.suffix_rfl, unread := rfl, failAfter := rfl, shows := h, shows' := h' }
  exact replies_alike calls ⟨hsource, rfl⟩

/-- An accented letter, a line, an integer, and a currency sign that the stream breaks off in. -/
def cutInput : List UInt8 :=
  [0xc3, 0xa9, 0x68, 0x69, 0x0d, 0x0a, 0x2d, 0x37, 0x0a, 0xe2, 0x82, 0xac]

/-- The calls that take that input apart, and two that are refused. -/
def cutCalls : List Call :=
  [⟨Native.read.id, [], .empty⟩, ⟨Native.readLine.id, [], .empty⟩,
    ⟨Native.print.id, [.string "?"], .empty⟩, ⟨Native.readInt.id, [], .empty⟩, ⟨9, [], .empty⟩,
    ⟨Native.read.id, [.null], .empty⟩, ⟨Native.read.id, [], .empty⟩, ⟨Native.read.id, [], .empty⟩]

/-- Shown byte by byte or in ever longer pieces, the input is taken apart in the same way. -/
theorem cutCalls_rebuffered :
    List.Forall₂ (SameReply cutInput)
        (replies cutCalls { source := ⟨cutInput, some 11, fun _ => 1, 0⟩, sink := .unlimited })
        (replies cutCalls { source := ⟨cutInput, some 11, fun n => n + 2, 0⟩, sink := .unlimited }) ∧
      (replies cutCalls { source := ⟨cutInput, some 11, fun _ => 1, 0⟩, sink := .unlimited }).map
          (fun r => (r.result, r.state.source.unread.length)) =
        [(.ok (.string "é"), 10), (.ok (.string "hi"), 6), (.ok .null, 6),
          (.ok (.number (.ofInt (-7))), 3), (.error (.unknownNative 9), 3),
          (.error (.nativeArity .read 1), 3), (.error (.stream .readFailed), 1),
          (.error (.stream .readFailed), 1)] :=
  ⟨replies_rebuffered _ _ _ _ _ (fun _ => Nat.one_pos) (fun _ => Nat.succ_pos _) _,
    by decide +kernel⟩

end Console

end BytecodeVm
