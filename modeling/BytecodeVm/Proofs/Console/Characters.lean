/- # Characters

Where the input is valid UTF-8, reading stays between characters.  Lines are cut behind a line break,
which is a character, and the first byte of a character tells how many bytes to take for it: so
whatever is called, a whole number of characters is consumed.

* `Console.reply_source`: a call that does not read leaves the input as it is;
* `Console.Offers.reply_read`: a call that reads a character;
* `Console.Offers.reply`, `Console.Offers.afterCalls`: a call, and any list of calls, between
  characters;
* `Console.Offers.results_read`: what is given to calls that read character by character;
* `Console.reads_aligned`: all of this, from the bytes of the input.
-/
import BytecodeVm.Proofs.Console.Reading

namespace BytecodeVm.Console

open Stateful

variable {c : Console} {k : Call} {chars : List Char} {α β : Type}

/-! ## 1. Calls that do not read -/

/-- The operation changes nothing but the output. -/
def Writes (action : OnConsole α) : Prop :=
  ∀ c, ∃ sink,
    (∃ a, action c = .ok a { c with sink }) ∨ ∃ trap, action c = .error trap { c with sink }

namespace Writes

theorem pure (a : α) : Writes (pure a : OnConsole α) :=
  fun c => ⟨c.sink, .inl ⟨a, rfl⟩⟩

theorem bind {action : OnConsole α} {next : α → OnConsole β} (h : Writes action)
    (hnext : ∀ a, Writes (next a)) : Writes (action >>= next) := by
  intro c
  obtain ⟨sink, ⟨a, ha⟩ | ⟨trap, htrap⟩⟩ := h c
  · obtain ⟨sink', ⟨b, hb⟩ | ⟨trap, htrap⟩⟩ := hnext a { c with sink }
    · exact ⟨sink', .inl ⟨b, bind_ok_iff.mpr ⟨a, _, ha, hb⟩⟩⟩
    · exact ⟨sink', .inr ⟨trap, bind_error_iff.mpr (.inr ⟨a, _, ha, htrap⟩)⟩⟩
  · exact ⟨sink, .inr ⟨trap, bind_error_iff.mpr (.inl htrap)⟩⟩

theorem onSink (writing : OnSink α) : Writes (onSink writing) := by
  intro c
  simp only [Console.onSink]
  cases writing c.sink with
  | ok a sink => exact ⟨sink, .inl ⟨a, rfl⟩⟩
  | error fault sink => exact ⟨sink, .inr ⟨.stream fault, rfl⟩⟩

end Writes

/-- The call is one that reads: a character, a line or an integer. -/
def Call.Reads (k : Call) : Prop :=
  k.Asks .read ∨ k.Asks .readLine ∨ k.Asks .readInt

/-- **A call that does not read** leaves the input as it is. -/
theorem reply_source (hk : ¬ k.Reads) (c : Console) : (k.reply c).state.source = c.source := by
  simp only [Call.reply, call]
  cases hnative : Native.ofId? k.id with
  | none => rfl
  | some native =>
    have hid : k.id = native.id := (Native.id_of_ofId? hnative).symm
    cases haction : perform? k.heap native k.args with
    | none => simp only [haction]
    | some action =>
      simp only [haction]
      have hwrites : Writes action := by
        unfold perform? at haction
        split at haction
        · cases haction
          exact ((Writes.onSink _).bind fun _ => .onSink _).bind fun _ => .pure _
        · cases haction
          exact (Writes.onSink _).bind fun _ => .pure _
        · rename_i hargs
          exact absurd (.inl ⟨hid, hargs⟩) hk
        · rename_i hargs
          exact absurd (.inr (.inl ⟨hid, hargs⟩)) hk
        · rename_i hargs
          exact absurd (.inr (.inr ⟨hid, hargs⟩)) hk
        · cases haction
      obtain ⟨sink, ⟨a, ha⟩ | ⟨trap, htrap⟩⟩ := hwrites c
      · simp only [ha]
      · simp only [htrap]

/-! ## 2. Calls that read -/

namespace Offers

/-- **A call that reads a character** is given the next one, or the empty text at the end. -/
theorem reply_read (h : c.Offers chars) (hk : k.Asks .read) :
    (chars = [] ∧ (k.reply c).result = .ok (.string "") ∧ (k.reply c).state.Offers []) ∨
    ∃ ch rest, chars = ch :: rest ∧ (k.reply c).result = .ok (.string (.singleton ch)) ∧
      (k.reply c).state.Offers rest := by
  cases chars with
  | nil =>
    obtain ⟨c', hread, hrest⟩ := h.read_nil
    obtain ⟨hresult, rfl⟩ := hk.reply_ok rfl (map_ok_iff.mpr ⟨_, hread, rfl⟩)
    exact .inl ⟨rfl, hresult, hrest⟩
  | cons ch rest =>
    obtain ⟨c', hread, hrest⟩ := h.read_cons
    obtain ⟨hresult, rfl⟩ := hk.reply_ok rfl (map_ok_iff.mpr ⟨_, hread, rfl⟩)
    exact .inr ⟨ch, rest, rfl, hresult, hrest⟩

/-- **A call that reads** consumes a whole number of characters, and the stream is no reason for it to
trap. -/
theorem reply_reads (h : c.Offers chars) (hk : k.Reads) :
    ∃ rest, rest <:+ chars ∧ (k.reply c).state.Offers rest ∧
      ∀ fault, (k.reply c).result ≠ .error (.stream fault) := by
  obtain ⟨line, rest, hfirst⟩ := FirstLine.exists_firstLine '\n' chars
  have hsuffix : rest <:+ chars := ⟨line, hfirst.split.symm⟩
  rcases hk with hk | hk | hk
  · rcases h.reply_read hk with ⟨rfl, hresult, hrest⟩ | ⟨ch, rest, rfl, hresult, hrest⟩
    · exact ⟨[], List.suffix_rfl, hrest, by simp [hresult]⟩
    · exact ⟨rest, List.suffix_cons _ _, hrest, by simp [hresult]⟩
  · obtain ⟨c', hread, hrest⟩ := h.readLine hfirst
    obtain ⟨hresult, rfl⟩ := hk.reply_ok rfl (map_ok_iff.mpr ⟨_, hread, rfl⟩)
    exact ⟨rest, hsuffix, hrest, by simp [hresult]⟩
  · obtain ⟨c', hrest, ⟨x, hread⟩ | hread⟩ := h.readInt hfirst
    · obtain ⟨hresult, rfl⟩ := hk.reply_ok rfl (map_ok_iff.mpr ⟨_, hread, rfl⟩)
      exact ⟨rest, hsuffix, hrest, by simp [hresult]⟩
    · obtain ⟨hresult, rfl⟩ := hk.reply_error rfl (map_error_iff.mpr hread)
      exact ⟨rest, hsuffix, hrest, by simp [hresult]⟩

/-- **Any call** leaves the console between two characters. -/
theorem reply (h : c.Offers chars) (k : Call) :
    ∃ rest, rest <:+ chars ∧ (k.reply c).state.Offers rest := by
  by_cases hk : k.Reads
  · obtain ⟨rest, hsuffix, hrest, -⟩ := h.reply_reads hk
    exact ⟨rest, hsuffix, hrest⟩
  · refine ⟨chars, List.suffix_rfl, ?_, ?_⟩
    · rw [reply_source hk]
      exact h.steady
    · rw [reply_source hk]
      exact h.unread

/-- **So does any list of calls.** -/
theorem afterCalls (h : c.Offers chars) (calls : List Call) :
    ∃ rest, rest <:+ chars ∧ (c.afterCalls calls).Offers rest := by
  induction calls generalizing c chars with
  | nil => exact ⟨chars, List.suffix_rfl, h⟩
  | cons k calls ih =>
    obtain ⟨rest, hsuffix, hrest⟩ := h.reply k
    obtain ⟨rest', hsuffix', hrest'⟩ := ih hrest
    exact ⟨rest', hsuffix'.trans hsuffix, hrest'⟩

/-- **A text is given character by character**, and then nothing for ever. -/
theorem results_read {calls : List Call} (h : c.Offers chars)
    (hcalls : ∀ k ∈ calls, k.Asks .read) : (replies calls c).map (·.result) =
      (chars.map fun ch => .ok (.string (.singleton ch))).takeD calls.length
        (.ok (.string "")) := by
  induction calls generalizing c chars with
  | nil => rfl
  | cons k calls ih =>
    obtain ⟨hk, hcalls⟩ := List.forall_mem_cons.mp hcalls
    rcases h.reply_read hk with ⟨rfl, hresult, hrest⟩ | ⟨ch, rest, rfl, hresult, hrest⟩
    · exact congrArg₂ List.cons hresult (ih hrest hcalls)
    · exact congrArg₂ List.cons hresult (ih hrest hcalls)

end Offers

/-! ## 3. Any list of calls -/

/-- **Reading stays between characters.**  Take any console whose input does not fail and is valid UTF-8,
and any list of calls, whatever they trap with.

* What is unread after them are the last characters of the input, in their encoding.
* The next call, if it reads, does not trap because of the stream.  If it reads a character, then it is
  given the first one that is unread, as a text, and consumes its encoding; or it is given the empty
  text, if and only if nothing is unread.
* Calls that read character by character are given all characters in their order, and then the empty
  text for ever. -/
theorem reads_aligned (c : Console) (hc : c.source.Steady) (text : String)
    (htext : Utf8.decode c.source.unread = some text) :
    (∀ calls : List Call, ∃ rest, rest <:+ text.toList ∧
      (c.afterCalls calls).source.unread = Utf8.encode (.ofList rest) ∧
      (c.afterCalls calls).source.unread <:+ c.source.unread ∧
      ∀ k : Call,
        (k.Reads → ∀ fault, (k.reply (c.afterCalls calls)).result ≠ .error (.stream fault)) ∧
        (k.Asks .read →
          (rest = [] ∧ (k.reply (c.afterCalls calls)).result = .ok (.string "") ∧
            (k.reply (c.afterCalls calls)).state.source.unread = []) ∨
          ∃ ch rest', rest = ch :: rest' ∧
            (k.reply (c.afterCalls calls)).result = .ok (.string (.singleton ch)) ∧
            (c.afterCalls calls).source.unread =
              Utf8.encode (.singleton ch) ++
                (k.reply (c.afterCalls calls)).state.source.unread)) ∧
    ∀ calls : List Call, (∀ k ∈ calls, k.Asks .read) → (replies calls c).map (·.result) =
      (text.toList.map fun ch => .ok (.string (.singleton ch))).takeD calls.length
        (.ok (.string "")) := by
  have hunread : c.source.unread = Utf8.encode (.ofList text.toList) := by
    rw [String.ofList_toList]
    exact Utf8.eq_encode_of_decode htext
  have hoffers : c.Offers text.toList := ⟨hc, hunread⟩
  refine ⟨?_, fun calls hcalls => hoffers.results_read hcalls⟩
  intro calls
  obtain ⟨rest, hsuffix, hrest⟩ := hoffers.afterCalls calls
  refine ⟨rest, hsuffix, hrest.unread, ?_, ?_⟩
  · obtain ⟨front, hfront⟩ := hsuffix
    rw [hrest.unread, hunread, ← hfront, Utf8.encode_ofList_append]
    exact List.suffix_append _ _
  · intro k
    refine ⟨fun hk => ?_, fun hk => ?_⟩
    · obtain ⟨-, -, -, hresult⟩ := hrest.reply_reads hk
      exact hresult
    · rcases hrest.reply_read hk with ⟨rfl, hresult, hend⟩ | ⟨ch, rest', rfl, hresult, hnext⟩
      · exact .inl ⟨rfl, hresult, hend.unread.trans Utf8.encode_ofList_nil⟩
      · refine .inr ⟨ch, rest', rfl, hresult, ?_⟩
        rw [hrest.unread, hnext.unread, Utf8.encode_ofList_cons, Utf8.encode_singleton]

/-- Characters of two, one, three and four bytes, and a line with no integer on it. -/
def variedInput : Console :=
  ⟨.ofBytes (Utf8.encode "é7x\n€😀"), .unlimited⟩

/-- A character is read whole, also behind a line on which no integer was found. -/
theorem variedInput_aligned :
    let calls : List Call := [⟨Native.read.id, [], .empty⟩, ⟨Native.readInt.id, [], .empty⟩]
    let next : Call := ⟨Native.read.id, [], .empty⟩
    (replies calls variedInput).map (·.result) =
        [.ok (.string "é"), .error (.invalidNumber "7x")] ∧
      (∃ ch rest, ch :: rest <:+ "é7x\n€😀".toList ∧
        (next.reply (variedInput.afterCalls calls)).result = .ok (.string (.singleton ch)) ∧
        (variedInput.afterCalls calls).source.unread = Utf8.encode (.singleton ch) ++
          (next.reply (variedInput.afterCalls calls)).state.source.unread) ∧
      (replies [next, next, next, next, next, next, next] variedInput).map (·.result) =
        [.ok (.string "é"), .ok (.string "7"), .ok (.string "x"), .ok (.string "\n"),
          .ok (.string "€"), .ok (.string "😀"), .ok (.string "")] := by
  intro calls next
  have hasks : next.Asks .read := ⟨rfl, rfl⟩
  obtain ⟨haligned, hresults⟩ :=
    reads_aligned variedInput (Source.steady_ofBytes _) _ (Utf8.decode_encode _)
  refine ⟨by decide +kernel, ?_, ?_⟩
  · obtain ⟨rest, hsuffix, hunread, -, hnext⟩ := haligned calls
    rcases (hnext next).2 hasks with ⟨rfl, -, -⟩ | ⟨ch, rest', rfl, hresult, hbytes⟩
    · rw [Utf8.encode_ofList_nil] at hunread
      exact absurd hunread (by decide +kernel)
    · exact ⟨ch, rest', hsuffix, hresult, hbytes⟩
  · rw [hresults _ (by simp [hasks])]
    decide +kernel

end BytecodeVm.Console
