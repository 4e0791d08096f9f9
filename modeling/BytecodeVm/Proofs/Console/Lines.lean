/- # Lines

Reading line by line takes the input apart and loses nothing of it.  A line is what comes before its
terminator, and what is given of it; the terminators, put back, make up the rest of the input.

* `Line`: a line with its terminator, and `Console.stripTerminator_text`: what is given of it;
* `lineCount`: how many lines there are in some bytes, and `FirstLine.lineCount_rest`: one less behind
  the first of them;
* `Lines`: a text taken apart, and `Lines.flatMap_text`, `Lines.length_eq`: what holds of its lines;
* `Console.Offers.results_readLine`: calls that read a line give the lines of the text one by one;
* `Console.readLine_segments`: any number of calls that read a line.
-/
import BytecodeVm.Proofs.Console.Reading

namespace BytecodeVm

/-! ## 1. A line -/

/-- How a line ends: with the input, with a line feed, or with a carriage return and a line feed. -/
inductive Terminator where
  | absent | lf | crlf
  deriving DecidableEq, Repr

/-- The characters that end the line. -/
def Terminator.text : Terminator → List Char
  | absent => []
  | lf => ['\n']
  | crlf => ['\r', '\n']

/-- A line and its terminator, which takes a carriage return that stands before the line feed. -/
structure Line where
  content : List Char
  terminator : Terminator
  unbroken : '\n' ∉ content
  whole : terminator = .lf → content.getLast? ≠ some '\r'
  deriving Repr

/-- The characters of a line. -/
def Line.text (l : Line) : List Char :=
  l.content ++ l.terminator.text

/-- **What is given of a line** is its content. -/
theorem Console.stripTerminator_text (l : Line) : stripTerminator l.text = l.content := by
  obtain ⟨content, terminator, hunbroken, hwhole⟩ := l
  cases terminator with
  | absent =>
    simp only [Line.text, Terminator.text, List.append_nil, stripTerminator]
    have hfirst : ∀ rest, content.reverse ≠ '\n' :: rest := by
      intro rest h
      refine hunbroken (List.mem_reverse.mp ?_)
      rw [h]
      exact List.mem_cons_self
    split
    · rename_i rest hrest
      exact absurd hrest (hfirst _)
    · rename_i rest _ hrest
      exact absurd hrest (hfirst _)
    · rfl
  | lf =>
    simp only [Line.text, Terminator.text, stripTerminator, List.reverse_append,
      List.reverse_singleton, List.singleton_append]
    split
    · rename_i rest hrest
      refine absurd ?_ (hwhole rfl)
      rw [← List.head?_reverse, (List.cons.inj hrest).2]
      rfl
    · rename_i rest _ hrest
      rw [← (List.cons.inj hrest).2, List.reverse_reverse]
    · rename_i hnone
      exact absurd rfl (hnone _)
  | crlf => simp [Line.text, Terminator.text, stripTerminator]

namespace FirstLine

/-- The first line of a text is one. -/
theorem exists_line {chars line rest : List Char} (h : FirstLine '\n' chars line rest) :
    ∃ l : Line, l.text = line := by
  rcases h.ends with ⟨content, hnot, rfl⟩ | ⟨hnot, -⟩
  · by_cases hlast : content.getLast? = some '\r'
    · obtain ⟨front, rfl⟩ := List.getLast?_eq_some_iff.mp hlast
      refine ⟨⟨front, .crlf, fun hmem => hnot (List.mem_append_left _ hmem), by simp⟩, ?_⟩
      simp [Line.text, Terminator.text]
    · exact ⟨⟨content, .lf, hnot, fun _ => hlast⟩, rfl⟩
  · exact ⟨⟨line, .absent, hnot, by simp⟩, List.append_nil line⟩

/-- So is the first line of some bytes, if it is valid UTF-8. -/
theorem exists_line_of_decode {bytes line rest : List UInt8} {text : String}
    (h : FirstLine Source.lineBreak bytes line rest) (htext : Utf8.decode line = some text) :
    ∃ l : Line, text = .ofList l.text := by
  obtain ⟨front, back, hfirst⟩ := exists_firstLine '\n' text.toList
  have hencode := hfirst.encode
  rw [String.ofList_toList, ← Utf8.eq_encode_of_decode htext] at hencode
  -- nothing is behind the first line of the text, since nothing is behind the first line of its bytes
  have hline : FirstLine Source.lineBreak line line [] :=
    ⟨(List.append_nil line).symm, h.ends.imp_right fun hends => ⟨hends.1, rfl⟩⟩
  obtain rfl : back = [] := Utf8.encode_ofList_eq_nil_iff.mp (hencode.unique hline).2
  obtain ⟨l, hl⟩ := hfirst.exists_line
  refine ⟨l, ?_⟩
  rw [hl, ← List.append_nil front, ← hfirst.split, String.ofList_toList]

end FirstLine

/-! ## 2. The number of lines -/

/-- The number of lines: one for each line break, and one more for what is behind the last of them. -/
def lineCount (bytes : List UInt8) : Nat :=
  bytes.count Source.lineBreak +
    if bytes = [] ∨ bytes.getLast? = some Source.lineBreak then 0 else 1

theorem lineCount_eq_zero_iff {bytes : List UInt8} : lineCount bytes = 0 ↔ bytes = [] := by
  constructor
  · intro h
    obtain ⟨hcount, hif⟩ := Nat.add_eq_zero_iff.mp h
    split at hif
    · rename_i hends
      refine hends.resolve_right fun hlast => ?_
      exact List.count_eq_zero.mp hcount (List.mem_of_getLast? hlast)
    · cases hif
  · rintro rfl
    rfl

/-- **There is one line less** behind the first line. -/
theorem FirstLine.lineCount_rest {bytes line rest : List UInt8}
    (h : FirstLine Source.lineBreak bytes line rest) : lineCount rest = lineCount bytes - 1 := by
  obtain ⟨rfl, ⟨content, hnot, rfl⟩ | ⟨hnot, rfl⟩⟩ := h
  · have hcount : content.count Source.lineBreak = 0 := List.count_eq_zero.mpr hnot
    cases rest with
    | nil => simp [lineCount, hcount]
    | cons first rest =>
      have hlast : (content ++ [Source.lineBreak] ++ first :: rest).getLast? =
          (first :: rest).getLast? :=
        List.getLast?_append_cons _ _ _
      have htotal : (content ++ [Source.lineBreak] ++ first :: rest).count Source.lineBreak =
          (first :: rest).count Source.lineBreak + 1 := by
        rw [List.count_append, List.count_append, hcount, List.count_singleton_self, Nat.zero_add,
          Nat.add_comm]
      simp only [lineCount, hlast, htotal, List.append_eq_nil_iff, reduceCtorEq, and_false, false_or]
      omega
  · have hcount : line.count Source.lineBreak = 0 := List.count_eq_zero.mpr hnot
    rw [lineCount_eq_zero_iff.mpr rfl, List.append_nil, lineCount, hcount]
    split <;> rfl

/-! ## 3. The lines of a text -/

/-- The characters are those of the lines, each of which is the first of what is left. -/
inductive Lines : List Char → List Line → Prop
  | nil : Lines [] []
  | cons {chars rest : List Char} {l : Line} {lines : List Line} (nonempty : chars ≠ [])
      (first : FirstLine '\n' chars l.text rest) (next : Lines rest lines) : Lines chars (l :: lines)

/-- Every text can be taken apart. -/
theorem exists_lines (chars : List Char) : ∃ lines, Lines chars lines := by
  by_cases hchars : chars = []
  · exact ⟨[], hchars ▸ .nil⟩
  · obtain ⟨line, rest, hfirst⟩ := FirstLine.exists_firstLine '\n' chars
    obtain ⟨l, rfl⟩ := hfirst.exists_line
    have hlt : rest.length < chars.length := hfirst.length_rest_lt hchars
    obtain ⟨lines, hlines⟩ := exists_lines rest
    exact ⟨l :: lines, .cons hchars hfirst hlines⟩
termination_by chars.length

namespace Lines

variable {chars : List Char} {lines : List Line}

/-- **Nothing is lost**: with their terminators, the lines are the text. -/
theorem flatMap_text (h : Lines chars lines) : lines.flatMap Line.text = chars := by
  induction h with
  | nil => rfl
  | cons hne hfirst _ ih => rw [List.flatMap_cons, ih, hfirst.split]

theorem length_eq (h : Lines chars lines) :
    lines.length = lineCount (Utf8.encode (.ofList chars)) := by
  induction h with
  | nil => rw [Utf8.encode_ofList_nil]; rfl
  | @cons chars rest l lines hne hfirst _ ih =>
    have hpos : lineCount (Utf8.encode (.ofList chars)) ≠ 0 := by
      rw [Ne, lineCount_eq_zero_iff, Utf8.encode_ofList_eq_nil_iff]
      exact hne
    have hrest := hfirst.encode.lineCount_rest
    rw [List.length_cons]
    omega

end Lines

/-! ## 4. Calls that read a line -/

namespace Console

variable {c : Console} {k : Call} {calls : List Call}

/-- **A call that reads a line** consumes the first one, and gives it or traps. -/
theorem reply_readLine (hc : c.source.Steady) (hk : k.Asks .readLine) :
    (k.reply c).state.source.Steady ∧
    ∃ line, FirstLine Source.lineBreak c.source.unread line (k.reply c).state.source.unread ∧
      (Utf8.decode line = none ∧ (k.reply c).result = .error (.stream .notUtf8) ∨
        ∃ l : Line, Utf8.decode line = some (.ofList l.text) ∧
          (k.reply c).result = .ok (.string (.ofList l.content))) := by
  obtain ⟨line, c', hline, hsteady, hread⟩ := readLine_steady hc
  cases htext : Utf8.decode line with
  | none =>
    rw [htext] at hread
    obtain ⟨hresult, rfl⟩ := hk.reply_error rfl (Stateful.map_error_iff.mpr hread)
    exact ⟨hsteady, line, hline, .inl ⟨htext, hresult⟩⟩
  | some text =>
    obtain ⟨l, rfl⟩ := hline.exists_line_of_decode htext
    simp only [htext, String.toList_ofList, stripTerminator_text] at hread
    obtain ⟨hresult, rfl⟩ := hk.reply_ok rfl (Stateful.map_ok_iff.mpr ⟨_, hread, rfl⟩)
    exact ⟨hsteady, line, hline, .inr ⟨l, htext, hresult⟩⟩

/-- **Every call takes one line off**, until there are none. -/
theorem lineCount_afterCalls (hc : c.source.Steady) (hcalls : ∀ k ∈ calls, k.Asks .readLine) :
    (c.afterCalls calls).source.Steady ∧
      lineCount (c.afterCalls calls).source.unread = lineCount c.source.unread - calls.length := by
  induction calls generalizing c with
  | nil => exact ⟨hc, rfl⟩
  | cons k calls ih =>
    obtain ⟨hk, hcalls⟩ := List.forall_mem_cons.mp hcalls
    obtain ⟨hsteady, line, hline, -⟩ := reply_readLine hc hk
    obtain ⟨hafter, hcount⟩ := ih hsteady hcalls
    refine ⟨hafter, hcount.trans ?_⟩
    rw [hline.lineCount_rest, List.length_cons]
    omega

theorem Offers.reply_readLine {chars rest : List Char} {l : Line} (h : c.Offers chars)
    (hk : k.Asks .readLine) (hfirst : FirstLine '\n' chars l.text rest) :
    (k.reply c).result = .ok (.string (.ofList l.content)) ∧ (k.reply c).state.Offers rest := by
  obtain ⟨c', hread, hrest⟩ := h.readLine hfirst
  rw [stripTerminator_text] at hread
  obtain ⟨hresult, rfl⟩ := hk.reply_ok rfl (Stateful.map_ok_iff.mpr ⟨_, hread, rfl⟩)
  exact ⟨hresult, hrest⟩

/-- **A text is given line by line**, and then nothing for ever. -/
theorem Offers.results_readLine {chars : List Char} {lines : List Line} (h : c.Offers chars)
    (hlines : Lines chars lines) (hcalls : ∀ k ∈ calls, k.Asks .readLine) :
    (replies calls c).map (·.result) =
      (lines.map fun l => .ok (.string (.ofList l.content))).takeD calls.length
        (.ok (.string "")) := by
  induction calls generalizing c chars lines with
  | nil => rfl
  | cons k calls ih =>
    obtain ⟨hk, hcalls⟩ := List.forall_mem_cons.mp hcalls
    cases hlines with
    | nil =>
      have hend : FirstLine '\n' [] (⟨[], .absent, by simp, by simp⟩ : Line).text [] :=
        ⟨rfl, .inr ⟨by simp [Line.text, Terminator.text], rfl⟩⟩
      obtain ⟨hresult, hstate⟩ := h.reply_readLine hk hend
      exact congrArg₂ List.cons hresult (ih hstate .nil hcalls)
    | cons hne hfirst hnext =>
      obtain ⟨hresult, hstate⟩ := h.reply_readLine hk hfirst
      exact congrArg₂ List.cons hresult (ih hstate hnext hcalls)

/-- **Reading line by line takes the input apart, without loss.**  Take any console whose input does not
fail, whatever bytes are left of it.

* After any number of calls that read a line, one more consumes the bytes through the first line break,
  or all of them if there is none.  It traps if they are not valid UTF-8; otherwise they are a line with
  its terminator, and the line is given without it.
* The input is exhausted once there have been as many calls as it has lines, and not before.
* If all of it is valid UTF-8, then it is made up of lines and their terminators, and any number of
  calls are given these lines, one after the other, and then the empty text. -/
theorem readLine_segments (c : Console) (hc : c.source.Steady) :
    (∀ (calls : List Call) (k : Call), (∀ k ∈ calls, k.Asks .readLine) → k.Asks .readLine →
      ∃ line, FirstLine Source.lineBreak (c.afterCalls calls).source.unread line
          (k.reply (c.afterCalls calls)).state.source.unread ∧
        (Utf8.decode line = none ∧
            (k.reply (c.afterCalls calls)).result = .error (.stream .notUtf8) ∨
          ∃ l : Line, Utf8.decode line = some (.ofList l.text) ∧
            (k.reply (c.afterCalls calls)).result = .ok (.string (.ofList l.content)))) ∧
    (∀ calls, (∀ k ∈ calls, k.Asks .readLine) →
      ((c.afterCalls calls).source.unread = [] ↔ lineCount c.source.unread ≤ calls.length)) ∧
    ∀ text, Utf8.decode c.source.unread = some text →
      ∃ lines : List Line, lines.flatMap Line.text = text.toList ∧
        lines.length = lineCount c.source.unread ∧
        ∀ calls, (∀ k ∈ calls, k.Asks .readLine) → (replies calls c).map (·.result) =
          (lines.map fun l => .ok (.string (.ofList l.content))).takeD calls.length
            (.ok (.string "")) := by
  refine ⟨?_, ?_, ?_⟩
  · intro calls k hcalls hk
    exact (reply_readLine (lineCount_afterCalls hc hcalls).1 hk).2
  · intro calls hcalls
    rw [← lineCount_eq_zero_iff, (lineCount_afterCalls hc hcalls).2, Nat.sub_eq_zero_iff_le]
  · intro text htext
    have hunread : c.source.unread = Utf8.encode (.ofList text.toList) := by
      rw [String.ofList_toList]
      exact Utf8.eq_encode_of_decode htext
    obtain ⟨lines, hlines⟩ := exists_lines text.toList
    refine ⟨lines, hlines.flatMap_text, hunread ▸ hlines.length_eq, ?_⟩
    intro calls hcalls
    exact Offers.results_readLine ⟨hc, hunread⟩ hlines hcalls

/-- Three lines, the second of which is not UTF-8. -/
def mixedInput : Console :=
  ⟨.ofBytes [0x61, 0x0d, 0x0a, 0xff, 0x0a, 0x62, 0x0d], .unlimited⟩

/-- Three lines, the first of which ends in two carriage returns and the last in the input. -/
def returnsInput : Console :=
  ⟨.ofBytes (Utf8.encode "é\r\r\n\nb\r"), .unlimited⟩

/-- A call that reads a line. -/
def lineCall : Call :=
  ⟨Native.readLine.id, [], .empty⟩

/-- The second line is skipped with a trap.  Carriage returns are kept, but for one before a line
feed. -/
theorem mixedInput_segments :
    (∃ line, FirstLine Source.lineBreak (mixedInput.afterCalls [lineCall]).source.unread line
        (lineCall.reply (mixedInput.afterCalls [lineCall])).state.source.unread ∧
      Utf8.decode line = none) ∧
    (mixedInput.afterCalls [lineCall, lineCall, lineCall]).source.unread = [] ∧
    ∃ lines : List Line, lines.flatMap Line.text = "é\r\r\n\nb\r".toList ∧ lines.length = 3 ∧
      (lines.map fun l => .ok (.string (.ofList l.content))).takeD 4 (.ok (.string "")) =
        [.ok (.string "é\r"), .ok (.string ""), .ok (.string "b\r"),
          (.ok (.string "") : Except Trap Value)] := by
  have hasks : lineCall.Asks .readLine := ⟨rfl, rfl⟩
  obtain ⟨hnext, hexhausted, -⟩ := readLine_segments mixedInput (Source.steady_ofBytes _)
  obtain ⟨-, -, htext⟩ := readLine_segments returnsInput (Source.steady_ofBytes _)
  refine ⟨?_, ?_, ?_⟩
  · obtain ⟨line, hline, ⟨hnone, -⟩ | ⟨l, -, hresult⟩⟩ :=
      hnext [lineCall] lineCall (by simp [hasks]) hasks
    · exact ⟨line, hline, hnone⟩
    · have htrap : (lineCall.reply (mixedInput.afterCalls [lineCall])).result =
          .error (.stream .notUtf8) := by
        decide +kernel
      rw [htrap] at hresult
      cases hresult
  · exact (hexhausted _ (by simp [hasks])).mpr (by decide +kernel)
  · obtain ⟨lines, hlines, hlength, hresults⟩ := htext _ (Utf8.decode_encode _)
    refine ⟨lines, hlines, hlength.trans (by decide +kernel), ?_⟩
    refine (hresults [lineCall, lineCall, lineCall, lineCall] (by simp [hasks])).symm.trans ?_
    decide +kernel

end Console

end BytecodeVm
