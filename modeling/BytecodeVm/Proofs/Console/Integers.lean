/- # Reading integers from a console

A call that reads an integer consumes a line, whatever is on it, and gives the number nearest to the
integer that the line denotes, if it denotes one of 64 bits; an empty line counts as zero.

* `Console.readInt_eq`: what comes of a line;
* `Console.readInt_exact`: a call that reads an integer, from any input that does not fail.
-/
import BytecodeVm.Proofs.Binary64.Rounding
import BytecodeVm.Proofs.Console.Lines
import BytecodeVm.Proofs.Text.Integer

namespace BytecodeVm

theorem IsInt64.natAbs_le {z : Int} (h : IsInt64 z) : z.natAbs ≤ 2 ^ 63 := by
  obtain ⟨hlow, hhigh⟩ := h
  omega

/-- The decimal of an integer, as a line. -/
def decimalLine (z : Int) (terminator : Terminator) : Line where
  content := (toString z).toList
  terminator := terminator
  unbroken hmem := (writesInt_toString z).not_isBlank _ hmem (by decide)
  whole _ hlast :=
    (writesInt_toString z).not_isBlank _ (List.mem_of_getLast? hlast) (by decide)

/-- A line is the first one of what begins with it. -/
theorem Line.firstLine (l : Line) {rest : List UInt8} (h : l.terminator = .absent → rest = []) :
    FirstLine Source.lineBreak (Utf8.encode (.ofList l.text) ++ rest) (Utf8.encode (.ofList l.text))
      rest := by
  have hbreak (content : List Char) (hunbroken : '\n' ∉ content) :
      Source.lineBreak ∉ Utf8.encode (.ofList content) ∧
        Utf8.encode (.ofList (content ++ ['\n'])) =
          Utf8.encode (.ofList content) ++ [Source.lineBreak] := by
    refine ⟨?_, Utf8.encode_ofList_append _ _⟩
    have hbelow : '\n'.toNat < 0x80 := by decide
    exact mt (Utf8.mem_encode_ofList_iff hbelow).mp hunbroken
  obtain ⟨content, terminator, hunbroken, hwhole⟩ := l
  refine ⟨rfl, ?_⟩
  cases terminator with
  | absent =>
    obtain ⟨hnot, -⟩ := hbreak content hunbroken
    refine .inr ⟨?_, h rfl⟩
    rwa [Line.text, Terminator.text, List.append_nil]
  | lf => exact .inl ⟨_, hbreak content hunbroken⟩
  | crlf =>
    have htext : content ++ ['\r', '\n'] = content ++ ['\r'] ++ ['\n'] := List.append_cons _ _ _
    refine .inl ⟨Utf8.encode (.ofList (content ++ ['\r'])), ?_⟩
    rw [Line.text, Terminator.text, htext]
    exact hbreak (content ++ ['\r']) (by simpa using hunbroken)

namespace Console

variable {c c' : Console} {k : Call}

/-- **What comes of a line.** -/
theorem readInt_eq {content text : List Char} (h : readLine c = .ok (.ofList content) c')
    (htext : Trimmed content text) : readInt c =
      if text = [] then .ok .zero c'
      else match parseInt64? text with
        | some z => .ok (.ofInt z) c'
        | none => .error (.invalidNumber (.ofList content)) c' := by
  simp only [readInt, bind, EStateM.bind, h, String.toList_ofList, ← htext.eq_trimBlanks]
  cases text with
  | nil => rfl
  | cons first text =>
    simp only [reduceCtorEq, if_false]
    cases parseInt64? (first :: text) <;> rfl

/-- **A call that reads an integer** answers by what is on the line. -/
theorem reply_readInt (hk : k.Asks .readInt) {content text : List Char}
    (h : readLine c = .ok (.ofList content) c') (htext : Trimmed content text) :
    (k.reply c).state = c' ∧ (k.reply c).result =
      if text = [] then .ok (.number .zero)
      else match parseInt64? text with
        | some z => .ok (.number (.ofInt z))
        | none => .error (.invalidNumber (.ofList content)) := by
  have hrun := readInt_eq h htext
  by_cases hnil : text = []
  · rw [if_pos hnil] at hrun ⊢
    exact (hk.reply_ok rfl (Stateful.map_ok_iff.mpr ⟨_, hrun, rfl⟩)).symm
  · rw [if_neg hnil] at hrun ⊢
    cases hparse : parseInt64? text with
    | some z =>
      rw [hparse] at hrun
      exact (hk.reply_ok rfl (Stateful.map_ok_iff.mpr ⟨_, hrun, rfl⟩)).symm
    | none =>
      rw [hparse] at hrun
      exact (hk.reply_error rfl (Stateful.map_error_iff.mpr hrun)).symm

/-- **A call that reads an integer,** by what the first line says. -/
theorem reply_readInt_of_decode (hc : c.source.Steady) (hk : k.Asks .readInt)
    {line rest : List UInt8} {text : String}
    (hline : FirstLine Source.lineBreak c.source.unread line rest)
    (htext : Utf8.decode line = some text) :
    (k.reply c).state.source.unread = rest ∧
      ∃ (l : Line) (t : List Char), text = .ofList l.text ∧ Trimmed l.content t ∧
        (t = [] → (k.reply c).result = .ok (.number .zero)) ∧
        (∀ z, WritesInt t z → IsInt64 z →
          ∃ x, (k.reply c).result = .ok (.number x) ∧ x.Nearest z ∧ (z = 0 → x = .zero)) ∧
        (t ≠ [] → (∀ z, WritesInt t z → ¬ IsInt64 z) →
          (k.reply c).result = .error (.invalidNumber (.ofList l.content))) := by
  obtain ⟨line', c', hline', -, hread⟩ := readLine_steady hc
  obtain ⟨rfl, rfl⟩ := hline.unique hline'
  obtain ⟨l, rfl⟩ := hline.exists_line_of_decode htext
  simp only [htext, String.toList_ofList, stripTerminator_text] at hread
  have htrimmed := trimmed_trimBlanks l.content
  obtain ⟨hstate, hresult⟩ := reply_readInt hk hread htrimmed
  refine ⟨by rw [hstate], l, trimBlanks l.content, rfl, htrimmed, ?_, ?_, ?_⟩
  · intro hnil
    rw [hresult, if_pos hnil]
  · intro z hwrites hz
    rw [if_neg hwrites.ne_nil, parseInt64?_eq_some_iff.mpr ⟨hwrites, hz⟩] at hresult
    refine ⟨_, hresult, Binary64.ofInt_nearest hz.natAbs_le, ?_⟩
    rintro rfl
    exact Binary64.ofInt_zero
  · intro hne hnone
    have hparse : parseInt64? (trimBlanks l.content) = none := by
      refine Option.eq_none_iff_forall_ne_some.mpr fun z hz => ?_
      obtain ⟨hwrites, hz⟩ := parseInt64?_eq_some_iff.mp hz
      exact hnone z hwrites hz
    rw [hresult, if_neg hne, hparse]

/-- **Reading an integer accepts exactly the integers of 64 bits.**  Take any console whose input
does not fail, and a call that reads an integer.

* If the next line is valid UTF-8, exactly this line and its terminator are consumed.  What counts
  is the line without the blanks around it.  If nothing is left, the answer is the positive
  zero.  If it denotes an integer of 64 bits, by one optional sign and digits, then the answer is
  the nearest double, and the positive zero for the integer zero.  In every other case the call
  traps, and the trap shows the whole line.
* Any such integer is read back from its decimal, whichever terminator is behind it. -/
theorem readInt_exact (c : Console) (hc : c.source.Steady) (k : Call) (hk : k.Asks .readInt) :
    (∀ line rest text, FirstLine Source.lineBreak c.source.unread line rest →
      Utf8.decode line = some text →
      (k.reply c).state.source.unread = rest ∧
      ∃ (l : Line) (t : List Char), text = .ofList l.text ∧ Trimmed l.content t ∧
        (t = [] → (k.reply c).result = .ok (.number .zero)) ∧
        (∀ z, WritesInt t z → IsInt64 z →
          ∃ x, (k.reply c).result = .ok (.number x) ∧ x.Nearest z ∧ (z = 0 → x = .zero)) ∧
        (t ≠ [] → (∀ z, WritesInt t z → ¬ IsInt64 z) →
          (k.reply c).result = .error (.invalidNumber (.ofList l.content)))) ∧
    ∀ z, IsInt64 z → ∀ (terminator : Terminator) rest, (terminator = .absent → rest = []) →
      c.source.unread = Utf8.encode (.ofList ((toString z).toList ++ terminator.text)) ++ rest →
      (k.reply c).state.source.unread = rest ∧
        ∃ x, (k.reply c).result = .ok (.number x) ∧ x.Nearest z := by
  refine ⟨fun _ _ _ hline htext => reply_readInt_of_decode hc hk hline htext, ?_⟩
  intro z hz terminator rest hrest hunread
  have hfirst := (decimalLine z terminator).firstLine hrest
  change c.source.unread = Utf8.encode (.ofList (decimalLine z terminator).text) ++ rest at hunread
  rw [← hunread] at hfirst
  obtain ⟨hconsumed, l, t, hl, ht, -, hnumber, -⟩ :=
    reply_readInt_of_decode hc hk hfirst (Utf8.decode_encode _)
  -- the line that is read is the one that was written
  have hcontent : l.content = (toString z).toList := by
    rw [← stripTerminator_text, ← String.ofList_injective hl, stripTerminator_text]
    rfl
  have hwrites := writesInt_toString z
  obtain rfl : (toString z).toList = t := by
    rw [hcontent] at ht
    exact (Trimmed.of_not_blank hwrites.not_isBlank).unique ht
  obtain ⟨x, hresult, hnearest, -⟩ := hnumber z hwrites hz
  exact ⟨hconsumed, x, hresult, hnearest⟩

/-- An integer among blanks, and more behind the line. -/
def blankedInput : Console :=
  ⟨.ofBytes (Utf8.encode "\u3000-007\t\r\nx"), .unlimited⟩

/-- One more than the largest integer of 64 bits. -/
def excessiveInput : Console :=
  ⟨.ofBytes (Utf8.encode "9223372036854775808"), .unlimited⟩

/-- The smallest integer of 64 bits, in decimal. -/
def smallestInput : Console :=
  ⟨.ofBytes (Utf8.encode "-9223372036854775808\n"), .unlimited⟩

/-- A call that reads an integer. -/
def integerCall : Call :=
  ⟨Native.readInt.id, [], .empty⟩

/-- Blanks do not count, the largest integer is not passed, and the smallest one is read back. -/
theorem blankedInput_exact :
    ((integerCall.reply blankedInput).state.source.unread = Utf8.encode "x" ∧
      ∃ x, (integerCall.reply blankedInput).result = .ok (.number x) ∧ x.Nearest (-7 : Int)) ∧
    (integerCall.reply excessiveInput).result = .error (.invalidNumber "9223372036854775808") ∧
    ∃ x, (integerCall.reply smallestInput).result = .ok (.number x) ∧
      x.Nearest (-2 ^ 63 : Int) := by
  have hasks : integerCall.Asks .readInt := ⟨rfl, rfl⟩
  have hcontent (l l' : Line) (h : String.ofList l.text = .ofList l'.text) :
      l'.content = l.content := by
    rw [← stripTerminator_text, ← String.ofList_injective h, stripTerminator_text]
  obtain ⟨hblanked, -⟩ := readInt_exact blankedInput (Source.steady_ofBytes _) _ hasks
  obtain ⟨hexcessive, -⟩ := readInt_exact excessiveInput (Source.steady_ofBytes _) _ hasks
  obtain ⟨-, hsmallest⟩ := readInt_exact smallestInput (Source.steady_ofBytes _) _ hasks
  refine ⟨?_, ?_, ?_⟩
  · let line : Line := ⟨"\u3000-007\t".toList, .crlf, by decide, by decide⟩
    obtain ⟨hrest, l, t, hl, ht, -, hnumber, -⟩ :=
      hblanked _ (Utf8.encode "x") _ (line.firstLine (by decide)) (Utf8.decode_encode _)
    have htext : t = ['-', '0', '0', '7'] := by
      rw [ht.eq_trimBlanks, hcontent line l hl]
      decide +kernel
    have hwrites : WritesInt t (-7) := by
      rw [htext]
      exact .minus (n := 7) ⟨by decide, by simp, rfl⟩
    obtain ⟨x, hx, hnearest, -⟩ := hnumber _ hwrites (by decide)
    exact ⟨hrest, x, hx, hnearest⟩
  · let line : Line := ⟨"9223372036854775808".toList, .absent, by decide +kernel, by decide⟩
    obtain ⟨-, l, t, hl, ht, -, -, htrap⟩ :=
      hexcessive _ [] _ (line.firstLine (fun _ => rfl)) (Utf8.decode_encode _)
    have htext : t = "9223372036854775808".toList := by
      rw [ht.eq_trimBlanks, hcontent line l hl]
      decide +kernel
    rw [hcontent line l hl] at htrap
    refine htrap (by rw [htext]; decide +kernel) fun z hz => ?_
    rw [htext] at hz
    cases hz with
    | bare hn =>
      rw [hn.value]
      decide +kernel
  · exact (hsmallest (-2 ^ 63) (by decide) .lf [] (by decide) (by decide +kernel)).2

end Console

end BytecodeVm
