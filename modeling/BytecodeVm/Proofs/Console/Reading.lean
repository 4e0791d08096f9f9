/- # Reading from a console that does not fail

What the reading functions of a console come to, if its input does not fail: in terms of the bytes that
are unread, and, where these are valid UTF-8, in terms of the characters.

* `FirstLine`: where a list is cut to take a line, and `FirstLine.encode`: the bytes of a text are cut
  where its characters are;
* `Console.readLine_steady`: reading a line, from any bytes;
* `Console.Offers.read_nil`, `Console.Offers.read_cons`: reading a character, at the end of the input
  and before it;
* `Console.Offers.readLine`, `Console.Offers.readInt`: reading a line and an integer from characters;
* `Console.Call.Asks`: a call of a function without arguments, and how it is answered.
-/
import BytecodeVm.Proofs.Console.Buffering
import BytecodeVm.Proofs.Text.Utf8

namespace BytecodeVm

open Stateful

/-! ## 1. Where a line ends -/

/-- A list is cut behind the first line break that is in it, or at its end if there is none. -/
structure FirstLine {α : Type} (lineBreak : α) (whole line rest : List α) : Prop where
  split : whole = line ++ rest
  ends : (∃ content, lineBreak ∉ content ∧ line = content ++ [lineBreak]) ∨
    lineBreak ∉ line ∧ rest = []

namespace FirstLine

variable {α : Type} {x : α} {whole line rest : List α}

/-- Every list can be cut. -/
theorem exists_firstLine (x : α) (whole : List α) : ∃ line rest, FirstLine x whole line rest := by
  by_cases hx : x ∈ whole
  · obtain ⟨content, rest, rfl, hnot⟩ := List.eq_append_cons_of_mem hx
    exact ⟨content ++ [x], rest, by rw [List.append_assoc]; rfl, .inl ⟨content, hnot, rfl⟩⟩
  · exact ⟨whole, [], (List.append_nil whole).symm, .inr ⟨hx, rfl⟩⟩

/-- Something is taken of whatever there is. -/
theorem length_rest_lt (h : FirstLine x whole line rest) (hwhole : whole ≠ []) :
    rest.length < whole.length := by
  obtain ⟨rfl, ⟨content, -, rfl⟩ | ⟨-, rfl⟩⟩ := h
  · simp only [List.length_append, List.length_singleton]
    omega
  · exact List.length_pos_iff.mpr hwhole

/-- The line through the first break is what a reader takes. -/
theorem throughBreak_eq {whole line rest : List UInt8}
    (h : FirstLine Source.lineBreak whole line rest) : Source.throughBreak whole = line := by
  obtain ⟨rfl, ⟨content, hnot, rfl⟩ | ⟨hnot, rfl⟩⟩ := h
  · rw [List.append_assoc, Source.throughBreak_append_of_notMem hnot]
    rfl
  · rw [List.append_nil, Source.throughBreak_of_notMem hnot]

/-- There is only one way to cut. -/
theorem unique {whole line rest line' rest' : List UInt8}
    (h : FirstLine Source.lineBreak whole line rest)
    (h' : FirstLine Source.lineBreak whole line' rest') : line = line' ∧ rest = rest' := by
  obtain rfl : line = line' := h.throughBreak_eq.symm.trans h'.throughBreak_eq
  exact ⟨rfl, List.append_cancel_left (h.split.symm.trans h'.split)⟩

theorem of_throughBreak {whole rest : List UInt8}
    (h : Source.throughBreak whole ++ rest = whole) :
    FirstLine Source.lineBreak whole (Source.throughBreak whole) rest := by
  obtain ⟨line, rest', hline⟩ := exists_firstLine Source.lineBreak whole
  obtain rfl := hline.throughBreak_eq
  obtain rfl : rest' = rest := List.append_cancel_left (hline.split.symm.trans h.symm)
  exact hline

/-- **The bytes of a text are cut where its characters are.** -/
theorem encode {whole line rest : List Char} (h : FirstLine '\n' whole line rest) :
    FirstLine Source.lineBreak (Utf8.encode (.ofList whole)) (Utf8.encode (.ofList line))
      (Utf8.encode (.ofList rest)) := by
  have hbelow : '\n'.toNat < 0x80 := by decide
  have hmem : ∀ chars, Source.lineBreak ∈ Utf8.encode (.ofList chars) ↔ '\n' ∈ chars :=
    fun chars => Utf8.mem_encode_ofList_iff hbelow
  obtain ⟨rfl, ⟨content, hnot, rfl⟩ | ⟨hnot, rfl⟩⟩ := h
  · refine ⟨Utf8.encode_ofList_append _ _, .inl ⟨Utf8.encode (.ofList content), ?_, ?_⟩⟩
    · rwa [hmem]
    · exact Utf8.encode_ofList_append _ _
  · refine ⟨Utf8.encode_ofList_append _ _, .inr ⟨?_, Utf8.encode_ofList_nil⟩⟩
    rwa [hmem]

end FirstLine

namespace Console

variable {c c' : Console}

/-! ## 2. Reading a line -/

theorem readLine_eq (c : Console) : readLine c =
    match Source.takeLine c.source with
    | .ok bytes source =>
      match Utf8.decode bytes with
      | some line => .ok (.ofList (stripTerminator line.toList)) { c with source }
      | none => .error (.stream .notUtf8) { c with source }
    | .error fault source => .error (.stream fault) { c with source } := by
  simp only [readLine, onSource, bind, EStateM.bind]
  cases Source.takeLine c.source with
  | error fault source => rfl
  | ok bytes source =>
    cases hdecode : Utf8.decode bytes with
    | none => simp only [hdecode]; rfl
    | some line => simp only [hdecode]; rfl

/-- **Reading a line** consumes the first line, and gives it without its terminator, or a trap if it is
not UTF-8. -/
theorem readLine_steady (hc : c.source.Steady) : ∃ line c',
    FirstLine Source.lineBreak c.source.unread line c'.source.unread ∧ c'.source.Steady ∧
      readLine c = match Utf8.decode line with
        | some text => .ok (.ofList (stripTerminator text.toList)) c'
        | none => .error (.stream .notUtf8) c' := by
  obtain ⟨source, htake, hsource, hsplit⟩ := hc.takeLine
  refine ⟨_, { c with source }, .of_throughBreak hsplit, hsource, ?_⟩
  rw [readLine_eq, htake]

/-- What is on a line is an integer, or it is no number. -/
theorem readInt_of_readLine {line : String} (h : readLine c = .ok line c') :
    (∃ x, readInt c = .ok x c') ∨ readInt c = .error (.invalidNumber line) c' := by
  simp only [readInt, bind, EStateM.bind, h]
  cases trimBlanks line.toList with
  | nil => exact .inl ⟨_, rfl⟩
  | cons first text =>
    cases hparse : parseInt64? (first :: text) with
    | some z =>
      refine .inl ⟨.ofInt z, ?_⟩
      simp only [hparse]
      rfl
    | none =>
      refine .inr ?_
      simp only [hparse]
      rfl

/-! ## 3. Reading from characters -/

/-- The input does not fail, and the given characters are left to read. -/
structure Offers (c : Console) (chars : List Char) : Prop where
  steady : c.source.Steady
  unread : c.source.unread = Utf8.encode (.ofList chars)

/-- **The first byte of a character announces all of them.** -/
theorem exists_encodeChar (ch : Char) : ∃ first rest, String.utf8EncodeChar ch = first :: rest ∧
    sequenceWidth first = rest.length + 1 := by
  have hlt : ∀ byte bound : UInt8, byte < bound ↔ byte.toNat < bound.toNat :=
    fun _ _ => UInt8.lt_iff_toNat_lt
  rcases Utf8.encodeChar_cases ch with ⟨hbelow, hbytes⟩ | ⟨-, first, rest, hbytes, -, hfirst⟩
  · refine ⟨_, _, hbytes, ?_⟩
    rw [sequenceWidth, if_pos, List.length_nil]
    rw [hlt, UInt8.toNat_ofNat_of_lt' (Nat.lt_trans hbelow (by decide))]
    exact Nat.lt_trans hbelow (by decide)
  · refine ⟨first, rest, hbytes, ?_⟩
    simp only [sequenceWidth, hlt, UInt8.reduceToNat]
    split_ifs <;> omega

theorem onSource_ok {α : Type} {reading : OnSource α} {a : α} {source : Source}
    (h : reading c.source = .ok a source) : onSource reading c = .ok a { c with source } := by
  simp only [onSource, h]

theorem read_of_end {source : Source}
    (hlook : (List.head? <$> Source.look) c.source = .ok none source) :
    read c = .ok "" { c with source } := by
  rw [read_eq]
  exact bind_ok_iff.mpr ⟨none, _, onSource_ok hlook, rfl⟩

theorem read_of_byte {first : UInt8} {bytes : List UInt8} {source source' : Source}
    (hlook : (List.head? <$> Source.look) c.source = .ok (some first) source)
    (htake : Source.takeBytes (sequenceWidth first) source = .ok bytes source') :
    read c = .ok ((Utf8.decode bytes).getD replacement) { c with source := source' } := by
  rw [read_eq]
  refine bind_ok_iff.mpr ⟨some first, _, onSource_ok hlook, ?_⟩
  exact bind_ok_iff.mpr ⟨bytes, _, onSource_ok (c := { c with source }) htake, rfl⟩

namespace Offers

variable {chars : List Char}

/-- At the end, nothing is read. -/
theorem read_nil (h : c.Offers []) : ∃ c', read c = .ok "" c' ∧ c'.Offers [] := by
  obtain ⟨source, hlook, hsource, hunread⟩ := h.steady.head_look
  refine ⟨{ c with source }, read_of_end ?_, hsource, hunread.trans h.unread⟩
  rwa [h.unread, Utf8.encode_ofList_nil] at hlook

/-- **Reading a character** gives the next one, and consumes its bytes. -/
theorem read_cons {ch : Char} (h : c.Offers (ch :: chars)) :
    ∃ c', read c = .ok (.singleton ch) c' ∧ c'.Offers chars := by
  obtain ⟨first, rest, hbytes, hwidth⟩ := exists_encodeChar ch
  obtain ⟨source, hlook, hsource, hunread⟩ := h.steady.head_look
  obtain ⟨source', htake, hsource', hunread'⟩ := hsource.takeBytes (sequenceWidth first)
  have hlength : sequenceWidth first = (String.utf8EncodeChar ch).length := by
    rw [hbytes, hwidth, List.length_cons]
  -- the bytes that are taken are those of the character, and no others
  rw [hunread, h.unread, Utf8.encode_ofList_cons] at htake hunread'
  rw [List.take_left' hlength.symm] at htake
  rw [List.drop_left' hlength.symm] at hunread'
  rw [h.unread, Utf8.encode_ofList_cons, hbytes] at hlook
  refine ⟨{ c with source := source' }, ?_, hsource', hunread'⟩
  rw [read_of_byte hlook htake, ← Utf8.encode_singleton, Utf8.decode_encode]
  rfl

/-- **Reading a line** gives the characters of the first line, without its terminator. -/
theorem readLine {line rest : List Char} (h : c.Offers chars)
    (hfirst : FirstLine '\n' chars line rest) :
    ∃ c', readLine c = .ok (.ofList (stripTerminator line)) c' ∧ c'.Offers rest := by
  obtain ⟨bytes, c', hbytes, hsteady, heq⟩ := readLine_steady h.steady
  rw [h.unread] at hbytes
  obtain ⟨rfl, hrest⟩ := hbytes.unique hfirst.encode
  rw [Utf8.decode_encode] at heq
  simp only [String.toList_ofList] at heq
  exact ⟨c', heq, hsteady, hrest⟩

/-- Reading an integer consumes the first line too, and traps only if no integer is there. -/
theorem readInt {line rest : List Char} (h : c.Offers chars)
    (hfirst : FirstLine '\n' chars line rest) :
    ∃ c', c'.Offers rest ∧ ((∃ x, readInt c = .ok x c') ∨
      readInt c = .error (.invalidNumber (.ofList (stripTerminator line))) c') := by
  obtain ⟨c', hread, hrest⟩ := h.readLine hfirst
  exact ⟨c', hrest, readInt_of_readLine hread⟩

end Offers

/-! ## 4. Calls -/

/-- The call is one of the given function, without arguments. -/
structure Call.Asks (k : Call) (native : Native) : Prop where
  id : k.id = native.id
  args : k.args = []

/-- What a call is answered. -/
def Call.reply (k : Call) (c : Console) : HostReply Console :=
  call k.id k.args k.heap c

/-- The console after a list of calls. -/
def afterCalls (calls : List Call) (c : Console) : Console :=
  calls.foldl (fun c k => (k.reply c).state) c

variable {k : Call} {native : Native} {action : OnConsole Value} {v : Value} {trap : Trap}

theorem Call.Asks.reply_ok (h : k.Asks native) (haction : perform? k.heap native [] = some action)
    (hrun : action c = .ok v c') : (k.reply c).result = .ok v ∧ (k.reply c).state = c' := by
  simp only [Call.reply, call, h.id, h.args, Native.ofId?_id, haction, hrun, and_self]

theorem Call.Asks.reply_error (h : k.Asks native)
    (haction : perform? k.heap native [] = some action) (hrun : action c = .error trap c') :
    (k.reply c).result = .error trap ∧ (k.reply c).state = c' := by
  simp only [Call.reply, call, h.id, h.args, Native.ofId?_id, haction, hrun, and_self]

end Console

end BytecodeVm
