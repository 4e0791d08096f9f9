/- # Canonical programs

A program is canonical if it can be written: its lists, names and codes can be counted by two bytes,
and what an image does not hold, the indices of constants and the names of numbers, is as reading
makes it up.

* `Program.Canonical`: what can be written;
* `Image.load_ok_iff`: loading accepts exactly the images of canonical programs, whatever follows
  them, and gives back the program.
-/
import BytecodeVm.Proofs.Binary64.Extent
import BytecodeVm.Proofs.Image.Layout

namespace BytecodeVm

/-- A constant that can be written.  A number is named by its text, and nothing else has one. -/
structure Constant.Canonical (c : Constant) : Prop where
  name_length : (Utf8.encode c.name).length ≤ 65535
  number_isSome : c.number.isSome ↔ c.kind = .number
  name_eq : ∀ x, c.number = some x → c.name = x.render

/-- A program that can be written. -/
structure Program.Canonical (p : Program) : Prop where
  imports_length : p.imports.length ≤ 65535
  import_length : ∀ name ∈ p.imports, (Utf8.encode name).length ≤ 65535
  constants_size : p.constants.size ≤ 65535
  constant_index : ∀ (i : Nat) (c : Constant), p.constants[i]? = some c → c.index.toNat = i
  constant : ∀ c ∈ p.constants, c.Canonical
  types_length : p.types.length ≤ 65535
  methods_length : ∀ t ∈ p.types, t.methods.length ≤ 65535
  bodies_length : p.bodies.length ≤ 65535
  code_size : ∀ b ∈ p.bodies, b.code.size ≤ 65535

namespace Image

open Stateful

/-! ## 1. The elements of the parts -/

/-- The check of the bytes that were found where the magic bytes are due. -/
theorem checked_parses (found : List UInt8) :
    Parses id (unless found = magic do throw (.badMagic found) : Reader Unit)
      (fun _ laid => found = magic ∧ laid = []) := by
  by_cases h : found = magic
  · rw [if_pos h]
    exact (Parses.pure ()).congr (by simp [h])
  · rw [if_neg h]
    exact (Parses.throw _).congr (by simp [h])

theorem magic_parses : Parses id readMagic (fun _ laid => laid = magic) where
  sound := by
    intro c c' _ h
    obtain ⟨_, c₁, hget, h⟩ := bind_ok_iff.mp h
    cases hget
    have hparses := (bytes_parses (min c.remaining magic.length)).bind checked_parses
    obtain ⟨_, ⟨_, _, _, ⟨rfl, -⟩, ⟨rfl, rfl⟩, rfl⟩, hprefix, hcursor⟩ := hparses.sound h
    rw [List.append_nil] at hprefix hcursor
    exact ⟨magic, rfl, hprefix, hcursor⟩
  complete := by
    rintro c _ _ rfl hprefix
    have hlength : min c.remaining magic.length = magic.length :=
      Nat.min_eq_right hprefix.length_le
    have hparses := (bytes_parses (min c.remaining magic.length)).bind checked_parses
    obtain ⟨c', h, hcursor⟩ := hparses.complete (s := c)
      ⟨magic, magic, [], ⟨rfl, hlength.symm⟩, ⟨rfl, rfl⟩, rfl⟩ hprefix
    exact ⟨c', bind_ok_iff.mpr ⟨c, c, rfl, h⟩, hcursor⟩

theorem numeric_parses (index : UInt16) : Parses id (Constant.numeric index <$> Reader.binary64)
    (fun c laid => c.kind.tag :: laid = encodeConstant c ∧ c.kind = .number ∧ c.index = index ∧
      c.Canonical) := by
  refine binary64_parses.map.congr ?_
  intro c laid
  constructor
  · rintro ⟨x, rfl, rfl⟩
    refine ⟨rfl, rfl, rfl, x.length_encode_render_le, by simp [Constant.numeric], ?_⟩
    intro y hy
    cases hy
    rfl
  · rintro ⟨hlaid, hkind, rfl, hc⟩
    obtain ⟨x, hx⟩ := Option.isSome_iff_exists.mp (hc.number_isSome.mpr hkind)
    have hname := hc.name_eq x hx
    refine ⟨x, ?_, ?_⟩
    · rw [encodeConstant, hx] at hlaid
      exact (List.cons.inj hlaid).2
    · cases c
      cases hkind
      cases hx
      cases hname
      rfl

theorem named_parses (index : UInt16) {kind : ConstantKind} (hkind : kind ≠ .number) :
    Parses id (Constant.named index kind <$> Reader.text)
      (fun c laid => c.kind.tag :: laid = encodeConstant c ∧ c.kind = kind ∧ c.index = index ∧
        c.Canonical) := by
  refine text_parses.map.congr ?_
  intro c laid
  constructor
  · rintro ⟨text, ⟨rfl, hlength⟩, rfl⟩
    exact ⟨rfl, rfl, rfl, hlength, by simpa [Constant.named] using hkind, nofun⟩
  · rintro ⟨hlaid, rfl, rfl, hc⟩
    have hnone : c.number = none := by
      rw [← Option.not_isSome_iff_eq_none, hc.number_isSome]
      exact hkind
    rw [encodeConstant, hnone] at hlaid
    refine ⟨c.name, ⟨(List.cons.inj hlaid).2, hc.name_length⟩, ?_⟩
    cases c
    cases hnone
    rfl

/-- What follows a tag: a number, or a name. -/
theorem payload_parses (index : UInt16) (start : Nat) (tag : UInt8) :
    Parses id (match ConstantKind.ofTag? tag with
      | none => throw (.unknownConstantKind tag start)
      | some .number => Constant.numeric index <$> Reader.binary64
      | some kind => Constant.named index kind <$> Reader.text : Reader Constant)
      (fun c laid => c.kind.tag :: laid = encodeConstant c ∧
        ConstantKind.ofTag? tag = some c.kind ∧ c.index = index ∧ c.Canonical) := by
  cases hkind : ConstantKind.ofTag? tag with
  | none => exact (Parses.throw _).congr (by simp)
  | some kind =>
    simp only [Option.some.injEq, eq_comm (a := kind)]
    cases kind with
    | number => exact numeric_parses index
    | _ => exact named_parses index nofun

theorem constant_parses (index : UInt16) : Parses id (readConstant index)
    (fun c laid => laid = encodeConstant c ∧ c.index = index ∧ c.Canonical) := by
  refine position_parses fun start => (u8_parses.bind (payload_parses index start)).congr ?_
  intro c laid
  constructor
  · rintro ⟨tag, _, rest, rfl, ⟨hrest, htag, hc⟩, rfl⟩
    rw [← ConstantKind.tag_of_ofTag? htag]
    exact ⟨hrest, hc⟩
  · rintro ⟨rfl, hc⟩
    exact ⟨c.kind.tag, _, _, rfl, ⟨rfl, ConstantKind.ofTag?_tag _, hc⟩, rfl⟩

/-- The index of a constant that was read is its position. -/
theorem constants_parses : Parses id (Reader.list readConstant)
    (fun cs laid => laid = encodeList encodeConstant cs ∧ cs.length ≤ 65535 ∧
      (∀ (i : Nat) (c : Constant), cs[i]? = some c → c.index.toNat = i) ∧
      ∀ c ∈ cs, c.Canonical) := by
  refine (list_parses constant_parses).congr ?_
  intro cs laid
  refine and_congr_right fun _ => and_congr_right fun hlength => ?_
  constructor
  · intro h
    refine ⟨fun i c hc => ?_, fun c hc => ?_⟩
    · have hi : i < cs.length := (List.getElem?_eq_some_iff.mp hc).1
      rw [(h i c hc).1]
      exact toNat_ofNat_of_le (by omega)
    · obtain ⟨i, hi⟩ := List.mem_iff_getElem?.mp hc
      exact (h i c hi).2
  · rintro ⟨hindex, hcanonical⟩ i c hc
    refine ⟨?_, hcanonical c (List.mem_of_getElem? hc)⟩
    rw [← hindex i c hc, UInt16.ofNat_toNat]

theorem method_parses : Parses id readMethod (fun m laid => laid = encodeMethod m ∧ True) := by
  refine (u16_parses.bind fun index => u16_parses.bind fun parameters =>
    .pure (MethodDecl.mk index parameters)).congr ?_
  intro m laid
  constructor
  · rintro ⟨index, _, _, rfl, ⟨parameters, _, _, rfl, ⟨rfl, rfl⟩, rfl⟩, rfl⟩
    exact ⟨by rw [List.append_nil, encodeMethod], trivial⟩
  · rintro ⟨rfl, -⟩
    refine ⟨m.index, _, _, rfl, ⟨m.parameters, _, [], rfl, ⟨rfl, rfl⟩, rfl⟩, ?_⟩
    rw [List.append_nil, encodeMethod]

theorem type_parses : Parses id readType
    (fun t laid => laid = encodeType t ∧ t.methods.length ≤ 65535) := by
  refine (u16_parses.bind fun index => (plainList_parses method_parses).bind fun methods =>
    .pure (TypeDecl.mk index methods)).congr ?_
  intro t laid
  constructor
  · rintro ⟨index, _, _, rfl, ⟨methods, _, _, ⟨rfl, hlength, -⟩, ⟨rfl, rfl⟩, rfl⟩, rfl⟩
    exact ⟨by rw [List.append_nil, encodeType], hlength⟩
  · rintro ⟨rfl, hlength⟩
    refine ⟨t.index, _, _, rfl, ⟨t.methods, _, [], ⟨rfl, hlength, fun _ _ => trivial⟩,
      ⟨rfl, rfl⟩, rfl⟩, ?_⟩
    rw [List.append_nil, encodeType]

theorem body_parses : Parses id readBody
    (fun b laid => laid = encodeBody b ∧ b.code.size ≤ 65535) := by
  refine (u16_parses.bind fun callable => u16_parses.bind fun slots =>
    counted_parses.bind fun code => .pure (Body.mk callable slots code.toArray)).congr ?_
  intro b laid
  constructor
  · rintro ⟨callable, _, _, rfl, ⟨slots, _, _, rfl,
      ⟨code, _, _, ⟨rfl, hlength⟩, ⟨rfl, rfl⟩, rfl⟩, rfl⟩, rfl⟩
    exact ⟨by rw [List.append_nil, encodeBody, List.append_assoc], hlength⟩
  · rintro ⟨rfl, hsize⟩
    refine ⟨b.callable, _, _, rfl, ⟨b.slots, _, _, rfl,
      ⟨b.code.toList, _, [], ⟨rfl, hsize⟩, ⟨rfl, rfl⟩, rfl⟩, rfl⟩, ?_⟩
    rw [List.append_nil, encodeBody, List.append_assoc]

/-! ## 2. Loading -/

/-- A reader parses the same layout while loading. -/
theorem Parses.read {α : Type} {reader : Reader α} {layout : α → List UInt8 → Prop}
    (h : Parses id reader layout) : Parses Progress.cursor (Loader.read reader) layout where
  sound := by
    intro s s' a hs
    simp only [Loader.read] at hs
    split at hs
    · rename_i cursor hread
      cases hs
      exact h.sound hread
    · cases hs
  complete := by
    intro s a bytes hlayout hprefix
    obtain ⟨cursor, hread, hcursor⟩ := h.complete (s := s.cursor) hlayout hprefix
    exact ⟨{ s with cursor }, by simp only [Loader.read, hread], hcursor⟩

/-- Nothing is read where something is logged. -/
theorem log_parses (event : Event) :
    Parses Progress.cursor (Loader.log event) (fun _ laid => laid = []) where
  sound := by
    intro s s' _ h
    cases h
    exact ⟨[], rfl, List.nil_prefix, rfl⟩
  complete := by
    rintro s _ _ rfl -
    exact ⟨_, rfl, rfl⟩

theorem part_parses {α : Type} {element : UInt16 → Reader α} {layout : List α → List UInt8 → Prop}
    (part : ImagePart) (h : Parses id (Reader.list element) layout) :
    Parses Progress.cursor (Loader.part part element) layout := by
  refine (h.read.bind fun xs => (log_parses _).bind fun _ => .pure xs).congr ?_
  intro xs laid
  constructor
  · rintro ⟨xs, first, _, hfirst, ⟨_, _, _, rfl, ⟨rfl, rfl⟩, rfl⟩, rfl⟩
    rwa [List.append_nil, List.append_nil]
  · intro h
    refine ⟨xs, laid, _, h, ⟨(), [], [], rfl, ⟨rfl, rfl⟩, rfl⟩, ?_⟩
    rw [List.append_nil, List.append_nil]

/-- What follows a program is counted, but not read. -/
theorem rest_parses (p : Program) :
    Parses Progress.cursor (do
      let cursor := (← get).cursor
      unless cursor.atEnd do
        Loader.log (.trailingBytes cursor.remaining)
      pure p : Loader Program) (fun q laid => q = p ∧ laid = []) := by
  refine .get fun s => ?_
  dsimp only
  split
  · exact .pure p
  · refine ((log_parses _).bind fun _ => .pure p).congr ?_
    intro q laid
    constructor
    · rintro ⟨_, _, _, rfl, ⟨rfl, rfl⟩, rfl⟩
      exact ⟨rfl, rfl⟩
    · rintro ⟨rfl, rfl⟩
      exact ⟨(), [], [], rfl, ⟨rfl, rfl⟩, rfl⟩

theorem program_parses : Parses Progress.cursor Loader.program
    (fun p laid => laid = encode p ∧ p.Canonical) := by
  refine (magic_parses.read.bind fun _ => u8_parses.read.bind fun major =>
    u8_parses.read.bind fun minor =>
    (part_parses .imports (plainList_parses text_parses)).bind fun imports =>
    (part_parses .constants constants_parses).bind fun constants =>
    (part_parses .types (plainList_parses type_parses)).bind fun types =>
    (part_parses .bodies (plainList_parses body_parses)).bind fun bodies =>
    rest_parses ⟨major, minor, imports, constants.toArray, types, bodies⟩).congr ?_
  intro p laid
  constructor
  · rintro ⟨_, _, _, rfl, ⟨major, _, _, rfl, ⟨minor, _, _, rfl,
      ⟨imports, _, _, ⟨rfl, himports, hnames⟩, ⟨constants, _, _, ⟨rfl, hconstants, hindex, hcanonical⟩,
      ⟨types, _, _, ⟨rfl, htypes, hmethods⟩, ⟨bodies, _, _, ⟨rfl, hbodies, hcodes⟩,
      ⟨rfl, rfl⟩, rfl⟩, rfl⟩, rfl⟩, rfl⟩, rfl⟩, rfl⟩, rfl⟩
    refine ⟨?_, himports, hnames, hconstants, ?_, ?_, htypes, hmethods, hbodies, hcodes⟩
    · simp only [encode, List.append_assoc, List.append_nil, List.cons_append, List.nil_append]
    · intro i c hc
      exact hindex i c (by simpa using hc)
    · intro c hc
      exact hcanonical c (by simpa using hc)
  · rintro ⟨rfl, hp⟩
    refine ⟨(), _, _, rfl, ⟨p.major, _, _, rfl, ⟨p.minor, _, _, rfl,
      ⟨p.imports, _, _, ⟨rfl, hp.imports_length, hp.import_length⟩,
      ⟨p.constants.toList, _, _, ⟨rfl, hp.constants_size, ?_, ?_⟩,
      ⟨p.types, _, _, ⟨rfl, hp.types_length, hp.methods_length⟩,
      ⟨p.bodies, _, [], ⟨rfl, hp.bodies_length, hp.code_size⟩,
      ⟨rfl, rfl⟩, rfl⟩, rfl⟩, rfl⟩, rfl⟩, rfl⟩, rfl⟩, ?_⟩
    · intro i c hc
      exact hp.constant_index i c (by simpa using hc)
    · intro c hc
      exact hp.constant c (by simpa using hc)
    · simp only [encode, List.append_assoc, List.append_nil, List.cons_append, List.nil_append]

/-- **Loading accepts exactly the images of canonical programs.**  A program is loaded from bytes
exactly when it is canonical and the bytes start with its image; what follows is ignored. -/
theorem load_ok_iff (bytes : List UInt8) (p : Program) :
    (load bytes).result = .ok p ↔ p.Canonical ∧ ∃ rest, bytes = encode p ++ rest := by
  have hload : (load bytes).result = .ok p ↔
      ∃ s, Loader.program ⟨Cursor.start bytes, #[]⟩ = .ok p s := by
    simp only [load]
    cases Loader.program ⟨Cursor.start bytes, #[]⟩ with
    | ok q s => simp
    | error e s => simp
  rw [hload]
  constructor
  · rintro ⟨s, h⟩
    obtain ⟨_, ⟨rfl, hp⟩, ⟨rest, hrest⟩, -⟩ := program_parses.sound h
    exact ⟨hp, rest, hrest.symm⟩
  · rintro ⟨hp, rest, rfl⟩
    obtain ⟨s, h, -⟩ := program_parses.complete (s := ⟨Cursor.start (encode p ++ rest), #[]⟩)
      ⟨rfl, hp⟩ (List.prefix_append _ _)
    exact ⟨s, h⟩

end Image

end BytecodeVm
