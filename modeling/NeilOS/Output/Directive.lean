import NeilOS.Vga.Format

/-!
# Formats and what they stand for

The kernel's `vvga_write` and the loader's `vprintf` understand the same formats. A format is a
sequence of directives; a directive together with the argument it consumes is a piece, and the text of
a piece is stated here without reference to either implementation.
-/

namespace NeilOS

open Foundation Terminal

namespace Output

/-- The type a variadic argument is fetched with. -/
inductive Kind where
  | number
  | string
  deriving DecidableEq

def kindOf : Argument → Kind
  | .number _ => .number
  | .string _ => .string

inductive Directive where
  | ordinary (c : Byte)
  | percent
  | character
  | string
  | signed
  | unsigned
  | hex
  | unknown (c : Byte)
  deriving DecidableEq

/-- The kind of argument a directive consumes, if it consumes one. -/
def Directive.parameter : Directive → Option Kind
  | .ordinary _ => none
  | .percent => none
  | .character => some .number
  | .string => some .string
  | .signed => some .number
  | .unsigned => some .number
  | .hex => some .number
  | .unknown _ => none

/-- The directive of a character after `%`. -/
def specifier (c : Byte) : Directive :=
  if c = ascii '%' then .percent
  else if c = ascii 'c' then .character
  else if c = ascii 's' then .string
  else if c = ascii 'd' ∨ c = ascii 'i' then .signed
  else if c = ascii 'u' then .unsigned
  else if c = ascii 'x' then .hex
  else .unknown c

/-- The directives of a format. A lone `%` at the end stands for nothing. -/
def directives : List Byte → List Directive
  | [] => []
  | [c] => if c = 0 ∨ c = ascii '%' then [] else [.ordinary c]
  | c :: d :: fmt =>
    if c = 0 then []
    else if c ≠ ascii '%' then .ordinary c :: directives (d :: fmt)
    else if d = 0 then []
    else specifier d :: directives fmt

/-- The arguments begin with one for each directive that consumes one, in order and of its kind. -/
def Supplies (fmt : List Byte) (args : List Argument) : Prop :=
  (directives fmt).filterMap Directive.parameter <+: args.map kindOf

instance (fmt : List Byte) (args : List Argument) : Decidable (Supplies fmt args) :=
  inferInstanceAs (Decidable (_ <+: _))

/-! ## Pieces -/

/-- A directive with its argument. -/
inductive Piece where
  | ordinary (c : Byte)
  | percent
  | character (value : Word)
  | string (str : Option (List Byte))
  | signed (value : Word)
  | unsigned (value : Word)
  | hex (value : Word)
  | unknown (c : Byte)

namespace Piece

def directive : Piece → Directive
  | .ordinary c => .ordinary c
  | .percent => .percent
  | .character _ => .character
  | .string _ => .string
  | .signed _ => .signed
  | .unsigned _ => .unsigned
  | .hex _ => .hex
  | .unknown c => .unknown c

def argument : Piece → Option Argument
  | .ordinary _ => none
  | .percent => none
  | .character value => some (.number value)
  | .string str => some (.string str)
  | .signed value => some (.number value)
  | .unsigned value => some (.number value)
  | .hex value => some (.number value)
  | .unknown _ => none

/-- The text of a piece; `lead` is what stands before a hexadecimal number. -/
def text (lead : List Byte) : Piece → List Byte
  | .ordinary c => [c]
  | .percent => [ascii '%']
  | .character value => [value.setWidth 8]
  | .string str => stringText (str.getD nullText)
  | .signed value => signedNumeral value.toInt
  | .unsigned value => numeral 10 value.toNat
  | .hex value => lead ++ numeral 16 value.toNat
  | .unknown c => [ascii '%', c]

/-- The piece prints the number zero. -/
def printsZero : Piece → Bool
  | .signed value => value = 0
  | .unsigned value => value = 0
  | .hex value => value = 0
  | _ => false

end Piece

/-! ## Digits -/

theorem numeral_zero {base : Word} (hbase : base = 10 ∨ base = 16) :
    numeral base.toNat (0 : Word).toNat = [ascii '0'] := by
  rcases hbase with rfl | rfl <;> rfl

/-- The digits of every number fit into a buffer of 16, in both bases. -/
theorem collectDigits_all {base value : Word} (hbase : base = 10 ∨ base = 16) (hzero : value ≠ 0) :
    collectDigits base 16 value [] = some (numeral base.toNat value.toNat) := by
  have hlow : 4 ≤ base.toNat := by rcases hbase with rfl | rfl <;> decide
  have hhigh : base.toNat ≤ 16 := by rcases hbase with rfl | rfl <;> decide
  have hroom : value.toNat < base.toNat ^ 16 :=
    calc
      value.toNat < 4 ^ 16 := value.isLt
      _ ≤ base.toNat ^ 16 := Nat.pow_le_pow_left hlow 16
  rw [collectDigits_eq [] (by omega) hhigh hzero hroom, List.append_nil]

/-! ## Arguments -/

/-- A directive with an argument of its kind in front of it is a piece. -/
theorem exists_piece (directive : Directive) {kinds : List Kind} {args : List Argument}
    (h : directive.parameter.toList ++ kinds <+: args.map kindOf) :
    ∃ (piece : Piece) (rest : List Argument), piece.directive = directive ∧
      args = piece.argument.toList ++ rest ∧ kinds <+: rest.map kindOf := by
  -- Four directives fetch a number.
  have hnumber (build : Word → Piece) (hbuild : ∀ value, (build value).directive = directive ∧
      (build value).argument = some (.number value))
      (hkinds : Kind.number :: kinds <+: args.map kindOf) :
      ∃ (piece : Piece) (rest : List Argument), piece.directive = directive ∧
        args = piece.argument.toList ++ rest ∧ kinds <+: rest.map kindOf := by
    match args, hkinds with
    | .number value :: args, hkinds =>
      exact ⟨build value, args, (hbuild value).1, by rw [(hbuild value).2]; rfl,
        (List.cons_prefix_cons.mp hkinds).2⟩
    | .string _ :: _, hkinds => exact absurd (List.cons_prefix_cons.mp hkinds).1 (by simp [kindOf])
    | [], hkinds => exact absurd (List.prefix_nil.mp hkinds) (List.cons_ne_nil _ _)
  cases directive with
  | ordinary c => exact ⟨.ordinary c, args, rfl, rfl, h⟩
  | percent => exact ⟨.percent, args, rfl, rfl, h⟩
  | unknown c => exact ⟨.unknown c, args, rfl, rfl, h⟩
  | character => exact hnumber .character (fun _ ↦ ⟨rfl, rfl⟩) h
  | signed => exact hnumber .signed (fun _ ↦ ⟨rfl, rfl⟩) h
  | unsigned => exact hnumber .unsigned (fun _ ↦ ⟨rfl, rfl⟩) h
  | hex => exact hnumber .hex (fun _ ↦ ⟨rfl, rfl⟩) h
  | string =>
    match args, h with
    | .string str :: args, h => exact ⟨.string str, args, rfl, rfl, (List.cons_prefix_cons.mp h).2⟩
    | .number _ :: _, h => exact absurd (List.cons_prefix_cons.mp h).1 (by simp [kindOf])
    | [], h => exact absurd (List.prefix_nil.mp h) (List.cons_ne_nil _ _)

/-- The arguments of a list of pieces, in order. -/
def arguments (pieces : List Piece) : List Argument := pieces.flatMap fun piece ↦ piece.argument.toList

theorem exists_pieces {format : List Directive} {args : List Argument}
    (h : format.filterMap Directive.parameter <+: args.map kindOf) :
    ∃ pieces rest, pieces.map Piece.directive = format ∧ args = arguments pieces ++ rest := by
  induction format generalizing args with
  | nil => exact ⟨[], args, rfl, rfl⟩
  | cons directive format ih =>
    have hfirst : (directive :: format).filterMap Directive.parameter =
        directive.parameter.toList ++ format.filterMap Directive.parameter := by
      cases hparameter : directive.parameter with
      | none => exact List.filterMap_cons_none hparameter
      | some kind => exact List.filterMap_cons_some hparameter
    rw [hfirst] at h
    obtain ⟨piece, left, hdirective, hargs, hleft⟩ := exists_piece directive h
    obtain ⟨pieces, rest, hpieces, hrest⟩ := ih hleft
    refine ⟨piece :: pieces, rest, congrArg₂ _ hdirective hpieces, ?_⟩
    rw [hargs, hrest, arguments, arguments, List.flatMap_cons, List.append_assoc]

/-! ## Reading a format -/

/-- The pieces a format and its arguments consist of, one character or conversion at a time. -/
inductive Reads : List Byte → List Piece → Prop where
  | nil : Reads [] []
  | zero (fmt : List Byte) : Reads (0 :: fmt) []
  | percent : Reads [ascii '%'] []
  | percentZero (fmt : List Byte) : Reads (ascii '%' :: 0 :: fmt) []
  | ordinary {c : Byte} {fmt : List Byte} {pieces : List Piece} (hzero : c ≠ 0)
      (hpercent : c ≠ ascii '%') (h : Reads fmt pieces) : Reads (c :: fmt) (.ordinary c :: pieces)
  | conversion {c : Byte} {fmt : List Byte} {piece : Piece} {pieces : List Piece} (hzero : c ≠ 0)
      (hpiece : piece.directive = specifier c) (h : Reads fmt pieces) :
      Reads (ascii '%' :: c :: fmt) (piece :: pieces)

theorem eq_ordinary {piece : Piece} {c : Byte} (h : piece.directive = .ordinary c) :
    piece = .ordinary c := by
  cases piece with
  | ordinary other =>
    cases h
    rfl
  | _ => cases h

theorem reads_of_directives {fmt : List Byte} {pieces : List Piece}
    (h : pieces.map Piece.directive = directives fmt) : Reads fmt pieces := by
  induction fmt using directives.induct generalizing pieces with
  | case1 =>
    obtain rfl := List.map_eq_nil_iff.mp h
    exact .nil
  | case2 c hends =>
    rw [directives, if_pos hends] at h
    obtain rfl := List.map_eq_nil_iff.mp h
    rcases hends with rfl | rfl
    · exact .zero []
    · exact .percent
  | case3 c hends =>
    rw [directives, if_neg hends] at h
    obtain ⟨piece, rest, rfl, hpiece, hrest⟩ := List.map_eq_cons_iff.mp h
    obtain rfl := eq_ordinary hpiece
    obtain rfl := List.map_eq_nil_iff.mp hrest
    exact .ordinary (fun hzero ↦ hends (.inl hzero)) (fun hpercent ↦ hends (.inr hpercent)) .nil
  | case4 d fmt =>
    rw [directives, if_pos rfl] at h
    obtain rfl := List.map_eq_nil_iff.mp h
    exact .zero (d :: fmt)
  | case5 c d fmt hzero hordinary ih =>
    rw [directives, if_neg hzero, if_pos hordinary] at h
    obtain ⟨piece, rest, rfl, hpiece, hrest⟩ := List.map_eq_cons_iff.mp h
    obtain rfl := eq_ordinary hpiece
    exact .ordinary hzero hordinary (ih hrest)
  | case6 c fmt hzero hordinary =>
    obtain rfl := not_not.mp hordinary
    rw [directives, if_neg hzero, if_neg hordinary, if_pos rfl] at h
    obtain rfl := List.map_eq_nil_iff.mp h
    exact .percentZero fmt
  | case7 c d fmt hzero hordinary hmore ih =>
    obtain rfl := not_not.mp hordinary
    rw [directives, if_neg hzero, if_neg hordinary, if_neg hmore] at h
    obtain ⟨piece, rest, rfl, hpiece, hrest⟩ := List.map_eq_cons_iff.mp h
    exact .conversion hmore hpiece (ih hrest)

/-- Arguments that a format is supplied with, divided into those it consumes and the rest. -/
theorem Supplies.exists_reads {fmt : List Byte} {args : List Argument} (h : Supplies fmt args) :
    ∃ pieces rest, pieces.map Piece.directive = directives fmt ∧ args = arguments pieces ++ rest ∧
      Reads fmt pieces := by
  obtain ⟨pieces, rest, hpieces, hargs⟩ := exists_pieces h
  exact ⟨pieces, rest, hpieces, hargs, reads_of_directives hpieces⟩

end Output

end NeilOS
