import NeilOS.Vga.Model
import Mathlib.Data.Nat.Digits.Defs
import Mathlib.Tactic.IntervalCases

/-!
# The characters a call writes

Every output function hands its characters one after the other to `vga_putchar_raw`. The text of a
call is stated here on its own, with numbers in the canonical notation of `Nat.toDigits`, and each
output function is shown to write exactly that text and to count its characters.
-/

namespace NeilOS

open Foundation

namespace Terminal

/-- `vga_putchar_raw` on every character of a text. -/
def putAll (text : List Byte) (terminal : Terminal) : Option Terminal :=
  text.foldlM (fun terminal c ↦ terminal.vgaPutcharRaw c) terminal

/-- What a loop that writes a text and counts its characters on top of `cnt` does. -/
def printed (text : List Byte) (cnt : ℕ) (terminal : Terminal) : Option (ℕ × Terminal) :=
  (terminal.putAll text).bind fun after ↦ some (cnt + text.length, after)

@[simp]
theorem putAll_nil (terminal : Terminal) : terminal.putAll [] = some terminal := rfl

theorem putAll_cons (c : Byte) (text : List Byte) (terminal : Terminal) :
    terminal.putAll (c :: text) = (terminal.vgaPutcharRaw c).bind (putAll text) := rfl

theorem putAll_singleton (c : Byte) (terminal : Terminal) :
    terminal.putAll [c] = terminal.vgaPutcharRaw c :=
  Option.bind_fun_some _

theorem putAll_append (text rest : List Byte) (terminal : Terminal) :
    terminal.putAll (text ++ rest) = (terminal.putAll text).bind (putAll rest) :=
  List.foldlM_append

@[simp]
theorem printed_nil (cnt : ℕ) (terminal : Terminal) :
    terminal.printed [] cnt = some (cnt, terminal) := rfl

theorem printed_cons (c : Byte) (text : List Byte) (cnt : ℕ) (terminal : Terminal) :
    terminal.printed (c :: text) cnt =
      (terminal.vgaPutcharRaw c).bind fun terminal ↦ terminal.printed text (cnt + 1) := by
  simp only [printed, putAll_cons, Option.bind_assoc, List.length_cons, Nat.add_assoc,
    Nat.add_comm 1]

theorem printed_append (text rest : List Byte) (cnt : ℕ) (terminal : Terminal) :
    terminal.printed (text ++ rest) cnt =
      (terminal.putAll text).bind fun terminal ↦ terminal.printed rest (cnt + text.length) := by
  simp only [printed, putAll_append, Option.bind_assoc, List.length_append, Nat.add_assoc]

theorem printed_bind {Result : Type} (text : List Byte) (cnt : ℕ) (terminal : Terminal)
    (next : ℕ × Terminal → Option Result) :
    (terminal.printed text cnt).bind next =
      (terminal.putAll text).bind fun after ↦ next (cnt + text.length, after) := by
  simp only [printed, Option.bind_assoc, Option.bind_some]

/-! ## Strings and numbers -/

/-- The characters of a string, up to its terminating zero. -/
def stringText (str : List Byte) : List Byte := str.takeWhile (· ≠ 0)

/-- The canonical numeral of a number, with lowercase letters above nine. -/
def numeral (base value : ℕ) : List Byte := (Nat.toDigits base value).map ascii

/-- The canonical signed decimal numeral. -/
def signedNumeral (value : ℤ) : List Byte :=
  if value < 0 then ascii '-' :: numeral 10 value.natAbs else numeral 10 value.natAbs

theorem signedNumeral_of_neg {value : Word} (h : value.toInt < 0) :
    signedNumeral value.toInt = ascii '-' :: numeral 10 (-(value + 1) + 1).toNat := by
  have hmagnitude : (-(value + 1) + 1).toNat = value.toInt.natAbs := by
    rw [BitVec.toInt_eq_toNat_cond] at h ⊢
    bv_omega
  rw [signedNumeral, if_pos h, hmagnitude]

theorem signedNumeral_of_nonneg {value : Word} (h : ¬ value.toInt < 0) :
    signedNumeral value.toInt = numeral 10 value.toNat := by
  have hmagnitude : value.toNat = value.toInt.natAbs := by
    rw [BitVec.toInt_eq_toNat_cond] at h ⊢
    omega
  rw [signedNumeral, if_neg h, hmagnitude]

theorem putString_eq (str : List Byte) (cnt : ℕ) (terminal : Terminal) :
    terminal.putString str cnt = terminal.printed (stringText str) cnt := by
  induction str generalizing cnt terminal with
  | nil => rfl
  | cons c str ih =>
    unfold putString stringText
    by_cases hzero : c = 0
    · simp [hzero]
    · rw [if_neg hzero, List.takeWhile_cons_of_pos (by simpa using hzero), printed_cons]
      congr 1
      funext after
      exact ih (cnt + 1) after

theorem printDigits_eq (buffer : List Byte) (cnt : ℕ) (terminal : Terminal) :
    terminal.printDigits buffer cnt = terminal.printed buffer cnt := by
  induction buffer generalizing cnt terminal with
  | nil => rfl
  | cons digit buffer ih =>
    rw [printed_cons, printDigits]
    congr 1
    funext after
    exact ih (cnt + 1) after

theorem digits_eq {digit : ℕ} (h : digit < 16) : digits[digit]? = some (ascii digit.digitChar) := by
  interval_cases digit <;> rfl

/-- The digits come out of the value last digit first, and there is room for all of them. -/
theorem collectDigits_eq {base value : Word} {room : ℕ} (buffer : List Byte)
    (hbase : 1 < base.toNat) (hdigits : base.toNat ≤ 16) (hvalue : value ≠ 0)
    (hroom : value.toNat < base.toNat ^ room) :
    collectDigits base room value buffer =
      some (numeral base.toNat value.toNat ++ buffer) := by
  induction room generalizing value buffer with
  | zero =>
    have hzero : value.toNat = 0 := by simpa using hroom
    exact absurd (BitVec.eq_of_toNat_eq hzero) hvalue
  | succ room ih =>
    have hdigit : (value % base).toNat < 16 := by
      rw [BitVec.toNat_umod]
      exact (Nat.mod_lt _ (by omega)).trans_le hdigits
    have hquotient : (value / base).toNat = value.toNat / base.toNat := BitVec.toNat_udiv
    rw [collectDigits, if_neg hvalue, digits_eq hdigit, BitVec.toNat_umod]
    change collectDigits base room (value / base) _ = _
    by_cases hsmall : value.toNat < base.toNat
    · have hlast : value / base = 0 := BitVec.eq_of_toNat_eq (by
        rw [hquotient, Nat.div_eq_of_lt hsmall]
        rfl)
      rw [hlast, Nat.mod_eq_of_lt hsmall, numeral, Nat.toDigits_of_lt_base hsmall]
      cases room <;> rfl
    · have hfits : (value / base).toNat < base.toNat ^ room := by
        rw [hquotient, Nat.div_lt_iff_lt_mul (by omega)]
        rwa [Nat.pow_succ] at hroom
      have hmore : value / base ≠ 0 := by
        intro hzero
        have hnat := congrArg BitVec.toNat hzero
        rw [hquotient] at hnat
        exact absurd hnat (Nat.div_pos (by omega) (by omega)).ne'
      rw [ih _ hmore hfits, hquotient, numeral, numeral,
        Nat.toDigits_of_base_le hbase (Nat.le_of_not_lt hsmall)]
      simp

theorem vgaPrintUnsigned_eq {base : Word} (value : Word) (terminal : Terminal)
    (hbase : 4 ≤ base.toNat) (hdigits : base.toNat ≤ 16) :
    terminal.vgaPrintUnsigned value base =
      terminal.printed (numeral base.toNat value.toNat) 0 := by
  unfold vgaPrintUnsigned
  by_cases hzero : value = 0
  · rw [if_pos hzero, hzero, show (0 : Word).toNat = 0 from rfl, numeral,
      Nat.toDigits_of_lt_base (by omega)]
    exact (printed_cons (ascii '0') [] 0 terminal).symm
  · have hroom : value.toNat < base.toNat ^ 16 :=
      calc
        value.toNat < 4 ^ 16 := by
          have := value.isLt
          omega
        _ ≤ base.toNat ^ 16 := Nat.pow_le_pow_left hbase 16
    rw [if_neg hzero, collectDigits_eq [] (by omega) hdigits hzero hroom, List.append_nil]
    exact printDigits_eq _ 0 terminal

theorem printDecimal_eq (value : Word) (terminal : Terminal) :
    terminal.vgaPrintUnsigned value 10 = terminal.printed (numeral 10 value.toNat) 0 :=
  vgaPrintUnsigned_eq value terminal (by decide) (by decide)

theorem printHex_eq (value : Word) (terminal : Terminal) :
    terminal.vgaPrintUnsigned value 16 = terminal.printed (numeral 16 value.toNat) 0 :=
  vgaPrintUnsigned_eq value terminal (by decide) (by decide)

theorem vgaPrintSigned_eq (value : Word) (terminal : Terminal) :
    terminal.vgaPrintSigned value = terminal.printed (signedNumeral value.toInt) 0 := by
  unfold vgaPrintSigned
  by_cases hnegative : value.toInt < 0
  · rw [if_pos hnegative, signedNumeral_of_neg hnegative, printed_cons]
    congr 1
    funext after
    rw [printDecimal_eq, Option.bind_eq_bind, printed_bind]
    simp only [printed, Nat.zero_add]
  · rw [if_neg hnegative, signedNumeral_of_nonneg hnegative, printDecimal_eq]

/-! ## Formats -/

/-- The text of one conversion and the arguments it leaves. -/
def conversion (c : Byte) (args : List Argument) : Option (List Byte × List Argument) :=
  if c = ascii '%' then some ([ascii '%'], args)
  else if c = ascii 'c' then
    (vaArgNumber args).bind fun (value, args) ↦ some ([value.setWidth 8], args)
  else if c = ascii 's' then
    (vaArgString args).bind fun (str, args) ↦ some (stringText (str.getD nullText), args)
  else if c = ascii 'd' ∨ c = ascii 'i' then
    (vaArgNumber args).bind fun (value, args) ↦ some (signedNumeral value.toInt, args)
  else if c = ascii 'u' then
    (vaArgNumber args).bind fun (value, args) ↦ some (numeral 10 value.toNat, args)
  else if c = ascii 'x' then
    (vaArgNumber args).bind fun (value, args) ↦
      some (ascii '0' :: ascii 'x' :: numeral 16 value.toNat, args)
  else some ([ascii '%', c], args)

/-- The text of a format. There is none if a conversion lacks its argument. -/
def expansion : List Byte → List Argument → Option (List Byte)
  | [], _ => some []
  | [c], _ => if c = 0 ∨ c = ascii '%' then some [] else some [c]
  | c :: d :: fmt, args =>
    if c = 0 then some []
    else if c ≠ ascii '%' then (expansion (d :: fmt) args).map (c :: ·)
    else if d = 0 then some []
    else (conversion d args).bind fun piece ↦
      (expansion fmt piece.2).map (piece.1 ++ ·)

theorem convert_eq (c : Byte) (args : List Argument) (terminal : Terminal) :
    terminal.convert c args = (conversion c args).bind fun piece ↦
      (terminal.putAll piece.1).bind fun after ↦ some (piece.1.length, piece.2, after) := by
  unfold convert conversion
  split_ifs with hpercent hchar hstring hsigned hunsigned hhex
  · simp only [Option.bind_eq_bind, putAll_cons, putAll_nil, Option.bind_assoc, Option.bind_some,
      List.length_singleton]
  · simp only [Option.bind_eq_bind, putAll_cons, putAll_nil, Option.bind_assoc, Option.bind_some,
      List.length_singleton]
  · simp only [Option.bind_eq_bind, putString_eq, printed_bind, Option.bind_assoc, Option.bind_some,
      Nat.zero_add]
  · simp only [Option.bind_eq_bind, vgaPrintSigned_eq, printed_bind, Option.bind_assoc, Option.bind_some,
      Nat.zero_add]
  · simp only [Option.bind_eq_bind, printDecimal_eq, printed_bind, Option.bind_assoc, Option.bind_some,
      Nat.zero_add]
  · -- The two characters before the number do not depend on the argument.
    simp only [Option.bind_eq_bind, printHex_eq, printed_bind, Option.bind_assoc, Option.bind_some,
      Nat.zero_add, putAll_cons, List.length_cons, Nat.add_assoc, Nat.add_comm 2]
    rw [Option.bind_comm (vaArgNumber args)]
    congr 1
    funext after
    exact Option.bind_comm _ _
  · simp only [Option.bind_eq_bind, putAll_cons, putAll_nil, Option.bind_assoc, Option.bind_some,
      List.length_cons, List.length_nil]

theorem vvgaWriteFrom_eq (fmt : List Byte) (args : List Argument) (cnt : ℕ) (terminal : Terminal) :
    terminal.vvgaWriteFrom fmt args cnt =
      (expansion fmt args).bind fun text ↦ terminal.printed text cnt := by
  induction fmt, args using expansion.induct generalizing cnt terminal with
  | case1 args => rfl
  | case2 c args hends => simp only [vvgaWriteFrom, expansion, if_pos hends, Option.bind_some, printed_nil]
  | case3 c args hends =>
    simp only [vvgaWriteFrom, expansion, if_neg hends, Option.bind_some, printed_cons]
    rfl
  | case4 d fmt args => simp [vvgaWriteFrom, expansion]
  | case5 c d fmt args hnonzero hordinary ih =>
    simp only [vvgaWriteFrom, expansion, if_neg hnonzero, if_pos hordinary, Option.bind_eq_bind, ih,
      Option.bind_map, Function.comp_def, printed_cons]
    exact Option.bind_comm _ _
  | case6 c fmt args hnonzero hordinary =>
    simp only [vvgaWriteFrom, expansion, if_neg hnonzero, if_neg hordinary, if_pos, Option.bind_some,
      printed_nil]
  | case7 c d fmt args hnonzero hordinary hmore ih =>
    simp only [vvgaWriteFrom, expansion, if_neg hnonzero, if_neg hordinary, if_neg hmore,
      convert_eq, Option.bind_eq_bind, Option.bind_assoc]
    congr 1
    funext piece
    simp only [Option.bind_some, ih, Option.bind_map, Function.comp_def, printed_append]
    exact Option.bind_comm _ _

/-! ## The output functions -/

theorem vvgaWrite_eq (fmt : List Byte) (args : List Argument) (terminal : Terminal) :
    terminal.vvgaWrite fmt args = (expansion fmt args).bind fun text ↦ terminal.printed text 0 :=
  vvgaWriteFrom_eq fmt args 0 terminal

theorem vgaPutchar_eq (c : Byte) (terminal : Terminal) :
    terminal.vgaPutchar c = (terminal.putAll [c]).bind vgaFlush := by
  rw [putAll_singleton]
  rfl

theorem vgaWrite_eq (str : List Byte) (terminal : Terminal) :
    terminal.vgaWrite str = (terminal.putAll (stringText str)).bind vgaFlush := by
  simp only [vgaWrite, putString_eq, Option.bind_eq_bind, printed_bind]

theorem fvgaWrite_eq (fmt : List Byte) (args : List Argument) (terminal : Terminal) :
    terminal.fvgaWrite fmt args = (expansion fmt args).bind fun text ↦
      ((terminal.putAll text).bind vgaFlush).bind fun after ↦ some (text.length, after) := by
  simp only [fvgaWrite, vvgaWrite_eq, Option.bind_eq_bind, Option.bind_assoc, printed_bind,
    Nat.zero_add]

end Terminal

end NeilOS
