import Mathlib.Data.Nat.ModEq
import NeilOS.Foundation.Trace
import NeilOS.Output.Directive

/-!
# The loader's print library

`print.c` of stage 2 prints through `putchar`, which gives the BIOS a carriage return before a newline
and returns the character it printed. The functions above it count the characters, except for one
branch: `print_unsigned` returns for zero what `putchar` returned, which is the code of the digit.

The operation of these programs is a call of `putchar`; a `char` is signed and widened to `int`.
-/

namespace NeilOS

open Foundation Program Output
open Terminal (Argument ascii collectDigits vaArgNumber vaArgString nullText numeral signedNumeral
  stringText)

namespace Stage2

/-- `int $0x10` with `AH = 0x0E`; the screen is the list of characters given to it. -/
def biosPrintChar (c : Byte) (screen : List Byte) : List Byte := screen ++ [c]

def putchar (ch : Word) (screen : List Byte) : Word × List Byte :=
  let screen := if ch = 0x0A then biosPrintChar 0x0D screen else screen
  ((ch.setWidth 8).setWidth 32, biosPrintChar (ch.setWidth 8) screen)

abbrev PrintProgram := Program Word fun _ ↦ Word

def bios : Handler Word (fun _ ↦ Word) (List Byte) := fun ch screen ↦ some (putchar ch screen)

/-- The conversion of a `char` to the parameter of `putchar`. -/
def widen (c : Byte) : Word := c.signExtend 32

/-- `cnt += (putchar(ch) >= 0) ? 1 : 0`. -/
def putCounted (ch cnt : Word) : PrintProgram Word := do
  let code ← call ch
  pure (cnt + if 0 ≤ code.toInt then 1 else 0)

/-- The second loop of `print_unsigned`. -/
def printDigits : List Byte → Word → PrintProgram Word
  | [], cnt => pure cnt
  | digit :: buffer, cnt => do
    let cnt ← putCounted (widen digit) cnt
    printDigits buffer cnt

def printUnsigned (value base : Word) : PrintProgram Word :=
  if value = 0 then call (widen (ascii '0'))
  else do
    let buffer ← ofOption (collectDigits base 16 value [])
    printDigits buffer 0

def printSigned (value : Word) : PrintProgram Word :=
  if value.toInt < 0 then do
    let cnt ← putCounted (widen (ascii '-')) 0
    let printed ← printUnsigned (-(value + 1) + 1) 10
    pure (cnt + printed)
  else do
    let printed ← printUnsigned value 10
    pure (0 + printed)

/-- The loop of `%s`. -/
def printString : List Byte → Word → PrintProgram Word
  | [], cnt => pure cnt
  | c :: str, cnt =>
    if c = 0 then pure cnt
    else do
      let cnt ← putCounted (widen c) cnt
      printString str cnt

/-- The `switch` of `vprintf` for a character that does not end the format. -/
def convert (c : Byte) (args : List Argument) (cnt : Word) : PrintProgram (Word × List Argument) :=
  if c = ascii '%' then do
    let cnt ← putCounted (widen (ascii '%')) cnt
    pure (cnt, args)
  else if c = ascii 'c' then do
    let (value, args) ← ofOption (vaArgNumber args)
    let cnt ← putCounted value cnt
    pure (cnt, args)
  else if c = ascii 's' then do
    let (str, args) ← ofOption (vaArgString args)
    let cnt ← printString (str.getD nullText) cnt
    pure (cnt, args)
  else if c = ascii 'd' ∨ c = ascii 'i' then do
    let (value, args) ← ofOption (vaArgNumber args)
    let printed ← printSigned value
    pure (cnt + printed, args)
  else if c = ascii 'u' then do
    let (value, args) ← ofOption (vaArgNumber args)
    let printed ← printUnsigned value 10
    pure (cnt + printed, args)
  else if c = ascii 'x' then do
    let (value, args) ← ofOption (vaArgNumber args)
    let printed ← printUnsigned value 16
    pure (cnt + printed, args)
  else do
    let cnt ← putCounted (widen (ascii '%')) cnt
    let cnt ← putCounted (widen c) cnt
    pure (cnt, args)

def vprintfFrom : List Byte → List Argument → Word → PrintProgram (Word × List Argument)
  | [], args, cnt => pure (cnt, args)
  | [c], args, cnt =>
    if c = 0 ∨ c = ascii '%' then pure (cnt, args)
    else do
      let cnt ← putCounted (widen c) cnt
      pure (cnt, args)
  | c :: d :: fmt, args, cnt =>
    if c = 0 then pure (cnt, args)
    else if c ≠ ascii '%' then do
      let cnt ← putCounted (widen c) cnt
      vprintfFrom (d :: fmt) args cnt
    else if d = 0 then pure (cnt, args)
    else do
      let (cnt, args) ← convert d args cnt
      vprintfFrom fmt args cnt

/-- `vprintf`, with the arguments it left beside the count. -/
def vprintf (fmt : List Byte) (args : List Argument) : PrintProgram (Word × List Argument) :=
  vprintfFrom fmt args 0

/-! ## Calls of `putchar` -/

/-- The screen after a list of calls. -/
def printed (calls : List Word) (screen : List Byte) : List Byte :=
  calls.foldl (fun screen ch ↦ (putchar ch screen).2) screen

/-- On every screen the program makes these calls of `putchar` and returns this value. -/
def Prints {α : Type} (program : PrintProgram α) (calls : List Word) (value : α) : Prop :=
  ∀ screen, Performs bios program screen calls value (printed calls screen)

variable {α β : Type}

theorem prints_pure (value : α) : Prints (pure value) [] value :=
  fun screen ↦ performs_pure value screen

theorem prints_call (ch : Word) : Prints (call ch) [ch] ((ch.setWidth 8).setWidth 32) :=
  fun _ ↦ performs_call rfl

theorem Prints.bind {program : PrintProgram α} {next : α → PrintProgram β} {calls rest : List Word}
    {value : α} {other : β} (h : Prints program calls value) (hnext : Prints (next value) rest other) :
    Prints (program >>= next) (calls ++ rest) other := by
  intro screen
  rw [printed, List.foldl_append]
  exact (h screen).bind (hnext (printed calls screen))

theorem Prints.map {program : PrintProgram α} {calls : List Word} {value : α}
    (h : Prints program calls value) (f : α → β) :
    Prints (program >>= fun value ↦ pure (f value)) calls (f value) :=
  fun screen ↦ (h screen).map f

/-- The code `putchar` returns is not negative, so every counted call counts. -/
theorem prints_putCounted (ch cnt : Word) : Prints (putCounted ch cnt) [ch] (cnt + 1) := by
  have hcode : 0 ≤ ((ch.setWidth 8).setWidth 32 : Word).toInt := by
    rw [BitVec.toInt_eq_toNat_cond, BitVec.toNat_setWidth]
    have hbyte := (ch.setWidth 8).isLt
    split_ifs <;> omega
  have hcount := (prints_call ch).map fun code ↦ cnt + if 0 ≤ code.toInt then 1 else 0
  rwa [if_pos hcode] at hcount

/-! ## Numbers -/

/-- What the result exceeds the count by: zero is reported as the code 48 of its digit. -/
def excess (zero : Bool) : ℕ := if zero then 47 else 0

theorem excess_of_ne {value : Word} (h : value ≠ 0) : excess (value = 0) = 0 :=
  if_neg fun hzero ↦ h (of_decide_eq_true hzero)

theorem prints_printDigits (buffer : List Byte) (cnt : Word) :
    Prints (printDigits buffer cnt) (buffer.map widen) (cnt + BitVec.ofNat 32 buffer.length) := by
  induction buffer generalizing cnt with
  | nil =>
    rw [List.length_nil, BitVec.add_zero]
    exact prints_pure cnt
  | cons digit buffer ih =>
    rw [List.length_cons, ← Word.add_one_ofNat]
    exact (prints_putCounted (widen digit) cnt).bind (ih (cnt + 1))

theorem prints_printUnsigned {base : Word} (value : Word) (hbase : base = 10 ∨ base = 16) :
    Prints (printUnsigned value base) ((numeral base.toNat value.toNat).map widen)
      (BitVec.ofNat 32 ((numeral base.toNat value.toNat).length + excess (value = 0))) := by
  unfold printUnsigned
  by_cases hzero : value = 0
  · rw [if_pos hzero, hzero, numeral_zero hbase]
    exact prints_call (widen (ascii '0'))
  · rw [if_neg hzero, collectDigits_all hbase hzero]
    change Prints (printDigits _ 0#32) _ _
    have hdigits := prints_printDigits (numeral base.toNat value.toNat) 0#32
    rw [BitVec.zero_add] at hdigits
    rw [excess_of_ne hzero]
    exact hdigits

theorem prints_printDecimal (value : Word) :
    Prints (printUnsigned value 10) ((numeral 10 value.toNat).map widen)
      (BitVec.ofNat 32 ((numeral 10 value.toNat).length + excess (value = 0))) :=
  prints_printUnsigned value (.inl rfl)

theorem prints_printSigned (value : Word) :
    Prints (printSigned value) ((signedNumeral value.toInt).map widen)
      (BitVec.ofNat 32 ((signedNumeral value.toInt).length + excess (value = 0))) := by
  unfold printSigned
  by_cases hnegative : value.toInt < 0
  · have hzero : value ≠ 0 := by
      intro h
      rw [h] at hnegative
      exact absurd hnegative (by decide)
    have hmagnitude : -(value + 1) + 1 ≠ 0 := by bv_omega
    have hsum : (0 : Word) + 1 + BitVec.ofNat 32 (numeral 10 (-(value + 1) + 1).toNat).length =
        BitVec.ofNat 32 ((numeral 10 (-(value + 1) + 1).toNat).length + 1) := by
      rw [Word.add_one_ofNat]
      exact BitVec.zero_add _
    have hnumber := prints_printDecimal (-(value + 1) + 1)
    rw [excess_of_ne hmagnitude, Nat.add_zero] at hnumber
    rw [if_pos hnegative, Terminal.signedNumeral_of_neg hnegative, List.length_cons,
      excess_of_ne hzero, Nat.add_zero, ← hsum]
    exact (prints_putCounted (widen (ascii '-')) 0).bind (hnumber.map fun printed ↦ 0 + 1 + printed)
  · have hsum (printed : Word) : 0 + printed = printed := BitVec.zero_add printed
    rw [if_neg hnegative, Terminal.signedNumeral_of_nonneg hnegative]
    simp only [hsum]
    exact (prints_printDecimal value).map id

theorem prints_printString (str : List Byte) (cnt : Word) :
    Prints (printString str cnt) ((stringText str).map widen)
      (cnt + BitVec.ofNat 32 (stringText str).length) := by
  induction str generalizing cnt with
  | nil =>
    rw [stringText, List.takeWhile_nil, List.length_nil, BitVec.add_zero]
    exact prints_pure cnt
  | cons c str ih =>
    unfold printString stringText
    by_cases hzero : c = 0
    · rw [if_pos hzero, List.takeWhile_cons_of_neg (by simpa using hzero), List.length_nil,
        BitVec.add_zero]
      exact prints_pure cnt
    · rw [if_neg hzero, List.takeWhile_cons_of_pos (by simpa using hzero), List.length_cons,
        ← Word.add_one_ofNat]
      exact (prints_putCounted (widen c) cnt).bind (ih (cnt + 1))

/-! ## Formats -/

/-- The calls of `putchar` for a piece. `%c` passes its `int` on as it is. -/
def callsOf : Piece → List Word
  | .character value => [value]
  | piece => (piece.text []).map widen

theorem length_callsOf (piece : Piece) : (callsOf piece).length = (piece.text []).length := by
  cases piece with
  | character value => rfl
  | _ => exact List.length_map widen

theorem prints_convert {c : Byte} {piece : Piece} (h : piece.directive = specifier c)
    (args : List Argument) (cnt : Word) :
    Prints (convert c (piece.argument.toList ++ args) cnt) (callsOf piece)
      (cnt + BitVec.ofNat 32 ((callsOf piece).length + excess piece.printsZero), args) := by
  unfold specifier at h
  unfold convert
  split_ifs at h ⊢ with hpercent hcharacter hstring hsigned hunsigned hhex
  · cases piece with
    | percent => exact (prints_putCounted (widen (ascii '%')) cnt).map fun cnt ↦ (cnt, args)
    | _ => cases h
  · cases piece with
    | character value => exact (prints_putCounted value cnt).map fun cnt ↦ (cnt, args)
    | _ => cases h
  · cases piece with
    | string str =>
      have hstring := (prints_printString (str.getD nullText) cnt).map fun cnt ↦ (cnt, args)
      rw [length_callsOf]
      exact hstring
    | _ => cases h
  · cases piece with
    | signed value =>
      have hnumber := (prints_printSigned value).map fun printed ↦ (cnt + printed, args)
      rw [length_callsOf]
      exact hnumber
    | _ => cases h
  · cases piece with
    | unsigned value =>
      have hnumber := (prints_printDecimal value).map fun printed ↦ (cnt + printed, args)
      rw [length_callsOf]
      exact hnumber
    | _ => cases h
  · cases piece with
    | hex value =>
      have hnumber := (prints_printUnsigned value (.inr rfl)).map fun printed ↦ (cnt + printed, args)
      rw [length_callsOf]
      exact hnumber
    | _ => cases h
  · cases piece with
    | unknown other =>
      cases h
      have htwo : cnt + 1 + 1 = cnt + BitVec.ofNat 32 2 := BitVec.add_assoc cnt 1 1
      change Prints _ [widen (ascii '%'), widen c] (cnt + BitVec.ofNat 32 2, args)
      rw [← htwo]
      exact (prints_putCounted (widen (ascii '%')) cnt).bind
        ((prints_putCounted (widen c) (cnt + 1)).map fun cnt ↦ (cnt, args))
    | _ => cases h

theorem vprintfFrom_ordinary {c : Byte} (hzero : c ≠ 0) (hpercent : c ≠ ascii '%')
    (fmt : List Byte) (args : List Argument) (cnt : Word) :
    vprintfFrom (c :: fmt) args cnt =
      putCounted (widen c) cnt >>= fun cnt ↦ vprintfFrom fmt args cnt := by
  cases fmt with
  | nil => simp only [vprintfFrom, if_neg (not_or.mpr ⟨hzero, hpercent⟩)]
  | cons d fmt => rw [vprintfFrom, if_neg hzero, if_pos hpercent]

/-- The law of `vprintf`: it counts its calls of `putchar` and adds 47 for each zero it prints. -/
theorem prints_vprintfFrom {fmt : List Byte} {pieces : List Piece} (h : Reads fmt pieces)
    (rest : List Argument) (cnt : Word) :
    Prints (vprintfFrom fmt (arguments pieces ++ rest) cnt) (pieces.flatMap callsOf)
      (cnt + BitVec.ofNat 32 ((pieces.flatMap callsOf).length + 47 * pieces.countP Piece.printsZero),
        rest) := by
  have hend (cnt : Word) : Prints (pure (cnt, rest))
      (([] : List Piece).flatMap callsOf) (cnt + BitVec.ofNat 32 0, rest) := by
    rw [BitVec.add_zero]
    exact prints_pure (cnt, rest)
  induction h generalizing cnt with
  | nil => exact hend cnt
  | zero fmt =>
    cases fmt with
    | nil => exact hend cnt
    | cons d fmt => exact hend cnt
  | percent => exact hend cnt
  | percentZero fmt => exact hend cnt
  | @ordinary c fmt pieces hzero hpercent _ ih =>
    have hlength : ((Piece.ordinary c :: pieces).flatMap callsOf).length =
        (pieces.flatMap callsOf).length + 1 := rfl
    have hzeros : (Piece.ordinary c :: pieces).countP Piece.printsZero =
        pieces.countP Piece.printsZero := rfl
    rw [vprintfFrom_ordinary hzero hpercent, hlength, hzeros, Nat.add_right_comm,
      ← Word.add_one_ofNat]
    exact (prints_putCounted (widen c) cnt).bind (ih (cnt + 1))
  | @conversion c fmt piece pieces hzero hpiece _ ih =>
    have hargs : arguments (piece :: pieces) ++ rest =
        piece.argument.toList ++ (arguments pieces ++ rest) := List.append_assoc _ _ _
    have hsum : ((piece :: pieces).flatMap callsOf).length +
        47 * (piece :: pieces).countP Piece.printsZero =
          ((callsOf piece).length + excess piece.printsZero) +
            ((pieces.flatMap callsOf).length + 47 * pieces.countP Piece.printsZero) := by
      rw [List.flatMap_cons, List.length_append, List.countP_cons, excess]
      split_ifs <;> omega
    rw [vprintfFrom, if_neg (by decide), if_neg (by decide), if_neg hzero, hargs, hsum,
      BitVec.ofNat_add ((callsOf piece).length + _), ← BitVec.add_assoc]
    exact (prints_convert hpiece _ cnt).bind (ih _)

/-- An odd number added per zero is invisible only if the number of zeros is a multiple of the word. -/
theorem count_eq_iff (calls zeros : ℕ) :
    BitVec.ofNat 32 (calls + 47 * zeros) = BitVec.ofNat 32 calls ↔ 2 ^ 32 ∣ zeros := by
  have hmod : BitVec.ofNat 32 (calls + 47 * zeros) = BitVec.ofNat 32 calls ↔
      calls + 47 * zeros ≡ calls + 0 [MOD 2 ^ 32] := by
    rw [← BitVec.toNat_inj, BitVec.toNat_ofNat, BitVec.toNat_ofNat]
    rfl
  have hodd : Nat.Coprime (2 ^ 32) 47 := by decide
  rw [hmod, Nat.ModEq.add_iff_left rfl, Nat.modEq_zero_iff_dvd]
  exact hodd.dvd_mul_left

/-- What `print_unsigned` and `print_signed` return is the number of characters unless it is zero. -/
theorem excess_eq_iff (characters : ℕ) (value : Word) :
    BitVec.ofNat 32 (characters + excess (value = 0)) = BitVec.ofNat 32 characters ↔ value ≠ 0 := by
  by_cases hzero : value = 0
  · have hone := count_eq_iff characters 1
    simp only [excess, hzero, decide_true, if_true] at hone ⊢
    exact iff_of_false (fun h ↦ absurd (hone.mp h) (by decide)) (fun h ↦ h rfl)
  · rw [excess_of_ne hzero, Nat.add_zero]
    exact iff_of_true rfl hzero

/-- **What the print functions return.** `print_unsigned` and `print_signed` return the number of
digits and signs they print exactly for values other than zero, and `vprintf` returns the number of
characters it passes to `putchar` exactly if no conversion prints a zero, up to multiples of `2 ^ 32`
of them. -/
theorem printed_count_iff (screen : List Byte) :
    (∀ value base : Word, base = 10 ∨ base = 16 → ∃ code after,
      Performs bios (printUnsigned value base) screen
        ((numeral base.toNat value.toNat).map widen) code after ∧
      (code = BitVec.ofNat 32 (numeral base.toNat value.toNat).length ↔ value ≠ 0)) ∧
    (∀ value : Word, ∃ code after,
      Performs bios (printSigned value) screen ((signedNumeral value.toInt).map widen) code after ∧
      (code = BitVec.ofNat 32 (signedNumeral value.toInt).length ↔ value ≠ 0)) ∧
    ∀ fmt args, Supplies fmt args → ∃ pieces rest,
      pieces.map Piece.directive = directives fmt ∧ args = arguments pieces ++ rest ∧
      ∃ calls code after, Performs bios (vprintf fmt args) screen calls (code, rest) after ∧
        (code = BitVec.ofNat 32 calls.length ↔ 2 ^ 32 ∣ pieces.countP Piece.printsZero) := by
  refine ⟨fun value base hbase ↦ ?_, fun value ↦ ?_, fun fmt args hsupplies ↦ ?_⟩
  · exact ⟨_, _, prints_printUnsigned value hbase screen, excess_eq_iff _ value⟩
  · exact ⟨_, _, prints_printSigned value screen, excess_eq_iff _ value⟩
  · obtain ⟨pieces, rest, hpieces, rfl, hreads⟩ := hsupplies.exists_reads
    refine ⟨pieces, rest, hpieces, rfl, _, _, _, prints_vprintfFrom hreads rest 0 screen, ?_⟩
    rw [show ∀ code : Word, 0 + code = code from BitVec.zero_add]
    exact count_eq_iff _ _

/-- `print_unsigned(7, 10)` returns 1, `print_signed(-7)` returns 2 and `vprintf("x%u", 7)` the number of its
characters. -/
theorem printed_count_iff_sevens :
    (∃ code after, Performs bios (printUnsigned 7 10) [] [widen (ascii '7')] code after ∧ code = 1) ∧
    (∃ code after, Performs bios (printSigned (-7)) [] [widen (ascii '-'), widen (ascii '7')] code after ∧
      code = 2) ∧
    ∃ calls code after, Performs bios (vprintf [ascii 'x', ascii '%', ascii 'u'] [.number 7]) [] calls
      (code, []) after ∧ code = BitVec.ofNat 32 calls.length := by
  obtain ⟨hunsigned, hsigned, hformat⟩ := printed_count_iff []
  obtain ⟨code, after, hprints, hcode⟩ := hunsigned 7 10 (.inl rfl)
  obtain ⟨signedCode, signedAfter, hsignedPrints, hsignedCode⟩ := hsigned (-7)
  have hsupplies : Supplies [ascii 'x', ascii '%', ascii 'u'] [.number 7] := by decide
  obtain ⟨pieces, rest, hpieces, hargs, calls, total, last, hperforms, htotal⟩ := hformat _ _ hsupplies
  have hdirectives : pieces.map Piece.directive = [.ordinary (ascii 'x'), .unsigned] := hpieces.trans (by decide)
  obtain ⟨value, rfl⟩ : ∃ value, pieces = [.ordinary (ascii 'x'), .unsigned value] := by
    obtain ⟨first, others, rfl, hfirst, hothers⟩ := List.map_eq_cons_iff.mp hdirectives
    obtain ⟨second, others, rfl, hsecond, hnone⟩ := List.map_eq_cons_iff.mp hothers
    obtain rfl := List.map_eq_nil_iff.mp hnone
    cases first <;> cases hfirst
    cases second <;> cases hsecond
    exact ⟨_, rfl⟩
  obtain ⟨hvalue, hrest⟩ := List.cons.inj hargs
  obtain rfl : rest = [] := hrest.symm
  obtain rfl : (7 : Word) = value := Argument.number.inj hvalue
  exact ⟨⟨code, after, hprints, hcode.mpr (by decide)⟩,
    ⟨signedCode, signedAfter, hsignedPrints, hsignedCode.mpr (by decide)⟩,
    calls, total, last, hperforms, htotal.mpr ⟨0, rfl⟩⟩

/-- `print_unsigned(0, 10)` prints one character and returns 48, and so does `vprintf("%d", 0)`. -/
theorem zero_counted_as_48 :
    Performs bios (printUnsigned 0 10) [] [widen (ascii '0')] 48 [ascii '0'] ∧
      Performs bios (vprintf [ascii '%', ascii 'd'] [.number 0]) [] [widen (ascii '0')] (48, [])
        [ascii '0'] ∧ (48 : Word) ≠ 1 :=
  ⟨⟨rfl, rfl⟩, ⟨rfl, rfl⟩, by decide⟩

end Stage2

end NeilOS
