import NeilOS.Foundation.Trace
import NeilOS.Output.Directive

/-!
# The characters `vvga_write` sends

Here `vvga_write` is a program whose only operation is passing a character to `vga_putchar_raw`. Its
counter is the `int` of the source. It returns the arguments it left along with the count. A missing
argument and a seventeenth digit in the buffer of 16 are undefined and stop the program.
-/

namespace NeilOS

open Foundation Program
open Terminal (Argument ascii collectDigits vaArgNumber vaArgString nullText)

namespace Output

/-- A function of `vga.c`, by the characters it passes to `vga_putchar_raw`. -/
abbrev VgaProgram := Program Byte fun _ ↦ Unit

def vgaPutcharRaw (c : Byte) : VgaProgram Unit := call c

/-- The second loop of `vga_print_unsigned`. -/
def printDigits : List Byte → Word → VgaProgram Word
  | [], cnt => pure cnt
  | digit :: buffer, cnt => do
    vgaPutcharRaw digit
    printDigits buffer (cnt + 1)

def vgaPrintUnsigned (value base : Word) : VgaProgram Word :=
  if value = 0 then do
    vgaPutcharRaw (ascii '0')
    pure 1
  else do
    let buffer ← ofOption (collectDigits base 16 value [])
    printDigits buffer 0

def vgaPrintSigned (value : Word) : VgaProgram Word :=
  if value.toInt < 0 then do
    vgaPutcharRaw (ascii '-')
    let cnt ← vgaPrintUnsigned (-(value + 1) + 1) 10
    pure (1 + cnt)
  else do
    let cnt ← vgaPrintUnsigned value 10
    pure (0 + cnt)

/-- The loop of `%s`. -/
def putString : List Byte → Word → VgaProgram Word
  | [], cnt => pure cnt
  | c :: str, cnt =>
    if c = 0 then pure cnt
    else do
      vgaPutcharRaw c
      putString str (cnt + 1)

/-- The `switch` of `vvga_write` for a character that does not end the format. -/
def convert (c : Byte) (args : List Argument) (cnt : Word) : VgaProgram (Word × List Argument) :=
  if c = ascii '%' then do
    vgaPutcharRaw (ascii '%')
    pure (cnt + 1, args)
  else if c = ascii 'c' then do
    let (value, args) ← ofOption (vaArgNumber args)
    vgaPutcharRaw (value.setWidth 8)
    pure (cnt + 1, args)
  else if c = ascii 's' then do
    let (str, args) ← ofOption (vaArgString args)
    let cnt ← putString (str.getD nullText) cnt
    pure (cnt, args)
  else if c = ascii 'd' ∨ c = ascii 'i' then do
    let (value, args) ← ofOption (vaArgNumber args)
    let sent ← vgaPrintSigned value
    pure (cnt + sent, args)
  else if c = ascii 'u' then do
    let (value, args) ← ofOption (vaArgNumber args)
    let sent ← vgaPrintUnsigned value 10
    pure (cnt + sent, args)
  else if c = ascii 'x' then do
    vgaPutcharRaw (ascii '0')
    vgaPutcharRaw (ascii 'x')
    let (value, args) ← ofOption (vaArgNumber args)
    let sent ← vgaPrintUnsigned value 16
    pure (cnt + 2 + sent, args)
  else do
    vgaPutcharRaw (ascii '%')
    vgaPutcharRaw c
    pure (cnt + 2, args)

def vvgaWriteFrom : List Byte → List Argument → Word → VgaProgram (Word × List Argument)
  | [], args, cnt => pure (cnt, args)
  | [c], args, cnt =>
    if c = 0 ∨ c = ascii '%' then pure (cnt, args)
    else do
      vgaPutcharRaw c
      pure (cnt + 1, args)
  | c :: d :: fmt, args, cnt =>
    if c = 0 then pure (cnt, args)
    else if c ≠ ascii '%' then do
      vgaPutcharRaw c
      vvgaWriteFrom (d :: fmt) args (cnt + 1)
    else if d = 0 then pure (cnt, args)
    else do
      let (cnt, args) ← convert d args cnt
      vvgaWriteFrom fmt args cnt

def vvgaWrite (fmt : List Byte) (args : List Argument) : VgaProgram (Word × List Argument) :=
  vvgaWriteFrom fmt args 0

/-! ## Numbers and strings -/

theorem printDigits_eq (buffer : List Byte) (cnt : Word) :
    printDigits buffer cnt = straight (cnt + BitVec.ofNat 32 buffer.length) buffer := by
  induction buffer generalizing cnt with
  | nil => exact congrArg Program.result (BitVec.add_zero cnt).symm
  | cons digit buffer ih =>
    apply congrArg (perform digit)
    funext _
    rw [List.length_cons, ← Word.add_one_ofNat]
    exact ih (cnt + 1)

theorem putString_eq (str : List Byte) (cnt : Word) :
    putString str cnt =
      straight (cnt + BitVec.ofNat 32 (Terminal.stringText str).length) (Terminal.stringText str) := by
  induction str generalizing cnt with
  | nil => exact congrArg Program.result (BitVec.add_zero cnt).symm
  | cons c str ih =>
    unfold putString Terminal.stringText
    by_cases hzero : c = 0
    · rw [if_pos hzero, List.takeWhile_cons_of_neg (by simpa using hzero)]
      exact congrArg Program.result (BitVec.add_zero cnt).symm
    · rw [if_neg hzero, List.takeWhile_cons_of_pos (by simpa using hzero), List.length_cons,
        ← Word.add_one_ofNat]
      apply congrArg (perform c)
      funext _
      exact ih (cnt + 1)

theorem vgaPrintUnsigned_eq {base : Word} (value : Word) (hbase : base = 10 ∨ base = 16) :
    vgaPrintUnsigned value base =
      straight (BitVec.ofNat 32 (Terminal.numeral base.toNat value.toNat).length)
        (Terminal.numeral base.toNat value.toNat) := by
  unfold vgaPrintUnsigned
  by_cases hzero : value = 0
  · rw [if_pos hzero, hzero, numeral_zero hbase]
    rfl
  · rw [if_neg hzero, collectDigits_all hbase hzero]
    change printDigits _ 0#32 = _
    rw [printDigits_eq, BitVec.zero_add]

theorem vgaPrintSigned_eq (value : Word) :
    vgaPrintSigned value =
      straight (BitVec.ofNat 32 (Terminal.signedNumeral value.toInt).length)
        (Terminal.signedNumeral value.toInt) := by
  unfold vgaPrintSigned
  by_cases hnegative : value.toInt < 0
  · rw [if_pos hnegative, Terminal.signedNumeral_of_neg hnegative, List.length_cons]
    apply congrArg (perform (ascii '-'))
    funext _
    rw [vgaPrintUnsigned_eq _ (.inl rfl)]
    refine (straight_bind ?_).trans (congrArg _ (List.append_nil _))
    rw [Nat.add_comm, BitVec.ofNat_add]
    rfl
  · rw [if_neg hnegative, Terminal.signedNumeral_of_nonneg hnegative, vgaPrintUnsigned_eq _ (.inl rfl)]
    refine (straight_bind ?_).trans (congrArg _ (List.append_nil _))
    exact congrArg Program.result (BitVec.zero_add _)

/-! ## Formats -/

/-- The text of `%x` begins with `0x`. -/
def hexLead : List Byte := [ascii '0', ascii 'x']

/-- The text of a format with its arguments. -/
def textOf (pieces : List Piece) : List Byte := pieces.flatMap (Piece.text hexLead)

theorem convert_eq {c : Byte} {piece : Piece} (h : piece.directive = specifier c)
    (args : List Argument) (cnt : Word) :
    convert c (piece.argument.toList ++ args) cnt =
      straight (cnt + BitVec.ofNat 32 (piece.text hexLead).length, args) (piece.text hexLead) := by
  unfold specifier at h
  unfold convert
  split_ifs at h ⊢ with hpercent hcharacter hstring hsigned hunsigned hhex
  · cases piece with
    | percent => rfl
    | _ => cases h
  · cases piece with
    | character value => rfl
    | _ => cases h
  · cases piece with
    | string str =>
      change putString (str.getD nullText) cnt >>= _ = _
      rw [putString_eq]
      exact straight_map _ _ fun cnt ↦ (cnt, args)
    | _ => cases h
  · cases piece with
    | signed value =>
      change vgaPrintSigned value >>= _ = _
      rw [vgaPrintSigned_eq]
      exact straight_map _ _ fun sent ↦ (cnt + sent, args)
    | _ => cases h
  · cases piece with
    | unsigned value =>
      change vgaPrintUnsigned value 10 >>= _ = _
      rw [vgaPrintUnsigned_eq value (.inl rfl)]
      exact straight_map _ _ fun sent ↦ (cnt + sent, args)
    | _ => cases h
  · cases piece with
    | hex value =>
      have hcount : cnt + 2 + BitVec.ofNat 32 (Terminal.numeral 16 value.toNat).length =
          cnt + BitVec.ofNat 32 (Piece.text hexLead (.hex value)).length := by
        rw [Piece.text, List.length_append, BitVec.ofNat_add, ← BitVec.add_assoc]
        rfl
      apply congrArg (perform (ascii '0'))
      funext _
      apply congrArg (perform (ascii 'x'))
      funext _
      change vgaPrintUnsigned value 16 >>= _ = _
      rw [vgaPrintUnsigned_eq value (.inr rfl), ← hcount]
      exact straight_map _ _ fun sent ↦ (cnt + 2 + sent, args)
    | _ => cases h
  · cases piece with
    | unknown other =>
      cases h
      rfl
    | _ => cases h

theorem vvgaWriteFrom_ordinary {c : Byte} (hzero : c ≠ 0) (hpercent : c ≠ ascii '%')
    (fmt : List Byte) (args : List Argument) (cnt : Word) :
    vvgaWriteFrom (c :: fmt) args cnt =
      perform c fun _ ↦ vvgaWriteFrom fmt args (cnt + 1) := by
  cases fmt with
  | nil =>
    simp only [vvgaWriteFrom, if_neg (not_or.mpr ⟨hzero, hpercent⟩)]
    rfl
  | cons d fmt =>
    rw [vvgaWriteFrom, if_neg hzero, if_pos hpercent]
    rfl

theorem vvgaWriteFrom_eq {fmt : List Byte} {pieces : List Piece} (h : Reads fmt pieces)
    (rest : List Argument) (cnt : Word) :
    vvgaWriteFrom fmt (arguments pieces ++ rest) cnt =
      straight (cnt + BitVec.ofNat 32 (textOf pieces).length, rest) (textOf pieces) := by
  have hend (cnt : Word) : (pure (cnt, rest) : VgaProgram (Word × List Argument)) =
      straight (cnt + BitVec.ofNat 32 (textOf []).length, rest) (textOf []) :=
    congrArg (fun cnt ↦ Program.result (cnt, rest)) (BitVec.add_zero cnt).symm
  induction h generalizing cnt with
  | nil => exact hend cnt
  | zero fmt =>
    cases fmt with
    | nil => exact hend cnt
    | cons d fmt => exact hend cnt
  | percent => exact hend cnt
  | percentZero fmt => exact hend cnt
  | ordinary hzero hpercent _ ih =>
    rw [vvgaWriteFrom_ordinary hzero hpercent]
    apply congrArg (perform _)
    funext _
    refine (ih (cnt + 1)).trans ?_
    rw [Word.add_one_ofNat]
    rfl
  | @conversion c fmt piece pieces hzero hpiece _ ih =>
    have hargs : arguments (piece :: pieces) ++ rest =
        piece.argument.toList ++ (arguments pieces ++ rest) := List.append_assoc _ _ _
    rw [vvgaWriteFrom, if_neg (by decide), if_neg (by decide), if_neg hzero, hargs, convert_eq hpiece]
    have hcount : (textOf (piece :: pieces)).length =
        (piece.text hexLead).length + (textOf pieces).length := List.length_append
    rw [hcount, BitVec.ofNat_add, ← BitVec.add_assoc]
    apply straight_bind
    exact ih _

/-! ## The terminal -/

theorem conversion_eq {c : Byte} {piece : Piece} (h : piece.directive = specifier c)
    (args : List Argument) :
    Terminal.conversion c (piece.argument.toList ++ args) = some (piece.text hexLead, args) := by
  unfold specifier at h
  unfold Terminal.conversion
  split_ifs at h ⊢ <;> cases piece <;> cases h <;> rfl

theorem expansion_eq {fmt : List Byte} {pieces : List Piece} (h : Reads fmt pieces)
    (rest : List Argument) :
    Terminal.expansion fmt (arguments pieces ++ rest) = some (textOf pieces) := by
  induction h with
  | nil => rfl
  | zero fmt => cases fmt <;> rfl
  | percent => rfl
  | percentZero fmt => rfl
  | @ordinary c fmt pieces hzero hpercent h ih =>
    cases fmt with
    | nil =>
      cases h
      rw [Terminal.expansion, if_neg (not_or.mpr ⟨hzero, hpercent⟩)]
      rfl
    | cons d fmt =>
      rw [Terminal.expansion, if_neg hzero, if_pos hpercent]
      exact congrArg (Option.map (c :: ·)) ih
  | @conversion c fmt piece pieces hzero hpiece _ ih =>
    have hargs : arguments (piece :: pieces) ++ rest =
        piece.argument.toList ++ (arguments pieces ++ rest) := List.append_assoc _ _ _
    rw [Terminal.expansion, if_neg (by decide), if_neg (by decide), if_neg hzero, hargs,
      conversion_eq hpiece, Option.bind_some, ih]
    rfl

/-- **Formatted output.** If the arguments supply what the conversions consume, `vvga_write` passes
exactly the text of the format to `vga_putchar_raw` and returns the number of its characters. The
arguments are consumed from the left, one for each piece that has one, and the rest is not looked at.
On the terminal it therefore does what writing the text character by character does. -/
theorem vvga_write_expands {fmt : List Byte} {args : List Argument} (h : Supplies fmt args) :
    ∃ pieces rest, pieces.map Piece.directive = directives fmt ∧ args = arguments pieces ++ rest ∧
      vvgaWrite fmt args =
        straight (BitVec.ofNat 32 (textOf pieces).length, rest) (textOf pieces) ∧
      ∀ terminal : Terminal, terminal.vvgaWrite fmt args =
        (terminal.putAll (textOf pieces)).bind fun after ↦ some ((textOf pieces).length, after) := by
  obtain ⟨pieces, rest, hpieces, rfl, hreads⟩ := h.exists_reads
  refine ⟨pieces, rest, hpieces, rfl, ?_, fun terminal ↦ ?_⟩
  · rw [vvgaWrite, vvgaWriteFrom_eq hreads]
    exact congrArg (fun cnt ↦ straight (cnt, rest) (textOf pieces)) (BitVec.zero_add _)
  · rw [Terminal.vvgaWrite_eq, expansion_eq hreads, Option.bind_some, Terminal.printed, Nat.zero_add]

/-- `%d` writes the least `int` as `-2147483648`, which is 11 characters. -/
theorem vvga_write_expands_least :
    Supplies [ascii '%', ascii 'd'] [.number 0x80000000] ∧
      ∃ rest, vvgaWrite [ascii '%', ascii 'd'] [.number 0x80000000] =
        straight (11, rest) ("-2147483648".toList.map ascii) := by
  have hsupplies : Supplies [ascii '%', ascii 'd'] [.number 0x80000000] := by decide
  obtain ⟨pieces, rest, hpieces, hargs, hsent, -⟩ := vvga_write_expands hsupplies
  obtain ⟨piece, hpiece, rfl⟩ : ∃ piece : Piece, piece.directive = .signed ∧ pieces = [piece] := by
    obtain ⟨piece, hsingle, hpiece⟩ := List.map_eq_singleton_iff.mp hpieces
    exact ⟨piece, hpiece, hsingle⟩
  cases piece with
  | signed value =>
    obtain ⟨hvalue, -⟩ := List.cons.inj hargs
    obtain rfl : 0x80000000 = value := Argument.number.inj hvalue
    exact ⟨hsupplies, rest, hsent⟩
  | _ => cases hpiece

end Output

end NeilOS
