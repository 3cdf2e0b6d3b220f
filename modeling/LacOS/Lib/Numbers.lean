import LacOS.Lib.Format
import LacOS.Lib.Tape

open memory layout

namespace lacos.lib

/-- The conversions of `printf` that print a number, `padded` for `%#x`. -/
inductive Number where
  | unsigned
  | hexadecimal
  | signed
  | padded
  deriving DecidableEq, Repr

namespace Number

def directive : Number → List UInt8
  | unsigned => [0x25, 0x75]
  | hexadecimal => [0x25, 0x78]
  | signed => [0x25, 0x64]
  | padded => [0x25, 0x23, 0x78]

/-- The texts that stand for an argument. -/
def Shows : Number → UInt32 → List UInt8 → Prop
  | unsigned, value, text => IsNumeral 10 text value.toNat
  | hexadecimal, value, text => IsNumeral 16 text value.toNat
  | signed, value, text => IsDecimal text (toInt32 value)
  | padded, value, text => IsPadded text value.toNat

end Number

/-- A part of a format: characters that are printed as they are, or the conversion of a number. -/
inductive Piece where
  | plain (text : List UInt8)
  | number (n : Number)
  deriving DecidableEq, Repr

def Piece.format : Piece → List UInt8
  | plain text => text
  | number n => n.directive

/-- The output of a format from argument `esp` on: its own characters, and for each
    conversion a text that stands for the next argument. -/
inductive Spells (args : Nat → UInt32) : Nat → List Piece → List UInt8 → Prop
  | nil (esp : Nat) : Spells args esp [] []
  | plain {esp : Nat} {pieces : List Piece} {out : List UInt8} (text : List UInt8) (hrest : Spells args esp pieces out) :
    Spells args esp (.plain text :: pieces) (text ++ out)
  | number {esp : Nat} {pieces : List Piece} {n : Number} {text out : List UInt8} (hshows : n.Shows (args esp) text)
    (hrest : Spells args (esp + 1) pieces out) : Spells args esp (.number n :: pieces) (text ++ out)

section Rendered

variable (m : Mem) (args : Nat → UInt32) (esp : Nat) (rest : List UInt8)

/-- Characters without a `%` are passed one by one and leave `printf` at the head of its loop. -/
theorem rendered_plain {text : List UInt8} (hplain : 0x25 ∉ text) :
    rendered m args .loop esp (text ++ rest) = text ++ rendered m args .loop esp rest ∧
      text.foldl nextPoint .loop = .loop := by
  induction text with
  | nil => exact ⟨rfl, rfl⟩
  | cons c text ih =>
    have hc : c ≠ 0x25 := fun heq => hplain (heq ▸ List.mem_cons_self)
    obtain ⟨hrendered, hloop⟩ := ih fun hmem => hplain (List.mem_cons_of_mem c hmem)
    simp only [List.cons_append, rendered, printed, nextPoint, nextEsp, if_neg hc, List.foldl_cons]
    exact ⟨congrArg (c :: ·) hrendered, hloop⟩

/-- A conversion prints its number as it shows numbers and takes one argument. What stands behind
    it is printed from the next argument on. -/
theorem rendered_number (n : Number) :
    (∃ text, n.Shows (args esp) text ∧
      rendered m args .loop esp (n.directive ++ rest) = text ++ rendered m args .loop (esp + 1) rest) ∧
    n.directive.foldl nextPoint .loop = .loop := by
  refine ⟨?_, by cases n <;> rfl⟩
  cases n with
  | unsigned => exact ⟨_, itoa_decimal (args esp), rfl⟩
  | hexadecimal => exact ⟨_, itoa_hexadecimal (args esp), rfl⟩
  | signed => exact ⟨_, signed_isDecimal (args esp), rfl⟩
  | padded => exact ⟨_, padded_isPadded (args esp), rfl⟩

/-- A format made of plain texts and conversions prints the texts as they are and the numbers in
    order. The texts must be free of percent signs. -/
theorem spells_rendered {pieces : List Piece} (hplain : ∀ text, .plain text ∈ pieces → 0x25 ∉ text) :
    Spells args esp pieces (rendered m args .loop esp (pieces.flatMap Piece.format)) ∧
      (pieces.flatMap Piece.format).foldl nextPoint .loop = .loop := by
  induction pieces generalizing esp with
  | nil => exact ⟨.nil esp, rfl⟩
  | cons piece pieces ih =>
    have hrest := fun esp => ih esp fun text hmem => hplain text (List.mem_cons_of_mem _ hmem)
    rw [List.flatMap_cons, List.foldl_append]
    cases piece with
    | plain text =>
      obtain ⟨hrendered, hloop⟩ := rendered_plain m args esp (pieces.flatMap Piece.format)
        (hplain text List.mem_cons_self)
      rw [Piece.format, hrendered, hloop]
      exact ⟨.plain text (hrest esp).1, (hrest esp).2⟩
    | number n =>
      obtain ⟨⟨text, hshows, hrendered⟩, hloop⟩ := rendered_number m args esp (pieces.flatMap Piece.format) n
      rw [Piece.format, hrendered, hloop]
      exact ⟨.number hshows (hrest (esp + 1)).1, (hrest (esp + 1)).2⟩

end Rendered

section Printable

/-- The characters that `putc` prints, which are all but backspace and the two newlines. -/
def Printable (text : List UInt8) : Prop := ∀ c ∈ text, c ∉ [8, 10, 13]

/-- No digit moves the position other than by one column. -/
theorem digitChar_printable {d : Nat} (hd : d < 36) : digitChar d ∉ [8, 10, 13] := by
  have hall : ∀ d : Fin 36, digitChar d ∉ [8, 10, 13] := by decide +kernel
  exact hall ⟨d, hd⟩

theorem IsNumeral.printable {radix n : Nat} {text : List UInt8} (hradix : radix ≤ 36) (htext : IsNumeral radix text n) :
    Printable text := by
  intro c hc
  obtain ⟨d, hd, rfl⟩ := htext.digits c hc
  exact digitChar_printable (Nat.lt_of_lt_of_le hd hradix)

/-- A number is shown without characters that move the position. -/
theorem Number.Shows.printable {n : Number} {value : UInt32} {text : List UInt8} (hshows : n.Shows value text) :
    Printable text := by
  cases n with
  | unsigned => exact IsNumeral.printable (by decide) hshows
  | hexadecimal => exact IsNumeral.printable (by decide) hshows
  | signed =>
    simp only [Number.Shows, IsDecimal] at hshows
    split at hshows
    · obtain ⟨digits, rfl, hdigits⟩ := hshows
      exact List.forall_mem_cons.mpr ⟨by decide, hdigits.printable (by decide)⟩
    · exact hshows.printable (by decide)
  | padded =>
    intro c hc
    obtain ⟨d, hd, rfl⟩ := IsPadded.digits hshows c hc
    exact digitChar_printable (by omega)

/-- So is a whole output, if its plain texts are. -/
theorem Spells.printable {args : Nat → UInt32} {esp : Nat} {pieces : List Piece} {out : List UInt8}
    (hout : Spells args esp pieces out) (hplain : ∀ text, .plain text ∈ pieces → Printable text) : Printable out := by
  induction hout with
  | nil => exact List.forall_mem_nil _
  | plain text _ ih =>
    exact List.forall_mem_append.mpr ⟨hplain text List.mem_cons_self,
      ih fun text hmem => hplain text (List.mem_cons_of_mem _ hmem)⟩
  | number hshows _ ih =>
    exact List.forall_mem_append.mpr ⟨hshows.printable, ih fun text hmem => hplain text (List.mem_cons_of_mem _ hmem)⟩

end Printable

/-- Characters printed from any position on the screen stand in order on its tape, from that
    position on, and everything else on the tape is as it was. -/
theorem puts_onTape {con : Console} {t : Fin MAX_TERM_NUM} {text : List UInt8} (hpos : (screen con t).InBounds)
    (hprintable : Printable text) :
    ∃ n, OnTape con.color
      (edited (0x20, con.color) (screen con t).pos text.length ((screen con t).paper con.color)
        (text.map (·, con.color))) n ((screen con t).pos + text.length) (screen (puts con t text) t) := by
  induction text using List.reverseRecOn with
  | nil =>
    refine ⟨0, ?_⟩
    rw [List.length_nil, edited_unused]
    exact hpos.onTape con.color
  | append_singleton text c ih =>
    obtain ⟨hinit, hlast⟩ := List.forall_mem_append.mp hprintable
    have hc : c ∉ [8, 10, 13] := hlast c (List.mem_singleton_self c)
    simp only [List.mem_cons, List.not_mem_nil, or_false, not_or] at hc
    obtain ⟨hback, hnewline, hreturn⟩ := hc
    obtain ⟨n, htape⟩ := ih hinit
    have hscreen : screen (puts con t (text ++ [c])) t = (screen (puts con t text) t).putc con.color c := by
      rw [puts_snoc, putc_eq _ t c htape.in_bounds, if_neg (fun h => hback h.1), screen_showCursor, screen_install,
        puts_color_eq]
    have hmap : (text.map (·, con.color)).length = text.length := List.length_map _
    have hsnoc := edited_snoc (0x20, con.color) (screen con t).pos ((screen con t).paper con.color)
      (text.map (·, con.color)) (c, con.color) (Nat.le_refl _)
    rw [hmap, Nat.max_eq_right (Nat.le_succ _)] at hsnoc
    have hnext := htape.putc (not_or.mpr ⟨hnewline, hreturn⟩) hback
    rw [← hsnoc, ← hscreen, Nat.add_assoc] at hnext
    rw [List.map_append, List.map_singleton, List.length_append, List.length_singleton]
    exact ⟨_, hnext⟩

section Call

variable {m : Mem} {format : UInt32} {pieces : List Piece} (htext : IsText m format (pieces.flatMap Piece.format))
  (hplain : ∀ text, .plain text ∈ pieces → 0x25 ∉ text ∧ 0 ∉ text) (args : Nat → UInt32) (con : Console)
  (conv_buf : Mem)
include htext hplain

/-- A whole call of `printf` with any number of conversions of numbers prints its own
    characters and each argument exactly, in order, and returns the length of its format. -/
theorem printf_call : ∃ out, Spells args 0 pieces out ∧ ∃ conv_buf' esp,
    printf m format args con conv_buf ((pieces.flatMap Piece.format).length + 1) =
      { con := puts con con.sched_term_id out
        buf := (pieces.flatMap Piece.format).length
        esp := esp
        conv_buf := conv_buf'
        point := .returned } := by
  obtain ⟨hspells, hloop⟩ := spells_rendered m args 0 fun text hmem => (hplain text hmem).1
  have hnonzero : 0 ∉ pieces.flatMap Piece.format := by
    rw [List.mem_flatMap]
    rintro ⟨piece, hmem, hzero⟩
    cases piece with
    | plain text => exact (hplain text hmem).2 hzero
    | number n => cases n <;> exact absurd hzero (by decide)
  exact ⟨_, hspells, printf_returns htext hnonzero args con conv_buf (not_not.mpr hloop)⟩

/-- On the screen the output stands from the position on. The screen need not be clear, and it
    may scroll; the parts of the format between the conversions must only be printable. -/
theorem printf_call_shown (hpos : (screen con con.sched_term_id).InBounds)
    (hprintable : ∀ text, .plain text ∈ pieces → Printable text) :
    ∃ out n, Spells args 0 pieces out ∧ OnTape con.color
      (edited (0x20, con.color) (screen con con.sched_term_id).pos out.length
        ((screen con con.sched_term_id).paper con.color) (out.map (·, con.color))) n
      ((screen con con.sched_term_id).pos + out.length)
      (screen (printf m format args con conv_buf ((pieces.flatMap Piece.format).length + 1)).con con.sched_term_id) := by
  obtain ⟨out, hspells, conv_buf', esp, hcall⟩ := printf_call htext hplain args con conv_buf
  obtain ⟨n, htape⟩ := puts_onTape hpos (hspells.printable hprintable)
  refine ⟨out, n, hspells, ?_⟩
  rw [hcall]
  exact htape

end Call

end lacos.lib
