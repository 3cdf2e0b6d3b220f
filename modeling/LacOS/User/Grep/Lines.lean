import LacOS.User.Grep

open memory program stream lacos.lib lacos.file_system lacos.pcb lacos.syscalls

namespace lacos.user.grep

variable {data s fname : UInt32} {pattern name : List UInt8} (hlayout : Layout data s fname pattern name)

/-- The state of a search in a buffer, as against the state `t` at its start: `out` has
    been written, and nothing outside the buffer has changed. -/
structure Scene (data : UInt32) (t u : Task) (out : List UInt8) : Prop where
  tasks : u.kernel.toTasks = t.kernel.toTasks
  wrote : Wrote t.kernel out u.kernel
  mem : ∀ a, BUFSIZE + 1 ≤ (a - data).toNat → u.mem a = t.mem a
  guard : u.mem (data + UInt32.ofNat BUFSIZE) ≠ '\n'.toUInt8

/-- At first nothing has been printed. -/
theorem Scene.start {data : UInt32} {t : Task} (hguard : t.mem (data + UInt32.ofNat BUFSIZE) ≠ '\n'.toUInt8) :
    Scene data t t [] :=
  ⟨rfl, .nothing rfl rfl, fun _ _ => rfl, hguard⟩

/-- A string that is apart from the buffer stays as it is. -/
theorem isText_apart {data a : UInt32} {text : List UInt8} {m m' : Mem} (htext : IsText m a text)
    (hapart : ∀ j ≤ text.length, BUFSIZE + 1 ≤ (a + UInt32.ofNat j - data).toNat)
    (hmem : ∀ a, BUFSIZE + 1 ≤ (a - data).toNat → m' a = m a) : IsText m' a text := by
  intro j hj
  rw [hmem _ (hapart j hj)]
  exact htext j hj

/-- The end of a line is marked. -/
theorem Scene.mark {t u : Task} {out : List UInt8} (hscene : Scene data t u out) {i : Nat} (hi : i ≤ BUFSIZE) :
    Scene data t ⟨u.kernel, store u.mem (data + UInt32.ofNat i) 0⟩ out := by
  refine ⟨hscene.tasks, hscene.wrote, fun a ha => ?_, ?_⟩
  · exact (store_outside 0 (Nat.lt_succ_of_le hi) (by decide) ha).trans (hscene.mem a ha)
  · simp only [BUFSIZE] at *
    rw [store_offset _ _ _ (by omega) (by omega)]
    split
    · decide
    · exact hscene.guard

/-- A string is put at the front of the buffer. -/
theorem Scene.carry {t u : Task} {out : List UInt8} (hscene : Scene data t u out) {text : List UInt8}
    (hlength : text.length < BUFSIZE) : Scene data t ⟨u.kernel, writeString u.mem data text⟩ out := by
  refine ⟨hscene.tasks, hscene.wrote, fun a ha => ?_, ?_⟩
  · have hsame : writeString u.mem data text a = u.mem a := fillWith_outside _ (by omega)
    exact hsame.trans (hscene.mem a ha)
  · have hindex := offset_toNat data (show BUFSIZE < 2 ^ 32 by decide)
    have hsame : writeString u.mem data text (data + UInt32.ofNat BUFSIZE) = u.mem (data + UInt32.ofNat BUFSIZE) :=
      fillWith_outside _ (by omega)
    simp only [hsame]
    exact hscene.guard

include hlayout

theorem Layout.index_ne_null {i : Nat} (hi : i ≤ BUFSIZE) : data + UInt32.ofNat i ≠ NULL := by
  intro hnull
  have hdata : data.toNat ≠ 0 := fun h => hlayout.data_ne (UInt32.toNat_inj.mp h)
  have hfits := hlayout.data_fits
  have hzero := congrArg UInt32.toNat hnull
  simp only [BUFSIZE] at *
  rw [UInt32.toNat_add, UInt32.toNat_ofNat', UInt32.toNat_zero] at hzero
  omega

section Search

variable {t : Task} (ht : TableSound t.kernel) (hpattern : IsText t.mem s pattern) (hname : IsText t.mem fname name)
  {line_start : Nat} {line : List UInt8} (hline : IsText t.mem (data + UInt32.ofNat line_start) line)
  (hnonzero : 0 ∉ line) (hfits : line_start + line.length ≤ BUFSIZE)
include ht hname hline hnonzero hfits

/-- A line that has been found is printed after the name of the file. -/
theorem print_line_spec : wp (do
      ece391_fdputs 1 t.mem fname
      fdputs_constant 1 [':']
      ece391_fdputs 1 t.mem (data + UInt32.ofNat line_start)
      fdputs_constant 1 ['\n'])
    (fun _ t' => t'.mem = t.mem ∧ t'.kernel.toTasks = t.kernel.toTasks ∧
      Wrote t.kernel (name ++ (chars [':'] ++ (line ++ chars ['\n']))) t'.kernel) t := by
  have hlength : line.length < 2 ^ 31 := by
    simp only [BUFSIZE] at hfits
    omega
  have hnull : data + UInt32.ofNat line_start ≠ NULL :=
    hlayout.index_ne_null (Nat.le_trans (Nat.le_add_right _ _) hfits)
  refine wp_bind (wp_mono (fdputs_spec ht hlayout.fname_ne hname hlayout.name_nonzero hlayout.name_length) ?_)
  rintro - t₁ ⟨hmem₁, htasks₁, hwrote₁⟩
  refine wp_bind (wp_mono (fdputs_constant_spec (ht.of_tasks htasks₁) (by decide) (by decide)) ?_)
  rintro - t₂ ⟨hmem₂, htasks₂, hwrote₂⟩
  refine wp_bind (wp_mono (fdputs_spec (ht.of_tasks (htasks₂.trans htasks₁)) hnull hline hnonzero hlength) ?_)
  rintro - t₃ ⟨hmem₃, htasks₃, hwrote₃⟩
  have htasks := htasks₃.trans (htasks₂.trans htasks₁)
  refine wp_mono (fdputs_constant_spec (ht.of_tasks htasks) (by decide) (by decide)) ?_
  rintro - t₄ ⟨hmem₄, htasks₄, hwrote₄⟩
  exact ⟨hmem₄.trans (hmem₃.trans (hmem₂.trans hmem₁)), htasks₄.trans htasks,
    hwrote₁.append (hwrote₂.append (hwrote₃.append hwrote₄))⟩

variable {s_len : UInt32} (hs_len : s_len.toNat = pattern.length)
include hpattern hs_len

/-- From an index on, the search finds the pattern if the rest of the line has it. -/
theorem searchLine_from {before rest : List UInt8} (hsplit : line = before ++ rest) {check : Nat}
    (hcheck : check = line_start + before.length) :
    wp (searchLine s fname data s_len line_start rest.length check)
      (fun _ t' => t'.mem = t.mem ∧ t'.kernel.toTasks = t.kernel.toTasks ∧
        Wrote t.kernel (if pattern <:+: rest then name ++ (chars [':'] ++ (line ++ chars ['\n'])) else []) t'.kernel)
      t := by
  induction rest generalizing before check with
  | nil =>
    rw [if_neg fun h => hlayout.pattern_ne (List.infix_nil.mp h)]
    exact wp_pure ⟨rfl, rfl, .nothing rfl rfl⟩
  | cons c rest ih =>
    have hrest : IsText t.mem (data + UInt32.ofNat check) (c :: rest) := by
      intro j hj
      have haddr : data + UInt32.ofNat check + UInt32.ofNat j =
          data + UInt32.ofNat line_start + UInt32.ofNat (before.length + j) := by
        rw [hcheck, UInt32.ofNat_add, UInt32.ofNat_add, UInt32.add_assoc, UInt32.add_assoc, UInt32.add_assoc]
      rw [haddr, hline _ (by rw [hsplit, List.length_append]; omega), hsplit,
        List.getD_append_right _ _ _ _ (Nat.le_add_right _ _), Nat.add_sub_cancel_left]
    have hnonzero' : 0 ∉ c :: rest := fun h => hnonzero (hsplit ▸ List.mem_append_right _ h)
    have hmatch : (t.mem s = t.mem (data + UInt32.ofNat check) ∧
        ece391_strncmp t.mem (data + UInt32.ofNat check) s s_len.toNat = 0) ↔
        pattern <+: c :: rest := by
      rw [hs_len, strncmp_eq_zero_iff_prefix hrest hpattern hnonzero' hlayout.pattern_nonzero,
        and_iff_right_iff_imp]
      obtain ⟨p, pattern', rfl⟩ := List.exists_cons_of_ne_nil hlayout.pattern_ne
      intro h
      rw [(isText_cons hpattern).1, (isText_cons hrest).1, (List.cons_prefix_cons.mp h).1]
    refine wp_bind (wp_memory ?_)
    simp only [hmatch, List.infix_cons_iff]
    by_cases hfound : pattern <+: c :: rest
    · rw [if_pos hfound, if_pos (.inl hfound)]
      exact print_line_spec hlayout ht hname hline hnonzero hfits
    · rw [if_neg hfound]
      simp only [hfound, false_or]
      refine ih (by rw [hsplit, List.append_assoc, List.singleton_append] : line = (before ++ [c]) ++ rest) ?_
      rw [hcheck, List.length_append, List.length_singleton, Nat.add_assoc]

/-- The search of a line prints its report. -/
theorem searchLine_spec : wp (searchLine s fname data s_len line_start line.length line_start)
    (fun _ t' => t'.mem = t.mem ∧ t'.kernel.toTasks = t.kernel.toTasks ∧
      Wrote t.kernel (report pattern name line) t'.kernel) t :=
  searchLine_from hlayout ht hpattern hname hline hnonzero hfits hs_len (List.nil_append line).symm rfl

end Search

section OneLine

variable {t u : Task} (ht : TableSound t.kernel) (hpattern : IsText t.mem s pattern) (hname : IsText t.mem fname name)
  {s_len : UInt32} (hs_len : s_len.toNat = pattern.length) {cnt : Int} {last line_start : Nat}
  {left rest out : List UInt8} (hlast : line_start + left.length = last) (hfull : last ≤ BUFSIZE)
  (hscene : Scene data t u out) (hleft : Holds u.mem data line_start left) (hnonzero : 0 ∉ left)
include ht hpattern hname hs_len hlast hfull hscene hleft hnonzero

/-- A line at the front of what is left in the buffer is searched, after its end is marked. -/
theorem marked_line_spec {line after : List UInt8} (hline : left = line ++ after) {line_end : Nat}
    (hend : line_end = line_start + line.length) {next : Prog Task (Nat ⊕ Nat)} {post : Nat ⊕ Nat → Task → Prop}
    (hnext : ∀ u', Scene data t u' (out ++ report pattern name line) →
      (∀ offset l, line_end < offset → offset + l.length ≤ BUFSIZE → Holds u.mem data offset l →
        Holds u'.mem data offset l) → wp next post u') :
    wp (do
        assign (data + UInt32.ofNat line_end) 0
        searchLine s fname data s_len line_start (line_end - line_start) line_start
        next) post u := by
  have hlength : line_start + line.length ≤ BUFSIZE := by
    rw [hline, List.length_append] at hlast
    omega
  let marked : Task := ⟨u.kernel, store u.mem (data + UInt32.ofNat line_end) 0⟩
  have hmarked : Scene data t marked out := hscene.mark (hend ▸ hlength)
  have hholds : Holds u.mem data line_start line := (holds_append_iff.mp (hline ▸ hleft)).1
  simp only [BUFSIZE] at hlength
  have htext : IsText marked.mem (data + UInt32.ofNat line_start) line := by
    refine isText_of_holds (holds_store hholds (.inr (by omega)) (by omega) (by omega) 0) ?_
    rw [← hend]
    exact Function.update_self ..
  have hnonzero' : 0 ∉ line := fun h => hnonzero (hline ▸ List.mem_append_left _ h)
  have hsearch := searchLine_spec hlayout (ht.of_tasks hmarked.tasks)
    (isText_apart hpattern hlayout.pattern_apart hmarked.mem) (isText_apart hname hlayout.name_apart hmarked.mem) htext
    hnonzero' hlength hs_len
  have hcount : line_end - line_start = line.length := by omega
  rw [hcount]
  refine wp_bind ⟨(), marked, rfl, wp_bind (wp_mono hsearch ?_)⟩
  rintro - u' ⟨hmem, htasks, hwrote⟩
  refine hnext u' ⟨htasks.trans hmarked.tasks, hmarked.wrote.append hwrote, ?_, ?_⟩ ?_
  · rw [hmem]
    exact hmarked.mem
  · rw [hmem]
    exact hmarked.guard
  · intro offset l hoffset hl hholds'
    rw [hmem]
    simp only [BUFSIZE] at hl
    exact holds_store hholds' (.inl hoffset) (by omega) (by omega) 0

omit hlayout ht hpattern hname hs_len in
/-- The part of a line at the end of the buffer is moved to its front. -/
theorem carried_part_spec (hstart : line_start ≠ 0) {post : Nat ⊕ Nat → Task → Prop}
    (hnext : ∀ u', Scene data t u' out → Holds u'.mem data 0 left → post (.inr left.length) u') :
    wp (do
        assign (data + UInt32.ofNat last) 0
        ece391_strcpy data (data + UInt32.ofNat line_start)
        pure (.inr left.length)) post u := by
  have hlength : left.length < BUFSIZE := by omega
  let marked : Task := ⟨u.kernel, store u.mem (data + UInt32.ofNat last) 0⟩
  have hmarked : Scene data t marked out := hscene.mark hfull
  simp only [BUFSIZE] at hfull
  have htext : IsText marked.mem (data + UInt32.ofNat line_start) left := by
    refine isText_of_holds (holds_store hleft (.inr (by omega)) (by omega) (by omega) 0) ?_
    rw [hlast]
    exact Function.update_self ..
  have hcopy : strcpy_loop (2 ^ 32) marked.mem data (data + UInt32.ofNat line_start) =
      writeString marked.mem data left := strcpy_loop_down hnonzero (by omega) (by omega) htext
  refine wp_bind ⟨(), marked, rfl, wp_bind ⟨(), ⟨u.kernel, writeString marked.mem data left⟩, ?_, ?_⟩⟩
  · rw [ece391_strcpy, hcopy]
  · refine wp_pure (hnext _ (hmarked.carry hlength) fun j hj => ?_)
    rw [Nat.zero_add]
    exact isText_writeString _ _ (by omega) j (Nat.le_of_lt hj)

/-- One round of the inner loop. What is reported and what is still to be searched are
    together the same as before. -/
theorem oneLine_spec (hcnt : cnt = 0 → rest = []) (hshort : last < BUFSIZE → rest = []) :
    wp (oneLine s fname data s_len cnt last line_start) (fun next u' => ∃ out', Scene data t u' out' ∧ next.elim
      (fun start => line_start < start ∧ ∃ left', start + left'.length = last ∧ Holds u'.mem data start left' ∧
        0 ∉ left' ∧ out' ++ reports pattern name (left' ++ rest) = out ++ reports pattern name (left ++ rest))
      (fun last' => ∃ carried, last' = carried.length ∧ carried.length < BUFSIZE ∧ Holds u'.mem data 0 carried ∧
        0 ∉ carried ∧ (cnt = 0 → carried = []) ∧
        out' ++ reports pattern name (carried ++ rest) = out ++ reports pattern name (left ++ rest))) u := by
  have hcount : last - line_start = left.length := by omega
  refine wp_bind (wp_memory ?_)
  simp only [hcount]
  by_cases hnewline : '\n'.toUInt8 ∈ left
  · -- A line with its newline.
    obtain ⟨line, after, hsplit, hline⟩ := List.eq_append_cons_of_mem hnewline
    have hparts := holds_append_iff.mp (hsplit ▸ hleft)
    have hfirst : u.mem (data + UInt32.ofNat (line_start + line.length)) = '\n'.toUInt8 :=
      hparts.2 0 (Nat.succ_pos _)
    have hafter : Holds u.mem data (line_start + line.length) (['\n'.toUInt8] ++ after) := hparts.2
    have hlengths : left.length = line.length + (after.length + 1) := by rw [hsplit, List.length_append, List.length_cons]
    have hend := findEnd_eq hparts.1 hline (n := left.length) (by omega) (.inr hfirst)
    have hreports : out ++ report pattern name line ++ reports pattern name (after ++ rest) =
        out ++ reports pattern name (left ++ rest) := by
      have hwhole : left ++ rest = line ++ '\n'.toUInt8 :: (after ++ rest) := by
        rw [hsplit, List.append_assoc, List.cons_append]
      rw [hwhole, reports_append_newline, reports_line hlayout.pattern_ne name hline (by omega), List.append_assoc]
    rw [hend, if_neg fun h => h.1 hfirst]
    refine marked_line_spec hlayout ht hpattern hname hs_len hlast hfull hscene hleft hnonzero hsplit rfl
      fun u' hscene' hkept => ?_
    split
    · rename_i hdone
      have hempty : after = [] := List.length_eq_zero_iff.mp (by omega)
      refine wp_pure ⟨_, hscene', [], rfl, by decide, fun j hj => absurd hj (Nat.not_lt_zero j), List.not_mem_nil,
        fun _ => rfl, ?_⟩
      rw [← hreports, hempty]
    · refine wp_pure ⟨_, hscene', by omega, after, by omega, ?_, ?_, hreports⟩
      · refine hkept _ _ (Nat.lt_succ_self _) (by omega) ?_
        exact (holds_append_iff.mp hafter).2
      · exact fun h => hnonzero (hsplit ▸ List.mem_append_right _ (List.mem_cons_of_mem _ h))
  · have hend := findEnd_eq hleft hnewline (Nat.le_refl _) (.inl rfl)
    rw [hend, hlast]
    by_cases hcarry : u.mem (data + UInt32.ofNat last) ≠ '\n'.toUInt8 ∧ cnt ≠ 0 ∧ line_start ≠ 0
    · -- The part of a line goes to the front of the buffer.
      rw [if_pos hcarry]
      refine carried_part_spec hlast hfull hscene hleft hnonzero hcarry.2.2 fun u' hscene' hcarried => ?_
      exact ⟨out, hscene', left, rfl, by omega, hcarried, hnonzero, fun h => absurd h hcarry.2.1, rfl⟩
    · -- The end of a line longer than the buffer, or of the file.
      rw [if_neg hcarry]
      have hreports : out ++ report pattern name left ++ reports pattern name rest =
          out ++ reports pattern name (left ++ rest) := by
        by_cases hrest : rest = []
        · rw [hrest, List.append_nil, reports_nil hlayout.pattern_ne, List.append_nil,
            reports_line hlayout.pattern_ne name hnewline (by omega)]
        · have hlast' : last = BUFSIZE := Nat.le_antisymm hfull (Nat.not_lt.mp fun h => hrest (hshort h))
          have hstart : line_start = 0 := by
            by_contra hstart
            exact hcarry ⟨hlast' ▸ hscene.guard, fun h => hrest (hcnt h), hstart⟩
          rw [reports_append_full name hnewline (by omega), List.append_assoc]
      refine marked_line_spec hlayout ht hpattern hname hs_len hlast hfull hscene hleft hnonzero
        (List.append_nil left).symm hlast.symm fun u' hscene' _ => ?_
      rw [if_pos (Nat.le_succ last)]
      exact wp_pure ⟨_, hscene', [], rfl, by decide, fun j hj => absurd hj (Nat.not_lt_zero j), List.not_mem_nil,
        fun _ => rfl, hreports⟩

end OneLine

section OneBuffer

variable {s_len : UInt32} (hs_len : s_len.toNat = pattern.length) {fuel : Nat} (hfuel : BUFSIZE < fuel)
include hs_len hfuel

/-- The inner loop searches a buffer, up to what it carries over to the next. -/
theorem lines_spec {t : Task} (ht : TableSound t.kernel) (hpattern : IsText t.mem s pattern)
    (hname : IsText t.mem fname name) (hguard : t.mem (data + UInt32.ofNat BUFSIZE) ≠ '\n'.toUInt8) {cnt : Int}
    {buffer rest : List UInt8} (hfull : buffer.length ≤ BUFSIZE) (hbuffer : Holds t.mem data 0 buffer)
    (hnonzero : 0 ∉ buffer) (hcnt : cnt = 0 → rest = []) (hshort : buffer.length < BUFSIZE → rest = []) :
    wp (loop (oneLine s fname data s_len cnt buffer.length) fuel 0) (fun last u => ∃ out carried,
      Scene data t u out ∧ last = carried.length ∧ carried.length < BUFSIZE ∧ Holds u.mem data 0 carried ∧
      0 ∉ carried ∧ (cnt = 0 → carried = []) ∧
      out ++ reports pattern name (carried ++ rest) = reports pattern name (buffer ++ rest)) t := by
  refine wp_loop (fun n line_start u => n = buffer.length - line_start ∧ ∃ out left, Scene data t u out ∧
    line_start + left.length = buffer.length ∧ Holds u.mem data line_start left ∧ 0 ∉ left ∧
    out ++ reports pattern name (left ++ rest) = reports pattern name (buffer ++ rest)) ?_
    (Nat.lt_of_le_of_lt hfull hfuel)
    ⟨rfl, [], buffer, .start hguard, Nat.zero_add _, hbuffer, hnonzero, List.nil_append _⟩
  rintro n line_start u ⟨rfl, out, left, hscene, hlast, hleft, hnonzero', hreports⟩
  refine wp_mono (oneLine_spec hlayout ht hpattern hname hs_len hlast hfull hscene hleft hnonzero' hcnt hshort) ?_
  rintro next u' ⟨out', hscene', hnext⟩
  cases next with
  | inl start =>
    obtain ⟨hstart, left', hlast', hleft', hnonzero'', hreports'⟩ := hnext
    exact ⟨_, by omega, rfl, out', left', hscene', hlast', hleft', hnonzero'', hreports'.trans hreports⟩
  | inr last =>
    obtain ⟨carried, hlast', hlength, hcarried, hnonzero'', hend, hreports'⟩ := hnext
    exact ⟨out', carried, hscene', hlast', hlength, hcarried, hnonzero'', hend, hreports'.trans hreports⟩

end OneBuffer

end lacos.user.grep
