import LacOS.User.Grep.Lines

open memory program stream lacos.lib lacos.file_system lacos.pcb lacos.syscalls

namespace lacos.user.grep

/-- The state of the search in a file that is open at slot `idx`, as against the state `t` in
    which it was opened. -/
structure Searched (data : UInt32) (idx : Fin MAX_DESC) (t u : Task) (out : List UInt8) : Prop where
  sound : TableSound u.kernel
  wrote : Wrote t.kernel out u.kernel
  file_ops : (u.kernel.desc t.kernel.cur_pcb idx).file_ops = (t.kernel.desc t.kernel.cur_pcb idx).file_ops
  others : ∀ j ≠ idx, u.kernel.desc t.kernel.cur_pcb j = t.kernel.desc t.kernel.cur_pcb j
  mem : ∀ a, BUFSIZE + 1 ≤ (a - data).toNat → u.mem a = t.mem a
  guard : u.mem (data + UInt32.ofNat BUFSIZE) ≠ '\n'.toUInt8

section Buffer

variable {data : UInt32} {idx : Fin MAX_DESC} {t u u' : Task} {out : List UInt8}

/-- Bytes read behind those in the buffer. -/
theorem holds_putBytes {m : Mem} {carried chunk : List UInt8} (hcarried : Holds m data 0 carried)
    (hfits : carried.length + chunk.length ≤ BUFSIZE) :
    Holds (putBytes m (data + UInt32.ofNat carried.length) chunk) data 0 (carried ++ chunk) := by
  simp only [BUFSIZE] at hfits
  rw [holds_append_iff]
  refine ⟨fun j hj => ?_, fun j hj => ?_⟩
  · rw [Nat.zero_add, putBytes, fillWith_outside]
    · have hbyte := hcarried j hj
      rwa [Nat.zero_add] at hbyte
    · have hsub := sub_add_toNat (data + UInt32.ofNat j) data (show carried.length < 2 ^ 32 by omega)
      rw [hsub, offset_toNat data (by omega), if_neg (by omega)]
      omega
  · rw [Nat.zero_add, UInt32.ofNat_add, ← UInt32.add_assoc, putBytes, fillWith_inside _ _ _ hj (by omega)]

/-- Bytes that fit the buffer do not reach beyond it. -/
theorem putBytes_above (m : Mem) {n : Nat} {chunk : List UInt8} (hfits : n + chunk.length ≤ BUFSIZE) {a : UInt32}
    (ha : BUFSIZE ≤ (a - data).toNat) : putBytes m (data + UInt32.ofNat n) chunk a = m a := by
  simp only [BUFSIZE] at hfits ha
  refine fillWith_outside _ ?_
  rw [sub_add_toNat a data (by omega), if_pos (by omega)]
  omega

/-- After a read. -/
theorem Searched.fetched (hsearched : Searched data idx t u out) {buf : UInt32} {size n : Nat}
    (hfetched : Fetched u u' idx buf size) {chunk : List UInt8} (hfits : n + chunk.length ≤ BUFSIZE)
    (hmem : u'.mem = putBytes u.mem (data + UInt32.ofNat n) chunk) : Searched data idx t u' out where
  sound := hfetched.sound
  wrote := hsearched.wrote.then_nothing hfetched.wrote
  file_ops := by
    have hops := hfetched.file_ops
    rw [hsearched.wrote.cur_pcb] at hops
    exact hops.trans hsearched.file_ops
  others j hj := by
    have hother := hfetched.others j hj
    rw [hsearched.wrote.cur_pcb] at hother
    exact hother.trans (hsearched.others j hj)
  mem a ha := by
    rw [hmem, putBytes_above _ hfits (Nat.le_of_succ_le ha)]
    exact hsearched.mem a ha
  guard := by
    have hindex := offset_toNat data (show BUFSIZE < 2 ^ 32 by decide)
    rw [hmem, putBytes_above _ hfits (Nat.le_of_eq hindex.symm)]
    exact hsearched.guard

/-- After the lines in the buffer. -/
theorem Searched.scene (hsearched : Searched data idx t u out) {out' : List UInt8} (hscene : Scene data u u' out') :
    Searched data idx t u' (out ++ out') where
  sound := hsearched.sound.of_tasks hscene.tasks
  wrote := hsearched.wrote.append hscene.wrote
  file_ops := by
    rw [Kernel.desc, hscene.tasks]
    exact hsearched.file_ops
  others j hj := by
    rw [Kernel.desc, hscene.tasks]
    exact hsearched.others j hj
  mem a ha := (hscene.mem a ha).trans (hsearched.mem a ha)
  guard := hscene.guard

end Buffer

section OneFile

variable {data s fname : UInt32} {pattern name : List UInt8} (hlayout : Layout data s fname pattern name)
  {s_len : UInt32} (hs_len : s_len.toNat = pattern.length) {fs : Image} {idx : Fin MAX_DESC}
include hlayout hs_len

/-- The outer loop reports the lines of the file. -/
theorem buffers_spec {t : Task} (ht : TableSound t.kernel) (hpattern : IsText t.mem s pattern)
    (hname : IsText t.mem fname name) (hguard : t.mem (data + UInt32.ofNat BUFSIZE) ≠ '\n'.toUInt8)
    {text : List UInt8} (hfeeds : Feeds fs t.kernel idx text) (hnonzero : 0 ∉ text) {fuel : Nat}
    (hbuffer : BUFSIZE < fuel) (hfuel : text.length < fuel) :
    wp (loop (oneBuffer fs s fname data s_len idx fuel) fuel 0)
      (fun failed u => failed = false ∧ Searched data idx t u (reports pattern name text)) t := by
  refine wp_loop (fun n last u => ∃ out carried rest, n = rest.length ∧ Searched data idx t u out ∧
    last = carried.length ∧ carried.length < BUFSIZE ∧ Holds u.mem data 0 carried ∧ 0 ∉ carried ∧ 0 ∉ rest ∧
    Feeds fs u.kernel idx rest ∧ out ++ reports pattern name (carried ++ rest) = reports pattern name text) ?_ hfuel
    ⟨[], [], text, rfl, ⟨ht, .nothing rfl rfl, rfl, fun _ _ => rfl, fun _ _ => rfl, hguard⟩, rfl, by decide,
      fun j hj => absurd hj (Nat.not_lt_zero j), List.not_mem_nil, hnonzero, hfeeds, rfl⟩
  rintro n last u ⟨out, carried, rest, rfl, hsearched, rfl, hlength, hcarried, hcnonzero, hrnonzero, hfeeds, hreports⟩
  have hsize : BUFSIZE - carried.length < 2 ^ 31 := Nat.lt_of_le_of_lt (Nat.sub_le _ _) (by decide)
  refine wp_bind (wp_mono (feed_spec hsearched.sound (hlayout.index_ne_null (Nat.le_of_lt hlength)) hsize hfeeds) ?_)
  rintro cnt u₁ ⟨rfl, hmem, hfetched, hfeeds₁⟩
  have hfits : carried.length + (rest.take (BUFSIZE - carried.length)).length ≤ BUFSIZE := by
    rw [List.length_take]
    omega
  have hsearched₁ := hsearched.fetched hfetched hfits hmem
  generalize hchunk : rest.take (BUFSIZE - carried.length) = chunk at *
  generalize hrest : rest.drop (BUFSIZE - carried.length) = rest' at *
  have hsplit : rest = chunk ++ rest' := by rw [← hchunk, ← hrest, List.take_append_drop]
  have hholds : Holds u₁.mem data 0 (carried ++ chunk) := by
    rw [hmem]
    exact holds_putBytes hcarried hfits
  have hbnonzero : 0 ∉ carried ++ chunk := by
    rw [List.mem_append, not_or]
    exact ⟨hcnonzero, fun h => hrnonzero (hsplit ▸ List.mem_append_left _ h)⟩
  -- A read that does not fill the buffer has come to the end of the file.
  have hshort (hless : chunk.length < BUFSIZE - carried.length) : rest' = [] := by
    rw [← hchunk, List.length_take] at hless
    rw [← hrest]
    exact List.drop_eq_nil_of_le (by omega)
  have hcnt : (chunk.length : Int) = 0 → rest' = [] := fun h => hshort (by omega)
  have hlines := lines_spec hlayout hs_len hbuffer hsearched₁.sound
    (isText_apart hpattern hlayout.pattern_apart hsearched₁.mem) (isText_apart hname hlayout.name_apart hsearched₁.mem)
    hsearched₁.guard (by rw [List.length_append]; exact hfits) hholds hbnonzero hcnt
    (fun h => hshort (by rw [List.length_append] at h; omega))
  have hsuccess : ¬ (chunk.length : Int) = -1 := by omega
  rw [if_neg hsuccess, Int.toNat_natCast, ← List.length_append]
  refine wp_bind (wp_mono hlines ?_)
  rintro last u₂ ⟨out', carried', hscene, rfl, hlength', hcarried', hcnonzero', hdone, hreports'⟩
  have htotal : out ++ out' ++ reports pattern name (carried' ++ rest') = reports pattern name text := by
    rw [List.append_assoc, hreports', List.append_assoc, ← hsplit, hreports]
  have hsearched₂ := hsearched₁.scene hscene
  split
  · rename_i hzero
    have hrest' : rest' = [] := hshort (by omega)
    rw [hdone hzero, hrest', List.append_nil, reports_nil hlayout.pattern_ne, List.append_nil] at htotal
    rw [htotal] at hsearched₂
    exact wp_pure ⟨rfl, hsearched₂⟩
  · refine wp_pure ⟨rest'.length, ?_, out ++ out', carried', rest', rfl, hsearched₂, rfl, hlength', hcarried', hcnonzero',
      fun h => hrnonzero (hsplit ▸ List.mem_append_right _ h), hfeeds₁.of_same (.of_tasks hscene.tasks), htotal⟩
    rw [hsplit, List.length_append]
    omega

end OneFile

/-- The descriptors of the process after a file has been opened and closed again. -/
def Restored (k k' : Kernel) : Prop :=
  ∀ j, k'.desc k.cur_pcb j = k.desc k.cur_pcb j ∨
    (k.desc k.cur_pcb j).flags = .NOT_USED ∧ (k'.desc k.cur_pcb j).flags = .NOT_USED

/-- The file of a name is one that can be searched: it exists, it is not a directory, and
    there is no zero byte in it. -/
structure Searchable (fs : Image) (name : List UInt8) (dentry : dentry_t) : Prop where
  plain : PlainName name
  leads : fs.Leads name dentry
  not_directory : dentry.file_type ≠ 1
  wellFormed : dentry.file_type = 2 → fs.WellFormed dentry.inode_num
  nonzero : 0 ∉ fs.text dentry

/-- A file that can be searched feeds its text to the loop, from its beginning. -/
theorem feeds_of_opened {fs : Image} {k k' : Kernel} {idx : Fin MAX_DESC} {i : Nat} {name : List UInt8}
    (hopened : Opened fs k name idx i k') (hfile : Searchable fs name (fs.dentry (UInt32.ofNat i))) :
    Feeds fs k' idx (fs.text (fs.dentry (UInt32.ofNat i))) := by
  rw [Image.text]
  rcases hopened.file_type_cases with htype | htype | htype
  · rw [if_pos htype]
    exact .inr ⟨hopened.rtc htype, rfl⟩
  · exact absurd htype hfile.not_directory
  · rw [htype]
    exact .inl (hopened.reads htype (hfile.wellFormed htype))

/-- Closing the file gives its slot back. -/
theorem close_spec {fs : Image} {data : UInt32} {k : Kernel} {idx : Fin MAX_DESC} {i : Nat} {name out : List UInt8}
    {t u : Task} (hopened : Opened fs k name idx i t.kernel) (hcur : t.kernel.cur_pcb = k.cur_pcb)
    (hsearched : Searched data idx t u out) : wp (ece391_close idx) (fun value u' => value = 0 ∧ u'.mem = u.mem ∧
      TableSound u'.kernel ∧ Wrote u.kernel [] u'.kernel ∧ Restored k u'.kernel) u := by
  have hcur' : u.kernel.cur_pcb = k.cur_pcb := hsearched.wrote.cur_pcb.trans hcur
  have hops : (u.kernel.desc u.kernel.cur_pcb idx).file_ops ∈ tableaux := by
    rw [hsearched.wrote.cur_pcb, hsearched.file_ops]
    exact List.mem_of_getElem? hopened.bound.file_ops
  have hfd := descIndex_ofInt idx
  have hclose := sys_close_file hsearched.sound.current hfd hopened.two_le hops
  have hsound := hsearched.sound.close (Int32.ofInt idx)
  rw [hclose] at hsound
  refine ⟨0, ⟨u.kernel.setDesc u.kernel.cur_pcb idx (closed (u.kernel.desc u.kernel.cur_pcb idx)), u.mem⟩, ?_, rfl, rfl,
    hsound, .nothing rfl rfl, fun j => ?_⟩
  · rw [ece391_close, hclose]
  · rw [hcur']
    by_cases hj : j = idx
    · subst hj
      refine .inr ⟨hopened.free, ?_⟩
      rw [Kernel.desc_setDesc_same]
      rfl
    · left
      rw [Kernel.desc_setDesc_other _ _ _ _ fun h => hj (Prod.mk.inj h).2, ← hcur, hsearched.others j hj, hcur,
        hopened.others j hj]

section DoOneFile

variable {fs : Image} {data s fname : UInt32} {pattern name : List UInt8}
  (hlayout : Layout data s fname pattern name) {found : Task → Nat → UInt8}
include hlayout

/-- `do_one_file` prints the report of the file, and leaves the descriptors and the memory of
    its caller as they were. -/
theorem do_one_file_spec {t : Task} (ht : TableSound t.kernel) (hpattern : IsText t.mem s pattern)
    (hname : IsText t.mem fname name) (hfound : found t BUFSIZE ≠ '\n'.toUInt8) {dentry : dentry_t}
    (hfile : Searchable fs name dentry) (hfree : ∃ idx, (t.kernel.desc t.kernel.cur_pcb idx).flags = .NOT_USED)
    {fuel : Nat} (hbuffer : BUFSIZE < fuel) (hfuel : (fs.text dentry).length < fuel) :
    wp (do_one_file fs data found s fname fuel) (fun value t' => value = 0 ∧ TableSound t'.kernel ∧
      Wrote t.kernel (reports pattern name (fs.text dentry)) t'.kernel ∧ Restored t.kernel t'.kernel ∧
      ∀ a, BUFSIZE + 1 ≤ (a - data).toNat → t'.mem a = t.mem a) t := by
  let start : Task := ⟨t.kernel, fillWith t.mem data (found t) (BUFSIZE + 1)⟩
  have hkept (a : UInt32) (ha : BUFSIZE + 1 ≤ (a - data).toNat) : start.mem a = t.mem a := fillWith_outside _ ha
  have hguard : start.mem (data + UInt32.ofNat BUFSIZE) ≠ '\n'.toUInt8 := by
    have hlast : BUFSIZE < BUFSIZE + 1 := by decide
    have hsize : BUFSIZE + 1 ≤ 2 ^ 32 := by decide
    have hbyte := fillWith_inside t.mem data (found t) hlast hsize
    simp only [start]
    rw [hbyte]
    exact hfound
  have hpattern' : IsText start.mem s pattern := isText_apart hpattern hlayout.pattern_apart hkept
  have hname' : IsText start.mem fname name := isText_apart hname hlayout.name_apart hkept
  have hs_len : (ece391_strlen start.mem s).toNat = pattern.length := hpattern'.strlen_toNat hlayout.pattern_nonzero
  refine wp_bind ⟨(), start, rfl, wp_bind (wp_memory (wp_bind (wp_memory (wp_bind ?_))))⟩
  have hopens := @open_spec fs start.mem fname start ht name hname' hlayout.name_nonzero hfile.plain
  refine wp_mono hopens ?_
  rintro fd t₁ ⟨hmem₁, hopen, ht₁, ⟨-, hcannot⟩ | ⟨idx, i, rfl, hopened⟩⟩
  · obtain ⟨i, hfirst, rfl, htype⟩ := hfile.leads
    exact absurd ⟨ht.current, ⟨i, hfirst, htype⟩, hfree⟩ hcannot
  · obtain ⟨i', hfirst, rfl, -⟩ := hfile.leads
    obtain rfl := hopened.first.unique hfirst
    have hfd : ¬ (idx.val : Int) = -1 := by omega
    rw [if_neg hfd]
    have hloop := buffers_spec hlayout hs_len ht₁ (hmem₁ ▸ hpattern') (hmem₁ ▸ hname') (hmem₁ ▸ hguard)
      (feeds_of_opened hopened hfile) hfile.nonzero hbuffer hfuel
    refine wp_bind (wp_mono hloop ?_)
    rintro failed t₂ ⟨rfl, hsearched⟩
    rw [if_neg (by decide)]
    refine wp_bind (wp_mono (close_spec hopened hopen.cur_pcb hsearched) ?_)
    rintro value t₃ ⟨rfl, hmem₃, ht₃, hclose, hrestored⟩
    rw [if_neg (by decide)]
    refine wp_pure ⟨rfl, ht₃, hopen.append (hsearched.wrote.then_nothing hclose), hrestored, fun a ha => ?_⟩
    rw [hmem₃, hsearched.mem a ha, hmem₁, hkept a ha]

end DoOneFile

end lacos.user.grep
