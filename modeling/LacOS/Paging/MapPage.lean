import LacOS.Paging.Walk

open memory

namespace lacos.paging

/-- The bytes of a page, and the addresses in the page of `virtual_addr`. -/
def pageBytes (page_size : Bool) : Nat :=
  if page_size then 2 ^ 22 else 2 ^ 12

def SamePage (page_size : Bool) (virtual_addr virt_addr : UInt32) : Prop :=
  virt_addr.toNat / pageBytes page_size = virtual_addr.toNat / pageBytes page_size

theorem samePage_large {virtual_addr virt_addr : UInt32} :
    SamePage true virtual_addr virt_addr ↔ SameRegion virtual_addr virt_addr := Iff.rfl

theorem samePage_small {virtual_addr virt_addr : UInt32} :
    SamePage false virtual_addr virt_addr ↔ SameSmall virtual_addr virt_addr := Iff.rfl

section WellFormed

variable {pg : Paging} {phys_addr virtual_addr : UInt32} {privileges write : Bool} (hwf : WellFormed pg)
include hwf

/-- A large page needs no table, so that the others stay where they are. -/
theorem WellFormed.withLarge : WellFormed (withLarge pg phys_addr virtual_addr privileges write) := by
  intro index hindex hpresent hsmall
  by_cases hregion : index = virtual_addr >>> SHIFT_FOR_DIRENTRY
  · -- The entry of the large page itself is not one for a table.
    have hentry : (paging.withLarge pg phys_addr virtual_addr privileges write).page_directory index =
        (phys_addr &&& ALL_BUT_LAST_12_BITS) + (PAGE_SIZE_BIT + rights privileges write) := by
      rw [hregion, ← UInt32.add_assoc]
      exact Function.update_self ..
    rw [hentry, add_flags_bit (small_frame_aligned phys_addr) (large_rights_lt privileges write) (by decide)] at hsmall
    exact absurd hsmall (large_rights_bits privileges write).2.1
  · have hentry : (paging.withLarge pg phys_addr virtual_addr privileges write).page_directory index =
        pg.page_directory index := Function.update_of_ne hregion ..
    rw [hentry] at hpresent hsmall ⊢
    exact hwf index hindex hpresent hsmall

/-- A new table is put where `map_page` looks for it. -/
theorem WellFormed.withNewTable : WellFormed (withNewTable pg phys_addr virtual_addr privileges write) := by
  intro index hindex hpresent hsmall
  by_cases hregion : index = virtual_addr >>> SHIFT_FOR_DIRENTRY
  · have hentry : (paging.withNewTable pg phys_addr virtual_addr privileges write).page_directory index =
        PAGE_TABLE_STARTADDR + SIZEOFDIR * (virtual_addr >>> SHIFT_FOR_DIRENTRY) + rights privileges write := by
      rw [hregion]
      exact Function.update_self ..
    rw [hentry, add_flags_frame table_frame (rights_lt privileges write), hregion]
  · have hentry : (paging.withNewTable pg phys_addr virtual_addr privileges write).page_directory index =
        pg.page_directory index := Function.update_of_ne hregion ..
    rw [hentry] at hpresent hsmall ⊢
    exact hwf index hindex hpresent hsmall

theorem WellFormed.withOldTable : WellFormed (withOldTable pg phys_addr virtual_addr privileges write) := hwf

/-- A request leaves the tables where `map_page` places them, whether it succeeds or not. -/
theorem WellFormed.map_page (page_size remap : Bool) :
    WellFormed (map_page pg phys_addr virtual_addr page_size privileges write remap).2 := by
  by_cases hnull : phys_addr = NULL ∨ virtual_addr = NULL
  · rw [paging.map_page, if_pos hnull]
    exact hwf
  · obtain ⟨hphys, hvirtual⟩ := not_or.mp hnull
    obtain ⟨-, -, hmap⟩ | ⟨-, -, hmap⟩ | ⟨-, -, hmap⟩ | ⟨-, -, -, -, hmap⟩ :=
      map_page_cases pg privileges write page_size remap hphys hvirtual
    · rwa [hmap]
    · rw [hmap]
      exact hwf.withLarge
    · rw [hmap]
      exact hwf.withNewTable
    · rw [hmap]
      exact hwf.withOldTable

theorem WellFormed.mapVideo : WellFormed (mapVideo pg) := by
  rw [paging.mapVideo]
  induction List.range (MAX_TERM_NUM + 1) generalizing pg with
  | nil => exact hwf
  | cons index rest ih => exact ih (hwf.map_page false false)

end WellFormed

/-- The tables of `paging_init` are placed by `map_page`. -/
theorem wellFormed_paging_init (pg : Paging) : WellFormed (paging_init pg) := by
  have hempty : WellFormed { pg with page_directory := fun _ => 0 } := fun index _ hpresent =>
    absurd UInt32.zero_and hpresent
  exact (((hempty.map_page true false).mapVideo).map_page false false).map_page true false

section Address

variable {phys_addr virt_addr : UInt32} {privileges write : Bool}

/-- Through a large entry an address leads to its offset in the frame. The frame must be aligned
    to four megabytes, as the lower bits of its address are dropped. -/
theorem large_address (halign : 2 ^ 22 ∣ phys_addr.toNat) :
    ((Walk.large ((phys_addr &&& ALL_BUT_LAST_12_BITS) +
      (PAGE_SIZE_BIT + rights privileges write))).address virt_addr).toNat =
      phys_addr.toNat + virt_addr.toNat % 2 ^ 22 := by
  have hlt := phys_addr.toNat_lt
  have hflags := large_rights_lt privileges write
  rw [Walk.address, UInt32.toNat_add, large_frame_toNat, large_offset_toNat,
    add_flags_toNat (small_frame_aligned phys_addr) hflags, small_frame_toNat]
  omega

/-- Through a small entry an address leads to its offset in the frame, which must be aligned to
    four kilobytes. -/
theorem small_address (halign : 2 ^ 12 ∣ phys_addr.toNat) {dir : UInt32} :
    ((Walk.small dir ((phys_addr &&& ALL_BUT_LAST_12_BITS) + rights privileges write)).address virt_addr).toNat =
      phys_addr.toNat + virt_addr.toNat % 2 ^ 12 := by
  have hlt := phys_addr.toNat_lt
  have hflags := rights_lt privileges write
  rw [Walk.address, UInt32.toNat_add, small_offset_toNat,
    add_flags_frame (small_frame_aligned phys_addr) hflags, small_frame_toNat]
  omega

end Address

/-- A directory entry that is not present maps no address of its region. -/
theorem walk_absent {pg : Paging} {virtual_addr virt_addr : UInt32} (hregion : SameRegion virtual_addr virt_addr)
    (habsent : dirEntry pg virtual_addr &&& PRESENT_BIT = 0) : walk pg virt_addr = .absent := by
  have hentry : dirEntry pg virt_addr = dirEntry pg virtual_addr := by
    rw [dirEntry, sameRegion_iff.mp hregion, dirEntry_self]
  rw [walk, hentry, if_pos habsent]

/-- A page has been mapped: its addresses lead to the frame, all others are as before. -/
structure MapsPage (pg pg' : Paging) (phys_addr virtual_addr : UInt32) (page_size : Bool) : Prop where
  mapped : ∀ virt_addr, SamePage page_size virtual_addr virt_addr →
    (resolve_virt_addr pg' virt_addr).toNat = phys_addr.toNat + virt_addr.toNat % pageBytes page_size
  others : ∀ virt_addr, ¬ SamePage page_size virtual_addr virt_addr →
    resolve_virt_addr pg' virt_addr = resolve_virt_addr pg virt_addr
  well_formed : WellFormed pg'

section Fresh

variable {pg : Paging} {phys_addr virtual_addr : UInt32} {privileges write : Bool} (hwf : WellFormed pg)
include hwf

/-- A large page with an aligned frame can be mapped in place of whatever its region held. -/
theorem mapsPage_large (halign : 2 ^ 22 ∣ phys_addr.toNat) :
    MapsPage pg (withLarge pg phys_addr virtual_addr privileges write) phys_addr virtual_addr true where
  mapped virt_addr hsame := by
    rw [resolve_virt_addr_walk, walk_withLarge, if_pos (samePage_large.mp hsame), large_address halign]
    rfl
  others virt_addr hother := by
    rw [resolve_virt_addr_walk, resolve_virt_addr_walk, walk_withLarge, if_neg (mt samePage_large.mpr hother)]
  well_formed := hwf.withLarge

/-- A small page can be mapped in a region that had none. The new table is cleared, so nothing
    else of the region is mapped. -/
theorem mapsPage_new_table (halign : 2 ^ 12 ∣ phys_addr.toNat)
    (habsent : dirEntry pg virtual_addr &&& PRESENT_BIT = 0) :
    MapsPage pg (withNewTable pg phys_addr virtual_addr privileges write) phys_addr virtual_addr false where
  mapped virt_addr hsame := by
    rw [resolve_virt_addr_walk, walk_withNewTable hwf, if_pos (samePage_small.mp hsame), small_address halign]
    rfl
  others virt_addr hother := by
    rw [resolve_virt_addr_walk, resolve_virt_addr_walk, walk_withNewTable hwf,
      if_neg (mt samePage_small.mpr hother)]
    split
    · rename_i hregion
      rw [walk_absent hregion habsent]
    · rfl
  well_formed := hwf.withNewTable

/-- A small page can be mapped in a table that is there, beside the other pages of the table. -/
theorem mapsPage_old_table (halign : 2 ^ 12 ∣ phys_addr.toNat)
    (hpresent : dirEntry pg virtual_addr &&& PRESENT_BIT ≠ 0)
    (hsmall : dirEntry pg virtual_addr &&& PAGE_SIZE_BIT = 0) :
    MapsPage pg (withOldTable pg phys_addr virtual_addr privileges write) phys_addr virtual_addr false where
  mapped virt_addr hsame := by
    rw [resolve_virt_addr_walk, walk_withOldTable hwf hpresent hsmall, if_pos (samePage_small.mp hsame),
      small_address halign]
    rfl
  others virt_addr hother := by
    rw [resolve_virt_addr_walk, resolve_virt_addr_walk, walk_withOldTable hwf hpresent hsmall,
      if_neg (mt samePage_small.mpr hother)]
  well_formed := hwf.withOldTable

end Fresh

/-- Without `remap`, `map_page` succeeds exactly when the slot is free. It then maps the page and
    nothing else; when it fails it changes nothing. The virtual address need not be aligned, and
    the rights do not matter. -/
theorem map_page_resolves {pg : Paging} (hwf : WellFormed pg) {phys_addr virtual_addr : UInt32}
    (hphys : phys_addr ≠ NULL) (hvirtual : virtual_addr ≠ NULL) (page_size privileges write : Bool)
    (halign : pageBytes page_size ∣ phys_addr.toNat) :
    ((map_page pg phys_addr virtual_addr page_size privileges write false).1 = 0 ↔
      SlotFree pg virtual_addr page_size) ∧
    ((map_page pg phys_addr virtual_addr page_size privileges write false).1 = 0 →
      MapsPage pg (map_page pg phys_addr virtual_addr page_size privileges write false).2 phys_addr virtual_addr
        page_size) ∧
    ((map_page pg phys_addr virtual_addr page_size privileges write false).1 ≠ 0 →
      map_page pg phys_addr virtual_addr page_size privileges write false = (-1, pg)) := by
  obtain ⟨-, hused, hmap⟩ | ⟨hnew, rfl, hmap⟩ | ⟨hnew, rfl, hmap⟩ | ⟨hpresent, -, rfl, hfree, hmap⟩ :=
    map_page_cases pg privileges write page_size false hphys hvirtual
  · have hfail : ¬ (-1 : Int) = 0 := by decide
    rw [hmap]
    exact ⟨⟨fun h => absurd h hfail, fun h => absurd h hused⟩, fun h => absurd h hfail, fun _ => rfl⟩
  · have habsent := hnew.resolve_right (by decide)
    rw [hmap]
    exact ⟨⟨fun _ => .inl habsent, fun _ => rfl⟩, fun _ => mapsPage_large hwf halign, fun h => absurd rfl h⟩
  · have habsent := hnew.resolve_right (by decide)
    rw [hmap]
    exact ⟨⟨fun _ => .inl habsent, fun _ => rfl⟩, fun _ => mapsPage_new_table hwf halign habsent,
      fun h => absurd rfl h⟩
  · obtain ⟨-, hsmall, -⟩ := hfree.resolve_left hpresent
    rw [hmap]
    exact ⟨⟨fun _ => hfree, fun _ => rfl⟩, fun _ => mapsPage_old_table hwf halign hpresent hsmall,
      fun h => absurd rfl h⟩

/-- A user page next to the video pages, in the table that `paging_init` has made for them. -/
theorem map_page_resolves_low_page :
    (map_page (paging_init blankMachine.toPaging) 0x2000000 0x1000 false true true false).1 = 0 ∧
    MapsPage (paging_init blankMachine.toPaging)
      (map_page (paging_init blankMachine.toPaging) 0x2000000 0x1000 false true true false).2 0x2000000 0x1000
        false := by
  have hok : (map_page (paging_init blankMachine.toPaging) 0x2000000 0x1000 false true true false).1 = 0 := by
    decide +kernel
  have hresolves := map_page_resolves (wellFormed_paging_init blankMachine.toPaging)
    (show (0x2000000 : UInt32) ≠ NULL by decide) (show (0x1000 : UInt32) ≠ NULL by decide) false true true (by decide)
  exact ⟨hok, hresolves.2.1 hok⟩

/-- What the other pages of the four megabytes of `virtual_addr` are. -/
def Alone (pg : Paging) (virtual_addr : UInt32) : Prop :=
  ∀ virt_addr, SamePage true virtual_addr virt_addr → ¬ SamePage false virtual_addr virt_addr →
    resolve_virt_addr pg virt_addr = NULL

/-- A request for address zero is refused on either side, and nothing changes. -/
theorem map_page_null {pg : Paging} {phys_addr virtual_addr : UInt32} {page_size privileges write remap : Bool}
    (hnull : phys_addr = NULL ∨ virtual_addr = NULL) :
    map_page pg phys_addr virtual_addr page_size privileges write remap = (-1, pg) := by
  rw [map_page, if_pos hnull]

/-- With `remap`, `map_page` writes an entry in every case. -/
theorem map_page_remap (pg : Paging) {phys_addr virtual_addr : UInt32} (privileges write : Bool)
    (hphys : phys_addr ≠ NULL) (hvirtual : virtual_addr ≠ NULL) :
    (map_page pg phys_addr virtual_addr true privileges write true).2 =
        withLarge pg phys_addr virtual_addr privileges write ∧
      (map_page pg phys_addr virtual_addr false privileges write true).2 =
        withNewTable pg phys_addr virtual_addr privileges write := by
  have hnull : ¬ (phys_addr = NULL ∨ virtual_addr = NULL) := fun h => h.elim hphys hvirtual
  constructor
  · rw [map_page, if_neg hnull]
    simp only [or_true, if_true]
    rfl
  · rw [map_page, if_neg hnull]
    simp only [or_true, if_true]
    rfl

/-- Remapping a large page changes that page only. Remapping a small page clears its table, so the
    other pages of the four megabytes are as before exactly when none of them was mapped. Neither
    address need be aligned, and the call need not succeed. -/
theorem remap_frame_iff {pg : Paging} (hwf : WellFormed pg) (phys_addr virtual_addr : UInt32)
    (page_size privileges write : Bool) :
    (∀ virt_addr, ¬ SamePage page_size virtual_addr virt_addr →
      resolve_virt_addr (map_page pg phys_addr virtual_addr page_size privileges write true).2 virt_addr =
        resolve_virt_addr pg virt_addr) ↔
    page_size = true ∨ phys_addr = NULL ∨ virtual_addr = NULL ∨ Alone pg virtual_addr := by
  by_cases hnull : phys_addr = NULL ∨ virtual_addr = NULL
  · rw [map_page_null hnull]
    exact iff_of_true (fun _ _ => rfl) (.inr (hnull.imp_right .inl))
  · obtain ⟨hphys, hvirtual⟩ := not_or.mp hnull
    obtain ⟨hlarge, hsmall⟩ := map_page_remap pg privileges write hphys hvirtual
    cases page_size with
    | true =>
      refine iff_of_true (fun virt_addr hother => ?_) (.inl rfl)
      rw [hlarge, resolve_virt_addr_walk, resolve_virt_addr_walk, walk_withLarge,
        if_neg (mt samePage_large.mpr hother)]
    | false =>
      have hafter {virt_addr : UInt32} (hother : ¬ SameSmall virtual_addr virt_addr) :
          resolve_virt_addr (withNewTable pg phys_addr virtual_addr privileges write) virt_addr =
            if SameRegion virtual_addr virt_addr then NULL else resolve_virt_addr pg virt_addr := by
        rw [resolve_virt_addr_walk, walk_withNewTable hwf, if_neg hother, resolve_virt_addr_walk]
        split <;> rfl
      rw [hsmall]
      constructor
      · intro hframe
        refine .inr (.inr (.inr fun virt_addr hregion hother => ?_))
        rw [← hframe virt_addr hother, hafter hother, if_pos (samePage_large.mp hregion)]
      · rintro (hfalse | hphys' | hvirtual' | halone) virt_addr hother
        · exact absurd hfalse (by decide)
        · exact absurd hphys' hphys
        · exact absurd hvirtual' hvirtual
        · rw [hafter hother]
          split
          · rename_i hregion
            exact (halone virt_addr hregion hother).symm
          · rfl

/-- Remapping the first video page loses the second. -/
theorem remap_loses_video_page :
    ¬ ∀ virt_addr, ¬ SamePage false VIDEO_ADDR virt_addr →
      resolve_virt_addr (map_page (paging_init blankMachine.toPaging) VIDEO_ADDR VIDEO_ADDR false false true true).2
        virt_addr = resolve_virt_addr (paging_init blankMachine.toPaging) virt_addr := by
  intro hframe
  have hlost : resolve_virt_addr
      (map_page (paging_init blankMachine.toPaging) VIDEO_ADDR VIDEO_ADDR false false true true).2 0xB9000 = NULL ∧
      resolve_virt_addr (paging_init blankMachine.toPaging) 0xB9000 = 0xB9000 := by
    decide +kernel
  have hsame := hframe 0xB9000 (by rw [SamePage, pageBytes]; decide)
  rw [hlost.1, hlost.2] at hsame
  exact absurd hsame (by decide)

/-- The page at `VIDMAP_VIRT_ADDR` is the only one of its table. -/
theorem alone_vidmap (pg : Paging) : Alone (paging_init pg) VIDMAP_VIRT_ADDR := by
  intro virt_addr hregion hother
  have hindex : virt_addr.toNat / 2 ^ 22 = 34 := samePage_large.mp hregion
  have hslot : virt_addr.toNat / 2 ^ 12 % 2 ^ 10 ≠ 0 := by
    intro hzero
    have hsmall : virt_addr.toNat / 2 ^ 12 = 0x8800 := by omega
    exact hother hsmall
  have hdir : dirEntry (paging_init pg) virt_addr = 0xC022007 := by
    rw [dirEntry_of_index 34 hindex, paging_init_eq]
    rfl
  have htable : tableEntry (paging_init pg) virt_addr = 0 := by
    have hmask : (0xC022007 : UInt32) &&& ALL_BUT_LAST_12_BITS = 0xC022000 := by decide
    rw [tableEntry, hdir, hmask, paging_init_eq,
      ← initTables_cleared pg.page_tables virt_addr hslot,
      Function.update_eq_self]
  rw [resolve_virt_addr_walk, walk_small hdir (by decide) (by decide) htable]
  rfl

/-- The remap of `switch_tasks`. -/
theorem remap_frame_iff_vidmap :
    (∀ virt_addr, ¬ SamePage false VIDMAP_VIRT_ADDR virt_addr →
      resolve_virt_addr
        (map_page (paging_init blankMachine.toPaging) VIDEO_ADDR VIDMAP_VIRT_ADDR false true true true).2 virt_addr =
        resolve_virt_addr (paging_init blankMachine.toPaging) virt_addr) ∧
    WellFormed (paging_init blankMachine.toPaging) := by
  have hwf := wellFormed_paging_init blankMachine.toPaging
  have halone := alone_vidmap blankMachine.toPaging
  exact ⟨(remap_frame_iff hwf VIDEO_ADDR VIDMAP_VIRT_ADDR false true true).mpr (.inr (.inr (.inr halone))), hwf⟩

/-- The page has the rights that were asked for, and no other page has gained one. -/
structure RightsTaken (pg pg' : Paging) (virtual_addr : UInt32) (page_size privileges write : Bool) : Prop where
  mapped : ∀ virt_addr, SamePage page_size virtual_addr virt_addr → walk pg' virt_addr ≠ .absent ∧
    (walk pg' virt_addr).grants US_BIT = privileges ∧ (walk pg' virt_addr).grants RW_BIT = write
  others : ∀ virt_addr, ¬ SamePage page_size virtual_addr virt_addr → ∀ bit,
    (walk pg' virt_addr).grants bit = true → (walk pg virt_addr).grants bit = true

/-- The directory entry of a table that is there grants the rights. -/
def Granted (pg : Paging) (virtual_addr : UInt32) (privileges write : Bool) : Prop :=
  (privileges = true → dirEntry pg virtual_addr &&& US_BIT ≠ 0) ∧
    (write = true → dirEntry pg virtual_addr &&& RW_BIT ≠ 0)

section RightsTaken

variable {pg : Paging} {phys_addr virtual_addr : UInt32} {privileges write : Bool}

/-- A large page has just the rights that were asked for. -/
theorem rightsTaken_large :
    RightsTaken pg (withLarge pg phys_addr virtual_addr privileges write) virtual_addr true privileges write where
  mapped virt_addr hsame := by
    have hframe := small_frame_aligned phys_addr
    have hflags := large_rights_lt privileges write
    obtain ⟨-, -, huser, hwrite⟩ := large_rights_bits privileges write
    rw [walk_withLarge, if_pos (samePage_large.mp hsame)]
    refine ⟨by simp, ?_, ?_⟩
    · rw [Walk.grants, add_flags_bit hframe hflags (by decide), huser]
    · rw [Walk.grants, add_flags_bit hframe hflags (by decide), hwrite]
  others virt_addr hother bit hgrants := by
    rwa [walk_withLarge, if_neg (mt samePage_large.mpr hother)] at hgrants

/-- So has a small page in a new table, since its directory entry gets the same rights. -/
theorem rightsTaken_new_table (hwf : WellFormed pg) :
    RightsTaken pg (withNewTable pg phys_addr virtual_addr privileges write) virtual_addr false privileges write where
  mapped virt_addr hsame := by
    have hframe := small_frame_aligned phys_addr
    have hflags := rights_lt privileges write
    obtain ⟨-, -, huser, hwrite⟩ := rights_bits privileges write
    rw [walk_withNewTable hwf, if_pos (samePage_small.mp hsame)]
    refine ⟨by simp, ?_, ?_⟩
    · rw [Walk.grants, add_flags_bit table_frame hflags (by decide), add_flags_bit hframe hflags (by decide),
        Bool.decide_and, Bool.and_self, huser]
    · rw [Walk.grants, add_flags_bit table_frame hflags (by decide), add_flags_bit hframe hflags (by decide),
        Bool.decide_and, Bool.and_self, hwrite]
  others virt_addr hother bit hgrants := by
    rw [walk_withNewTable hwf, if_neg (mt samePage_small.mpr hother)] at hgrants
    split at hgrants
    · exact absurd hgrants (by simp [Walk.grants])
    · exact hgrants

/-- In a table that is there a small page has the rights only if the directory entry grants them,
    as `map_page` does not change that entry. -/
theorem rightsTaken_old_table (hwf : WellFormed pg) (hpresent : dirEntry pg virtual_addr &&& PRESENT_BIT ≠ 0)
    (hsmall : dirEntry pg virtual_addr &&& PAGE_SIZE_BIT = 0) :
    RightsTaken pg (withOldTable pg phys_addr virtual_addr privileges write) virtual_addr false privileges write ↔
      Granted pg virtual_addr privileges write := by
  have hframe := small_frame_aligned phys_addr
  have hflags := rights_lt privileges write
  obtain ⟨-, -, huser, hwrite⟩ := rights_bits privileges write
  have hentry {virt_addr : UInt32} (hsame : SamePage false virtual_addr virt_addr) {bit : UInt32}
      (hbit : LAST_12_BITS &&& bit = bit) :
      (walk (withOldTable pg phys_addr virtual_addr privileges write) virt_addr).grants bit =
        (decide (dirEntry pg virtual_addr &&& bit ≠ 0) && decide (rights privileges write &&& bit ≠ 0)) := by
    rw [walk_withOldTable hwf hpresent hsmall, if_pos (samePage_small.mp hsame), Walk.grants,
      add_flags_bit hframe hflags hbit, Bool.decide_and]
  constructor
  · intro htaken
    obtain ⟨-, hus, hrw⟩ := htaken.mapped virtual_addr rfl
    rw [hentry rfl (by decide), huser] at hus
    rw [hentry rfl (by decide), hwrite] at hrw
    constructor
    · rintro rfl
      simpa using hus
    · rintro rfl
      simpa using hrw
  · rintro ⟨hus, hrw⟩
    refine ⟨fun virt_addr hsame => ⟨?_, ?_, ?_⟩, fun virt_addr hother bit hgrants => ?_⟩
    · rw [walk_withOldTable hwf hpresent hsmall, if_pos (samePage_small.mp hsame)]
      simp
    · rw [hentry hsame (by decide), huser]
      cases privileges with
      | false => rw [Bool.and_false]
      | true => rw [Bool.and_true, decide_eq_true (hus rfl)]
    · rw [hentry hsame (by decide), hwrite]
      cases write with
      | false => rw [Bool.and_false]
      | true => rw [Bool.and_true, decide_eq_true (hrw rfl)]
    · rwa [walk_withOldTable hwf hpresent hsmall, if_neg (mt samePage_small.mpr hother)] at hgrants

end RightsTaken

/-- The rights that a successful `map_page` asks for take effect, unless the page goes into a
    table that is there: then its directory entry must grant them already. Neither address need be
    aligned, and the page may be of either size. -/
theorem rights_taken_iff {pg : Paging} (hwf : WellFormed pg) (phys_addr virtual_addr : UInt32)
    (page_size privileges write remap : Bool)
    (hok : (map_page pg phys_addr virtual_addr page_size privileges write remap).1 = 0) :
    RightsTaken pg (map_page pg phys_addr virtual_addr page_size privileges write remap).2 virtual_addr page_size
        privileges write ↔
      (remap = true ∨ dirEntry pg virtual_addr &&& PRESENT_BIT = 0 ∨ Granted pg virtual_addr privileges write) := by
  have hfail : ¬ (-1 : Int) = 0 := by decide
  by_cases hnull : phys_addr = NULL ∨ virtual_addr = NULL
  · rw [map_page_null hnull] at hok
    exact absurd hok hfail
  · obtain ⟨hphys, hvirtual⟩ := not_or.mp hnull
    obtain ⟨-, -, hmap⟩ | ⟨hnew, rfl, hmap⟩ | ⟨hnew, rfl, hmap⟩ | ⟨hpresent, rfl, rfl, hfree, hmap⟩ :=
      map_page_cases pg privileges write page_size remap hphys hvirtual
    · rw [hmap] at hok
      exact absurd hok hfail
    · rw [hmap]
      exact iff_of_true rightsTaken_large (hnew.elim (fun h => .inr (.inl h)) .inl)
    · rw [hmap]
      exact iff_of_true (rightsTaken_new_table hwf) (hnew.elim (fun h => .inr (.inl h)) .inl)
    · obtain ⟨-, hsmall, -⟩ := hfree.resolve_left hpresent
      rw [hmap, rightsTaken_old_table hwf hpresent hsmall]
      simp [hpresent]

/-- A user page in the table of the video pages stays closed to the user. -/
theorem rights_lost_low_page :
    (map_page (paging_init blankMachine.toPaging) 0x2000000 0x1000 false true true false).1 = 0 ∧
    ¬ RightsTaken (paging_init blankMachine.toPaging)
      (map_page (paging_init blankMachine.toPaging) 0x2000000 0x1000 false true true false).2 0x1000 false true
        true := by
  have hwalk : (map_page (paging_init blankMachine.toPaging) 0x2000000 0x1000 false true true false).1 = 0 ∧
      (walk (map_page (paging_init blankMachine.toPaging) 0x2000000 0x1000 false true true false).2 0x1000).grants
        US_BIT = false := by
    decide +kernel
  refine ⟨hwalk.1, fun htaken => ?_⟩
  have huser := (htaken.mapped 0x1000 rfl).2.1
  rw [hwalk.2] at huser
  exact absurd huser (by decide)

/-- A second user page next to the one at `VIDMAP_VIRT_ADDR`. -/
theorem rights_taken_iff_vidmap :
    (map_page (paging_init blankMachine.toPaging) 0x2000000 0x8801000 false true true false).1 = 0 ∧
    RightsTaken (paging_init blankMachine.toPaging)
      (map_page (paging_init blankMachine.toPaging) 0x2000000 0x8801000 false true true false).2 0x8801000 false true
      true := by
  have hok : (map_page (paging_init blankMachine.toPaging) 0x2000000 0x8801000 false true true false).1 = 0 := by
    decide +kernel
  have hgranted : Granted (paging_init blankMachine.toPaging) 0x8801000 true true := by
    rw [Granted]
    decide +kernel
  have hwf := wellFormed_paging_init blankMachine.toPaging
  exact ⟨hok, (rights_taken_iff hwf 0x2000000 0x8801000 false true true false hok).mpr (.inr (.inr hgranted))⟩

end lacos.paging
