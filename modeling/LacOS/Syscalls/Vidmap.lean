import LacOS.Syscalls.Execute

open memory lacos.paging

namespace lacos.syscalls

/-- Store a word in the page at `PROGRAM_VIRT`. -/
def storeWord (k : Kernel) (addr word : UInt32) : Kernel :=
  let page := resolve_virt_addr k.toPaging PROGRAM_VIRT
  { k with pages := Function.update k.pages page (fillWith (k.pages page) addr (wordByte word) 4) }

def sys_vidmap (k : Kernel) (screen_start : UInt32) : Int × Kernel :=
  if screen_start < PROGRAM_VIRT ∨ screen_start > PROGRAM_VIRT + FOUR_MB then (-1, k)
  else (VIDMAP_VIRT_ADDR.toNat, storeWord k screen_start VIDMAP_VIRT_ADDR)

/-- The pointers that `sys_vidmap` stores through. -/
theorem sys_vidmap_accepts_iff (k : Kernel) (screen_start : UInt32) :
    (sys_vidmap k screen_start).1 ≠ -1 ↔
      PROGRAM_VIRT.toNat ≤ screen_start.toNat ∧ screen_start.toNat ≤ PROGRAM_VIRT.toNat + FOUR_MB.toNat := by
  have hend : (PROGRAM_VIRT + FOUR_MB).toNat = PROGRAM_VIRT.toNat + FOUR_MB.toNat := by decide
  have hvalue : ((VIDMAP_VIRT_ADDR.toNat : Nat) : Int) ≠ -1 := by decide
  have hout : (screen_start < PROGRAM_VIRT ∨ screen_start > PROGRAM_VIRT + FOUR_MB) ↔
      ¬ (PROGRAM_VIRT.toNat ≤ screen_start.toNat ∧ screen_start.toNat ≤ PROGRAM_VIRT.toNat + FOUR_MB.toNat) := by
    rw [UInt32.lt_iff_toNat_lt, gt_iff_lt, UInt32.lt_iff_toNat_lt, hend]
    omega
  rw [sys_vidmap]
  split
  · rename_i hrefused
    exact iff_of_false (fun h => h rfl) (hout.mp hrefused)
  · rename_i haccepted
    exact iff_of_true hvalue (not_not.mp (mt hout.mpr haccepted))

end lacos.syscalls
