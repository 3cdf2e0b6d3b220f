import Mathlib.Data.List.TakeWhile
import LacOS.User.Files

open memory program stream lacos.lib lacos.file_system lacos.pcb lacos.syscalls

namespace lacos.user.ls

/-- What the loop of `main` does with the bytes of a read. -/
def putLine (buf : UInt32) (cnt : Int) : Prog Task (Unit ⊕ Int) := do
  assign (buf + UInt32.ofInt cnt) '\n'.toUInt8
  let value ← ece391_write 1 (← memory) buf (cnt + 1)
  if value = -1 then pure (.inr 3) else pure (.inl ())

/-- `main` of `ls`, with its array at `buf`. -/
def main (fs : Image) (buf : UInt32) (fuel : Nat) : Prog Task Int :=
  withFile fs (constant ['.']) CONSTANT "directory open failed\n".toList fun fd =>
    readLoop fs buf 32 "directory entry read failed\n".toList (putLine buf) fd fuel

/-- A text on a line of its own. -/
def line (text : List UInt8) : List UInt8 := text ++ chars ['\n']

section PutLine

variable {buf : UInt32} {idx : Fin MAX_DESC} {chunk : List UInt8}

/-- The newline is stored right behind the name. -/
theorem bytesAt_line {m : Mem} (hlength : chunk.length + 1 < 2 ^ 31) (hbytes : bytesAt m buf chunk.length = chunk) :
    bytesAt (store m (buf + UInt32.ofInt (chunk.length : Int)) '\n'.toUInt8) buf (chunk.length + 1) = line chunk := by
  have hindex := ofInt_natCast (show chunk.length < 2 ^ 32 by omega)
  have hbelow : (List.range chunk.length).map (fun j => store m (buf + UInt32.ofNat chunk.length) '\n'.toUInt8
      (buf + UInt32.ofNat j)) = bytesAt m buf chunk.length := by
    apply List.map_congr_left
    intro j hj
    rw [List.mem_range] at hj
    rw [store_offset _ _ _ (by omega) (by omega), if_neg (Nat.ne_of_lt hj)]
  rw [hindex, bytesAt, List.range_succ, List.map_append, hbelow, hbytes, List.map_singleton,
    store_offset _ _ _ (by omega) (by omega), if_pos rfl]
  rfl

/-- One turn of the loop prints one name with its newline, and nothing else. -/
theorem putLine_handles (hbuf : buf ≠ NULL) (hlength : chunk.length + 1 < 2 ^ 31) :
    Handles (fun _ => True) buf (putLine buf) idx chunk (line chunk) := by
  intro s hs _ hbytes
  let marked : Task := ⟨s.kernel, store s.mem (buf + UInt32.ofInt (chunk.length : Int)) '\n'.toUInt8⟩
  have hwrite := @write_spec marked hs marked.mem buf hbuf (chunk.length + 1) hlength
  refine wp_bind ⟨(), marked, rfl, wp_bind (wp_memory (wp_bind (wp_mono hwrite ?_)))⟩
  rintro value s' ⟨rfl, -, htasks, hwrote⟩
  rw [bytesAt_line hlength hbytes] at hwrote
  have hsuccess : ¬ ((chunk.length + 1 : Nat) : Int) = -1 := by omega
  rw [if_neg hsuccess]
  exact wp_pure ⟨rfl, hs.of_tasks htasks, trivial, hwrote, .of_tasks htasks⟩

end PutLine

/-- Every entry has a name, and it ends in a zero byte unless it fills its place. -/
def Named (fs : Image) : Prop :=
  ∀ n < fs.numEntries, fs.name (UInt32.ofNat n) ≠ [] ∧
    (fs.lastByte (UInt32.ofNat n) = 0 ∨ (fs.name (UInt32.ofNat n)).length = FILENAME_LEN)

/-- The directory of an image with names is listed name by name. -/
theorem listedFrom_of_named {fs : Image} (hnamed : Named fs) :
    fs.listedFrom 0 = (List.range fs.numEntries).map fun n => fs.name (UInt32.ofNat n) := by
  have hlisted (n : Nat) (hn : n < fs.numEntries) : fs.listed n = fs.name (UInt32.ofNat n) := by
    have hcount : fs.nameCount (UInt32.ofNat n) = (fs.name (UInt32.ofNat n)).length := by
      rw [fs.nameCount_eq, if_pos (hnamed n hn).2]
    rw [Image.listed, Image.listing, if_pos hn, hcount]
    apply List.ext_getElem
    · rw [List.length_map, List.length_range]
    · intro j hj hj'
      simp only [List.getElem_map, List.getElem_range]
      rw [List.getD_eq_getElem _ _ hj']
  have hmap : (List.range fs.numEntries).map fs.listed =
      (List.range fs.numEntries).map fun n => fs.name (UInt32.ofNat n) :=
    List.map_congr_left fun n hn => hlisted n (List.mem_range.mp hn)
  rw [Image.listedFrom, Nat.sub_zero, ← List.range_eq_range', hmap, List.takeWhile_eq_self_iff]
  intro name hname
  obtain ⟨n, hn, rfl⟩ := List.mem_map.mp hname
  simpa using (hnamed n (List.mem_range.mp hn)).1

/-- An image with a directory of two entries, itself and an executable `a`. -/
def dotAndProgram : Image where
  bytes a :=
    if a = 0 then 2 else if a = 4 ∨ a = 8 then 1 else if a = 64 then 46 else if a = 96 then 1
    else if a = 128 then 97 else if a = 160 then 2 else if a = 4096 then 30 else magic (a - 8192)

end lacos.user.ls
