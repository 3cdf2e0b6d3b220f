import LacOS.User.Files

open memory program stream lacos.lib lacos.file_system lacos.pcb lacos.syscalls

namespace lacos.user.cat

/-- What the loop of `main` does with the bytes of a read. -/
def copy (buf : UInt32) (cnt : Int) : Prog Task (Unit ⊕ Int) := do
  let value ← ece391_write 1 (← memory) buf cnt
  if value = -1 then pure (.inr 3) else pure (.inl ())

/-- `main` of `cat`, with its array at `buf`. -/
def main (fs : Image) (buf : UInt32) (fuel : Nat) : Prog Task Int :=
  withArgument buf "could not read arguments\n".toList do
    withFile fs (← memory) buf "file not found\n".toList fun fd =>
      readLoop fs buf 1024 "file read failed\n".toList (copy buf) fd fuel

/-- One turn of the loop writes what has been read, and nothing else. Any buffer that is not NULL
    will do. -/
theorem copy_handles {buf : UInt32} (hbuf : buf ≠ NULL) {idx : Fin MAX_DESC} {chunk : List UInt8}
    (hlength : chunk.length < 2 ^ 31) : Handles (fun _ => True) buf (copy buf) idx chunk chunk := by
  intro s hs _ hbytes
  refine wp_bind (wp_memory (wp_bind (wp_mono (write_spec hs hbuf hlength) ?_)))
  rintro value s' ⟨rfl, -, htasks, hwrote⟩
  rw [hbytes] at hwrote
  have hsuccess : ¬ (chunk.length : Int) = -1 := by omega
  rw [if_neg hsuccess]
  exact wp_pure ⟨rfl, hs.of_tasks htasks, trivial, hwrote, .of_tasks htasks⟩

/-- What `cat` does with its argument. It prints what can be read of the file that the argument
    names, all of it and nothing else, and ends with status 0; without an argument, or if there is
    no such file, it says so and ends with another status. Nothing is assumed of the other
    entries, nor of what the memory of the program holds. -/
theorem main_prints_file (fs : Image) (k₀ k : Kernel) (command : CString) (locals : Locals) (entry : UInt32)
    (word arg : List UInt8) (hline : CommandLine command word arg)
    (hexecute : sys_execute fs k₀ command locals = some (.entered entry, k)) (hplain : PlainName arg)
    (hwf : ∀ dentry, fs.Leads arg dentry → dentry.file_type = 2 → fs.WellFormed dentry.inode_num)
    (m : Mem) (buf : UInt32) (hbuf : buf ≠ NULL) :
    (arg = [] → Ends (main fs buf) ⟨k, m⟩ 3 (chars "could not read arguments\n".toList)) ∧
    (arg ≠ [] → (¬ ∃ dentry, fs.Leads arg dentry) →
      Ends (main fs buf) ⟨k, m⟩ 2 (chars "file not found\n".toList)) ∧
    (arg ≠ [] → ∀ dentry, fs.Leads arg dentry → Ends (main fs buf) ⟨k, m⟩ 0 (fs.text dentry)) := by
  have hstarted := started_of_execute hline hexecute
  refine ⟨fun harg => ⟨0, fun fuel _ => ?_⟩, fun harg hnone => ⟨0, fun fuel _ => ?_⟩, fun harg dentry hleads => ?_⟩
  · exact withArgument_none hbuf (harg ▸ hstarted) (by decide) (by decide)
  · refine withArgument_some hbuf hstarted harg fun t (hk : t.kernel = k) htext => wp_bind (wp_memory ?_)
    rw [← hk]
    exact withFile_none (hk ▸ hstarted) htext hstarted.nonzero hplain hnone (by decide) (by decide)
  · obtain ⟨i, hfirst, rfl, htype⟩ := hleads
    refine ⟨(fs.chunks 1024 (fs.dentry (UInt32.ofNat i))).length, fun fuel hfuel => ?_⟩
    refine withArgument_some hbuf hstarted harg fun t (hk : t.kernel = k) htext => wp_bind (wp_memory ?_)
    rw [← hk]
    refine withFile_some (hk ▸ hstarted) htext hstarted.nonzero hplain hfirst htype
      fun idx t' _ ht' _ hopened => ?_
    have hyields : Yields fs idx 1024 (fs.chunks 1024 (fs.dentry (UInt32.ofNat i))) t'.kernel :=
      hopened.yields (hwf _ ⟨i, hfirst, rfl, htype⟩) (by decide) (by decide)
    have hhandles : List.Forall₂ (Handles (fun _ => True) buf (copy buf) idx)
        (fs.chunks 1024 (fs.dentry (UInt32.ofNat i))) (fs.chunks 1024 (fs.dentry (UInt32.ofNat i))) :=
      List.forall₂_same.mpr fun chunk hchunk =>
        copy_handles hbuf (Nat.lt_of_le_of_lt (chunks_length_le _ _ _ hchunk) (by decide))
    rw [← fs.chunks_flatten (show 1024 ≠ 0 by decide)]
    exact readLoop_spec hbuf _ (fun _ _ _ _ _ => trivial) hhandles ht' trivial hyields hfuel

/-- The command `a a`. -/
def selfCommand : CString := ⟨[97, 0x20, 97], by decide⟩

theorem main_prints_file_itself :
    ∃ k, sys_execute (oneEntry 2 30) starting selfCommand ⟨fun _ => 0, fun _ => 0⟩ = some (.entered 0, k) ∧
      Ends (main (oneEntry 2 30) 100) ⟨k, fun _ => 0⟩ 0 ((oneEntry 2 30).contents 0) := by
  have hline : CommandLine selfCommand [97] [97] :=
    ⟨⟨0, 1, rfl, by decide⟩, by decide, by decide, by decide, by decide, by decide⟩
  have hverdict : verdict (oneEntry 2 30) starting selfCommand ⟨fun _ => 0, fun _ => 0⟩ = some (.entered 0) := by
    decide +kernel
  have hfirst : (oneEntry 2 30).First [97] 0 := ⟨by decide, by decide, fun j hj => absurd hj (Nat.not_lt_zero j)⟩
  have hwf : (oneEntry 2 30).WellFormed 0 := by
    refine ⟨by decide, by decide, fun pos hpos => ?_⟩
    have hlength : ((oneEntry 2 30).file_length 0).toNat = 30 := by decide
    rw [Image.Readable, Nat.div_eq_of_lt (by omega)]
    decide
  obtain ⟨k, hexecute⟩ := verdict_eq_some.mp hverdict
  refine ⟨k, hexecute, ?_⟩
  refine (main_prints_file _ _ _ _ _ _ _ _ hline hexecute (by decide) ?_ _ _ (by decide)).2.2 (by decide) _
    ⟨0, hfirst, rfl, by decide⟩
  rintro dentry ⟨i, hfirst', rfl, -⟩ -
  obtain rfl := hfirst.unique hfirst'
  exact hwf

end lacos.user.cat
