import LacOS.FileSystem.Directory

open memory lacos.lib

namespace lacos.file_system

/-- Entry `i` is the first one with the name. -/
structure Image.First (fs : Image) (name : List UInt8) (i : Nat) : Prop where
  lt : i < fs.numEntries
  name_eq : fs.name (UInt32.ofNat i) = name
  least : ∀ j < i, fs.name (UInt32.ofNat j) ≠ name

/-- There is one first entry of a name. -/
theorem Image.First.unique {fs : Image} {name : List UInt8} {i j : Nat} (hi : fs.First name i)
    (hj : fs.First name j) : i = j := by
  apply Nat.le_antisymm
  · exact Nat.not_lt.mp fun hlt => hi.least j hlt hj.name_eq
  · exact Nat.not_lt.mp fun hlt => hj.least i hlt hi.name_eq

section Lookup

variable {fs : Image} {m : Mem} {fname : UInt32} {name : List UInt8} (htext : IsText m fname name)
  (hname : 0 ∉ name)

include htext hname

variable (fs) in
/-- Both ways `read_dentry_by_name` can end, with what its caller sees of it. -/
theorem read_dentry_by_name_cases (d : Mem) (dentry : UInt32) :
    (∃ i, fs.First name i ∧
      read_dentry_by_name fs m fname d dentry = (SUCCESS, fs.copied (UInt32.ofNat i) d dentry) ∧
      fs.namedDentry m fname = some (fs.dentry (UInt32.ofNat i))) ∨
    (∀ i < fs.numEntries, fs.name (UInt32.ofNat i) ≠ name) ∧
      read_dentry_by_name fs m fname d dentry = (FAILURE, d) ∧ fs.namedDentry m fname = none := by
  have hstrlen := htext.strlen_toNat hname
  by_cases hlong : name.length > FILENAME_LEN
  · -- No entry has a name as long as that.
    right
    refine ⟨fun i _ heq => ?_, ?_, ?_⟩
    · have hle := fs.name_length_le (UInt32.ofNat i)
      rw [heq] at hle
      exact absurd hle (Nat.not_le.mpr hlong)
    · rw [read_dentry_by_name, if_pos (hstrlen.symm ▸ hlong)]
    · rw [namedDentry_eq, if_pos (hstrlen.symm ▸ hlong)]
  · have hsame : nstring m FILENAME_LEN fname = name := nstring_of_isText htext (Nat.not_lt.mp hlong) hname
    have hcopy : read_dentry_by_name fs m fname d dentry =
        search (fun i => fs.name i = name) (fun i => (SUCCESS, fs.copied i d dentry)) (FAILURE, d)
          fs.numEntries 0 := by
      rw [read_dentry_by_name, if_neg (hstrlen.symm ▸ hlong), read_dentry_loop_eq_search, hsame,
        Image.numEntries]
    have hnamed : fs.namedDentry m fname =
        search (fun i => fs.name i = name) (fun i => some (fs.dentry i)) none fs.numEntries 0 := by
      rw [namedDentry_eq, if_neg (hstrlen.symm ▸ hlong), hsame]
    rw [hcopy, hnamed, ← search_index, ← search_index (fun i => some (fs.dentry i))]
    rcases search_cases (fun i => fs.name i = name) some none fs.numEntries with
      ⟨i, hlt, hfound, hbefore, hsearch⟩ | ⟨hnone, hsearch⟩
    · rw [hsearch]
      exact .inl ⟨i, ⟨hlt, hfound, hbefore⟩, rfl, rfl⟩
    · rw [hsearch]
      exact .inr ⟨hnone, rfl, rfl⟩

/-- A name leads to its first entry. -/
theorem namedDentry_of_first {i : Nat} (hfirst : fs.First name i) :
    fs.namedDentry m fname = some (fs.dentry (UInt32.ofNat i)) := by
  obtain ⟨j, hfirst', -, hread⟩ | ⟨hnone, -⟩ := read_dentry_by_name_cases fs htext hname (fun _ => 0) 0
  · rw [hread, hfirst.unique hfirst']
  · exact absurd hfirst.name_eq (hnone i hfirst.lt)

end Lookup

/-- Lookup by name is exact. It succeeds if and only if the name has no more than 32 characters
    and is the whole name of an entry; then the caller gets all of the first such entry, and
    otherwise the caller's entry is as it was. Nothing is assumed of the image: names may occur
    twice, and need not be padded. -/
theorem read_dentry_by_name_exact (fs : Image) (m : Mem) (fname : UInt32) (name : List UInt8) (d : Mem)
    (dentry : UInt32) (htext : IsText m fname name) (hname : 0 ∉ name) :
    ((read_dentry_by_name fs m fname d dentry).1 = SUCCESS ↔
      name.length ≤ FILENAME_LEN ∧ ∃ i < fs.numEntries, fs.name (UInt32.ofNat i) = name) ∧
    (∀ i < fs.numEntries, fs.name (UInt32.ofNat i) = name → (∀ j < i, fs.name (UInt32.ofNat j) ≠ name) →
      read_dentry_by_name fs m fname d dentry = (SUCCESS, fs.copied (UInt32.ofNat i) d dentry)) ∧
    ((read_dentry_by_name fs m fname d dentry).1 ≠ SUCCESS →
      read_dentry_by_name fs m fname d dentry = (FAILURE, d)) := by
  rcases read_dentry_by_name_cases fs htext hname d dentry with ⟨i, hfirst, hcopy, -⟩ | ⟨hnone, hcopy, -⟩
  · rw [hcopy]
    refine ⟨iff_of_true rfl ⟨?_, i, hfirst.lt, hfirst.name_eq⟩, fun j hj heq hleast => ?_,
      fun hfail => absurd rfl hfail⟩
    · rw [← hfirst.name_eq]
      exact fs.name_length_le _
    · rw [hfirst.unique ⟨hj, heq, hleast⟩]
  · rw [hcopy]
    refine ⟨iff_of_false (show FAILURE ≠ SUCCESS by decide) ?_, fun i hi heq _ => absurd heq (hnone i hi),
      fun _ => rfl⟩
    rintro ⟨-, i, hi, heq⟩
    exact hnone i hi heq

/-- A directory of two entries and an image of three inodes: the first entry has the longest
    name there can be, the second a beginning of it. -/
def twoNames : Image where
  bytes a :=
    if a = 0 then 2 else if a = 4 then 3 else if 64 ≤ a ∧ a < 96 then 97 else if a = 128 then 97 else 0

theorem read_dentry_by_name_exact_two_names :
    read_dentry_by_name twoNames (literal ['a']) 0 (fun _ => 7) 100 =
      (SUCCESS, twoNames.copied (UInt32.ofNat 1) (fun _ => 7) 100) := by
  have htext : IsText (literal ['a']) 0 [97] := by
    rw [IsText]
    decide
  obtain ⟨-, hfirst, -⟩ := read_dentry_by_name_exact twoNames (literal ['a']) 0 [97] (fun _ => 7) 100 htext
    (by decide)
  exact hfirst 1 (by decide +kernel) (by decide +kernel) (by decide +kernel)

/-- An index is compared with the number of inodes, and not with that of the entries. -/
theorem read_dentry_by_index_eq (fs : Image) (index : UInt32) (d : Mem) (dentry : UInt32) :
    read_dentry_by_index fs index d dentry =
      if index < fs.num_inodes then (SUCCESS, fs.copied index d dentry) else (FAILURE, d) := by
  have hword : fs.word 1 = fs.num_inodes := rfl
  simp only [read_dentry_by_index, memcpy_from_dentry, hword]
  by_cases hi : index < fs.num_inodes
  · rw [if_neg (UInt32.not_le.mpr hi), if_pos hi]
  · rw [if_pos (UInt32.not_lt.mp hi), if_neg hi]

/-- The two ways to look an entry up cover the same directory at an index: there is an entry
    by index exactly where the directory has one, and looking its name up gives the entry by
    index of the first one with that name. -/
structure LookupsAgree (fs : Image) (index : UInt32) : Prop where
  by_index : ∀ d dentry, read_dentry_by_index fs index d dentry =
    if index < fs.word 0 then (SUCCESS, fs.copied index d dentry) else (FAILURE, d)
  by_name : index < fs.word 0 → ∀ m fname, IsText m fname (fs.name index) →
    ∃ first, fs.First (fs.name index) first ∧ ∀ d dentry,
      read_dentry_by_name fs m fname d dentry = read_dentry_by_index fs (UInt32.ofNat first) d dentry

/-- `read_dentry_by_index` compares with the number of inodes, so the lookups agree exactly at the
    indices that are below both that and the number of entries, or below neither. The names in the
    directory do not matter for that. -/
theorem lookups_agree_iff (fs : Image) (index : UInt32) :
    LookupsAgree fs index ↔ (index < fs.word 0 ↔ index < fs.num_inodes) := by
  constructor
  · intro hagree
    have hboth := (read_dentry_by_index_eq fs index (fun _ => 0) 0).symm.trans (hagree.by_index (fun _ => 0) 0)
    by_cases hinode : index < fs.num_inodes <;> by_cases hentry : index < fs.word 0
    · exact iff_of_true hentry hinode
    · rw [if_pos hinode, if_neg hentry] at hboth
      exact absurd (Prod.mk.inj hboth).1 (by decide)
    · rw [if_neg hinode, if_pos hentry] at hboth
      exact absurd (Prod.mk.inj hboth).1 (by decide)
    · exact iff_of_false hentry hinode
  · intro hsame
    refine ⟨fun d dentry => ?_, fun hentry m fname htext => ?_⟩
    · rw [read_dentry_by_index_eq]
      simp only [hsame]
    · have hlt : index.toNat < fs.numEntries := UInt32.lt_iff_toNat_lt.mp hentry
      obtain ⟨i, hfirst, -, hread⟩ | ⟨hnone, -⟩ :=
        read_dentry_by_name_cases fs htext (fs.zero_notMem_name index) (fun _ => 0) 0
      · have hle : i ≤ index.toNat := by
          by_contra hgt
          exact hfirst.least index.toNat (Nat.not_le.mp hgt) (by rw [UInt32.ofNat_toNat])
        have hinode : UInt32.ofNat i < fs.num_inodes := by
          have hbound := UInt32.lt_iff_toNat_lt.mp (hsame.mp hentry)
          rw [UInt32.lt_iff_toNat_lt, UInt32.toNat_ofNat']
          exact Nat.lt_of_le_of_lt (Nat.mod_le _ _) (Nat.lt_of_le_of_lt hle hbound)
        refine ⟨i, hfirst, fun d dentry => ?_⟩
        rw [read_dentry_by_index_eq, if_pos hinode]
        obtain ⟨j, hfirst', hcopy, -⟩ | ⟨hnone, -⟩ :=
          read_dentry_by_name_cases fs htext (fs.zero_notMem_name index) d dentry
        · rw [hcopy, hfirst.unique hfirst']
        · exact absurd (by rw [UInt32.ofNat_toNat]) (hnone index.toNat hlt)
      · exact absurd (by rw [UInt32.ofNat_toNat]) (hnone index.toNat hlt)

/-- There is no third entry in the directory, but one by index. -/
theorem entry_beyond_directory :
    twoNames.numEntries = 2 ∧ (read_dentry_by_index twoNames 2 (fun _ => 7) 100).1 = SUCCESS ∧
      ¬ LookupsAgree twoNames 2 := by
  have hentries : twoNames.numEntries = 2 := by decide +kernel
  have hfound : (read_dentry_by_index twoNames 2 (fun _ => 7) 100).1 = SUCCESS := by decide +kernel
  refine ⟨hentries, hfound, fun hagree => ?_⟩
  have hend : ¬ 2 < twoNames.word 0 := by decide +kernel
  rw [hagree.by_index, if_neg hend] at hfound
  exact absurd hfound (by decide)

end lacos.file_system
