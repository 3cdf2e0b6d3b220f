import LacOS.Base.Stream
import LacOS.FileSystem.ReadData.Spec
import LacOS.Syscalls.Files

open memory lacos.lib lacos.file_system stream

namespace lacos.file_system

/-- The bytes of a file. -/
def Image.contents (fs : Image) (inode : UInt32) : List UInt8 :=
  (List.range (fs.file_length inode).toNat).map (fs.fileByte inode)

@[simp] theorem Image.contents_length (fs : Image) (inode : UInt32) :
    (fs.contents inode).length = (fs.file_length inode).toNat := by
  rw [Image.contents, List.length_map, List.length_range]

/-- An open regular file as a stream. -/
def Image.stream (fs : Image) (desc : fdesc_t) : Stream UInt8 where
  data := fs.contents desc.inode
  pos := desc.file_pos.toNat

/-- How much a read of a file delivers. -/
def Image.readCount (fs : Image) (desc : fdesc_t) (nbytes : Int32) : Nat :=
  min nbytes.toNatClampNeg ((fs.file_length desc.inode).toNat - desc.file_pos.toNat)

section ReadFile

variable {fs : Image} {k : Kernel} {fd : Fin MAX_DESC} {desc : fdesc_t} {nbytes : Int32}
  (hdesc : k.desc k.cur_pcb fd = desc) (hwf : fs.WellFormed desc.inode) (hnbytes : 0 ≤ nbytes)
include hdesc hwf hnbytes

/-- `fsys_read_file` delivers what is asked for or what is left of the file, and
    moves the position behind it. -/
theorem fsys_read_file_eq (m : Mem) (buf : UInt32) :
    fsys_read_file fs k fd m buf nbytes =
      ((fs.readCount desc nbytes : Int),
        fillWith m buf (fun i => fs.fileByte desc.inode (desc.file_pos.toNat + i)) (fs.readCount desc nbytes),
        k.setDesc k.cur_pcb fd
          { desc with file_pos := desc.file_pos + UInt32.ofNat (fs.readCount desc nbytes) }) := by
  have hlen := hwf.length
  have hsize : nbytes.toUInt32.toNat = nbytes.toNatClampNeg := Int32.toNat_toUInt32_of_le hnbytes
  have hlt := nbytes.toNatClampNeg_lt
  have hword : fs.word ((desc.inode + 1) * BLK_SIZE_UINTS) = fs.file_length desc.inode := rfl
  have hsame : k.setDesc k.cur_pcb fd desc = k := by rw [← hdesc, Kernel.setDesc_self]
  simp only [fsys_read_file, hdesc, hword]
  by_cases hend : desc.file_pos ≥ fs.file_length desc.inode
  · have hcount : fs.readCount desc nbytes = 0 := by
      have hend' := UInt32.le_iff_toNat_le.mp hend
      rw [Image.readCount]
      omega
    rw [if_pos hend, hcount, fillWith_zero]
    simp [hsame]
  · have hbefore := UInt32.not_le.mp hend
    have hbefore' := UInt32.lt_iff_toNat_lt.mp hbefore
    obtain ⟨read, ⟨⟨hread, -⟩, hgreatest⟩, hdata⟩ := read_data_success fs desc.inode desc.file_pos nbytes.toUInt32 buf m
      (by omega) (readTotal_le _ hlen hbefore) hwf.valid hbefore (hwf.blocks _ hbefore')
    have htotal : readTotal fs desc.inode desc.file_pos nbytes.toUInt32 = fs.readCount desc nbytes := by
      rw [readTotal, hsize, Image.readCount]
    rw [htotal] at hread hgreatest
    have hcount : read = fs.readCount desc nbytes := by
      refine Nat.le_antisymm hread (hgreatest ⟨Nat.le_refl _, fun i hi => hwf.blocks _ ?_⟩)
      rw [Image.readCount] at hi
      omega
    rw [if_neg hend, hdata, hcount]
    by_cases hzero : fs.readCount desc nbytes = 0
    · simp [hzero, hsame]
    · have hpositive : ((fs.readCount desc nbytes : Nat) : Int) > 0 := by omega
      have hcast : UInt32.ofInt (fs.readCount desc nbytes : Int) = UInt32.ofNat (fs.readCount desc nbytes) := by
        rw [Image.readCount] at *
        rw [UInt32.ofInt]
        congr 1
        omega
      simp only [hpositive, if_true, hcast]

end ReadFile

/-- A read of the file as a stream takes the bytes from its position on. -/
theorem Image.stream_read (fs : Image) (desc : fdesc_t) (nbytes : Int32) :
    ((fs.stream desc).read nbytes.toNatClampNeg).1 = (List.range (fs.readCount desc nbytes)).map fun i =>
      fs.fileByte desc.inode (desc.file_pos.toNat + i) := by
  apply List.ext_getElem
  · simp [Stream.read, Stream.rest, Image.stream, Image.readCount]
  · intro i hi hi'
    simp [Stream.read, Stream.rest, Image.stream, Image.contents]

end lacos.file_system

namespace lacos.syscalls

/-- The arguments of a `sys_read`, besides the descriptor. -/
structure ReadCall where
  m : Mem
  buf : UInt32
  nbytes : Int32

/-- What a `sys_read` returned, and the bytes it put at the front of its buffer. -/
structure Delivery where
  value : Int
  bytes : List UInt8

def deliver (call : ReadCall) (value : Int) (m' : Mem) : Delivery where
  value := value
  bytes := (List.range value.toNat).map fun i => m' (call.buf + UInt32.ofNat i)

/-- A read that returned the number of the bytes it delivered. -/
def delivery (bytes : List UInt8) : Delivery := ⟨bytes.length, bytes⟩

/-- A sequence of `sys_read` calls on one descriptor. -/
def sysReads (fs : Image) (fd : Int32) : Kernel → List ReadCall → Option (List Delivery × Kernel)
  | k, [] => some ([], k)
  | k, call :: calls =>
    (sys_read fs k fd call.m call.buf call.nbytes).bind fun (value, m', k) =>
      (sysReads fs fd k calls).map fun (ds, k) => (deliver call value m' :: ds, k)

/-- The buffer is not NULL and the size not negative. -/
def ReadCall.Valid (call : ReadCall) : Prop := call.buf ≠ NULL ∧ 0 ≤ call.nbytes

def sizes (calls : List ReadCall) : List Nat := calls.map (·.nbytes.toNatClampNeg)

/-- A regular file is open at descriptor `i`, with a position inside the file. -/
structure OpenFile (fs : Image) (k : Kernel) (i : Fin MAX_DESC) (desc : fdesc_t) : Prop where
  desc_eq : k.desc k.cur_pcb i = desc
  regular : desc.file_ops = .regf_jt
  wellFormed : fs.WellFormed desc.inode
  pos : desc.file_pos ≤ fs.file_length desc.inode

section OpenFile

variable {fs : Image} {k : Kernel} {i : Fin MAX_DESC} {desc : fdesc_t} (hopen : OpenFile fs k i desc)
include hopen

/-- The descriptor moved to another position inside the file. -/
theorem OpenFile.seek {pos : UInt32} (hpos : pos ≤ fs.file_length desc.inode) :
    OpenFile fs (k.setDesc k.cur_pcb i { desc with file_pos := pos }) i { desc with file_pos := pos } where
  desc_eq := by rw [Kernel.setDesc_cur_pcb, Kernel.desc_setDesc_same]
  regular := hopen.regular
  wellFormed := hopen.wellFormed
  pos := hpos

/-- One `sys_read` reads from the file as from a stream. -/
theorem OpenFile.sys_read {fd : Int32} (hfd : descIndex fd = some i) {call : ReadCall} (hcall : call.Valid) :
    ∃ value m' pos,
      syscalls.sys_read fs k fd call.m call.buf call.nbytes =
        some (value, m', k.setDesc k.cur_pcb i { desc with file_pos := pos }) ∧
      deliver call value m' = delivery ((fs.stream desc).read call.nbytes.toNatClampNeg).1 ∧
      fs.stream { desc with file_pos := pos } = ((fs.stream desc).read call.nbytes.toNatClampNeg).2 ∧
      pos ≤ fs.file_length desc.inode := by
  obtain ⟨hbuf, hnbytes⟩ := hcall
  have hlen := hopen.wellFormed.length
  have hpos := UInt32.le_iff_toNat_le.mp hopen.pos
  have hcount : fs.readCount desc call.nbytes ≤ (fs.file_length desc.inode).toNat - desc.file_pos.toNat :=
    Nat.min_le_right _ _
  have hnext : (desc.file_pos + UInt32.ofNat (fs.readCount desc call.nbytes)).toNat =
      desc.file_pos.toNat + fs.readCount desc call.nbytes := by
    rw [UInt32.toNat_add, UInt32.toNat_ofNat']
    omega
  have hread := fsys_read_file_eq hopen.desc_eq hopen.wellFormed hnbytes call.m call.buf
  refine ⟨fs.readCount desc call.nbytes, fillWith call.m call.buf
    (fun j => fs.fileByte desc.inode (desc.file_pos.toNat + j)) (fs.readCount desc call.nbytes),
    desc.file_pos + UInt32.ofNat (fs.readCount desc call.nbytes), ?_, ?_, ?_, ?_⟩
  · have hvalid : ¬ (call.buf = NULL ∨ call.nbytes < 0) := by
      rw [not_or, Int32.not_lt]
      exact ⟨hbuf, hnbytes⟩
    have hop : (k.desc k.cur_pcb i).file_ops.readOp = some fun fs k fd m buf nbytes =>
        some (fsys_read_file fs k fd m buf nbytes) := by
      rw [hopen.desc_eq, hopen.regular, f_ops_table.readOp]
    simp only [syscalls.sys_read, hfd, if_neg hvalid, hop]
    exact congrArg some hread
  · rw [fs.stream_read desc call.nbytes, delivery, List.length_map, List.length_range, deliver, Int.toNat_natCast]
    congr 1
    apply List.map_congr_left
    intro j hj
    rw [List.mem_range] at hj
    exact fillWith_inside _ _ _ hj (by omega)
  · simp only [Image.stream, hnext, Stream.read, Stream.rest_length, Image.contents_length]
    rw [Image.readCount]
  · rw [UInt32.le_iff_toNat_le, hnext]
    omega

end OpenFile

/-- Reading a file in chunks reads it as a stream. -/
theorem sysReads_eq {fs : Image} {k : Kernel} {i : Fin MAX_DESC} {desc : fdesc_t} (hopen : OpenFile fs k i desc)
    {fd : Int32} (hfd : descIndex fd = some i) {calls : List ReadCall} (hcalls : ∀ call ∈ calls, call.Valid) :
    ∃ pos, sysReads fs fd k calls =
        some (((fs.stream desc).reads (sizes calls)).1.map delivery,
          k.setDesc k.cur_pcb i { desc with file_pos := pos }) ∧
      fs.stream { desc with file_pos := pos } = ((fs.stream desc).reads (sizes calls)).2 := by
  induction calls generalizing k desc with
  | nil =>
    refine ⟨desc.file_pos, ?_, rfl⟩
    have hsame : k.setDesc k.cur_pcb i desc = k := by rw [← hopen.desc_eq, Kernel.setDesc_self]
    simp [sysReads, sizes, Stream.reads, hsame]
  | cons call calls ih =>
    obtain ⟨value, m', pos, hread, hdeliver, hstream, hpos⟩ :=
      hopen.sys_read hfd (hcalls call (List.mem_cons_self ..))
    obtain ⟨last, hrest, hlast⟩ := ih (hopen.seek hpos) fun c hc => hcalls c (List.mem_cons_of_mem _ hc)
    refine ⟨last, ?_, ?_⟩
    · rw [sysReads, hread, Option.bind_some]
      simp only [hrest, Option.map_some, hdeliver, hstream, Kernel.setDesc_cur_pcb, Kernel.setDesc_setDesc]
      rfl
    · rw [hlast, hstream]
      rfl

/-- Reads of any sizes take the bytes one after the other, without a gap, up to their sum or the
    end. -/
theorem stream_reads_flatten (fs : Image) (desc : fdesc_t) (ns : List Nat) :
    ((fs.stream desc).reads ns).1.flatten = ((fs.contents desc.inode).take
      (min (desc.file_pos.toNat + ns.sum) (fs.file_length desc.inode).toNat)).drop desc.file_pos.toNat := by
  rw [Stream.reads_flatten, Stream.rest, List.take_drop, ← fs.contents_length, ← List.take_eq_take_min]
  rfl

/-- Chunked reading is lossless. Whatever the sizes, the calls deliver the bytes of the file from
    the position on, each as much as it asks for or what is left, and only the position changes.
    The calls need not use one buffer, sizes may be zero, and every other way to cut up the same
    number of bytes delivers the same ones. -/
theorem sys_read_chunks_lossless (fs : Image) (k : Kernel) (i : Fin MAX_DESC) (desc : fdesc_t)
    (hopen : OpenFile fs k i desc) (fd : Int32) (hfd : descIndex fd = some i) (calls : List ReadCall)
    (hcalls : ∀ call ∈ calls, call.Valid) :
    let pos := desc.file_pos.toNat
    let size := (fs.file_length desc.inode).toNat
    ∃ ds k', sysReads fs fd k calls = some (ds, k') ∧
      (ds.map (·.bytes)).flatten = ((fs.contents desc.inode).take (min (pos + (sizes calls).sum) size)).drop pos ∧
      (∀ j (hj : j < (sizes calls).length),
        ds[j]?.map (·.value) = some (min (sizes calls)[j] (size - (pos + ((sizes calls).take j).sum)) : Nat)) ∧
      (k'.desc k'.cur_pcb i).file_pos.toNat = min (pos + (sizes calls).sum) size ∧
      (∀ p j, (p, j) ≠ (k.cur_pcb, i) → k'.desc p j = k.desc p j) ∧
      ∀ calls' : List ReadCall, (∀ call ∈ calls', call.Valid) → (sizes calls').sum = (sizes calls).sum →
        ∃ ds' k'', sysReads fs fd k calls' = some (ds', k'') ∧
          (ds'.map (·.bytes)).flatten = (ds.map (·.bytes)).flatten := by
  intro pos size
  have hbytes (chunks : List (List UInt8)) : (chunks.map delivery).map (·.bytes) = chunks := by
    simp [delivery, Function.comp_def]
  have hrest : (fs.stream desc).rest.length = size - pos := by
    rw [Stream.rest_length]
    simp [Image.stream, size, pos]
  have hpos : pos ≤ size := UInt32.le_iff_toNat_le.mp hopen.pos
  obtain ⟨last, hreads, hlast⟩ := sysReads_eq hopen hfd hcalls
  refine ⟨_, _, hreads, ?_, ?_, ?_, ?_, ?_⟩
  · rw [hbytes, stream_reads_flatten]
  · intro j hj
    have hlength := (fs.stream desc).reads_lengths (sizes calls) hj
    rw [hrest, Nat.sub_sub] at hlength
    have hvalue : (fun d : Delivery => d.value) ∘ delivery = (fun n : Nat => (n : Int)) ∘ List.length := rfl
    rw [List.getElem?_map, Option.map_map, hvalue, ← Option.map_map, hlength]
    rfl
  · rw [Kernel.setDesc_cur_pcb, Kernel.desc_setDesc_same]
    have hfinal := congrArg Stream.pos hlast
    rw [Stream.reads_pos, hrest] at hfinal
    simp only [Image.stream] at hfinal
    rw [hfinal]
    omega
  · intro p j hne
    exact Kernel.desc_setDesc_other _ _ _ _ hne
  · intro calls' hcalls' hsum
    obtain ⟨last', hreads', -⟩ := sysReads_eq hopen hfd hcalls'
    refine ⟨_, _, hreads', ?_⟩
    rw [hbytes, hbytes, stream_reads_flatten, stream_reads_flatten, hsum]

/-- A process that has the file of five bytes open, at its second byte. -/
def fiveBytesOpen : Kernel :=
  { blankMachine with cur_pcb := 0x7FE000 }.setDesc 0x7FE000 2 ⟨.regf_jt, 0, 1, .IN_USE⟩

theorem sys_read_chunks_lossless_five_bytes :
    let calls : List ReadCall := [⟨fun _ => 0, 100, 2⟩, ⟨fun _ => 0, 200, 9⟩]
    ∃ ds k', sysReads fiveBytes 2 fiveBytesOpen calls = some (ds, k') ∧
      (ds.map (·.bytes)).flatten = [2, 3, 4, 5] := by
  intro calls
  have hwf : fiveBytes.WellFormed 0 := by
    refine ⟨by decide +kernel, by decide +kernel, fun pos hpos => ?_⟩
    have hlen : (fiveBytes.file_length 0).toNat = 5 := by decide +kernel
    rw [Image.Readable, show pos / 4096 = 0 by omega]
    decide +kernel
  have hopen : OpenFile fiveBytes fiveBytesOpen 2 ⟨.regf_jt, 0, 1, .IN_USE⟩ :=
    ⟨by decide +kernel, rfl, hwf, by decide +kernel⟩
  obtain ⟨ds, k', hreads, hbytes, -⟩ := sys_read_chunks_lossless fiveBytes fiveBytesOpen 2 _ hopen 2
    (by decide +kernel) calls (by simp [calls, ReadCall.Valid]; decide +kernel)
  refine ⟨ds, k', hreads, hbytes.trans ?_⟩
  decide +kernel

end lacos.syscalls
