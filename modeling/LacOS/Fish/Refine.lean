import LacOS.Fish.Blink

open memory chain

namespace lacos.fish

/-- What the list is for: the blinking characters, last one first, and the memory they are
    displayed in. -/
structure Display where
  blinks : List Blink
  vmem_base_addr : UInt32
  video : Mem

def Display.poke (d : Display) (cl : UInt8) (eax : UInt32) : Display :=
  { d with video := store d.video (d.vmem_base_addr + eax) cl }

/-- Whether a structure is the one for a location. -/
def Blink.isAt (location : UInt16) (blink : Blink) : Bool := blink.location = location

/-- There is room for one character for each place of the screen. -/
def Display.add (d : Display) (user : Blink) : Int × Display :=
  if user.location ≥ 80 * 25 ∨ d.blinks.length = BLINK_NUM then (-1, d)
  else
    let blink := { user with status := 1, countdown := user.on_length }
    (0, { d with blinks := blink :: d.blinks }.poke blink.on_char blink.offset)

/-- The last one added for a location goes. -/
def Display.remove (d : Display) (location : UInt16) : Int × Display :=
  match d.blinks.find? (Blink.isAt location) with
  | none => (-1, d)
  | some _ => (0, { d with blinks := d.blinks.eraseP (Blink.isAt location) })

def Display.find (d : Display) (location : UInt16) : Int × Option Blink :=
  match d.blinks.find? (Blink.isAt location) with
  | none => (-1, none)
  | some blink => (0, some blink)

/-- The character at `target` blinks on with the one at `source`, and is shown as off. -/
def Display.sync (d : Display) (source target : UInt16) : Int × Display :=
  match d.blinks.find? (Blink.isAt source), d.blinks.find? (Blink.isAt target) with
  | some esi, some edi =>
    (0, { d with blinks := d.blinks.modify (d.blinks.findIdx (Blink.isAt target)) (·.sync esi) }.poke
      edi.off_char edi.offset)
  | _, _ => (-1, d)

/-- The memory once a character is displayed, if there is one to display. -/
def showTurn (vmem_base_addr : UInt32) (video : Mem) (blink : Blink) : Mem :=
  match blink.turn.2 with
  | none => video
  | some cl => store video (vmem_base_addr + blink.offset) cl

/-- All characters take their turns. -/
def Display.tick (d : Display) : Display :=
  { d with
    blinks := d.blinks.map (·.turn.1)
    video := d.blinks.foldl (showTurn d.vmem_base_addr) d.video }

def Display.step (d : Display) : Command → Reply × Display
  | .rtc_add user => (⟨(d.add user).1, none⟩, (d.add user).2)
  | .rtc_remove arg => (⟨(d.remove arg.toUInt16).1, none⟩, (d.remove arg.toUInt16).2)
  | .rtc_find location => (⟨(d.find location).1, (d.find location).2⟩, d)
  | .rtc_sync arg =>
    let result := d.sync (arg >>> (16 : UInt32)).toUInt16 (arg &&& 0xFFFF).toUInt16
    (⟨result.1, none⟩, result.2)
  | .tasklet => (⟨0, none⟩, d.tick)

def Display.run : Display → List Command → List Reply × Display
  | d, [] => ([], d)
  | d, command :: commands =>
    let (reply, d) := d.step command
    let (replies, d) := d.run commands
    (reply :: replies, d)

/-- The structures on the list, as they stand in the array. -/
def Fish.blinks (f : Fish) (cells : List (Fin BLINK_NUM)) : List Blink := cells.map fun i => (f.blink_array i).toBlink

/-- The list consists of these cells and holds these characters. -/
structure Lists (f : Fish) (cells : List (Fin BLINK_NUM)) (d : Display) : Prop where
  chain : f.links.Chain cells
  blinks : d.blinks = f.blinks cells
  vmem_base_addr : d.vmem_base_addr = f.vmem_base_addr
  video : d.video = f.video

section Links

variable (f : Fish)

/-- What is in a cell does not change the links. -/
theorem links_setBlink (i : Fin BLINK_NUM) (blink : Blink) : (f.setBlink i blink).links = f.links := by
  refine Links.ext rfl (funext fun j => ?_)
  change (Function.update f.blink_array i { f.blink_array i with toBlink := blink } j).next = (f.blink_array j).next
  by_cases hj : j = i
  · rw [hj, Function.update_self]
  · rw [Function.update_of_ne hj]

/-- A link is stored in a cell or in the head of the list. -/
theorem links_storeLink (ecx place : Option (Fin BLINK_NUM)) :
    (storeLink f ecx place).links = f.links.setLink ecx place := by
  cases place with
  | none => rfl
  | some p =>
    refine Links.ext rfl (funext fun j => ?_)
    change (Function.update f.blink_array p { f.blink_array p with next := ecx } j).next =
      Function.update (fun i => (f.blink_array i).next) p ecx j
    by_cases hj : j = p
    · rw [hj, Function.update_self, Function.update_self]
    · rw [Function.update_of_ne hj, Function.update_of_ne hj]

theorem links_taskletTurn (i : Fin BLINK_NUM) : (taskletTurn f i).links = f.links := by
  simp only [taskletTurn]
  split
  · exact links_setBlink f i _
  · exact links_setBlink f i _

end Links

section Find

variable {f : Fish} {cells : List (Fin BLINK_NUM)}

/-- The search through the list finds the first blink at the place, with fuel for its length. -/
theorem findLoop_eq {start : Option (Fin BLINK_NUM)} {fuel : Nat} (hcells : f.links.Leads start cells none)
    (hfuel : cells.length ≤ fuel) (ax : UInt16) :
    findLoop f ax fuel start = some (cells.find? fun i => (f.blink_array i).toBlink.isAt ax) := by
  induction cells generalizing start fuel with
  | nil =>
    obtain rfl : start = none := hcells
    cases fuel <;> rfl
  | cons i cells ih =>
    obtain ⟨rfl, hrest⟩ := hcells
    obtain ⟨fuel, rfl⟩ := Nat.exists_eq_succ_of_ne_zero (Nat.ne_of_gt (Nat.zero_lt_of_lt hfuel))
    have hnext := ih hrest (Nat.le_of_succ_le_succ hfuel)
    rw [findLoop, List.find?_cons, Blink.isAt]
    by_cases hax : (f.blink_array i).location = ax
    · simp [hax]
    · rw [if_neg hax, decide_eq_false hax]
      exact hnext

/-- `mp1_find_helper` finds the last one added for the location. -/
theorem mp1_find_helper_eq (hchain : f.links.Chain cells) (arg : UInt32) :
    mp1_find_helper f arg = some (cells.find? fun i => (f.blink_array i).toBlink.isAt arg.toUInt16) := by
  have hlength := hchain.length_le
  rw [Fintype.card_fin] at hlength
  exact findLoop_eq hchain hlength _

/-- The search for the cell before one finds the last cell of the way to it, or the head. -/
theorem findPrev_eq {ks js : List (Fin BLINK_NUM)} {i : Fin BLINK_NUM} {edx : Option (Fin BLINK_NUM)} {fuel : Nat}
    (hleads : f.links.Leads (f.links.link edx) (ks ++ i :: js) none) (hi : i ∉ ks) (hfuel : ks.length < fuel) :
    findPrev f i fuel edx = some (ks.getLast?.or edx) := by
  induction ks generalizing edx fuel with
  | nil =>
    obtain ⟨fuel, rfl⟩ := Nat.exists_eq_succ_of_ne_zero (Nat.ne_of_gt hfuel)
    rw [findPrev, if_pos hleads.1]
    rfl
  | cons k ks ih =>
    obtain ⟨fuel, rfl⟩ := Nat.exists_eq_succ_of_ne_zero (Nat.ne_of_gt (Nat.zero_lt_of_lt hfuel))
    obtain ⟨hlink, hrest⟩ := hleads
    have hne : k ≠ i := fun heq => hi (heq ▸ List.mem_cons_self)
    have hnext := @ih (some k) fuel hrest (fun hmem => hi (List.mem_cons_of_mem _ hmem)) (Nat.lt_of_succ_lt_succ hfuel)
    rw [findPrev, hlink, if_neg (fun heq => hne (Option.some.inj heq)), Option.bind_some, hnext]
    cases ks with
    | nil => rfl
    | cons k' ks => rw [List.getLast?_cons_cons, List.getLast?_eq_some_getLast (List.cons_ne_nil k' ks)]; rfl

/-- The loop that looks for the link to a structure on the list finds it. -/
theorem findPrev_chain {is js : List (Fin BLINK_NUM)} {i : Fin BLINK_NUM} (hchain : f.links.Chain (is ++ i :: js)) :
    findPrev f i BLINK_NUM none = some is.getLast? := by
  have hlength := hchain.length_le
  rw [Fintype.card_fin, List.length_append, List.length_cons] at hlength
  have hprev := @findPrev_eq f is js i none BLINK_NUM hchain hchain.split.2.2.1 (by omega)
  rw [hprev, Option.or_none]

end Find

section Turns

variable {f : Fish}

theorem setBlink_blink_array (i : Fin BLINK_NUM) (blink : Blink) (j : Fin BLINK_NUM) :
    ((f.setBlink i blink).blink_array j).toBlink = if j = i then blink else (f.blink_array j).toBlink := by
  by_cases hj : j = i
  · simp [Fish.setBlink, hj]
  · simp [Fish.setBlink, hj]

/-- A turn changes its own cell only. -/
theorem taskletTurn_blink_array (i j : Fin BLINK_NUM) :
    ((taskletTurn f i).blink_array j).toBlink =
      if j = i then (f.blink_array i).toBlink.turn.1 else (f.blink_array j).toBlink := by
  simp only [taskletTurn]
  split
  · exact setBlink_blink_array i _ j
  · exact setBlink_blink_array i _ j

theorem Blink.turn_location (blink : Blink) : blink.turn.1.location = blink.location := by
  rw [Blink.turn]
  simp only
  split
  · rfl
  · split
    · rfl
    · rfl

theorem Blink.turn_offset (blink : Blink) : blink.turn.1.offset = blink.offset := by
  rw [Blink.offset, Blink.turn_location, Blink.offset]

/-- A turn draws what the blink of its cell shows. -/
theorem taskletTurn_video (i : Fin BLINK_NUM) :
    (taskletTurn f i).video = showTurn f.vmem_base_addr f.video (f.blink_array i).toBlink := by
  simp only [taskletTurn, showTurn]
  cases (f.blink_array i).toBlink.turn.2 with
  | none => rfl
  | some cl =>
    simp only [Blink.turn_offset]
    rfl

theorem taskletTurn_vmem_base_addr (i : Fin BLINK_NUM) : (taskletTurn f i).vmem_base_addr = f.vmem_base_addr := by
  simp only [taskletTurn]
  split
  · rfl
  · rfl

variable {cells : List (Fin BLINK_NUM)}

/-- The walk of the tasklet is one turn after the other. -/
theorem tasklet_loop_eq {start : Option (Fin BLINK_NUM)} {fuel : Nat} (hcells : f.links.Leads start cells none)
    (hfuel : cells.length ≤ fuel) : tasklet_loop fuel f start = some (cells.foldl taskletTurn f) := by
  induction cells generalizing f start fuel with
  | nil =>
    obtain rfl : start = none := hcells
    cases fuel <;> rfl
  | cons i cells ih =>
    obtain ⟨rfl, hrest⟩ := hcells
    obtain ⟨fuel, rfl⟩ := Nat.exists_eq_succ_of_ne_zero (Nat.ne_of_gt (Nat.zero_lt_of_lt hfuel))
    rw [← links_taskletTurn f i] at hrest
    exact ih hrest (Nat.le_of_succ_le_succ hfuel)

/-- The turns of cells that are all different do not depend on each other. -/
theorem foldl_taskletTurn (hnodup : cells.Nodup) :
    let f' := cells.foldl taskletTurn f
    f'.links = f.links ∧ f'.vmem_base_addr = f.vmem_base_addr ∧
      f'.video = (f.blinks cells).foldl (showTurn f.vmem_base_addr) f.video ∧
      ∀ j, (f'.blink_array j).toBlink =
        if j ∈ cells then (f.blink_array j).toBlink.turn.1 else (f.blink_array j).toBlink := by
  induction cells generalizing f with
  | nil => exact ⟨rfl, rfl, rfl, fun j => (if_neg List.not_mem_nil).symm⟩
  | cons i cells ih =>
    obtain ⟨hi, hrest⟩ := List.nodup_cons.mp hnodup
    obtain ⟨hlinks, hbase, hvideo, harray⟩ := @ih (taskletTurn f i) hrest
    have hblinks : (taskletTurn f i).blinks cells = f.blinks cells := by
      refine List.map_congr_left fun j hj => ?_
      rw [taskletTurn_blink_array, if_neg]
      rintro rfl
      exact hi hj
    rw [taskletTurn_vmem_base_addr] at hbase hvideo
    rw [hblinks, taskletTurn_video] at hvideo
    refine ⟨hlinks.trans (links_taskletTurn f i), hbase, hvideo, fun j => ?_⟩
    rw [List.foldl_cons, harray, taskletTurn_blink_array]
    by_cases hj : j = i
    · subst hj
      rw [if_neg hi, if_pos rfl, if_pos List.mem_cons_self]
    · rw [if_neg hj]
      simp only [List.mem_cons, hj, false_or]

end Turns

/-- Change the first element that passes a test. -/
theorem modify_findIdx {α : Type*} {p : α → Bool} (change : α → α) {before after : List α} {a : α} (ha : p a = true)
    (hbefore : ∀ b ∈ before, p b = false) :
    (before ++ a :: after).modify ((before ++ a :: after).findIdx p) change = before ++ change a :: after := by
  induction before with
  | nil => simp [List.findIdx_cons, ha]
  | cons b before ih =>
    have hb := hbefore b List.mem_cons_self
    have hrest := ih fun b hb => hbefore b (List.mem_cons_of_mem _ hb)
    simp only [List.cons_append, List.findIdx_cons, hb, cond_false, List.modify_succ_cons, hrest]

/-- Only the cells that are listed count. -/
theorem blinks_congr {f f' : Fish} {is : List (Fin BLINK_NUM)}
    (hkept : ∀ i ∈ is, (f'.blink_array i).toBlink = (f.blink_array i).toBlink) : f'.blinks is = f.blinks is :=
  List.map_congr_left hkept

/-- A cell put at the head of the list, with what it holds. -/
def pushCell (f : Fish) (edx : Fin BLINK_NUM) (blink : Blink) : Fish :=
  { f with
    blink_array := Function.update f.blink_array edx { toBlink := blink, next := f.mp1_list_head }
    mp1_list_head := some edx }

section Lists

variable {f : Fish} {cells : List (Fin BLINK_NUM)} {d : Display} (hf : Lists f cells d)
include hf

/-- A poke draws a character, and leaves the list. -/
theorem Lists.poke (cl : UInt8) (eax : UInt32) : Lists (mp1_poke f cl eax) cells (d.poke cl eax) where
  chain := hf.chain
  blinks := hf.blinks
  vmem_base_addr := hf.vmem_base_addr
  video := by rw [Display.poke, mp1_poke, hf.video, hf.vmem_base_addr]

omit hf in
/-- The list with something else in one of its structures. -/
theorem Lists.setBlink {is js : List (Fin BLINK_NUM)} {i : Fin BLINK_NUM} (hf : Lists f (is ++ i :: js) d)
    (blink : Blink) :
    Lists (f.setBlink i blink) (is ++ i :: js) { d with blinks := f.blinks is ++ blink :: f.blinks js } where
  chain := by
    rw [links_setBlink]
    exact hf.chain
  blinks := by
    obtain ⟨-, -, his, hjs⟩ := hf.chain.split
    have hother (ks : List (Fin BLINK_NUM)) (hks : i ∉ ks) : (f.setBlink i blink).blinks ks = f.blinks ks := by
      refine blinks_congr fun j hj => ?_
      rw [setBlink_blink_array, if_neg]
      rintro rfl
      exact hks hj
    have hself : ((f.setBlink i blink).blink_array i).toBlink = blink := by
      rw [setBlink_blink_array, if_pos rfl]
    rw [← hother is his, ← hother js hjs, Fish.blinks, Fish.blinks, Fish.blinks, List.map_append, List.map_cons, hself]
  vmem_base_addr := hf.vmem_base_addr
  video := hf.video

/-- Looking for a blink in the list is looking for its cell. -/
theorem Lists.find? (location : UInt16) :
    d.blinks.find? (Blink.isAt location) =
      (cells.find? fun i => (f.blink_array i).toBlink.isAt location).map fun i => (f.blink_array i).toBlink := by
  rw [hf.blinks, Fish.blinks, List.find?_map]
  rfl

/-- A tick gives every blink in the list its turn, in order. What the other cells hold does not
    matter. -/
theorem Lists.tasklet :
    ∃ f', mp1_rtc_tasklet f = some f' ∧ Lists f' cells d.tick ∧
      ∀ i, (f'.blink_array i).location = (f.blink_array i).location := by
  have hlength := hf.chain.length_le
  rw [Fintype.card_fin] at hlength
  obtain ⟨hlinks, hbase, hvideo, harray⟩ := @foldl_taskletTurn f cells (Links.Leads.nodup hf.chain)
  refine ⟨_, tasklet_loop_eq hf.chain hlength, ⟨?_, ?_, ?_, ?_⟩, fun i => ?_⟩
  · rw [hlinks]
    exact hf.chain
  · rw [Display.tick, hf.blinks, Fish.blinks, Fish.blinks, List.map_map]
    refine List.map_congr_left fun i hi => ?_
    rw [harray, if_pos hi]
    rfl
  · rw [hbase, ← hf.vmem_base_addr]
    rfl
  · rw [hvideo, ← hf.blinks, ← hf.vmem_base_addr, ← hf.video]
    rfl
  · rw [harray]
    by_cases hi : i ∈ cells
    · rw [if_pos hi, Blink.turn_location]
    · rw [if_neg hi]

/-- `mp1_ioctl_find` finds the blink of the display. -/
theorem Lists.find (location : UInt16) : mp1_ioctl_find f location = some (d.find location) := by
  have hword : location.toUInt32.toUInt16 = location := UInt16.toUInt16_toUInt32 location
  rw [mp1_ioctl_find, mp1_find_helper_eq hf.chain, hword, Display.find, hf.find?]
  cases cells.find? fun i => (f.blink_array i).toBlink.isAt location with
  | none => rfl
  | some i => rfl

/-- The cell of the structure that is found, with the cells before and after it. -/
theorem Lists.found {location : UInt16} {i : Fin BLINK_NUM}
    (hfound : (cells.find? fun i => (f.blink_array i).toBlink.isAt location) = some i) :
    ∃ is js, cells = is ++ i :: js ∧ d.blinks = f.blinks is ++ (f.blink_array i).toBlink :: f.blinks js ∧
      (f.blink_array i).toBlink.isAt location = true ∧ ∀ blink ∈ f.blinks is, Blink.isAt location blink = false := by
  obtain ⟨hat, is, js, rfl, hbefore⟩ := List.find?_eq_some_iff_append.mp hfound
  refine ⟨is, js, rfl, ?_, hat, fun blink hblink => ?_⟩
  · rw [hf.blinks, Fish.blinks, List.map_append, List.map_cons]
    rfl
  · obtain ⟨j, hj, rfl⟩ := List.mem_map.mp hblink
    simpa using hbefore j hj

omit hf in
/-- A structure taken off the list: the others keep what they hold. -/
theorem mp1_free_storeLink (ecx place : Option (Fin BLINK_NUM)) {i j : Fin BLINK_NUM} (hj : j ≠ i) :
    ((mp1_free (storeLink f ecx place) i).blink_array j).toBlink = (f.blink_array j).toBlink := by
  have hfreed : (mp1_free (storeLink f ecx place) i).blink_array j = (storeLink f ecx place).blink_array j :=
    Function.update_of_ne hj _ _
  rw [hfreed]
  cases place with
  | none => rfl
  | some p =>
    by_cases hp : j = p
    · simp [storeLink, hp]
    · simp [storeLink, hp]

/-- Removing a blink unlinks its cell and marks it as free. -/
theorem Lists.remove (hfree : ∀ i ∉ cells, (f.blink_array i).location = 0) (arg : UInt32) :
    ∃ f' cells', mp1_ioctl_remove f arg = some ((d.remove arg.toUInt16).1, f') ∧
      Lists f' cells' (d.remove arg.toUInt16).2 ∧ (∀ i ∉ cells', (f'.blink_array i).location = 0) ∧
      ∀ i ∈ cells', i ∈ cells ∧ (f'.blink_array i).toBlink = (f.blink_array i).toBlink := by
  rw [mp1_ioctl_remove, mp1_find_helper_eq hf.chain, Option.bind_some, Display.remove, hf.find?]
  cases hfound : cells.find? fun i => (f.blink_array i).toBlink.isAt arg.toUInt16 with
  | none => exact ⟨f, cells, rfl, hf, hfree, fun i hi => ⟨hi, rfl⟩⟩
  | some i =>
    obtain ⟨is, js, rfl, hblinks, hat, hbefore⟩ := hf.found hfound
    obtain ⟨-, -, his, hjs⟩ := hf.chain.split
    have hne (j : Fin BLINK_NUM) (hj : j ∈ is ++ js) : j ≠ i := by
      rintro rfl
      exact (List.mem_append.mp hj).elim his hjs
    have hremoved : (findPrev f i BLINK_NUM none).map (fun edx =>
        ((0 : Int), mp1_free (storeLink f (f.blink_array i).next edx) i)) =
        some (0, mp1_free (storeLink f (f.blink_array i).next is.getLast?) i) := by
      rw [findPrev_chain hf.chain, Option.map_some]
    refine ⟨_, is ++ js, hremoved, ⟨?_, ?_, hf.vmem_base_addr.trans ?_, hf.video.trans ?_⟩, fun j hj => ?_,
      fun j hj => ⟨?_, mp1_free_storeLink _ _ (hne j hj)⟩⟩
    · have hunlinked := hf.chain.unlink
      rw [show f.links.next i = (f.blink_array i).next from rfl, ← links_storeLink] at hunlinked
      exact Links.Leads.congr hunlinked fun j hj =>
        congrArg mp1_blink_struct.next (Function.update_of_ne (hne j hj) _ _)
    · rw [blinks_congr fun j hj => mp1_free_storeLink _ _ (hne j hj)]
      simp only [hblinks, Option.map_some]
      rw [List.eraseP_append_right _ fun blink hblink => by simp [hbefore blink hblink], List.eraseP_cons_of_pos hat,
        Fish.blinks, Fish.blinks, Fish.blinks, List.map_append]
    · cases is.getLast? <;> rfl
    · cases is.getLast? <;> rfl
    · by_cases hji : j = i
      · rw [hji]
        simp [mp1_free, zeroStruct]
      · rw [mp1_free_storeLink _ _ hji]
        refine hfree j fun hmem => hj ?_
        rw [List.mem_append, List.mem_cons] at hmem
        exact List.mem_append.mpr (hmem.imp_right fun h => h.resolve_left hji)
    · rw [List.mem_append] at hj
      exact List.mem_append.mpr (hj.imp_right (List.mem_cons_of_mem i))

/-- `mp1_ioctl_sync` makes one character of the display blink on with another. -/
theorem Lists.sync (arg : UInt32) :
    let result := d.sync (arg >>> (16 : UInt32)).toUInt16 (arg &&& 0xFFFF).toUInt16
    ∃ f', mp1_ioctl_sync f arg = some (result.1, f') ∧ Lists f' cells result.2 ∧
      ∀ i, (f'.blink_array i).location = (f.blink_array i).location := by
  intro result
  have hchar (blink : Blink) : blink.syncChar = blink.off_char := by
    have hsign : (blink.status.toUInt8 &&& 1) &&& 0x80 = 0 := by
      rw [UInt8.and_assoc]
      exact UInt8.and_zero
    rw [Blink.syncChar, if_neg (not_not_intro hsign)]
  rw [mp1_ioctl_sync, mp1_find_helper_eq hf.chain, Option.bind_some, mp1_find_helper_eq hf.chain]
  simp only [result, Display.sync, hf.find?]
  cases cells.find? fun i => (f.blink_array i).toBlink.isAt (arg >>> (16 : UInt32)).toUInt16 with
  | none => exact ⟨f, rfl, hf, fun _ => rfl⟩
  | some esi =>
    cases hfound : cells.find? fun i => (f.blink_array i).toBlink.isAt (arg &&& 0xFFFF).toUInt16 with
    | none => exact ⟨f, rfl, hf, fun _ => rfl⟩
    | some edi =>
      obtain ⟨is, js, rfl, hblinks, hat, hbefore⟩ := hf.found hfound
      obtain ⟨blink, hblink⟩ : ∃ blink, (f.blink_array edi).toBlink.sync (f.blink_array esi).toBlink = blink := ⟨_, rfl⟩
      have hsynced := (hf.setBlink blink).poke (f.blink_array edi).off_char (f.blink_array edi).toBlink.offset
      simp only [Option.map_some, hblinks, modify_findIdx _ hat hbefore]
      have hpoke : mp1_poke (f.setBlink edi blink) blink.syncChar blink.offset =
          mp1_poke (f.setBlink edi blink) (f.blink_array edi).off_char (f.blink_array edi).toBlink.offset := by
        rw [hchar, ← hblink]
        rfl
      rw [hblink]
      refine ⟨_, rfl, ?_, fun j => ?_⟩
      · rw [hpoke]
        exact hsynced
      · change ((f.setBlink edi blink).blink_array j).toBlink.location = _
        rw [setBlink_blink_array]
        by_cases hj : j = edi
        · rw [if_pos hj, hj, ← hblink]
          rfl
        · rw [if_neg hj]

theorem Lists.length_blinks : d.blinks.length = cells.length := by
  rw [hf.blinks, Fish.blinks, List.length_map]

/-- With no cell to be had, every one is on the list, so that the display is full. The cells
    off the list must be free. -/
theorem Lists.full_of_malloc (hfree : ∀ i ∉ cells, (f.blink_array i).location = 0) (hmalloc : mp1_malloc f = none) :
    d.blinks.length = BLINK_NUM := by
  have hall (i : Fin BLINK_NUM) : i ∈ cells := by
    by_contra hi
    have hused := Fin.find?_eq_none_iff.mp hmalloc i
    rw [decide_eq_false_iff_not] at hused
    exact hused (hfree i hi)
  rw [hf.length_blinks, ← List.toFinset_card_of_nodup (Links.Leads.nodup hf.chain), Finset.eq_univ_of_forall
    (fun i => List.mem_toFinset.mpr (hall i)), Finset.card_univ, Fintype.card_fin]

/-- With a cell off the list, the display has room. -/
theorem Lists.room_of_notMem {edx : Fin BLINK_NUM} (hnew : edx ∉ cells) : d.blinks.length ≠ BLINK_NUM := by
  intro hfull
  have hpush := (hf.chain.push hnew).length_le
  rw [Fintype.card_fin, List.length_cons, ← hf.length_blinks, hfull] at hpush
  omega

omit hf in
theorem pushCell_blink_array (edx : Fin BLINK_NUM) (blink : Blink) (j : Fin BLINK_NUM) :
    ((pushCell f edx blink).blink_array j).toBlink = if j = edx then blink else (f.blink_array j).toBlink := by
  by_cases hj : j = edx
  · simp [pushCell, hj]
  · simp [pushCell, hj]

omit hf in
theorem links_pushCell (edx : Fin BLINK_NUM) (blink : Blink) : (pushCell f edx blink).links = f.links.push edx := by
  refine Links.ext rfl (funext fun j => ?_)
  by_cases hj : j = edx
  · simp [pushCell, Fish.links, Links.push, hj]
  · simp [pushCell, Fish.links, Links.push, hj]

/-- A cell that is not on the list is put at its head with what it holds. -/
theorem Lists.pushCell {edx : Fin BLINK_NUM} (hnew : edx ∉ cells) (blink : Blink) :
    Lists (fish.pushCell f edx blink) (edx :: cells) { d with blinks := blink :: d.blinks } := by
  refine ⟨?_, ?_, hf.vmem_base_addr, hf.video⟩
  · rw [links_pushCell]
    exact hf.chain.push hnew
  · have hrest : (fish.pushCell f edx blink).blinks cells = f.blinks cells := by
      refine blinks_congr fun j hj => ?_
      rw [pushCell_blink_array, if_neg]
      rintro rfl
      exact hnew hj
    rw [Fish.blinks, List.map_cons, pushCell_blink_array, if_pos rfl, ← Fish.blinks, hrest, hf.blinks]

/-- A new blink goes to the head of the list. The cell that it gets must not be on the list
    already. -/
theorem Lists.add (hfree : ∀ i ∉ cells, (f.blink_array i).location = 0) (user : Blink)
    (hcell : user.location < 80 * 25 → ∀ i, mp1_malloc f = some i → i ∉ cells) :
    ∃ f' cells', mp1_ioctl_add f user = ((d.add user).1, f') ∧ Lists f' cells' (d.add user).2 ∧
      (∀ i ∉ cells', (f'.blink_array i).location = 0) ∧
      ∀ i ∈ cells', (f'.blink_array i).location = user.location ∨
        i ∈ cells ∧ (f'.blink_array i).toBlink = (f.blink_array i).toBlink := by
  have hsame : ∃ f' cells', ((-1 : Int), f) = (-1, f') ∧ Lists f' cells' d ∧
      (∀ i ∉ cells', (f'.blink_array i).location = 0) ∧
      ∀ i ∈ cells', (f'.blink_array i).location = user.location ∨
        i ∈ cells ∧ (f'.blink_array i).toBlink = (f.blink_array i).toBlink :=
    ⟨f, cells, rfl, hf, hfree, fun i hi => .inr ⟨hi, rfl⟩⟩
  rw [mp1_ioctl_add, Display.add]
  by_cases hoff : user.location ≥ 80 * 25
  · rw [if_pos hoff, if_pos (.inl hoff)]
    exact hsame
  rw [if_neg hoff]
  cases hmalloc : mp1_malloc f with
  | none =>
    rw [if_pos (.inr (hf.full_of_malloc hfree hmalloc))]
    exact hsame
  | some edx =>
    have hnew := hcell (UInt16.not_le.mp hoff) edx hmalloc
    rw [if_neg (not_or.mpr ⟨hoff, hf.room_of_notMem hnew⟩)]
    obtain ⟨blink, hblink⟩ : ∃ blink, { user with status := 1, countdown := user.on_length } = blink := ⟨_, rfl⟩
    have hplace : blink.location = user.location := by rw [← hblink]
    simp only [hblink]
    refine ⟨_, edx :: cells, rfl, (hf.pushCell hnew blink).poke _ _, fun j hj => ?_, fun j hj => ?_⟩
    · rw [List.mem_cons, not_or] at hj
      change ((fish.pushCell f edx blink).blink_array j).toBlink.location = 0
      rw [pushCell_blink_array, if_neg hj.1]
      exact hfree j hj.2
    · change ((fish.pushCell f edx blink).blink_array j).toBlink.location = _ ∨
        _ ∧ ((fish.pushCell f edx blink).blink_array j).toBlink = _
      rw [pushCell_blink_array]
      by_cases hji : j = edx
      · rw [if_pos hji]
        exact .inl hplace
      · rw [if_neg hji]
        exact .inr ⟨(List.mem_cons.mp hj).resolve_left hji, rfl⟩

end Lists

/-- The structures on the list are those with a location. -/
structure Refines (f : Fish) (d : Display) (cells : List (Fin BLINK_NUM)) : Prop extends Lists f cells d where
  used : ∀ i, i ∈ cells ↔ (f.blink_array i).location ≠ 0

/-- A call to add a character does not ask for the first place of the screen. -/
def Command.Placed : Command → Prop
  | .rtc_add user => user.location ≠ 0
  | _ => True

section Refines

variable {f : Fish} {d : Display} {cells : List (Fin BLINK_NUM)}

/-- A cell that is not listed is free. -/
theorem Refines.free (hf : Refines f d cells) (i : Fin BLINK_NUM) (hi : i ∉ cells) :
    (f.blink_array i).location = 0 := by
  by_contra hlocation
  exact hi ((hf.used i).mpr hlocation)

/-- A structure that `mp1_malloc` gives out is not on the list. -/
theorem Refines.unused (hf : Refines f d cells) {i : Fin BLINK_NUM} (hmalloc : mp1_malloc f = some i) : i ∉ cells := by
  intro hi
  obtain ⟨hzero, -⟩ := Fin.find?_eq_some_iff.mp hmalloc
  exact (hf.used i).mp hi (of_decide_eq_true hzero)

/-- A list is a refinement if the cells in use are those on it. -/
theorem Lists.refines {f' : Fish} {d' : Display} {cells' : List (Fin BLINK_NUM)} (hf' : Lists f' cells' d')
    (hfree : ∀ i ∉ cells', (f'.blink_array i).location = 0)
    (hused : ∀ i ∈ cells', (f'.blink_array i).location ≠ 0) : Refines f' d' cells' := by
  refine ⟨hf', fun i => ⟨hused i, fun hlocation => ?_⟩⟩
  by_contra hi
  exact hlocation (hfree i hi)

/-- One call does to the list what it is meant to do. -/
theorem Refines.step (hf : Refines f d cells) {command : Command} (hplaced : command.Placed) :
    ∃ f' cells', f.step command = some ((d.step command).1, f') ∧ Refines f' (d.step command).2 cells' := by
  cases command with
  | rtc_add user =>
    obtain ⟨f', cells', hadd, hlists, hfree, hused⟩ := hf.toLists.add hf.free user fun _ i => hf.unused
    refine ⟨f', cells', by rw [Fish.step, hadd]; rfl, hlists.refines hfree fun i hi => ?_⟩
    obtain hnew | ⟨hold, hsame⟩ := hused i hi
    · rw [hnew]
      exact hplaced
    · rw [hsame]
      exact (hf.used i).mp hold
  | rtc_remove arg =>
    obtain ⟨f', cells', hremove, hlists, hfree, hused⟩ := hf.toLists.remove hf.free arg
    refine ⟨f', cells', by rw [Fish.step, hremove]; rfl, hlists.refines hfree fun i hi => ?_⟩
    rw [(hused i hi).2]
    exact (hf.used i).mp (hused i hi).1
  | rtc_find location =>
    refine ⟨f, cells, ?_, hf⟩
    rw [Fish.step, hf.toLists.find]
    rfl
  | rtc_sync arg =>
    obtain ⟨f', hsync, hlists, hlocation⟩ := hf.toLists.sync arg
    refine ⟨f', cells, by rw [Fish.step, hsync]; rfl, hlists, fun i => ?_⟩
    rw [hlocation]
    exact hf.used i
  | tasklet =>
    obtain ⟨f', htasklet, hlists, hlocation⟩ := hf.toLists.tasklet
    refine ⟨f', cells, by rw [Fish.step, htasklet]; rfl, hlists, fun i => ?_⟩
    rw [hlocation]
    exact hf.used i

/-- A sequence of calls does to the list what it is meant to do. -/
theorem Refines.run (hf : Refines f d cells) {commands : List Command} (hplaced : ∀ command ∈ commands, command.Placed) :
    ∃ f' cells', f.run commands = some ((d.run commands).1, f') ∧ Refines f' (d.run commands).2 cells' := by
  induction commands generalizing f d cells with
  | nil => exact ⟨f, cells, rfl, hf⟩
  | cons command commands ih =>
    obtain ⟨f₁, cells₁, hstep, hf₁⟩ := hf.step (hplaced command List.mem_cons_self)
    obtain ⟨f₂, cells₂, hrun, hf₂⟩ := ih hf₁ fun c hc => hplaced c (List.mem_cons_of_mem _ hc)
    refine ⟨f₂, cells₂, ?_, hf₂⟩
    rw [Fish.run, hstep, Option.bind_some]
    simp only [hrun, Option.map_some]
    rfl

end Refines

def Display.start (vmem_base_addr : UInt32) (video : Mem) : Display where
  blinks := []
  vmem_base_addr := vmem_base_addr
  video := video

/-- At first all cells are free and the list is empty. -/
theorem start_refines (vmem_base_addr : UInt32) (video : Mem) :
    Refines (Fish.start vmem_base_addr video) (Display.start vmem_base_addr video) [] where
  chain := rfl
  blinks := rfl
  vmem_base_addr := rfl
  video := rfl
  used := fun _ => ⟨fun hi => absurd hi List.not_mem_nil, fun hlocation => absurd rfl hlocation⟩

/-- The linked list of structures is a list of blinking characters. Whatever calls are made, as
    long as none adds a character at location 0, each returns, with the value that it is to
    return, and leaves the characters and the screen that it is to leave. A call may name a place
    without a character, and the structures may run out. -/
theorem calls_refine_display (vmem_base_addr : UInt32) (video : Mem) (commands : List Command)
    (hplaced : ∀ command ∈ commands, command.Placed) :
    let meant := (Display.start vmem_base_addr video).run commands
    ∃ f cells, (Fish.start vmem_base_addr video).run commands = some (meant.1, f) ∧ f.links.Chain cells ∧
      f.blinks cells = meant.2.blinks ∧ f.video = meant.2.video := by
  intro meant
  obtain ⟨f, cells, hrun, hf⟩ := (start_refines vmem_base_addr video).run hplaced
  exact ⟨f, cells, hrun, hf.chain, hf.blinks.symm, hf.video.symm⟩

/-- A character that is on for two ticks and off for one. -/
def star (location : UInt16) : Blink where
  location := location
  on_char := 42
  off_char := 32
  on_length := 2
  off_length := 1
  countdown := 0
  status := 0

theorem calls_refine_display_two_stars :
    let commands : List Command :=
      [.rtc_add (star 5), .rtc_add (star 5), .tasklet, .rtc_remove 5, .rtc_find 5, .rtc_remove 5, .rtc_remove 5]
    ∃ f cells, (Fish.start 0xB8000 fun _ => 0).run commands =
        some ([⟨0, none⟩, ⟨0, none⟩, ⟨0, none⟩, ⟨0, none⟩, ⟨0, some { star 5 with countdown := 1, status := 1 }⟩,
          ⟨0, none⟩, ⟨-1, none⟩], f) ∧
      f.links.Chain cells ∧ f.blinks cells = [] ∧ f.video 0xB800A = 42 := by
  intro commands
  have hplaced : ∀ command ∈ commands, command.Placed := by
    simp [commands, Command.Placed, star]
  obtain ⟨f, cells, hrun, hchain, hblinks, hvideo⟩ := calls_refine_display 0xB8000 (fun _ => 0) commands hplaced
  refine ⟨f, cells, hrun.trans ?_, hchain, hblinks.trans ?_, ?_⟩
  · exact congrArg (fun replies => some (replies, f)) (by decide)
  · decide
  · rw [hvideo]
    decide

end lacos.fish
