import Mathlib.Data.Fin.Basic
import LacOS.Base.Chain
import LacOS.Base.Memory

open memory chain

namespace lacos.fish

/-- `blink_array` has a structure for every place of the screen. -/
abbrev BLINK_NUM : Nat := 80 * 25

/-- `struct mp1_blink_struct` without its link. -/
structure Blink where
  location : UInt16
  on_char : UInt8
  off_char : UInt8
  on_length : UInt16
  off_length : UInt16
  countdown : UInt16
  status : UInt16
  deriving DecidableEq

/-- A pointer to a structure is NULL or leads into `blink_array`. -/
structure mp1_blink_struct extends Blink where
  next : Option (Fin BLINK_NUM)
  deriving DecidableEq

/-- The globals of `fish.c` and `blink.S`, and the memory that `vmem_base_addr` points into. -/
structure Fish where
  blink_array : Fin BLINK_NUM → mp1_blink_struct
  mp1_list_head : Option (Fin BLINK_NUM)
  vmem_base_addr : UInt32
  video : Mem

/-- The list of the structures in use. -/
def Fish.links (f : Fish) : Links (Fin BLINK_NUM) where
  head := f.mp1_list_head
  next i := (f.blink_array i).next

def Fish.setBlink (f : Fish) (i : Fin BLINK_NUM) (blink : Blink) : Fish :=
  { f with blink_array := Function.update f.blink_array i { f.blink_array i with toBlink := blink } }

/-- `ece391_memset(memory, 0, sizeof(struct mp1_blink_struct))`. -/
def zeroStruct : mp1_blink_struct where
  location := 0
  on_char := 0
  off_char := 0
  on_length := 0
  off_length := 0
  countdown := 0
  status := 0
  next := none

def mp1_poke (f : Fish) (cl : UInt8) (eax : UInt32) : Fish :=
  { f with video := store f.video (f.vmem_base_addr + eax) cl }

/-- The offset of a place in video memory. -/
def Blink.offset (blink : Blink) : UInt32 := blink.location.toUInt32 <<< (1 : UInt32)

/-- The first structure that does not have a location. -/
def mp1_malloc (f : Fish) : Option (Fin BLINK_NUM) := Fin.find? fun i => (f.blink_array i).location = 0

def mp1_free (f : Fish) (memory : Fin BLINK_NUM) : Fish :=
  { f with blink_array := Function.update f.blink_array memory zeroStruct }

/-- The loop of `mp1_find_helper`. There are `BLINK_NUM` structures: a walk that has passed as
    many and has not come to its end goes round, and has no result. -/
def findLoop (f : Fish) (ax : UInt16) : Nat → Option (Fin BLINK_NUM) → Option (Option (Fin BLINK_NUM))
  | _, none => some none
  | 0, some _ => none
  | fuel + 1, some ebx =>
    if (f.blink_array ebx).location = ax then some (some ebx)
    else findLoop f ax fuel (f.blink_array ebx).next

def mp1_find_helper (f : Fish) (arg : UInt32) : Option (Option (Fin BLINK_NUM)) :=
  findLoop f arg.toUInt16 BLINK_NUM f.mp1_list_head

/-- `mp1_ioctl_add` of a structure of the user, whose link is overwritten. -/
def mp1_ioctl_add (f : Fish) (user : Blink) : Int × Fish :=
  if user.location ≥ 80 * 25 then (-1, f)
  else
    let blink := { user with status := 1, countdown := user.on_length }
    match mp1_malloc f with
    | none => (-1, f)
    | some edx =>
      let f := { f with
        blink_array := Function.update f.blink_array edx { toBlink := blink, next := f.mp1_list_head }
        mp1_list_head := some edx }
      (0, mp1_poke f blink.on_char blink.offset)

/-- The loop `remove_find_prev`: the place of the link to `eax`, which is that of the head or of
    a structure. It has no result if it comes to a NULL link. -/
def findPrev (f : Fish) (eax : Fin BLINK_NUM) : Nat → Option (Fin BLINK_NUM) → Option (Option (Fin BLINK_NUM))
  | 0, _ => none
  | fuel + 1, edx =>
    if f.links.link edx = some eax then some edx
    else (f.links.link edx).bind fun p => findPrev f eax fuel (some p)

/-- `movl %ecx, (%edx)`, where `edx` is the place of a link. -/
def storeLink (f : Fish) (ecx : Option (Fin BLINK_NUM)) : Option (Fin BLINK_NUM) → Fish
  | none => { f with mp1_list_head := ecx }
  | some p => { f with blink_array := Function.update f.blink_array p { f.blink_array p with next := ecx } }

def mp1_ioctl_remove (f : Fish) (arg : UInt32) : Option (Int × Fish) :=
  (mp1_find_helper f arg).bind fun found =>
    match found with
    | none => some (-1, f)
    | some eax =>
      (findPrev f eax BLINK_NUM none).map fun edx =>
        (0, mp1_free (storeLink f (f.blink_array eax).next edx) eax)

/-- `sync_copy_loop`: the timing of one structure for another. -/
def Blink.sync (edi esi : Blink) : Blink :=
  { edi with
    on_length := esi.on_length
    off_length := esi.off_length
    countdown := esi.countdown
    status := esi.status }

/-- The character that `mp1_ioctl_sync` displays: `cmovl` goes by the sign of the byte that
    `testb $0x1` has looked at, the overflow flag being clear. -/
def Blink.syncChar (blink : Blink) : UInt8 :=
  if (blink.status.toUInt8 &&& 1) &&& 0x80 ≠ 0 then blink.on_char else blink.off_char

def mp1_ioctl_sync (f : Fish) (arg : UInt32) : Option (Int × Fish) :=
  (mp1_find_helper f (arg >>> (16 : UInt32))).bind fun found =>
    match found with
    | none => some (-1, f)
    | some esi =>
      (mp1_find_helper f (arg &&& 0xFFFF)).map fun found =>
        match found with
        | none => (-1, f)
        | some edi =>
          let blink := (f.blink_array edi).toBlink.sync (f.blink_array esi).toBlink
          (0, mp1_poke (f.setBlink edi blink) blink.syncChar blink.offset)

/-- `mp1_ioctl_find` for a location: the value returned and the structure copied back, but for
    its link. -/
def mp1_ioctl_find (f : Fish) (location : UInt16) : Option (Int × Option Blink) :=
  (mp1_find_helper f location.toUInt32).map fun found =>
    match found with
    | none => (-1, none)
    | some eax => (0, some (f.blink_array eax).toBlink)

/-- What a turn of `tasklet_loop` makes of a structure, and the character it displays, if any.
    `jg` compares the countdown as a signed number. -/
def Blink.turn (blink : Blink) : Blink × Option UInt8 :=
  let blink := { blink with countdown := blink.countdown - 1 }
  if blink.countdown.toInt16 > 0 then (blink, none)
  else if blink.status &&& 1 ≠ 0 then
    ({ blink with countdown := blink.off_length, status := blink.status ^^^ 1 }, some blink.off_char)
  else ({ blink with countdown := blink.on_length, status := blink.status ^^^ 1 }, some blink.on_char)

def taskletTurn (f : Fish) (ebx : Fin BLINK_NUM) : Fish :=
  let turned := (f.blink_array ebx).toBlink.turn
  let f := f.setBlink ebx turned.1
  match turned.2 with
  | none => f
  | some cl => mp1_poke f cl turned.1.offset

def tasklet_loop : Nat → Fish → Option (Fin BLINK_NUM) → Option Fish
  | _, f, none => some f
  | 0, _, some _ => none
  | fuel + 1, f, some ebx =>
    let f := taskletTurn f ebx
    tasklet_loop fuel f (f.blink_array ebx).next

def mp1_rtc_tasklet (f : Fish) : Option Fish := tasklet_loop BLINK_NUM f f.mp1_list_head

/-- The calls of `mp1_ioctl`, by the entry of its table, and of the tasklet. -/
inductive Command where
  | rtc_add (user : Blink)
  | rtc_remove (arg : UInt32)
  | rtc_find (location : UInt16)
  | rtc_sync (arg : UInt32)
  | tasklet

/-- What a call returns. -/
structure Reply where
  eax : Int
  found : Option Blink
  deriving DecidableEq

/-- There is no result if the call does not return. -/
def Fish.step (f : Fish) : Command → Option (Reply × Fish)
  | .rtc_add user => some (⟨(mp1_ioctl_add f user).1, none⟩, (mp1_ioctl_add f user).2)
  | .rtc_remove arg => (mp1_ioctl_remove f arg).map fun (eax, f) => (⟨eax, none⟩, f)
  | .rtc_find location => (mp1_ioctl_find f location).map fun (eax, found) => (⟨eax, found⟩, f)
  | .rtc_sync arg => (mp1_ioctl_sync f arg).map fun (eax, f) => (⟨eax, none⟩, f)
  | .tasklet => (mp1_rtc_tasklet f).map fun f => (⟨0, none⟩, f)

/-- A sequence of calls. -/
def Fish.run : Fish → List Command → Option (List Reply × Fish)
  | f, [] => some ([], f)
  | f, command :: commands =>
    (f.step command).bind fun (reply, f) => (f.run commands).map fun (replies, f) => (reply :: replies, f)

/-- The globals when `main` has cleared `blink_array` and got its video memory. -/
def Fish.start (vmem_base_addr : UInt32) (video : Mem) : Fish where
  blink_array _ := zeroStruct
  mp1_list_head := none
  vmem_base_addr := vmem_base_addr
  video := video

end lacos.fish
