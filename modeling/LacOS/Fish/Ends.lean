import LacOS.Base.Run
import LacOS.Fish.Refine

open memory chain trace

namespace lacos.fish

/-- A call, for what it does to the structures. -/
def fishStep (f : Fish) (command : Command) : Option Fish := (f.step command).map (·.2)

/-- A structure that is on the list. -/
def OnList (f : Fish) (i : Fin BLINK_NUM) : Prop := ∃ cells, f.links.Chain cells ∧ i ∈ cells

/-- A character to add does not get a structure that is on the list already. -/
def CellUnused (f : Fish) : Command → Prop
  | .rtc_add user => user.location < 80 * 25 → ∀ i, mp1_malloc f = some i → ¬ OnList f i
  | _ => True

/-- The list ends, and the structures that are not on it have no location. -/
def Ends (f : Fish) : Prop :=
  ∃ cells, f.links.Chain cells ∧ ∀ i ∉ cells, (f.blink_array i).location = 0

/-- The display of a list that ends. -/
def display (f : Fish) (cells : List (Fin BLINK_NUM)) : Display where
  blinks := f.blinks cells
  vmem_base_addr := f.vmem_base_addr
  video := f.video

/-- A list of cells displays what is in them. -/
theorem lists_display {f : Fish} {cells : List (Fin BLINK_NUM)} (hchain : f.links.Chain cells) :
    Lists f cells (display f cells) := ⟨hchain, rfl, rfl, rfl⟩

/-- The loop over the list only ends if the list does. -/
theorem tasklet_loop_ends {fuel : Nat} {f f' : Fish} {start : Option (Fin BLINK_NUM)}
    (hloop : tasklet_loop fuel f start = some f') : ∃ cells, f.links.Leads start cells none := by
  induction fuel generalizing f start with
  | zero =>
    cases start with
    | none => exact ⟨[], rfl⟩
    | some i => cases hloop
  | succ fuel ih =>
    cases start with
    | none => exact ⟨[], rfl⟩
    | some i =>
      obtain ⟨cells, hcells⟩ := ih hloop
      have hlinks := links_taskletTurn f i
      have hnext : ((taskletTurn f i).blink_array i).next = f.links.next i := by rw [← hlinks]; rfl
      rw [hnext, hlinks] at hcells
      exact ⟨i :: cells, rfl, hcells⟩

/-- The tasklet returns if the list ends. -/
theorem tasklet_returns_iff (f : Fish) : (mp1_rtc_tasklet f).isSome = true ↔ ∃ cells, f.links.Chain cells := by
  constructor
  · intro hreturns
    obtain ⟨f', htasklet⟩ := Option.isSome_iff_exists.mp hreturns
    exact tasklet_loop_ends htasklet
  · rintro ⟨cells, hchain⟩
    obtain ⟨f', htasklet, -⟩ := (lists_display hchain).tasklet
    rw [htasklet]
    rfl

/-- One command keeps the list one that ends, unless it adds a cell that is on it. -/
theorem Ends.step {f f' : Fish} (hf : Ends f) {command : Command} (hunused : CellUnused f command)
    (hstep : fishStep f command = some f') : Ends f' := by
  obtain ⟨cells, hchain, hfree⟩ := hf
  have hlists := lists_display hchain
  cases command with
  | rtc_add user =>
    obtain ⟨f₁, cells₁, hadd, hlists₁, hfree₁, -⟩ := hlists.add hfree user fun hplace i hmalloc hi =>
      hunused hplace i hmalloc ⟨cells, hchain, hi⟩
    have hf' : (mp1_ioctl_add f user).2 = f' := Option.some.inj hstep
    rw [hadd] at hf'
    exact ⟨cells₁, hf' ▸ hlists₁.chain, hf' ▸ hfree₁⟩
  | rtc_remove arg =>
    obtain ⟨f₁, cells₁, hremove, hlists₁, hfree₁, -⟩ := hlists.remove hfree arg
    rw [fishStep, Fish.step, hremove] at hstep
    obtain rfl : f₁ = f' := Option.some.inj hstep
    exact ⟨cells₁, hlists₁.chain, hfree₁⟩
  | rtc_find location =>
    rw [fishStep, Fish.step, hlists.find] at hstep
    obtain rfl : f = f' := Option.some.inj hstep
    exact ⟨cells, hchain, hfree⟩
  | rtc_sync arg =>
    obtain ⟨f₁, hsync, hlists₁, hlocation⟩ := hlists.sync arg
    rw [fishStep, Fish.step, hsync] at hstep
    obtain rfl : f₁ = f' := Option.some.inj hstep
    exact ⟨cells, hlists₁.chain, fun i hi => (hlocation i).trans (hfree i hi)⟩
  | tasklet =>
    obtain ⟨f₁, htasklet, hlists₁, hlocation⟩ := hlists.tasklet
    rw [fishStep, Fish.step, htasklet] at hstep
    obtain rfl : f₁ = f' := Option.some.inj hstep
    exact ⟨cells, hlists₁.chain, fun i hi => (hlocation i).trans (hfree i hi)⟩

/-- A structure that is added again leads back to itself. -/
theorem add_goes_round {f : Fish} {user : Blink} {i : Fin BLINK_NUM} (hplace : user.location < 80 * 25)
    (hmalloc : mp1_malloc f = some i) (hon : OnList f i) :
    ¬ ∃ cells, (mp1_ioctl_add f user).2.links.Chain cells := by
  obtain ⟨cells, hchain, hi⟩ := hon
  have hlinks : (mp1_ioctl_add f user).2.links = f.links.push i := by
    rw [mp1_ioctl_add, if_neg (UInt16.not_le.mpr hplace), hmalloc]
    refine Links.ext rfl (funext fun j => ?_)
    by_cases hj : j = i
    · simp [Fish.links, Links.push, mp1_poke, hj]
    · simp [Fish.links, Links.push, mp1_poke, hj]
  rw [hlinks]
  exact hchain.not_push hi

/-- The tasklet returns after each of a sequence of calls if and only if no call adds a character
    in a structure that is still on the list. A character at location 0 invites that: its
    structure looks free. The calls need not succeed. -/
theorem tasklet_returns_iff_unused (vmem_base_addr : UInt32) (video : Mem) (commands : List Command) :
    (∀ before, before <+: commands → ∀ f, run fishStep (Fish.start vmem_base_addr video) before = some f →
      (mp1_rtc_tasklet f).isSome = true) ↔
    Guarded fishStep CellUnused (Fish.start vmem_base_addr video) commands := by
  have hreturns (f : Fish) (hf : Ends f) : (mp1_rtc_tasklet f).isSome = true := by
    obtain ⟨cells, hchain, -⟩ := hf
    exact (tasklet_returns_iff f).mpr ⟨cells, hchain⟩
  have hbreak (f : Fish) (command : Command) (_ : Ends f) (hused : ¬ CellUnused f command) :
      ∃ f', fishStep f command = some f' ∧ ¬ (mp1_rtc_tasklet f').isSome = true := by
    cases command with
    | rtc_add user =>
      simp only [CellUnused, not_forall, not_not] at hused
      obtain ⟨hplace, i, hmalloc, hon⟩ := hused
      refine ⟨_, rfl, ?_⟩
      rw [tasklet_returns_iff]
      exact add_goes_round hplace hmalloc hon
    | rtc_remove | rtc_find | rtc_sync | tasklet => exact absurd trivial hused
  exact always_iff_guarded hreturns (fun _ _ _ hf => hf.step) hbreak ⟨[], rfl, fun _ _ => rfl⟩

end lacos.fish
