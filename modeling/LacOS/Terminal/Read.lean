import LacOS.Keyboard.History
import LacOS.Terminal

open memory lacos.lib lacos.keyboard

namespace lacos.terminal

/-- The console once the line of terminal `t` has been taken. -/
def takeLine (con : Console) (t : Fin MAX_TERM_NUM) : Console :=
  con.setTerm t { con.terminals t with new_line := false }

/-- Taking a line leaves its characters in the key buffer. -/
theorem takeLine_line (con : Console) (t u : Fin MAX_TERM_NUM) :
    line ((takeLine con t).terminals u) = line (con.terminals u) := by
  by_cases hu : u = t
  · rw [takeLine, hu, Console.setTerm_same]
    rfl
  · rw [takeLine, Console.setTerm_other _ _ _ hu]

/-- The console `terminal_read` leaves behind. -/
def afterRead (con : Console) : Console :=
  clear_buffer (add_to_history (takeLine con con.sched_term_id) (key_buf con.sched_term_id))

/-- What `terminal_read` returns, writes and leaves behind. -/
theorem terminal_read_eq (k : Kernel) (m : Mem) (buf nbytes : UInt32)
    (hready : (k.terminals k.sched_term_id).new_line = true) :
    terminal_read k m buf nbytes =
      some (((line (k.terminals k.sched_term_id)).length : Int),
        blit m buf (takeLine k.toConsole k.sched_term_id).termMem (key_buf k.sched_term_id) nbytes.toNat,
        sti ((cli k).onConsole afterRead)) := by
  have hlength : toInt32 (strlen (takeLine k.toConsole k.sched_term_id).termMem (key_buf k.sched_term_id)) =
      (line (k.terminals k.sched_term_id)).length := by
    have hstrlen := strlen_line (takeLine k.toConsole k.sched_term_id) k.sched_term_id
    have hle := line_length_le (k.terminals k.sched_term_id)
    rw [takeLine_line] at hstrlen
    simp only [KEY_BUF_SIZE] at hle
    rw [toInt32_of_lt (by omega), hstrlen]
  rw [← hlength, ← memcpy_from_eq_blit]
  simp only [terminal_read, hready, if_true, takeLine, afterRead, Kernel.onConsole, cli]

/-- A read that returns has found a complete line. -/
theorem terminal_read_ready {k : Kernel} {m : Mem} {buf nbytes : UInt32} {result : Int × Mem × Kernel}
    (hread : terminal_read k m buf nbytes = some result) : (k.terminals k.sched_term_id).new_line = true := by
  by_contra hready
  rw [terminal_read, if_neg hready] at hread
  cases hread

/-- A read changes no task. -/
theorem terminal_read_toTasks {k k' : Kernel} {m m' : Mem} {buf nbytes : UInt32} {value : Int}
    (hread : terminal_read k m buf nbytes = some (value, m', k')) : k'.toTasks = k.toTasks := by
  rw [terminal_read_eq k m buf nbytes (terminal_read_ready hread)] at hread
  obtain ⟨-, hrest⟩ := Prod.mk.inj (Option.some.inj hread)
  obtain ⟨-, hk'⟩ := Prod.mk.inj hrest
  rw [← hk', sti_toTasks, Kernel.onConsole_toTasks, cli_toTasks]

/-- What `terminal_read` does to the terminals if `add_to_history` is well behaved. -/
theorem afterRead_eq (con : Console)
    (hwipes : ¬ Wipes ((takeLine con con.sched_term_id).terminals con.vis_term_id)
      (line (con.terminals con.sched_term_id))) :
    afterRead con = (takeLine con con.sched_term_id).setTerm con.vis_term_id
      (clearLine (record ((takeLine con con.sched_term_id).terminals con.vis_term_id)
        (line (con.terminals con.sched_term_id)).dropLast)) := by
  have hvis : (takeLine con con.sched_term_id).vis_term_id = con.vis_term_id := rfl
  have hadd := add_to_history_eq (takeLine con con.sched_term_id) con.sched_term_id
    (by rwa [takeLine_line, hvis])
  rw [takeLine_line, hvis] at hadd
  rw [afterRead, hadd, clear_buffer_eq]
  simp only [Console.setTerm_vis_term_id, hvis, Console.setTerm_same, Console.setTerm_setTerm]

/-- The characters delivered are the line. -/
theorem blit_line (con : Console) (t : Fin MAX_TERM_NUM) (m : Mem) (buf nbytes : UInt32)
    (hbytes : (line (con.terminals t)).length ≤ nbytes.toNat) :
    (List.range (line (con.terminals t)).length).map (fun i =>
      blit m buf (takeLine con t).termMem (key_buf t) nbytes.toNat (buf + UInt32.ofNat i)) =
        line (con.terminals t) := by
  apply List.ext_getElem
  · simp
  · intro i hi hi'
    have hnbytes := nbytes.toNat_lt
    have hline : i < (line ((takeLine con t).terminals t)).length := by rwa [takeLine_line]
    rw [List.getElem_map, List.getElem_range, blit_inside _ _ _ _ (by omega) (by omega), line_byte _ t hline]
    simp only [takeLine_line]

end lacos.terminal
