import Uesi.Construction.Syscall.Dirents
import Uesi.Proof.Syscall.Duplicates

namespace Uesi.Files

open Library Vfs

/-- The buffer of a call of `sys_getdents`. -/
structure Buffer where
  dirp : Nat
  count : Nat

/-- A buffer that `sys_getdents` accepts. -/
structure Buffer.Valid (buffer : Buffer) : Prop where
  address : buffer.dirp ≠ 0
  size : buffer.count ≠ 0
  range : isUserRange buffer.dirp buffer.count = true

/-- Calls of `sys_getdents` until one returns 0, with all records, or nothing if no call returns 0. -/
def listDirectory (pid fd : Nat) : List Buffer → Exec (Option (List LinuxDirent))
  | [] => return none
  | buffer :: rest => do
      match ← sysGetdents pid fd buffer.dirp buffer.count with
      | .error _ => return none
      | .ok (total, records) =>
          if total = 0 then return some []
          return (← listDirectory pid fd rest).map (records ++ ·)

/-- What a listing shows of an entry: its number, its name and its type. -/
abbrev Shown := Nat × Str × Nat

def LinuxDirent.shown (record : LinuxDirent) : Shown := (record.ino, record.name, record.type)

/-- The number and the type of a node under a name. -/
def showNode (tmpfs : Tmpfs) (node : NodeId) (name : Str) : Shown :=
  match tmpfs.nodes node with
  | some found => (found.ino, name, (found.data.vfsType >>> 12).toNat)
  | none => (0, name, 0)

/-- What an entry of a directory is. -/
def showEntry (tmpfs : Tmpfs) (entry : TmpfsDirent) : Shown := showNode tmpfs entry.node entry.name

/-- The name that fits into a `vfs_dirent_t`. -/
def shortName (entry : TmpfsDirent) : Str := entry.name.take (vfsMaxName - 1)

/-- The length of the record of an entry. -/
def recordLength (entry : TmpfsDirent) : Nat := linuxReclen (shortName entry)

/-- A descriptor of a process stands for a directory with these entries. -/
structure OpenDirectory (kernel : Kernel) (pid fd : Nat) (id : FileId) (file : OpenFile)
    (entries : List TmpfsDirent) : Prop where
  inside : fd < maxOpenFiles
  points : ∃ process, kernel.processes pid = some process ∧ (process.fdTable fd).file = some id
  opened : kernel.files id = some file
  vnode : ∃ vnode, kernel.vfs.vnodes file.vnode = some vnode ∧ vnode.mode &&& vfsIfmt = vfsIfdir ∧
    ∃ node count, kernel.vfs.tmpfs.nodes vnode.node = some node ∧ node.data = .dir entries count
  live : ∀ entry ∈ entries, ∃ node, kernel.vfs.tmpfs.nodes entry.node = some node

/-- Each buffer holds all records that are left, or some of the next records fill it exactly. -/
inductive Fills : (Nat → Nat) → List Nat → Prop where
  | rest {sizes : Nat → Nat} {lengths : List Nat} (fit : lengths.sum ≤ sizes 0) : Fills sizes lengths
  | full {sizes : Nat → Nat} {part later : List Nat} (exact : part.sum = sizes 0)
      (behind : Fills (fun call => sizes (call + 1)) later) : Fills sizes (part ++ later)

section Packing

/-- The number of records from the front of a list that fit into the room. -/
def fitting (room : Nat) : List Nat → Nat
  | [] => 0
  | length :: rest => if length ≤ room then fitting (room - length) rest + 1 else 0

/-- The number of records that a call takes from the directory and does not deliver. -/
def losing (room : Nat) : List Nat → Nat
  | [] => 0
  | length :: rest =>
      if length ≤ room then losing (room - length) rest
      else if room = 0 then 0 else 1

/-- A record that fits into the empty buffer is delivered. -/
theorem fitting_pos {room length : Nat} {rest : List Nat} (fits : length ≤ room) :
    0 < fitting room (length :: rest) := by
  rw [fitting, if_pos fits]
  exact Nat.succ_pos _

theorem fitting_add_losing_le (room : Nat) (lengths : List Nat) :
    fitting room lengths + losing room lengths ≤ lengths.length := by
  induction lengths generalizing room with
  | nil => exact Nat.le_refl 0
  | cons length rest ih =>
      rw [fitting, losing, List.length_cons]
      split
      · have less := ih (room - length)
        omega
      · split <;> omega

/-- A list that fits is delivered as a whole. -/
theorem fitting_of_sum_le {room : Nat} {lengths : List Nat} (fit : lengths.sum ≤ room) :
    fitting room lengths = lengths.length := by
  induction lengths generalizing room with
  | nil => rfl
  | cons length rest ih =>
      rw [List.sum_cons] at fit
      rw [fitting, if_pos (by omega), ih (by omega), List.length_cons]

/-- Records of positive lengths that fill the room are delivered, and nothing is lost. -/
theorem fitting_of_full (part : List Nat) {later : List Nat} (positive : ∀ length ∈ later, 0 < length) :
    fitting part.sum (part ++ later) = part.length ∧ losing part.sum (part ++ later) = 0 := by
  induction part with
  | nil =>
      cases later with
      | nil => exact ⟨rfl, rfl⟩
      | cons length rest =>
          have above : ¬ length ≤ 0 := Nat.not_le.mpr (positive length List.mem_cons_self)
          simp [fitting, losing, above]
  | cons length rest ih =>
      have fits : length ≤ (length :: rest).sum := by
        rw [List.sum_cons]
        omega
      have left : (length :: rest).sum - length = rest.sum := by
        rw [List.sum_cons]
        omega
      rw [List.cons_append, fitting, losing, if_pos fits, if_pos fits, left, ih.1, ih.2]
      exact ⟨rfl, rfl⟩

/-- A call that loses nothing delivers the whole list, or fills the buffer. -/
theorem full_of_losing_zero {room : Nat} {lengths : List Nat} (none : losing room lengths = 0) :
    lengths.sum ≤ room ∨ (lengths.take (fitting room lengths)).sum = room := by
  induction lengths generalizing room with
  | nil => exact Or.inl (Nat.zero_le room)
  | cons length rest ih =>
      rw [losing] at none
      by_cases fits : length ≤ room
      · rw [if_pos fits] at none
        rw [fitting, if_pos fits, List.take_succ_cons, List.sum_cons, List.sum_cons]
        rcases ih none with all | full
        · exact Or.inl (by omega)
        · exact Or.inr (by omega)
      · rw [if_neg fits] at none
        have empty : room = 0 := by
          by_contra more
          rw [if_neg more] at none
          omega
        right
        rw [fitting, if_neg fits, empty]
        rfl

/-- The buffers are filled exactly when no call loses a record. -/
theorem fills_iff (sizes : Nat → Nat) (lengths : List Nat) (positive : ∀ length ∈ lengths, 0 < length) :
    Fills sizes lengths ↔ losing (sizes 0) lengths = 0 ∧
      Fills (fun call => sizes (call + 1)) (lengths.drop (fitting (sizes 0) lengths)) := by
  constructor
  · intro fills
    cases fills with
    | rest fit =>
        rw [fitting_of_sum_le fit, List.drop_length]
        have counted := fitting_add_losing_le (sizes 0) lengths
        rw [fitting_of_sum_le fit] at counted
        exact ⟨by omega, .rest (Nat.zero_le _)⟩
    | full exact behind =>
        rename_i part later
        have later := fitting_of_full part fun length member =>
          positive length (List.mem_append_right _ member)
        rw [← exact, later.1, later.2, List.drop_left]
        exact ⟨rfl, behind⟩
  · rintro ⟨none, behind⟩
    rcases full_of_losing_zero none with all | full
    · exact .rest all
    · rw [← List.take_append_drop (fitting (sizes 0) lengths) lengths]
      exact .full full behind

end Packing

section Calls

variable {stop : Fault → Prop} {kernel : Kernel} {pid fd start : Nat} {id : FileId} {file : OpenFile}
  {entries : List TmpfsDirent}

theorem linuxReclen_pos (name : Str) : 0 < linuxReclen name := by
  unfold linuxReclen linuxDirentSize
  omega

/-- Another offset of the file leaves the directory open. -/
theorem OpenDirectory.move (directory : OpenDirectory kernel pid fd id file entries) (offset : Int) :
    OpenDirectory (kernel.setFile id (some { file with offset })) pid fd id { file with offset } entries where
  inside := directory.inside
  points := directory.points
  opened := Function.update_self ..
  vnode := directory.vnode
  live := directory.live

/-- The entries of a directory at an offset. -/
structure At (kernel : Kernel) (pid fd : Nat) (id : FileId) (entries : List TmpfsDirent) (start : Nat) : Prop where
  opened : ∃ file, OpenDirectory kernel pid fd id file entries ∧ file.offset = start

/-- `vfs_readdir` shows the entry at the offset and moves behind it. -/
theorem At.vfsReaddir (directory : At kernel pid fd id entries start) :
    Post stop (vfsReaddir id) (fun answer next => next.vfs = kernel.vfs ∧
      match entries.drop start with
      | [] => answer = .error .enoent ∧ next = kernel
      | entry :: _ => At next pid fd id entries (start + 1) ∧ ∃ dirent, answer = .ok dirent ∧
          dirent.name = shortName entry ∧
          (VfsDirent.toLinux dirent).shown = showNode kernel.vfs.tmpfs entry.node (shortName entry)) kernel := by
  obtain ⟨file, directory, offset⟩ := directory
  obtain ⟨vnode, found, mode, node, count, stored, data⟩ := directory.vnode
  have isDirectory : ¬ vnode.mode &&& vfsIfmt ≠ vfsIfdir := not_not.mpr mode
  simp only [Files.vfsReaddir, tmpfsReaddir, post_bind, post_readFile directory.opened, post_onVfs,
    post_readVnode found, post_readNode stored, if_neg isDirectory, data, offset, Int.toNat_natCast]
  cases rest : entries.drop start with
  | nil => exact ⟨rfl, rfl, rfl⟩
  | cons entry later =>
      obtain ⟨target, live⟩ := directory.live entry (List.mem_of_mem_drop (rest ▸ List.mem_cons_self))
      simp only [post_bind, post_readNode live, post_pure, post_writeFile]
      refine ⟨rfl, ⟨_, directory.move _, by push_cast; rfl⟩, _, rfl, rfl, ?_⟩
      simp only [LinuxDirent.shown, VfsDirent.toLinux, showNode, live]
      rfl

/-- The lengths of the records from an offset on. -/
def lengthsFrom (entries : List TmpfsDirent) (start : Nat) : List Nat := (entries.drop start).map recordLength

theorem lengthsFrom_pos {length : Nat} (member : length ∈ lengthsFrom entries start) : 0 < length := by
  obtain ⟨entry, _, rfl⟩ := List.mem_map.mp member
  exact linuxReclen_pos _

/-- What the loop of `sys_getdents` does from an offset on with the room that is left: it delivers the
records that fit, and takes the next one from the directory unless the buffer is full. -/
structure Filled (kernel : Kernel) (pid fd : Nat) (id : FileId) (entries : List TmpfsDirent)
    (start written room : Nat) (total : Nat) (records : List LinuxDirent) (next : Kernel) : Prop where
  vfs : next.vfs = kernel.vfs
  offset : At next pid fd id entries
    (start + fitting room (lengthsFrom entries start) + losing room (lengthsFrom entries start))
  grows : written + records.length ≤ total
  still : records = [] → total = written
  shown : records.map LinuxDirent.shown =
    ((entries.drop start).take (fitting room (lengthsFrom entries start))).map
      fun entry => showNode kernel.vfs.tmpfs entry.node (shortName entry)

/-- The loop stops where no record is left or the buffer is full. -/
theorem At.filled_nothing (directory : At kernel pid fd id entries start) (room written : Nat)
    (ends : entries.drop start = [] ∨ room = 0) :
    Filled kernel pid fd id entries start written room written [] kernel := by
  have nothing : fitting room (lengthsFrom entries start) = 0 ∧ losing room (lengthsFrom entries start) = 0 := by
    rcases ends with none | rfl
    · rw [lengthsFrom, none]
      exact ⟨rfl, rfl⟩
    · exact fitting_of_full [] fun _ => lengthsFrom_pos
  refine ⟨rfl, ?_, le_refl _, fun _ => rfl, ?_⟩
  · rw [nothing.1, nothing.2]
    exact directory
  · rw [nothing.1]
    rfl

/-- The loop delivers the records that fit, and loses the next one unless the buffer is full. -/
theorem At.fillDirents {count : Nat} (directory : At kernel pid fd id entries start) (fuel written : Nat)
    (enough : count ≤ written + fuel) (below : written ≤ count) :
    Post stop (fillDirents id count fuel written) (fun answer next => ∃ total records,
      answer = .ok (total, records) ∧
        Filled kernel pid fd id entries start written (count - written) total records next) kernel := by
  induction fuel generalizing kernel start written with
  | zero =>
      have stops : ¬ written < count := Nat.not_lt.mpr enough
      simp only [Files.fillDirents, if_neg stops]
      exact ⟨written, [], rfl, directory.filled_nothing _ written (Or.inr (by omega))⟩
  | succ fuel ih =>
      simp only [Files.fillDirents]
      by_cases done : count ≤ written
      · rw [if_pos done]
        exact ⟨written, [], rfl, directory.filled_nothing _ written (Or.inr (by omega))⟩
      · rw [if_neg done, post_bind]
        apply directory.vfsReaddir.mono
        rintro answer next ⟨same, read⟩
        cases rest : entries.drop start with
        | nil =>
            rw [rest] at read
            obtain ⟨rfl, rfl⟩ := read
            have nothing := directory.filled_nothing (count - written) written (Or.inl rest)
            by_cases some_ : 0 < written
            · simp only [if_pos some_]
              exact ⟨written, [], rfl, nothing⟩
            · obtain rfl : written = 0 := Nat.eq_zero_of_not_pos some_
              exact ⟨0, [], rfl, nothing⟩
        | cons entry later =>
            rw [rest] at read
            obtain ⟨moved, dirent, rfl, name, shown⟩ := read
            have length : linuxReclen dirent.name = recordLength entry := by rw [name, recordLength]
            have lengths : lengthsFrom entries start = recordLength entry :: lengthsFrom entries (start + 1) := by
              rw [lengthsFrom, lengthsFrom, ← List.drop_drop, rest]
              rfl
            simp only [length]
            by_cases large : count < written + recordLength entry
            · have tooLarge : ¬ recordLength entry ≤ count - written := by omega
              have room : count - written ≠ 0 := by omega
              rw [if_pos large]
              refine ⟨written, [], rfl, same, ?_, le_refl _, fun _ => rfl, ?_⟩
              · rw [lengths, fitting, losing, if_neg tooLarge, if_neg tooLarge, if_neg room]
                exact moved
              · rw [lengths, fitting, if_neg tooLarge]
                rfl
            · have fits : recordLength entry ≤ count - written := by omega
              have positive : 0 < recordLength entry := linuxReclen_pos _
              have room : count - written - recordLength entry = count - (written + recordLength entry) := by omega
              rw [if_neg large, post_bind]
              apply (ih moved (written + recordLength entry) (by omega) (by omega)).mono
              rintro _ last ⟨total, records, rfl, filled⟩
              refine ⟨total, _, rfl, filled.vfs.trans same, ?_, ?_, fun never => absurd never (by simp), ?_⟩
              · rw [lengths, fitting, losing, if_pos fits, if_pos fits, room]
                have behind := filled.offset
                rwa [show start + 1 + fitting (count - (written + recordLength entry)) (lengthsFrom entries (start + 1)) =
                  start + (fitting (count - (written + recordLength entry)) (lengthsFrom entries (start + 1)) + 1) by
                    omega] at behind
              · have grows := filled.grows
                rw [List.length_cons]
                omega
              · have later_ : entries.drop (start + 1) = later := by
                  rw [← List.drop_drop, rest]
                  rfl
                have delivered := filled.shown
                rw [same, later_] at delivered
                rw [lengths, fitting, if_pos fits, room, rest, List.take_succ_cons, List.map_cons, List.map_cons,
                  delivered, shown]

/-- A call of `sys_getdents` with a valid buffer. -/
theorem At.sysGetdents {buffer : Buffer} (directory : At kernel pid fd id entries start) (valid : buffer.Valid) :
    Post stop (sysGetdents pid fd buffer.dirp buffer.count) (fun answer next => ∃ total records,
      answer = .ok (total, records) ∧
        Filled kernel pid fd id entries start 0 buffer.count total records next) kernel := by
  obtain ⟨file, opened, offset⟩ := directory
  obtain ⟨process, running, points⟩ := opened.points
  obtain ⟨vnode, found, mode, _⟩ := opened.vnode
  have isDirectory : ¬ vnode.mode &&& vfsIfmt ≠ vfsIfdir := not_not.mpr mode
  have accepted : ¬ (buffer.dirp = 0 ∨ buffer.count = 0) := not_or.mpr ⟨valid.address, valid.size⟩
  simp only [Files.sysGetdents, if_neg accepted, valid.range, Bool.not_true, Bool.false_eq_true, if_false, post_bind,
    post_fdGetfile running opened.inside points, post_readFile opened.opened, post_onVfs, post_readVnode found,
    if_neg isDirectory]
  exact At.fillDirents ⟨file, opened, offset⟩ buffer.count 0 (by omega) (by omega)

theorem lengthsFrom_drop (count : Nat) :
    (lengthsFrom entries start).drop count = lengthsFrom entries (start + count) := by
  rw [lengthsFrom, lengthsFrom, ← List.map_drop, List.drop_drop]

theorem lengthsFrom_length : (lengthsFrom entries start).length = entries.length - start := by
  rw [lengthsFrom, List.length_map, List.length_drop]

/-- What an entry becomes in a record. -/
def showShort (tmpfs : Tmpfs) (entry : TmpfsDirent) : Shown := showNode tmpfs entry.node (shortName entry)

/-- The records of a listing: they are complete exactly when the buffers are filled. -/
structure ListedFrom (kernel : Kernel) (entries : List TmpfsDirent) (start : Nat) (sizes : Nat → Nat)
    (records : List LinuxDirent) : Prop where
  few : records.length ≤ entries.length - start
  all : records.length = entries.length - start ↔ Fills sizes (lengthsFrom entries start)
  shown : records.map LinuxDirent.shown ⊆ (entries.drop start).map (showShort kernel.vfs.tmpfs)
  complete : Fills sizes (lengthsFrom entries start) →
    records.map LinuxDirent.shown = (entries.drop start).map (showShort kernel.vfs.tmpfs)

/-- The records of one call stand before those of the later calls. -/
theorem Filled.listed {next : Kernel} {sizes : Nat → Nat} {total : Nat} {records later : List LinuxDirent}
    (filled : Filled kernel pid fd id entries start 0 (sizes 0) total records next)
    (listed : ListedFrom next entries (start + fitting (sizes 0) (lengthsFrom entries start) +
      losing (sizes 0) (lengthsFrom entries start)) (fun call => sizes (call + 1)) later) :
    ListedFrom kernel entries start sizes (records ++ later) := by
  have bound := fitting_add_losing_le (sizes 0) (lengthsFrom entries start)
  rw [lengthsFrom_length] at bound
  have length : records.length = fitting (sizes 0) (lengthsFrom entries start) := by
    have lengths := congrArg List.length filled.shown
    rw [List.length_map, List.length_map, List.length_take, List.length_drop] at lengths
    omega
  have iff := fills_iff sizes (lengthsFrom entries start) fun _ => lengthsFrom_pos
  rw [lengthsFrom_drop] at iff
  have few := listed.few
  have all := listed.all
  refine ⟨by rw [List.length_append]; omega, ?_, ?_, ?_⟩
  · rw [List.length_append, iff]
    constructor
    · intro equal
      have none : losing (sizes 0) (lengthsFrom entries start) = 0 := by omega
      rw [none, Nat.add_zero] at all
      exact ⟨none, all.mp (by omega)⟩
    · rintro ⟨none, behind⟩
      rw [none, Nat.add_zero] at all
      have rest := all.mpr behind
      omega
  · rw [List.map_append, filled.shown]
    apply List.append_subset.mpr
    constructor
    · exact List.map_subset _ (List.take_subset _ _)
    · intro record member
      have behind := listed.shown member
      rw [filled.vfs, Nat.add_assoc, ← List.drop_drop] at behind
      exact List.map_subset _ (List.drop_subset _ _) behind
  · intro fills
    obtain ⟨none, behind⟩ := iff.mp fills
    have rest := listed.complete
    rw [none, Nat.add_zero, filled.vfs, ← List.drop_drop] at rest
    rw [List.map_append, filled.shown, rest behind]
    exact (List.map_append ..).symm.trans (congrArg _ (List.take_append_drop _ _))

/-- From every offset the calls come to one that returns 0. -/
theorem At.listDirectory (directory : At kernel pid fd id entries start) (inside : start ≤ entries.length)
    (buffers : Nat → Buffer) (valid : ∀ call, (buffers call).Valid)
    (large : ∀ call, ∀ entry ∈ entries, recordLength entry ≤ (buffers call).count) :
    ∃ calls records next, listDirectory pid fd ((List.range calls).map buffers) kernel = .ok (some records) next ∧
      ListedFrom kernel entries start (fun call => (buffers call).count) records := by
  induction remaining : entries.length - start using Nat.strong_induction_on
    generalizing kernel start buffers with
  | _ remaining ih =>
      subst remaining
      have first : Post (fun _ => False) (Files.sysGetdents pid fd (buffers 0).dirp (buffers 0).count) (fun answer next =>
          ∃ total records, answer = .ok (total, records) ∧
            Filled kernel pid fd id entries start 0 (buffers 0).count total records next) kernel :=
        directory.sysGetdents (valid 0)
      obtain ⟨_, next, ran, total, records, rfl, filled⟩ := first.result
      have run (calls : Nat) : Files.listDirectory pid fd ((List.range (calls + 1)).map buffers) kernel =
          (if total = 0 then pure (some [])
            else do
              let others ← Files.listDirectory pid fd ((List.range calls).map fun call => buffers (call + 1))
              return others.map (records ++ ·)) next := by
        rw [List.range_succ_eq_map, List.map_cons, List.map_map, Files.listDirectory]
        change EStateM.bind _ _ _ = _
        rw [EStateM.bind, ran]
        rfl
      cases rest : entries.drop start with
      | nil =>
          have lengths : lengthsFrom entries start = [] := by rw [lengthsFrom, rest]; rfl
          have none : records = [] := by
            have delivered := filled.shown
            rw [rest, List.take_nil, List.map_nil] at delivered
            exact List.map_eq_nil_iff.mp delivered
          have length : entries.length - start = 0 := by rw [← List.length_drop, rest]; rfl
          refine ⟨1, [], next, ?_, ?_⟩
          · rw [run 0, if_pos (filled.still none)]
            rfl
          · have fills : Fills (fun call => (buffers call).count) (lengthsFrom entries start) := by
              rw [lengths]
              exact .rest (Nat.zero_le _)
            refine ⟨Nat.zero_le _, ⟨fun _ => fills, fun _ => length.symm⟩, List.nil_subset _, ?_⟩
            rw [rest]
            exact fun _ => rfl
      | cons entry later =>
          have member : entry ∈ entries := List.mem_of_mem_drop (rest ▸ List.mem_cons_self)
          have lengths : lengthsFrom entries start = recordLength entry :: later.map recordLength := by
            rw [lengthsFrom, rest]
            rfl
          have some_ : 0 < fitting (buffers 0).count (lengthsFrom entries start) := by
            rw [lengths]
            exact fitting_pos (large 0 entry member)
          have bound := fitting_add_losing_le (buffers 0).count (lengthsFrom entries start)
          rw [lengthsFrom_length] at bound
          obtain ⟨calls, others, last, listed, from_⟩ := ih _ (by omega) filled.offset (by omega)
            (fun call => buffers (call + 1)) (fun call => valid _) (fun call => large _) rfl
          have more : records ≠ [] := by
            rintro rfl
            have lengths := congrArg List.length filled.shown
            rw [List.length_map, List.length_map, List.length_take, List.length_drop] at lengths
            rw [List.length_nil] at lengths
            omega
          have positive : total ≠ 0 := by
            have grows := filled.grows
            have length := List.length_pos_of_ne_nil more
            omega
          refine ⟨calls + 1, records ++ others, last, ?_, filled.listed from_⟩
          rw [run calls, if_neg positive]
          change EStateM.bind _ _ _ = _
          rw [EStateM.bind, listed]
          rfl

end Calls

/-- A listing delivers each entry of the directory once, with its number, name and type. -/
def Complete (kernel : Kernel) (entries : List TmpfsDirent) (records : List LinuxDirent) : Prop :=
  (records.map LinuxDirent.shown).Perm (entries.map (showEntry kernel.vfs.tmpfs))

theorem showShort_eq {tmpfs : Tmpfs} {entry : TmpfsDirent} (short : entry.name.length < vfsMaxName) :
    showShort tmpfs entry = showEntry tmpfs entry := by
  rw [showShort, showEntry, shortName, List.take_of_length_le (Nat.le_sub_one_of_lt short)]

theorem showNode_name (tmpfs : Tmpfs) (node : NodeId) (name : Str) : (showNode tmpfs node name).2.1 = name := by
  unfold showNode
  split <;> rfl

/-- Calls of `sys_getdents` list a directory completely exactly when the names fit and no buffer has room
left in front of a record that does not fit. -/
theorem sysGetdents_complete_iff (kernel : Kernel) (pid fd : Nat) (id : FileId) (file : OpenFile)
    (entries : List TmpfsDirent) (opened : OpenDirectory kernel pid fd id file entries) (start : file.offset = 0)
    (buffers : Nat → Buffer) (valid : ∀ call, (buffers call).Valid)
    (large : ∀ call, ∀ entry ∈ entries, recordLength entry ≤ (buffers call).count) :
    ∃ calls records next, listDirectory pid fd ((List.range calls).map buffers) kernel = .ok (some records) next ∧
      (Complete kernel entries records ↔ (∀ entry ∈ entries, entry.name.length < vfsMaxName) ∧
        Fills (fun call => (buffers call).count) (entries.map recordLength)) := by
  have first : At kernel pid fd id entries 0 := ⟨file, opened, start⟩
  obtain ⟨calls, records, next, ran, listed⟩ := first.listDirectory (Nat.zero_le _) buffers valid large
  refine ⟨calls, records, next, ran, ?_, ?_⟩
  · intro complete
    have length := complete.length_eq
    rw [List.length_map, List.length_map] at length
    refine ⟨?_, listed.all.mp length⟩
    intro entry member
    have delivered := complete.mem_iff.mpr (List.mem_map_of_mem member)
    obtain ⟨other, _, same⟩ := List.mem_map.mp (listed.shown delivered)
    have name := congrArg (·.2.1) same
    simp only [showShort, showEntry, showNode_name] at name
    rw [← name, shortName, List.length_take, vfsMaxName]
    omega
  · rintro ⟨short, fills⟩
    rw [Complete, listed.complete fills, List.drop_zero]
    apply List.Perm.of_eq
    exact List.map_congr_left fun entry member => showShort_eq (short entry member)

/-- The new kernel after its process made `/a` and `/b` and opened `/` as descriptor 5. -/
def listedKernel : Kernel :=
  finalState (do
    let _ ← sysOpen 1 1 (.ok [47, 97]) (vfsOCreat ||| vfsORdwr) 0x1A4
    let _ ← sysOpen 1 1 (.ok [47, 98]) (vfsOCreat ||| vfsORdwr) 0x1A4
    sysOpen 1 1 (.ok [47]) vfsORdonly 0) newKernel

/-- The open file of `/`. -/
def listedFile : OpenFile where
  vnode := 0
  offset := 0
  flags := vfsORdonly
  refcount := 1

/-- The entries of `/`. -/
def listedEntries : List TmpfsDirent := [⟨[98], 2⟩, ⟨[97], 1⟩]

deriving instance DecidableEq for OpenFile

/-- The entries of a directory. -/
def listing : TmpfsData → Option (List TmpfsDirent)
  | .dir entries _ => some entries
  | .file _ => none
  | .symlink _ => none

theorem listedKernel_open : OpenDirectory listedKernel 1 5 2 listedFile listedEntries where
  inside := by decide
  points := by
    have slot : ((listedKernel.processes 1).bind fun process => (process.fdTable 5).file) = some 2 := by
      decide +kernel
    exact Option.bind_eq_some_iff.mp slot
  opened := by decide +kernel
  vnode := by
    have vnode : (listedKernel.vfs.vnodes 0).map (fun vnode => (vnode.mode &&& vfsIfmt, vnode.node)) =
        some (vfsIfdir, 0) := by decide +kernel
    have node : (listedKernel.vfs.tmpfs.nodes 0).bind (listing ·.data) = some listedEntries := by decide +kernel
    obtain ⟨found, stored, same⟩ := Option.map_eq_some_iff.mp vnode
    obtain ⟨parent, here, data⟩ := Option.bind_eq_some_iff.mp node
    obtain ⟨mode, number⟩ := Prod.mk.inj same
    refine ⟨found, stored, mode, parent, ?_⟩
    rw [number]
    cases dir : parent.data with
    | dir entries count =>
        rw [dir] at data
        cases data
        exact ⟨count, here, rfl⟩
    | file contents =>
        rw [dir] at data
        exact absurd data (by simp [listing])
    | symlink target =>
        rw [dir] at data
        exact absurd data (by simp [listing])
  live := by
    intro entry member
    apply Option.isSome_iff_exists.mp
    revert entry
    decide +kernel

/-- Buffers of 64 bytes list `/` completely. -/
theorem sysGetdents_complete_root :
    (∀ entry ∈ listedEntries, entry.name.length < vfsMaxName) ∧ Fills (fun _ => 64) (listedEntries.map recordLength) ∧
      ∃ calls records next, listDirectory 1 5 ((List.range calls).map fun _ => ⟨0x400000, 64⟩) listedKernel =
        .ok (some records) next ∧ Complete listedKernel listedEntries records := by
  have short : ∀ entry ∈ listedEntries, entry.name.length < vfsMaxName := by decide
  have fills : Fills (fun _ => 64) (listedEntries.map recordLength) := .rest (by decide)
  obtain ⟨calls, records, next, ran, iff⟩ := sysGetdents_complete_iff listedKernel 1 5 2 listedFile listedEntries
    listedKernel_open rfl (fun _ => ⟨0x400000, 64⟩) (fun _ => ⟨by decide, by decide, by decide⟩)
    (fun _ => by decide)
  exact ⟨short, fills, calls, records, next, ran, iff.mpr ⟨short, fills⟩⟩

/-- With buffers of 40 bytes, which hold each of the records, `/a` is never listed. -/
theorem sysGetdents_loses_entry :
    listedEntries.map recordLength = [32, 32] ∧
      (match listDirectory 1 5 [⟨0x400000, 40⟩, ⟨0x400000, 40⟩] listedKernel with
        | .ok answer _ => answer.map (·.map LinuxDirent.shown)
        | .error _ _ => none) = some [(3, [98], 8)] := by decide +kernel

end Uesi.Files
