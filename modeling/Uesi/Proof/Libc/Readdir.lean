import Uesi.Construction.Libc.Readdir
import Uesi.Proof.Syscall.Dirents

namespace Uesi.Readdir

open Library Vfs Files

variable {dirent : VfsDirent} {start count : Nat}

/-- An entry whose fields are in the ranges of their types and whose name is a string in its array. -/
structure EntryOk (dirent : VfsDirent) : Prop where
  ino : dirent.ino < 2 ^ 64
  offLow : -2 ^ 63 ≤ dirent.off
  offHigh : dirent.off < 2 ^ 63
  type : dirent.type < 2 ^ 8
  short : dirent.name.length < vfsMaxName
  ends : 0 ∉ dirent.name

/-- What `readdir` shows of an entry. -/
def shownEntry (dirent : VfsDirent) : Dirent := ⟨dirent.ino, dirent.off, direntSize, dirent.type, dirent.name⟩

/-- The record of an entry stands at an offset of the buffer. -/
structure Encodes (buf : Memory) (start : Nat) (dirent : VfsDirent) : Prop where
  ino : load64 buf start = BitVec.ofNat 64 dirent.ino
  off : load64 buf (start + 8) = BitVec.ofInt 64 dirent.off
  reclen : load16 buf (start + 16) = BitVec.ofNat 16 (linuxReclen dirent.name)
  name : ∀ index, index ≤ dirent.name.length → buf (start + 18 + index) = nameByte dirent.name index
  type : buf (start + linuxReclen dirent.name - 1) = BitVec.ofNat 8 dirent.type

/-- The name and its terminator end before the last byte of the record. -/
theorem linuxReclen_room (name : Str) : 18 + name.length + 1 < linuxReclen name := by
  unfold linuxReclen linuxDirentSize
  omega

theorem linuxReclen_le (name : Str) : linuxReclen name ≤ name.length + 32 := by
  unfold linuxReclen linuxDirentSize
  omega

/-- A store of a record leaves the bytes outside the record. -/
theorem storeDirent_of_outside (buf : Memory) {other : Nat} (dirent : VfsDirent)
    (outside : other < start ∨ start + linuxReclen dirent.name ≤ other) :
    storeDirent buf start dirent other = buf other := by
  have room := linuxReclen_room dirent.name
  unfold storeDirent linuxDirentName
  rw [memset_of_outside _ (by omega), memcpy_of_outside _ (by omega), store16_of_outside _ (by omega),
    store64_of_outside _ (by omega), store64_of_outside _ (by omega)]

theorem storeDirent_encodes (buf : Memory) (start : Nat) (dirent : VfsDirent) :
    Encodes (storeDirent buf start dirent) start dirent := by
  have room := linuxReclen_room dirent.name
  -- The stores behind the header do not reach it.
  have header : ∀ offset, offset < 18 → storeDirent buf start dirent (start + offset) =
      store16 (store64 (store64 buf start (BitVec.ofNat 64 dirent.ino)) (start + 8) (BitVec.ofInt 64 dirent.off))
        (start + 16) (BitVec.ofNat 16 (linuxReclen dirent.name)) (start + offset) := by
    intro offset inside
    unfold storeDirent linuxDirentName
    rw [memset_of_outside _ (by omega), memcpy_of_outside _ (by omega)]
  constructor
  · calc load64 (storeDirent buf start dirent) start
        = load64 (store64 buf start (BitVec.ofNat 64 dirent.ino)) start := load64_congr fun offset inside => by
          rw [header offset (by omega), store16_of_outside _ (by omega), store64_of_outside _ (by omega)]
      _ = BitVec.ofNat 64 dirent.ino := load64_store64_self ..
  · calc load64 (storeDirent buf start dirent) (start + 8)
        = load64 (store64 (store64 buf start (BitVec.ofNat 64 dirent.ino)) (start + 8)
            (BitVec.ofInt 64 dirent.off)) (start + 8) := load64_congr fun offset inside => by
          rw [Nat.add_assoc, header (8 + offset) (by omega), store16_of_outside _ (by omega)]
      _ = BitVec.ofInt 64 dirent.off := load64_store64_self ..
  · rw [load16_congr fun offset inside => by rw [Nat.add_assoc, header (16 + offset) (by omega), ← Nat.add_assoc],
      load16_store16_self]
  · intro index inside
    unfold storeDirent linuxDirentName
    rw [memset_of_outside _ (by omega), memcpy_of_inside _ (by omega)]
  · unfold storeDirent
    rw [memset_of_inside _ le_rfl (by omega)]

/-- A record depends on its own bytes only. -/
theorem Encodes.congr {first second : Memory} (encodes : Encodes first start dirent)
    (same : ∀ other, start ≤ other → other < start + linuxReclen dirent.name → second other = first other) :
    Encodes second start dirent := by
  have room := linuxReclen_room dirent.name
  obtain ⟨ino, off, reclen, name, type⟩ := encodes
  constructor
  · exact (load64_congr fun offset _ => same _ (by omega) (by omega)).trans ino
  · exact (load64_congr fun offset _ => same _ (by omega) (by omega)).trans off
  · exact (load16_congr fun offset _ => same _ (by omega) (by omega)).trans reclen
  · exact fun index inside => (same _ (by omega) (by omega)).trans (name index inside)
  · exact (same _ (by omega) (by omega)).trans type

/-- The records of these entries stand one after another from an offset to another one. -/
def Laid (buf : Memory) : Nat → List VfsDirent → Nat → Prop
  | start, [], stop => start = stop
  | start, dirent :: rest, stop => Encodes buf start dirent ∧ Laid buf (start + linuxReclen dirent.name) rest stop

/-- The lengths of the records of entries. -/
def reclens (entries : List VfsDirent) : List Nat := entries.map fun dirent => linuxReclen dirent.name

/-- The entries that the loop delivers into the room that is left. -/
def delivered (room : Nat) (entries : List VfsDirent) : List VfsDirent :=
  entries.take (fitting room (reclens entries))

theorem delivered_cons {room : Nat} (rest : List VfsDirent) (fits : linuxReclen dirent.name ≤ room) :
    delivered room (dirent :: rest) = dirent :: delivered (room - linuxReclen dirent.name) rest := by
  unfold delivered reclens
  rw [List.map_cons, fitting, if_pos fits, List.take_succ_cons]

theorem delivered_of_large {room : Nat} (rest : List VfsDirent) (large : room < linuxReclen dirent.name) :
    delivered room (dirent :: rest) = [] := by
  unfold delivered reclens
  rw [List.map_cons, fitting, if_neg (by omega), List.take_zero]

/-- The loop of `sys_getdents` lays out the entries that it delivers and leaves the bytes before them. -/
theorem fillBuffer_laid {code : Errno} {entries : List VfsDirent} {written total : Nat} {buf filled : Memory}
    (below : written ≤ count) (ran : fillBuffer count code entries written buf = (.ok total, filled)) :
    Laid filled written (delivered (count - written) entries) total ∧
      ∀ other, other < written → filled other = buf other := by
  induction entries generalizing written buf with
  | nil =>
      have ends : written = total ∧ buf = filled := by
        rw [fillBuffer] at ran
        split_ifs at ran with full some_ nothing
        · simpa using ran
        · simpa using ran
        · obtain rfl : written = 0 := by omega
          simpa using ran
        · simp at ran
      obtain ⟨rfl, rfl⟩ := ends
      exact ⟨rfl, fun _ _ => rfl⟩
  | cons dirent rest ih =>
      have positive := linuxReclen_pos dirent.name
      rw [fillBuffer] at ran
      dsimp only at ran
      by_cases stops : count ≤ written ∨ count < written + linuxReclen dirent.name
      · have ends : written = total ∧ buf = filled := by
          split_ifs at ran with full large
          · simpa using ran
          · simpa using ran
          · omega
        obtain ⟨rfl, rfl⟩ := ends
        rw [delivered_of_large rest (by omega)]
        exact ⟨rfl, fun _ _ => rfl⟩
      · rw [if_neg (by omega), if_neg (by omega)] at ran
        obtain ⟨laid, kept⟩ := ih (by omega) ran
        rw [delivered_cons rest (by omega), Nat.sub_sub]
        refine ⟨⟨(storeDirent_encodes buf written dirent).congr fun other _ inside => kept other inside, laid⟩,
          fun other before => ?_⟩
        rw [kept other (by omega), storeDirent_of_outside _ _ (Or.inl before)]

/-- The records of an answer are those that the loop stores for some entries of `vfs_readdir`. -/
def Stores (count written : Nat) (answer : Except Errno (Nat × List LinuxDirent)) : Prop :=
  ∀ total records, answer = .ok (total, records) → ∃ entries code,
    (∀ buf, (fillBuffer count code entries written buf).1 = .ok total) ∧
    (delivered (count - written) entries).map VfsDirent.toLinux = records

/-- Where the loop ends without a further entry, it stores nothing more. -/
theorem stores_nothing (count written : Nat) : Stores count written (.ok (written, [])) := by
  intro total records answer
  obtain ⟨rfl, rfl⟩ := Prod.mk.inj (Except.ok.inj answer)
  refine ⟨[], .enoent, fun buf => ?_, rfl⟩
  rw [fillBuffer]
  split_ifs with full some_ code
  · rfl
  · rfl
  · rw [Nat.eq_zero_of_not_pos some_]
  · exact absurd rfl code

/-- An entry that fits is stored before those of the later rounds. -/
theorem Stores.cons {written total : Nat} {records : List LinuxDirent}
    (fits : written + linuxReclen dirent.name ≤ count)
    (later : Stores count (written + linuxReclen dirent.name) (.ok (total, records))) :
    Stores count written (.ok (total, VfsDirent.toLinux dirent :: records)) := by
  intro _ _ answer
  obtain ⟨rfl, rfl⟩ := Prod.mk.inj (Except.ok.inj answer)
  obtain ⟨entries, code, stored, shown⟩ := later _ _ rfl
  have positive := linuxReclen_pos dirent.name
  refine ⟨dirent :: entries, code, fun buf => ?_, ?_⟩
  · rw [fillBuffer, if_neg (by omega)]
    dsimp only
    rw [if_neg (by omega)]
    exact stored _
  · rw [delivered_cons entries (by omega), Nat.sub_sub, List.map_cons, shown]

/-- The records that the loop over a directory returns are those that it stores in the buffer, whatever the calls of
`vfs_readdir` return. -/
theorem fillDirents_stores {id : FileId} (fuel written : Nat) (kernel : Kernel) :
    Post (fun _ => True) (fillDirents id count fuel written) (fun answer _ => Stores count written answer) kernel := by
  induction fuel generalizing written kernel with
  | zero =>
      rw [fillDirents]
      exact Post.ite (fun _ => trivial) fun _ => stores_nothing count written
  | succ fuel ih =>
      rw [fillDirents]
      refine Post.ite (fun _ => stores_nothing count written) fun _ => ?_
      refine (Post.anything _ kernel).seq fun read next _ => ?_
      cases read with
      | error code =>
          refine Post.ite (fun _ => stores_nothing count written) fun none => ?_
          obtain rfl : written = 0 := Nat.eq_zero_of_not_pos none
          exact Post.ite (fun _ => stores_nothing count 0) fun _ _ _ answer => by cases answer
      | ok dirent =>
          refine Post.ite (fun _ => stores_nothing count written) fun fits => ?_
          refine (ih (written + linuxReclen dirent.name) next).seq fun answer last later => ?_
          cases answer with
          | error code => exact fun _ _ answer => by cases answer
          | ok result => exact Stores.cons (Nat.not_lt.mp fits) later

theorem Laid.le {buf : Memory} {stop : Nat} {entries : List VfsDirent} (laid : Laid buf start entries stop) :
    start ≤ stop := by
  induction entries generalizing start with
  | nil => exact le_of_eq laid
  | cons dirent rest ih =>
      have later := ih laid.2
      omega

/-- `strlen` finds the terminator of a name in the filled part. -/
theorem strlen_eq {dir : Dir} {name : Str} {offset fuel : Nat} (ends : 0 ∉ name) (enough : name.length < fuel)
    (inside : offset + name.length < dir.bufEnd)
    (bytes : ∀ index, index ≤ name.length → dir.buf (offset + index) = nameByte name index) :
    dir.strlen fuel offset = some name.length := by
  induction name generalizing offset fuel with
  | nil =>
      obtain ⟨fuel, rfl⟩ : ∃ rest, fuel = rest + 1 := ⟨fuel - 1, by simp at enough; omega⟩
      have first : dir.byte offset = some 0 := by
        rw [Dir.byte, if_pos (by simpa using inside)]
        exact congrArg some (bytes 0 le_rfl)
      rw [Dir.strlen, first]
      rfl
  | cons head tail ih =>
      obtain ⟨fuel, rfl⟩ : ∃ rest, fuel = rest + 1 := ⟨fuel - 1, by omega⟩
      rw [List.length_cons] at enough inside
      have first : dir.byte offset = some head.toBitVec := by
        rw [Dir.byte, if_pos (by omega)]
        exact congrArg some (bytes 0 (Nat.zero_le _))
      have goes : ¬ head.toBitVec = 0#8 := by
        intro zero
        exact ends (by rw [show head = 0 from UInt8.toBitVec_inj.mp zero]; exact List.mem_cons_self)
      have rest : dir.strlen fuel (offset + 1) = some tail.length :=
        ih (fun member => ends (List.mem_cons_of_mem _ member)) (by omega) (by omega) fun index small => by
          rw [Nat.add_assoc, Nat.add_comm 1]
          exact bytes (index + 1) (by rw [List.length_cons]; omega)
      simp [Dir.strlen, first, goes, rest]

/-- `memcpy` copies a name from the filled part. -/
theorem bytes_eq {dir : Dir} {name : Str} {offset : Nat} (inside : offset + name.length ≤ dir.bufEnd)
    (bytes : ∀ index, index < name.length → dir.buf (offset + index) = nameByte name index) :
    dir.bytes offset name.length = some name := by
  induction name generalizing offset with
  | nil => rfl
  | cons head tail ih =>
      rw [List.length_cons] at inside
      have first : dir.byte offset = some head.toBitVec := by
        rw [Dir.byte, if_pos (by omega)]
        exact congrArg some (bytes 0 (by rw [List.length_cons]; omega))
      have rest : dir.bytes (offset + 1) tail.length = some tail := ih (by omega) fun index small => by
        rw [Nat.add_assoc, Nat.add_comm 1]
        exact bytes (index + 1) (by rw [List.length_cons]; omega)
      simp [Dir.bytes, first, rest]

/-- `readdir` takes the record of an entry from the filled part and moves behind it. -/
theorem take_eq {dir : Dir} (ok : EntryOk dirent) (encodes : Encodes dir.buf dir.bufPos dirent)
    (inside : dir.bufPos + linuxReclen dirent.name ≤ dir.bufEnd) :
    dir.take = some (shownEntry dirent, { dir with bufPos := dir.bufPos + linuxReclen dirent.name }) := by
  have room := linuxReclen_room dirent.name
  have small := linuxReclen_le dirent.name
  have short : dirent.name.length < 256 := ok.short
  have reclen : dir.half (dir.bufPos + 16) = some (BitVec.ofNat 16 (linuxReclen dirent.name)) := by
    rw [Dir.half, if_pos (by omega), encodes.reclen]
  have length : (BitVec.ofNat 16 (linuxReclen dirent.name)).toNat = linuxReclen dirent.name := by
    rw [BitVec.toNat_ofNat]
    exact Nat.mod_eq_of_lt (by omega)
  have ino : dir.word dir.bufPos = some (BitVec.ofNat 64 dirent.ino) := by
    rw [Dir.word, if_pos (by omega), encodes.ino]
  have off : dir.word (dir.bufPos + 8) = some (BitVec.ofInt 64 dirent.off) := by
    rw [Dir.word, if_pos (by omega), encodes.off]
  have type : dir.byte (dir.bufPos + linuxReclen dirent.name - 1) = some (BitVec.ofNat 8 dirent.type) := by
    rw [Dir.byte, if_pos (by omega), encodes.type]
  have strlen : dir.strlen (dir.bufEnd + 1) (dir.bufPos + 18) = some dirent.name.length :=
    strlen_eq ok.ends (by omega) (by omega) encodes.name
  have name : dir.bytes (dir.bufPos + 18) dirent.name.length = some dirent.name :=
    bytes_eq (by omega) fun index below => encodes.name index (by omega)
  have fits : ¬ direntNameSize ≤ dirent.name.length := by
    unfold direntNameSize
    omega
  have front : ¬ dir.bufPos + linuxReclen dirent.name = 0 := by omega
  have inoValue : (BitVec.ofNat 64 dirent.ino).toNat = dirent.ino := by
    rw [BitVec.toNat_ofNat]
    exact Nat.mod_eq_of_lt ok.ino
  have offValue : (BitVec.ofInt 64 dirent.off).toInt = dirent.off := by
    rw [BitVec.toInt_ofInt]
    exact Int.bmod_eq_of_le (by have := ok.offLow; omega) (by have := ok.offHigh; omega)
  have typeValue : (BitVec.ofNat 8 dirent.type).toNat = dirent.type := by
    rw [BitVec.toNat_ofNat]
    exact Nat.mod_eq_of_lt ok.type
  unfold Dir.take
  simp only [reclen, length, ino, off, if_neg front, type, strlen, if_neg fits, name, Option.bind_eq_bind,
    Option.bind_some, inoValue, offValue, typeValue]
  rfl

/-- The calls that take the laid out records one after another. -/
theorem readdirs_laid {getdents : Int × Memory} {dir : Dir} {entries : List VfsDirent}
    (ok : ∀ dirent ∈ entries, EntryOk dirent) (laid : Laid dir.buf dir.bufPos entries dir.bufEnd) :
    readdirs getdents entries.length dir =
      some (entries.map fun dirent => some (shownEntry dirent), { dir with bufPos := dir.bufEnd }) := by
  induction entries generalizing dir with
  | nil =>
      have ends : dir.bufPos = dir.bufEnd := laid
      obtain ⟨position, last, buf⟩ := dir
      dsimp only at ends
      subst ends
      rfl
  | cons dirent rest ih =>
      have later := laid.2.le
      have positive := linuxReclen_pos dirent.name
      have first := take_eq (ok dirent List.mem_cons_self) laid.1 later
      have step : readdir getdents dir =
          some (some (shownEntry dirent), { dir with bufPos := dir.bufPos + linuxReclen dirent.name }) := by
        rw [readdir, if_neg (by omega), first]
        rfl
      have behind := @ih { dir with bufPos := dir.bufPos + linuxReclen dirent.name }
        (fun entry member => ok entry (List.mem_cons_of_mem _ member)) laid.2
      rw [List.length_cons, readdirs, step]
      simp only [Option.bind_eq_bind, Option.bind_some, behind]
      rfl

/-- The calls of `readdir` after one call of `sys_getdents` show the entries that it delivered, read only the bytes
that it filled, and end at the length that it returned. -/
theorem readdir_getdents (count : Nat) (code : Errno) (entries : List VfsDirent)
    (ok : ∀ dirent ∈ entries, EntryOk dirent) (buf filled : Memory) (total : Nat)
    (ran : fillBuffer count code entries 0 buf = (.ok total, filled)) (some_ : 0 < total) (dir : Dir)
    (empty : dir.bufEnd ≤ dir.bufPos) :
    readdirs (total, filled) (delivered count entries).length dir =
      some ((delivered count entries).map fun dirent => some (shownEntry dirent), ⟨total, total, filled⟩) := by
  obtain ⟨laid, -⟩ := fillBuffer_laid (Nat.zero_le count) ran
  rw [Nat.sub_zero] at laid
  have valid : ∀ dirent ∈ delivered count entries, EntryOk dirent := fun dirent member =>
    ok dirent (List.mem_of_mem_take member)
  have refilled := @readdirs_laid (total, filled) ⟨0, total, filled⟩ _ valid laid
  -- The first call fills the buffer and goes on as a call on the filled buffer.
  cases found : delivered count entries with
  | nil =>
      rw [found] at laid
      exact absurd laid some_.ne
  | cons dirent rest =>
      rw [found] at refilled
      rw [List.length_cons, readdirs] at refilled ⊢
      have first : readdir (total, filled) dir = readdir (total, filled) ⟨0, total, filled⟩ := by
        rw [readdir, readdir, if_pos empty, if_neg (by dsimp only; omega), if_neg (by dsimp only; omega)]
        rfl
      rw [first]
      exact refilled

/-- The file "a" and the directory "b". -/
def twoEntries : List VfsDirent := [⟨7, 1, 280, 8, [97]⟩, ⟨9, 2, 280, 4, [98]⟩]

theorem readdir_getdents_two :
    let buf := storeDirent (storeDirent (fun _ => 0) 0 ⟨7, 1, 280, 8, [97]⟩) 32 ⟨9, 2, 280, 4, [98]⟩
    readdirs ((64 : Nat), buf) 2 ⟨0, 0, fun _ => 0⟩ =
      some ([some ⟨7, 1, 280, 8, [97]⟩, some ⟨9, 2, 280, 4, [98]⟩], ⟨64, 64, buf⟩) := by
  intro buf
  have ok : ∀ dirent ∈ twoEntries, EntryOk dirent := by
    intro dirent member
    simp only [twoEntries, List.mem_cons, List.not_mem_nil, or_false] at member
    obtain rfl | rfl := member
    · exact ⟨by decide, by decide, by decide, by decide, by decide, by decide⟩
    · exact ⟨by decide, by decide, by decide, by decide, by decide, by decide⟩
  exact readdir_getdents 64 .enoent twoEntries ok (fun _ => 0) buf 64 rfl (by decide) ⟨0, 0, fun _ => 0⟩ le_rfl

end Uesi.Readdir
