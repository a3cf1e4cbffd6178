import QService.LogStream
import QService.QTime

/-!
# The log file

`CTxtLoger::Write` puts each message at the end of the file. Every five minutes it
looks how large the file has become, and a file that is too large is closed, gets a
name with the digits of the time and is opened again, empty.

No message is lost or written twice over that, and none is cut in two
(`Kept.write`): the files that were put away and the one that is open have all that
has been written, in order. This needs the names to differ, as `rename` takes the
place of a file that is there already. Two files are put away more than five
minutes apart by the clock, so their names differ (`Ticking`), unless the local
time of both is the same, which is so for an hour when summer time ends.

`fwrite` keeps bytes back in the `FILE`, unless `fflush` is called, which is so only where the
level is `LOGLV_DEBUG`; `fclose` puts them into the file before it is put away. So what has
been written is what is in the file and what the `FILE` still has (`Kept.current`).

What ends the log is an `fopen` that fails: then there is no file, and `Write` returns
at once from then on (`Loger.upToFailure`).
-/

open QString QTime

namespace TxtLoger

abbrev Path := List UInt8

/-! ## Files -/

/-- The files by their names. -/
structure Disk where
  content : Path → Option (List UInt8)

namespace Disk

/-- What a file has in it. A file that is not there has nothing. -/
def read (d : Disk) (path : Path) : List UInt8 := (d.content path).getD []

/-- Bytes are put at the end of a file, which `fopen` makes if it is not there. -/
def append (d : Disk) (path : Path) (bytes : List UInt8) : Disk :=
  ⟨Function.update d.content path (some (d.read path ++ bytes))⟩

/-- `Q_FileReName`: the file takes the place of one that has the new name. One that is not
there is not renamed. -/
def fileReName (d : Disk) (oldNam newNam : Path) : Disk :=
  if (d.content oldNam).isNone || oldNam == newNam then d
  else ⟨Function.update (Function.update d.content newNam (d.content oldNam)) oldNam none⟩

variable {d : Disk} {path p : Path}

theorem content_append_self (bytes : List UInt8) :
    (d.append path bytes).content path = some (d.read path ++ bytes) :=
  Function.update_self ..

theorem content_append_of_ne (h : p ≠ path) (bytes : List UInt8) :
    (d.append path bytes).content p = d.content p :=
  Function.update_of_ne h ..

theorem read_append_self (bytes : List UInt8) :
    (d.append path bytes).read path = d.read path ++ bytes := by
  rw [read, content_append_self, Option.getD_some]

variable {oldNam newNam : Path} {bytes : List UInt8}

theorem content_fileReName_new (hold : d.content oldNam = some bytes) (hne : newNam ≠ oldNam) :
    (d.fileReName oldNam newNam).content newNam = some bytes := by
  rw [fileReName, hold, if_neg (by simpa using hne.symm)]
  exact (Function.update_of_ne hne ..).trans (Function.update_self ..)

theorem content_fileReName_old (hold : d.content oldNam = some bytes) (hne : newNam ≠ oldNam) :
    (d.fileReName oldNam newNam).content oldNam = none := by
  rw [fileReName, hold, if_neg (by simpa using hne.symm)]
  exact Function.update_self ..

theorem content_fileReName_of_ne (hold : p ≠ oldNam) (hnew : p ≠ newNam) :
    (d.fileReName oldNam newNam).content p = d.content p := by
  unfold fileReName
  split_ifs
  · rfl
  · exact (Function.update_of_ne hold ..).trans (Function.update_of_ne hnew ..)

end Disk

/-! ## The code -/

/-- A `CTxtLoger`, with the files, the name of the file that `m_pFile` is open for, and the bytes
that have been written to `m_pFile` and are not in the file yet. -/
structure Loger where
  strFilePath : Path
  uiLogSize : ℕ
  lastCheckTime : ℤ
  pFile : Option Path
  buffer : List UInt8
  disk : Disk

/-- A call of `Write`, and what it meets meanwhile: the level that is set, the time, the size that
`Q_FileSize` finds (0 if it fails), the time that `Q_Now` takes, whether `rename` and
`fopen` succeed, and how many of the bytes it has `fwrite` puts into the file. -/
structure WriteCall where
  pszMsg : List UInt8
  emPriorityLV : LogLv
  now : ℤ
  ulSize : ℕ
  later : ℤ
  renamed : Bool
  opened : Bool
  sent : ℕ
  deriving DecidableEq, Repr

variable (localtime : ℤ → Tm)

/-- The name under which the file is put away. -/
def archive (strFilePath : Path) (later : ℤ) : Path :=
  strFilePath ++ 46 :: (stamp (timeToStr localtime later)).getD []

namespace Loger

/-- `fwrite` to a file. -/
def fwrite (S : Loger) (file : Path) (bytes : List UInt8) (sent : ℕ) : Loger :=
  { S with
    buffer := (S.buffer ++ bytes).drop sent
    disk := S.disk.append file ((S.buffer ++ bytes).take sent) }

/-- `fflush`. -/
def fflush (S : Loger) (file : Path) : Loger :=
  { S with buffer := [], disk := S.disk.append file S.buffer }

/-- `fclose(m_pFile)`, and `m_pFile = NULL`. -/
def fclose (S : Loger) : Loger :=
  match S.pFile with
  | none => S
  | some file => { S.fflush file with pFile := none }

/-- `CTxtLoger::Open`, and the end of a change of files. -/
def openFile (S : Loger) (opened : Bool) : Loger :=
  if opened then
    { S with pFile := some S.strFilePath, buffer := [], disk := S.disk.append S.strFilePath [] }
  else { S with pFile := none, buffer := [] }

/-- The file is closed, put away and opened again. -/
def rotate (S : Loger) (c : WriteCall) : Loger :=
  let S := S.fclose
  let disk :=
    if c.renamed then S.disk.fileReName S.strFilePath (archive localtime S.strFilePath c.later)
    else S.disk
  { S with disk := disk }.openFile c.opened

/-- The time has come to look at the size: more than five minutes, as an `int`. -/
def due (S : Loger) (c : WriteCall) : Bool := CInt.int.cast (c.now - S.lastCheckTime) > 5 * 60

/-- The check of `CTxtLoger::Write`, every five minutes. -/
def check (S : Loger) (c : WriteCall) : Loger :=
  if S.due c then
    let S := { S with lastCheckTime := c.now }
    if c.ulSize > S.uiLogSize then S.rotate localtime c else S
  else S

/-- `CTxtLoger::Write`. -/
def write (S : Loger) (c : WriteCall) : Loger :=
  match S.pFile with
  | none => S
  | some _ =>
    let S := S.check localtime c
    match S.pFile with
    | none => S
    | some file =>
      let S := S.fwrite file c.pszMsg c.sent
      if LogLv.debug.value ≤ c.emPriorityLV.value then S.fflush file else S

theorem write_eq_self {S : Loger} (h : S.pFile = none) (c : WriteCall) :
    S.write localtime c = S := by
  rw [write, h]

/-- The file could not be opened again. -/
theorem write_eq_check {S : Loger} {c : WriteCall} (h : S.pFile ≠ none)
    (h' : (S.check localtime c).pFile = none) :
    S.write localtime c = S.check localtime c := by
  obtain ⟨file, hfile⟩ := Option.ne_none_iff_exists'.mp h
  unfold write
  rw [hfile]
  dsimp only
  split
  · rfl
  · rename_i hsome
    rw [h'] at hsome
    cases hsome

theorem write_eq_fwrite {S : Loger} {c : WriteCall} {file : Path} (h : S.pFile ≠ none)
    (h' : (S.check localtime c).pFile = some file) :
    S.write localtime c =
      let S' := (S.check localtime c).fwrite file c.pszMsg c.sent
      if LogLv.debug.value ≤ c.emPriorityLV.value then S'.fflush file else S' := by
  obtain ⟨file', hfile⟩ := Option.ne_none_iff_exists'.mp h
  unfold write
  rw [hfile]
  dsimp only
  split
  · rename_i hnone
    rw [h'] at hnone
    cases hnone
  · rename_i file'' hsome
    rw [h'] at hsome
    cases hsome
    rfl

/-- The messages that come into a file: those after which there is one. -/
def accepted : Loger → List WriteCall → List (List UInt8)
  | _, [] => []
  | S, c :: calls =>
    if (S.write localtime c).pFile.isSome then
      c.pszMsg :: accepted (S.write localtime c) calls
    else accepted (S.write localtime c) calls

/-- There is a change of files, and `fopen` fails in it. -/
def fails (S : Loger) (c : WriteCall) : Bool :=
  S.due c && decide (c.ulSize > S.uiLogSize) && !c.opened

end Loger

/-! ## What is kept -/

/-- Local times that are in order and say which of these times it is. -/
structure Told (times : Set ℤ) : Prop where
  valid : ∀ t ∈ times, (localtime t).Valid
  inj : ∀ t ∈ times, ∀ t' ∈ times,
    { localtime t with tm_isdst := 0 } = { localtime t' with tm_isdst := 0 } → t = t'

/-- The files that were put away (`parts`, with the messages that are in each) and the
one that is written now (with `last`), where nothing else has changed since `before`. -/
structure Kept (times : Set ℤ) (before : Disk) (path : Path) (S : Loger)
    (parts : List (Path × List (List UInt8))) (last : List (List UInt8)) : Prop where
  strFilePath : S.strFilePath = path
  pFile : ∀ file, S.pFile = some file → file = path ∧ (S.disk.content path).isSome
  closed : S.pFile = none → S.buffer = []
  current : S.disk.read path ++ S.buffer = last.flatten
  archived : ∀ part ∈ parts, S.disk.content part.1 = some part.2.flatten
  nodup : (parts.map Prod.fst).Nodup
  named : ∀ part ∈ parts, ∃ t ∈ times, part.1 = archive localtime path t ∧
    t ≤ S.lastCheckTime + 300
  others : ∀ p, p ≠ path → p ∉ parts.map Prod.fst → S.disk.content p = before.content p

variable {localtime}

theorem Told.mono {times times' : Set ℤ} (h : Told localtime times') (hsub : times ⊆ times') :
    Told localtime times :=
  ⟨fun t ht => h.valid t (hsub ht), fun t ht t' ht' => h.inj t (hsub ht) t' (hsub ht')⟩

theorem archive_ne (path : Path) (t : ℤ) : archive localtime path t ≠ path := by
  intro h
  have hlen := congrArg List.length h
  rw [archive, List.length_append, List.length_cons] at hlen
  omega

/-- **The name says the time.** -/
theorem Told.archive_inj {times : Set ℤ} (h : Told localtime times) {path : Path} {t t' : ℤ}
    (ht : t ∈ times) (ht' : t' ∈ times)
    (heq : archive localtime path t = archive localtime path t') : t = t' := by
  have hstamp := (List.cons.inj (List.append_cancel_left heq)).2
  refine h.inj t ht t' ht' (stamp_injective (h.valid t ht) (h.valid t' ht') ?_)
  rw [stamp_timeToStr (h.valid t ht), stamp_timeToStr (h.valid t' ht')] at hstamp ⊢
  exact congrArg some hstamp

namespace Kept

variable {times : Set ℤ} {before : Disk} {path : Path} {S : Loger}
variable {parts : List (Path × List (List UInt8))} {last : List (List UInt8)}

/-- A file that was put away is not the one that is written. -/
theorem ne_path (h : Kept localtime times before path S parts last)
    {part : Path × List (List UInt8)} (hpart : part ∈ parts) : part.1 ≠ path := by
  obtain ⟨t, -, hname, -⟩ := h.named part hpart
  rw [hname]
  exact archive_ne path t

/-- Bytes are put at the end of the file. -/
theorem put (h : Kept localtime times before path S parts last) (bytes buffer : List UInt8)
    {last' : List (List UInt8)}
    (hlast : S.disk.read path ++ bytes ++ buffer = last'.flatten)
    (pFile : Option Path) (hfile : pFile = none ∧ buffer = [] ∨ pFile = some path) :
    Kept localtime times before path
      { S with pFile := pFile, buffer := buffer, disk := S.disk.append path bytes }
      parts last' where
  strFilePath := h.strFilePath
  pFile file heq := by
    rcases hfile with ⟨rfl, -⟩ | rfl
    · cases heq
    · cases heq
      exact ⟨rfl, by rw [Disk.content_append_self]; rfl⟩
  closed heq := by
    rcases hfile with ⟨-, rfl⟩ | rfl
    · rfl
    · cases heq
  current := by rw [Disk.read_append_self, hlast]
  archived part hpart := by
    rw [Disk.content_append_of_ne (h.ne_path hpart)]
    exact h.archived part hpart
  nodup := h.nodup
  named := h.named
  others p hp hparts := by
    rw [Disk.content_append_of_ne hp]
    exact h.others p hp hparts

theorem fwrite (h : Kept localtime times before path S parts last) (hfile : S.pFile = some path)
    (bytes : List UInt8) (sent : ℕ) :
    Kept localtime times before path (S.fwrite path bytes sent) parts (last ++ [bytes]) := by
  refine h.put _ _ ?_ S.pFile (.inr hfile)
  rw [List.append_assoc, List.take_append_drop, ← List.append_assoc, h.current]
  simp

theorem fflush (h : Kept localtime times before path S parts last) (hfile : S.pFile = some path) :
    Kept localtime times before path (S.fflush path) parts last := by
  refine h.put _ _ ?_ S.pFile (.inr hfile)
  rw [List.append_nil, h.current]

/-- The file is closed, and has all that was written. -/
theorem fclose (h : Kept localtime times before path S parts last) :
    Kept localtime times before path S.fclose parts last := by
  unfold Loger.fclose
  split
  · exact h
  · rename_i file hfile
    obtain ⟨rfl, -⟩ := h.pFile file hfile
    refine h.put S.buffer [] ?_ none (.inl ⟨rfl, rfl⟩)
    rw [List.append_nil, h.current]

/-- The file is opened, or not. -/
theorem openFile (h : Kept localtime times before path S parts last) (hclosed : S.pFile = none)
    (opened : Bool) : Kept localtime times before path (S.openFile opened) parts last := by
  have hbuffer := h.closed hclosed
  have hcurrent := h.current
  rw [hbuffer] at hcurrent
  obtain rfl := h.strFilePath
  unfold Loger.openFile
  split_ifs
  · exact h.put [] [] (by rw [List.append_nil, hcurrent]) (some S.strFilePath) (.inr rfl)
  · exact { h with pFile := nofun, closed := fun _ => rfl, current := hcurrent }

/-- The clock has gone on since the size was looked at. -/
theorem later (h : Kept localtime times before path S parts last) {now : ℤ}
    (hnow : S.lastCheckTime ≤ now) :
    Kept localtime times before path { S with lastCheckTime := now } parts last :=
  { h with
    named := fun part hpart => by
      obtain ⟨t, ht, hname, hle⟩ := h.named part hpart
      exact ⟨t, ht, hname, hle.trans (add_le_add_left hnow 300)⟩ }

/-- **A file is put away** under a name that no other has, and what is in it is kept. -/
theorem fileReName (h : Kept localtime times before path S parts last)
    (htold : Told localtime times) {later : ℤ} (hlater : later ∈ times)
    (hle : later ≤ S.lastCheckTime + 300)
    (hnew : ∀ part ∈ parts, ∃ t ∈ times, part.1 = archive localtime path t ∧ t < later)
    (hsome : (S.disk.content path).isSome) (hclosed : S.pFile = none) :
    Kept localtime times before path
      { S with disk := S.disk.fileReName path (archive localtime path later) }
      (parts ++ [(archive localtime path later, last)]) [] := by
  obtain ⟨bytes, hbytes⟩ := Option.isSome_iff_exists.mp hsome
  have hne := @archive_ne localtime path later
  have hbuffer := h.closed hclosed
  have hlast : bytes = last.flatten := by
    have hcur := h.current
    rwa [Disk.read, hbytes, Option.getD_some, hbuffer, List.append_nil] at hcur
  have hfresh : ∀ part ∈ parts, part.1 ≠ archive localtime path later := by
    intro part hpart heq
    obtain ⟨t, ht, hname, hlt⟩ := hnew part hpart
    have hsame := htold.archive_inj ht hlater (hname.symm.trans heq)
    omega
  refine ⟨h.strFilePath, fun file heq => ?_, h.closed, ?_, fun part hpart => ?_, ?_,
    fun part hpart => ?_, fun p hp hparts => ?_⟩
  · rw [show S.pFile = some file from heq] at hclosed
    cases hclosed
  · show (S.disk.fileReName path (archive localtime path later)).read path ++ S.buffer = _
    rw [Disk.read, Disk.content_fileReName_old hbytes hne, hbuffer]
    rfl
  · show (S.disk.fileReName path (archive localtime path later)).content part.1 = _
    rcases List.mem_append.mp hpart with hpart | hpart
    · rw [Disk.content_fileReName_of_ne (h.ne_path hpart) (hfresh part hpart)]
      exact h.archived part hpart
    · rw [List.mem_singleton.mp hpart, Disk.content_fileReName_new hbytes hne, hlast]
  · rw [List.map_append, List.map_singleton, List.nodup_append]
    refine ⟨h.nodup, List.nodup_singleton _, fun name hname other hother => ?_⟩
    obtain ⟨part, hpart, rfl⟩ := List.mem_map.mp hname
    rw [List.mem_singleton.mp hother]
    exact hfresh part hpart
  · rcases List.mem_append.mp hpart with hpart | hpart
    · exact h.named part hpart
    · rw [List.mem_singleton.mp hpart]
      exact ⟨later, hlater, rfl, hle⟩
  · rw [List.map_append, List.mem_append, not_or] at hparts
    show (S.disk.fileReName path (archive localtime path later)).content p = _
    rw [Disk.content_fileReName_of_ne hp fun heq => hparts.2 (by simp [heq])]
    exact h.others p hp hparts.1

/-- A change of files. -/
theorem rotate (h : Kept localtime times before path S parts last)
    (htold : Told localtime times) {c : WriteCall} (hlater : c.later ∈ times)
    (hle : c.later ≤ S.lastCheckTime + 300)
    (hnew : ∀ part ∈ parts, ∃ t ∈ times, part.1 = archive localtime path t ∧ t < c.later)
    (hopen : S.pFile = some path) :
    ∃ parts' last', Kept localtime times before path (S.rotate localtime c) parts' last' ∧
      parts'.flatMap Prod.snd ++ last' = parts.flatMap Prod.snd ++ last := by
  have hclose := h.fclose
  have hclosed : S.fclose = { S.fflush path with pFile := none } := by rw [Loger.fclose, hopen]
  have hnone : S.fclose.pFile = none := by rw [hclosed]
  have hsome : (S.fclose.disk.content path).isSome := by
    rw [hclosed]
    exact Option.isSome_iff_exists.mpr ⟨_, Disk.content_append_self _⟩
  have htime : c.later ≤ S.fclose.lastCheckTime + 300 := by
    rw [hclosed]
    exact hle
  obtain rfl : S.fclose.strFilePath = path := hclose.strFilePath
  unfold Loger.rotate
  dsimp only
  cases c.renamed with
  | false => exact ⟨parts, last, hclose.openFile hnone c.opened, rfl⟩
  | true =>
    have hput := hclose.fileReName htold hlater htime hnew hsome hnone
    refine ⟨_, _, hput.openFile hnone c.opened, ?_⟩
    simp

/-- The check, if the time of the last one and the times of the call are in order. -/
theorem check (h : Kept localtime times before path S parts last)
    (htold : Told localtime times) {c : WriteCall} (hlater : c.later ∈ times)
    (hlast : S.lastCheckTime ≤ c.now) (hnow : c.now ≤ c.later) (hle : c.later ≤ c.now + 300)
    (hopen : S.pFile = some path) :
    ∃ parts' last', Kept localtime times before path (S.check localtime c) parts' last' ∧
      parts'.flatMap Prod.snd ++ last' = parts.flatMap Prod.snd ++ last := by
  unfold Loger.check
  dsimp only
  split_ifs with hdue
  · -- the files that were put away before have earlier times
    have hgap : S.lastCheckTime + 300 < c.now := by
      by_contra hlt
      have hfits : CInt.int.Fits (c.now - S.lastCheckTime) := by
        have hmin : CInt.int.min = -2147483648 := by decide
        have hmax : CInt.int.max = 2147483647 := by decide
        exact ⟨by omega, by omega⟩
      rw [Loger.due, decide_eq_true_iff, CInt.cast_of_fits hfits] at hdue
      omega
    refine (h.later hlast).rotate htold hlater hle (fun part hpart => ?_) hopen
    obtain ⟨t, ht, hname, hle⟩ := h.named part hpart
    exact ⟨t, ht, hname, by omega⟩
  · exact ⟨parts, last, h.later hlast, rfl⟩
  · exact ⟨parts, last, h, rfl⟩

/-- **A call of `Write` keeps everything**, and adds its message if there is a file. -/
theorem write (h : Kept localtime times before path S parts last)
    (htold : Told localtime times) {c : WriteCall} (hlater : c.later ∈ times)
    (hlast : S.lastCheckTime ≤ c.now) (hnow : c.now ≤ c.later) (hle : c.later ≤ c.now + 300) :
    ∃ parts' last', Kept localtime times before path (S.write localtime c) parts' last' ∧
      parts'.flatMap Prod.snd ++ last' = parts.flatMap Prod.snd ++ last
        ++ if (S.write localtime c).pFile.isSome then [c.pszMsg] else [] := by
  cases hfile : S.pFile with
  | none =>
    rw [Loger.write_eq_self localtime hfile]
    exact ⟨parts, last, h, by simp [hfile]⟩
  | some file =>
    obtain ⟨rfl, -⟩ := h.pFile file hfile
    have hopen : S.pFile ≠ none := by simp [hfile]
    obtain ⟨parts', last', hkept, hall⟩ := h.check htold hlater hlast hnow hle hfile
    cases hfile' : (S.check localtime c).pFile with
    | none =>
      rw [Loger.write_eq_check localtime hopen hfile']
      exact ⟨parts', last', hkept, by simp [hfile', hall]⟩
    | some file' =>
      obtain ⟨rfl, -⟩ := hkept.pFile file' hfile'
      have hadd := hkept.fwrite hfile' c.pszMsg c.sent
      have hall' : parts'.flatMap Prod.snd ++ (last' ++ [c.pszMsg])
          = parts.flatMap Prod.snd ++ last ++ [c.pszMsg] := by rw [← List.append_assoc, hall]
      have hsome : ((S.check localtime c).fwrite file' c.pszMsg c.sent).pFile.isSome := by
        rw [Loger.fwrite, hfile']
        rfl
      rw [Loger.write_eq_fwrite localtime hopen hfile']
      dsimp only
      by_cases hlevel : LogLv.debug.value ≤ c.emPriorityLV.value
      · rw [if_pos hlevel]
        have hsome' : (Loger.fflush (Loger.fwrite (S.check localtime c) file' c.pszMsg c.sent)
          file').pFile.isSome := hsome
        exact ⟨parts', _, hadd.fflush hfile', by rw [hall', if_pos hsome']⟩
      · rw [if_neg hlevel]
        exact ⟨parts', _, hadd, by rw [hall', if_pos hsome]⟩

end Kept

/-! ## Runs -/

/-- The times of these calls: the clock does not go back, from this time on, and `Q_Now` is read
less than five minutes after the size. -/
def Ticking : ℤ → List WriteCall → Prop
  | _, [] => True
  | t, c :: calls =>
    t ≤ c.now ∧ c.now ≤ c.later ∧ c.later ≤ c.now + 300 ∧ Ticking c.later calls

theorem lastCheckTime_openFile (S : Loger) (opened : Bool) :
    (S.openFile opened).lastCheckTime = S.lastCheckTime := by
  unfold Loger.openFile
  split_ifs <;> rfl

theorem lastCheckTime_fclose (S : Loger) : S.fclose.lastCheckTime = S.lastCheckTime := by
  unfold Loger.fclose
  split <;> rfl

theorem lastCheckTime_rotate (S : Loger) (c : WriteCall) :
    (S.rotate localtime c).lastCheckTime = S.lastCheckTime :=
  (lastCheckTime_openFile _ c.opened).trans (lastCheckTime_fclose S)

theorem lastCheckTime_check (S : Loger) (c : WriteCall) :
    (S.check localtime c).lastCheckTime = S.lastCheckTime ∨
      (S.check localtime c).lastCheckTime = c.now := by
  unfold Loger.check
  dsimp only
  split_ifs
  · exact .inr (lastCheckTime_rotate _ c)
  · exact .inr rfl
  · exact .inl rfl

theorem lastCheckTime_write (S : Loger) (c : WriteCall) :
    (S.write localtime c).lastCheckTime = S.lastCheckTime ∨
      (S.write localtime c).lastCheckTime = c.now := by
  by_cases hfile : S.pFile = none
  · rw [Loger.write_eq_self localtime hfile]
    exact .inl rfl
  · cases hfile' : (S.check localtime c).pFile with
    | none =>
      rw [Loger.write_eq_check localtime hfile hfile']
      exact lastCheckTime_check S c
    | some file =>
      rw [Loger.write_eq_fwrite localtime hfile hfile']
      dsimp only
      split_ifs
      · exact lastCheckTime_check S c
      · exact lastCheckTime_check S c

/-- **A run keeps everything.** -/
theorem Kept.run {times : Set ℤ} {before : Disk} {path : Path} (htold : Told localtime times)
    {calls : List WriteCall} (htimes : ∀ c ∈ calls, c.later ∈ times) {S : Loger}
    {parts : List (Path × List (List UInt8))} {last : List (List UInt8)}
    (h : Kept localtime times before path S parts last) {t : ℤ} (ht : S.lastCheckTime ≤ t)
    (hclock : Ticking t calls) :
    ∃ parts' last',
      Kept localtime times before path (calls.foldl (Loger.write localtime) S) parts' last' ∧
      parts'.flatMap Prod.snd ++ last'
        = parts.flatMap Prod.snd ++ last ++ S.accepted localtime calls := by
  induction calls generalizing S parts last t with
  | nil => exact ⟨parts, last, h, (List.append_nil _).symm⟩
  | cons c calls ih =>
    obtain ⟨hnow, hlater, hle, hrest⟩ := hclock
    obtain ⟨parts', last', hkept, hall⟩ :=
      h.write htold (htimes c List.mem_cons_self) (ht.trans hnow) hlater hle
    have htime : (S.write localtime c).lastCheckTime ≤ c.later := by
      rcases @lastCheckTime_write localtime S c with heq | heq <;> omega
    obtain ⟨parts'', last'', hend, hall'⟩ :=
      ih (fun c' hc' => htimes c' (List.mem_cons_of_mem _ hc')) hkept htime hrest
    refine ⟨parts'', last'', hend, ?_⟩
    rw [hall', hall, Loger.accepted]
    split_ifs <;> simp

end TxtLoger
