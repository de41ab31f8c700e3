import ShareBike.RollingFileNames

/-!
# The log files over whole runs

The generations are the log file and its backups. Without failing calls a roll-over
shifts them by one; a failing call may lose a generation, but it neither changes
their order nor writes to any other file.
-/
namespace ShareBike.RollingFile
open ShareBike.Lib

variable {this : Appender} {fs : FileSystem (List UInt8) (List UInt8)} {s s' : State}

/-- What is in the log file and in its backups, by their numbers. -/
def gens (this : Appender) (fs : FileSystem (List UInt8) (List UInt8)) :
    ℕ → List (List UInt8) := fs.content ∘ this.name

/-- All that is kept, from the oldest backup to the log file. -/
def State.kept (s : State) : List (List UInt8) :=
  joined (gens s.this s.fs) s.this.maxBackupIndex

section Generations

variable (hname : 0 ∉ this.fileName)

include hname

lemma gens_update {f : List UInt8 → List (List UInt8)} (k : ℕ) (v : List (List UInt8)) :
    Function.update f (this.name k) v ∘ this.name = Function.update (f ∘ this.name) k v :=
  Function.update_comp_eq_of_injective f (name_injective hname) k v

lemma gens_remove (k : ℕ) :
    gens this (fs.remove (this.name k)) = Function.update (gens this fs) k [] := by
  rw [gens, FileSystem.content_remove, gens_update hname, gens]

/-- A rename to the next number moves the generation, if there is one. -/
lemma gens_rename (hs : fs.Sound) (k : ℕ) :
    gens this (fs.rename (this.name k) (this.name (k + 1))) = moveUp (gens this fs) k ∨
    (gens this fs k = [] ∧ fs.rename (this.name k) (this.name (k + 1)) = fs) := by
  cases hdir : fs.dir (this.name k) with
  | none =>
    exact .inr ⟨FileSystem.content_none hdir, FileSystem.content_rename_none hdir _⟩
  | some i =>
    have hne : this.name k ≠ this.name (k + 1) :=
      (name_injective hname).ne (Nat.succ_ne_self k).symm
    refine .inl ?_
    rw [gens, FileSystem.content_rename hs hdir hne, gens_update hname, gens_update hname]
    rfl

/-- A rename to a number that is not in use. -/
lemma gens_rename_free (hs : fs.Sound) {k : ℕ} (hfree : gens this fs (k + 1) = []) :
    gens this (fs.rename (this.name k) (this.name (k + 1))) = moveUp (gens this fs) k := by
  rcases gens_rename hname hs k with h | ⟨hempty, h⟩
  · exact h
  · rw [h]
    funext j
    by_cases hk : j = k
    · rw [hk, moveUp_self, hempty]
    · by_cases hj : j = k + 1
      · rw [hj, moveUp_succ, hempty, hfree]
      · rw [moveUp_of_ne hk hj]

/-- The renames shift the generations, if none of them fails. -/
lemma gens_renameEach (hs : fs.Sound) {ok : ℕ → Bool} (hok : ∀ i, ok i = true) {i : ℕ}
    (hfree : gens this fs (i + 1) = []) :
    gens this (renameEach this ok (i + 1) (this.backupText (i + 1)) fs) =
      shiftUp (gens this fs) (i + 1) := by
  induction i generalizing fs with
  | zero =>
    have hmove : gens this (fs.rename (this.name 0) (this.name 1)) = moveUp (gens this fs) 0 :=
      gens_rename_free hname hs hfree
    rw [shiftUp_succ, shiftUp_zero (moveUp_self ..), ← hmove, renameEach, renameIf, hok]
    · rfl
    · simp
  | succ i ih =>
    have hmove : gens this (fs.rename (this.name (i + 1)) (this.name (i + 2))) =
        moveUp (gens this fs) (i + 1) := gens_rename_free hname hs hfree
    have hrest := ih (hs.rename (this.name (i + 1)) (this.name (i + 2)))
      (by rw [hmove, moveUp_self])
    rw [shiftUp_succ, ← hmove, ← hrest, renameEach, renameIf, hok]
    rfl

end Generations

/-- The appender writes to its log file. -/
structure Good (s : State) : Prop where
  sound : s.fs.Sound
  name : 0 ∉ s.this.fileName
  fd : ∀ i, s.this.fd = some i → s.fs.dir (s.this.name 0) = some i

/-- What no step changes: the names of the files and their number, and all other files. -/
structure Frame (s s' : State) : Prop where
  fileName : s'.this.fileName = s.this.fileName
  names : s'.this.name = s.this.name
  max : s'.this.maxBackupIndex = s.this.maxBackupIndex
  other : ∀ n, (∀ k ≤ s.this.maxBackupIndex, n ≠ s.this.name k) →
    s'.fs.content n = s.fs.content n

lemma Frame.refl (s : State) : Frame s s := ⟨rfl, rfl, rfl, fun _ _ => rfl⟩

lemma Frame.trans {s'' : State} (h : Frame s s') (h' : Frame s' s'') : Frame s s'' where
  fileName := h'.fileName.trans h.fileName
  names := h'.names.trans h.names
  max := h'.max.trans h.max
  other n hn := (h'.other n (by rw [h.names, h.max]; exact hn)).trans (h.other n hn)

/-- A step of a file operation: pieces may go, but none comes and none is moved. -/
structure Loses (this : Appender) (fs fs' : FileSystem (List UInt8) (List UInt8)) : Prop where
  sound : fs'.Sound
  kept : (joined (gens this fs') this.maxBackupIndex).Sublist
    (joined (gens this fs) this.maxBackupIndex)
  other : ∀ n, (∀ k ≤ this.maxBackupIndex, n ≠ this.name k) → fs'.content n = fs.content n

namespace Loses

lemma refl (this : Appender) (hs : fs.Sound) : Loses this fs fs :=
  ⟨hs, List.Sublist.refl _, fun _ _ => rfl⟩

lemma trans {fs' fs'' : FileSystem (List UInt8) (List UInt8)} (h : Loses this fs fs')
    (h' : Loses this fs' fs'') : Loses this fs fs'' :=
  ⟨h'.sound, h'.kept.trans h.kept, fun n hn => (h'.other n hn).trans (h.other n hn)⟩

variable (hname : 0 ∉ this.fileName) (hs : fs.Sound)

include hname hs

lemma remove {k : ℕ} (hk : k ≤ this.maxBackupIndex) :
    Loses this fs (fs.remove (this.name k)) := by
  refine ⟨hs.remove _, ?_, fun n hn => ?_⟩
  · rw [gens_remove hname]
    exact joined_clear_sublist ..
  · rw [FileSystem.content_remove, Function.update_of_ne (hn k hk)]

lemma rename {k : ℕ} (hk : k + 1 ≤ this.maxBackupIndex) (ok : Bool) :
    Loses this fs (renameIf fs ok (this.name k) (this.name (k + 1))) := by
  rw [renameIf]
  split_ifs
  · refine ⟨hs.rename _ _, ?_, fun n hn => ?_⟩
    · rcases gens_rename hname hs k with h | ⟨-, h⟩
      · rw [h]
        exact joined_moveUp_sublist hk
      · rw [h]
    · cases hdir : fs.dir (this.name k) with
      | none => rw [FileSystem.content_rename_none hdir]
      | some i =>
        have hne : this.name k ≠ this.name (k + 1) :=
          (name_injective hname).ne (Nat.succ_ne_self k).symm
        rw [FileSystem.content_rename hs hdir hne, Function.update_of_ne (hn k (by omega)),
          Function.update_of_ne (hn (k + 1) hk)]
  · exact refl this hs

/-- Whichever of the renames fail. -/
lemma renameEach (ok : ℕ → Bool) {i : ℕ} (hi : i + 1 ≤ this.maxBackupIndex) :
    Loses this fs (renameEach this ok (i + 1) (this.backupText (i + 1)) fs) := by
  induction i generalizing fs with
  | zero => exact rename hname hs hi (ok 1)
  | succ i ih =>
    have hfirst : Loses this fs
        (renameIf fs (ok (i + 2)) (this.name (i + 1)) (this.name (i + 2))) :=
      rename hname hs hi (ok (i + 2))
    exact hfirst.trans (ih hfirst.sound (by omega))

lemma openFile (trunc : Bool) : Loses this fs (fs.openFile (this.name 0) trunc).2 := by
  refine ⟨hs.openFile _ _, ?_, fun n hn => ?_⟩
  · rw [gens, FileSystem.content_openFile hs]
    split_ifs
    · rw [gens_update hname]
      exact joined_clear_sublist ..
    · exact List.Sublist.refl _
  · rw [FileSystem.content_openFile hs]
    split_ifs
    · exact Function.update_of_ne (hn 0 (Nat.zero_le _)) ..
    · rfl

end Loses

/-- The descriptor, the flags and the size limit have no part in the names. -/
lemma name_congr {this' : Appender} (hfile : this'.fileName = this.fileName)
    (hwidth : this'.maxBackupIndexWidth = this.maxBackupIndexWidth) :
    this'.name = this.name := by
  funext k
  cases k <;> simp [Appender.name, Appender.backupText, hfile, hwidth]

/-- A step that takes no message. -/
structure Keeps (s s' : State) : Prop where
  frame : Frame s s'
  good : Good s'
  kept : s'.kept.Sublist s.kept
  log : s'.log = s.log

lemma Keeps.trans {s'' : State} (h : Keeps s s') (h' : Keeps s' s'') : Keeps s s'' :=
  ⟨h.frame.trans h'.frame, h'.good, h'.kept.trans h.kept, h'.log.trans h.log⟩

/-- A step on the files, and one on the other fields of the appender. -/
lemma Keeps.of_loses (hname : 0 ∉ s.this.fileName) (h : Loses s.this s.fs s'.fs)
    (hfile : s'.this.fileName = s.this.fileName)
    (hwidth : s'.this.maxBackupIndexWidth = s.this.maxBackupIndexWidth)
    (hmax : s'.this.maxBackupIndex = s.this.maxBackupIndex) (hlog : s'.log = s.log)
    (hfd : ∀ i, s'.this.fd = some i → s'.fs.dir (s.this.name 0) = some i) : Keeps s s' := by
  have hnames : s'.this.name = s.this.name := name_congr hfile hwidth
  refine ⟨⟨hfile, hnames, hmax, h.other⟩, ⟨h.sound, by rw [hfile]; exact hname, ?_⟩, ?_, hlog⟩
  · rw [hnames]
    exact hfd
  · rw [State.kept, State.kept, hmax, gens, gens, hnames]
    exact h.kept

lemma Good.close (h : Good s) : Keeps s s.close :=
  .of_loses h.name (.refl _ h.sound) rfl rfl rfl rfl fun _ hi => by cases hi

lemma Good.openLog (h : Good s) (ok : Bool) : Keeps s (s.openLog ok) := by
  cases ok with
  | false => exact .of_loses h.name (.refl _ h.sound) rfl rfl rfl rfl fun _ hi => by cases hi
  | true =>
    refine .of_loses h.name (.openFile h.name h.sound s.this.trunc) rfl rfl rfl rfl fun i hi => ?_
    obtain rfl := Option.some.inj hi
    exact FileSystem.dir_openFile ..

/-- Whichever of the calls fail. -/
lemma Good.moveFiles (h : Good s) (hfd : s.this.fd = none) (calls : Calls) :
    Keeps s (s.moveFiles calls) := by
  have hnone : ∀ fs : FileSystem (List UInt8) (List UInt8), Loses s.this s.fs fs →
      Keeps s { s with fs := fs } := fun fs hl =>
    .of_loses h.name hl rfl rfl rfl rfl fun i hi => by rw [hfd] at hi; cases hi
  rw [State.moveFiles]
  split_ifs with hmax hremove
  · obtain ⟨i, hi⟩ : ∃ i, s.this.maxBackupIndex = i + 1 := ⟨_, (Nat.sub_add_cancel hmax).symm⟩
    have hfirst : Loses s.this s.fs (s.fs.remove (s.this.name (i + 1))) :=
      .remove h.name h.sound (by omega)
    dsimp only
    rw [hi]
    exact hnone _ (hfirst.trans (.renameEach h.name hfirst.sound calls.rename (by omega)))
  · obtain ⟨i, hi⟩ : ∃ i, s.this.maxBackupIndex = i + 1 := ⟨_, (Nat.sub_add_cancel hmax).symm⟩
    dsimp only
    rw [hi]
    exact hnone _ (.renameEach h.name h.sound calls.rename (by omega))
  · exact hnone _ (.refl _ h.sound)

lemma Good.rollOver (h : Good s) (calls : Calls) : Keeps s (s.rollOver calls) := by
  have hclose := h.close
  have hmove := hclose.good.moveFiles rfl calls
  exact (hclose.trans hmove).trans (hmove.good.openLog calls.reopen)

/-- What `write` takes stands at the end of the log file. -/
lemma Good.write (h : Good s) (message : List UInt8) (count : Option ℕ) :
    Frame s (s.write message count) ∧ Good (s.write message count) ∧
    ∃ new, (s.write message count).kept = s.kept ++ new ∧
      (s.write message count).log = ⟨s.log.asked ++ [message], s.log.written ++ new⟩ := by
  have hsame : ∀ log : Log, Frame s { s with log := log } ∧ Good { s with log := log } :=
    fun log => ⟨⟨rfl, rfl, rfl, fun _ _ => rfl⟩, h.sound, h.name, h.fd⟩
  cases hfd : s.this.fd with
  | none =>
    simp only [State.write, hfd]
    exact ⟨(hsame _).1, (hsame _).2, [], (List.append_nil _).symm, by rw [List.append_nil]⟩
  | some i =>
    cases count with
    | none =>
      simp only [State.write, hfd]
      exact ⟨(hsame _).1, (hsame _).2, [], (List.append_nil _).symm, by rw [List.append_nil]⟩
    | some n =>
      simp only [State.write, hfd]
      have hcontent := FileSystem.content_write h.sound (h.fd i hfd) (message.take n)
      refine ⟨⟨rfl, rfl, rfl, fun m hm => ?_⟩, ⟨h.sound.write _ _, h.name, h.fd⟩,
        [message.take n], ?_, rfl⟩
      · rw [hcontent]
        exact Function.update_of_ne (hm 0 (Nat.zero_le _)) ..
      · rw [State.kept, gens, hcontent, gens_update h.name]
        exact joined_append ..

lemma Good.append (h : Good s) (message : List UInt8) (count : Option ℕ) (seek : Bool)
    (calls : Calls) : Frame s (s.append message count seek calls) ∧
    Good (s.append message count seek calls) ∧
    ∃ new, (s.append message count seek calls).kept.Sublist (s.kept ++ new) ∧
      (s.append message count seek calls).log =
        ⟨s.log.asked ++ [message], s.log.written ++ new⟩ := by
  obtain ⟨hframe, hgood, new, hkept, hlog⟩ := h.write message count
  have hroll := hgood.rollOver calls
  unfold State.append
  dsimp only
  split
  · exact ⟨hframe, hgood, new, hkept ▸ List.Sublist.refl _, hlog⟩
  · split_ifs
    · exact ⟨hframe.trans hroll.frame, hroll.good, new, hkept ▸ hroll.kept,
        hroll.log.trans hlog⟩
    · exact ⟨hframe, hgood, new, hkept ▸ List.Sublist.refl _, hlog⟩

/-- What is kept after a run that began in `s₀`. -/
structure Accounted (s₀ s : State) : Prop where
  frame : Frame s₀ s
  good : Good s
  kept : s.kept.Sublist (s₀.kept ++ s.log.written)

variable {s₀ : State}

lemma Accounted.keeps (h : Accounted s₀ s) (hk : Keeps s s') : Accounted s₀ s' :=
  ⟨h.frame.trans hk.frame, hk.good, by rw [hk.log]; exact hk.kept.trans h.kept⟩

/-- The step lemma, whatever fails. -/
lemma Accounted.step (h : Accounted s₀ s) (a : Act) : Accounted s₀ (step s a) := by
  cases a with
  | append message count seek calls =>
    obtain ⟨hframe, hgood, new, hkept, hlog⟩ := h.good.append message count seek calls
    refine ⟨h.frame.trans hframe, hgood, hkept.trans ?_⟩
    have hwritten : (RollingFile.step s (.append message count seek calls)).log.written =
        s.log.written ++ new := congrArg Log.written hlog
    rw [hwritten, ← List.append_assoc]
    exact h.kept.append_right new
  | rollOver calls => exact h.keeps (h.good.rollOver calls)
  | reopen ok =>
    simp only [RollingFile.step, State.reopen]
    split_ifs
    · exact h.keeps (h.good.openLog true)
    · exact h
    · exact h
  | close => exact h.keeps h.good.close
  | setAppend append =>
    exact h.keeps (.of_loses h.good.name (.refl _ h.good.sound) rfl rfl rfl rfl h.good.fd)
  | setMaximumFileSize maxFileSize =>
    exact h.keeps (.of_loses h.good.name (.refl _ h.good.sound) rfl rfl rfl rfl h.good.fd)

/-- The state before the constructor has opened the log file. -/
def before (log10 : ℕ → ℕ) (c : Config) (fs : FileSystem (List UInt8) (List UInt8)) : State :=
  ⟨fs, .new log10 c, ⟨[], []⟩⟩

variable {c : Config}

lemma good_before (log10 : ℕ → ℕ) (hs : fs.Sound) (hname : 0 ∉ c.fileName) :
    Good (before log10 c fs) :=
  ⟨hs, hname, fun _ hi => by cases hi⟩

section Run

/-- An empty directory. -/
def noFiles : FileSystem (List UInt8) (List UInt8) := ⟨fun _ => none, fun _ => [], 0⟩

lemma sound_noFiles : noFiles.Sound := ⟨by simp [noFiles], by simp [noFiles]⟩

/-- The log file `b` with at most four bytes and two backups. -/
def small : Config := ⟨[98], 4, 2, true⟩

def allOk : Calls := ⟨true, fun _ => true, true⟩

/-- Records of three bytes. -/
def records : List Act :=
  [1, 2, 3, 4, 5, 6, 7].map fun b => .append [b, b, b] (some 3) true allOk

/-- The state after the records. -/
def afterRecords : State := records.foldl step (start (Nat.log 10) small noFiles true)

lemma exec_eq (log10 : ℕ → ℕ) (c : Config) (fs : FileSystem (List UInt8) (List UInt8))
    (ok : Bool) (s : State) (as : List Act) :
    (system log10 c fs ok).exec s as = some (as.foldl step s) := by
  induction as generalizing s with
  | nil => rfl
  | cons a as ih => exact ih (step s a)

end Run

/-- Whichever system calls fail and whatever is called in which order: read from the
oldest backup to the log file, the files hold pieces that were there before the
appender or that `write` took from a message, in their order, each at most once and
none cut. All other files stay as they are. -/
theorem pieces_kept (log10 : ℕ → ℕ) (c : Config)
    (fs : FileSystem (List UInt8) (List UInt8)) (ok : Bool) (hs : fs.Sound)
    (hname : 0 ∉ c.fileName) {s : State} (h : (system log10 c fs ok).Reachable s) :
    s.kept.Sublist ((before log10 c fs).kept ++ s.log.written) ∧
    ∀ n, (∀ k ≤ (Appender.new log10 c).maxBackupIndex, n ≠ (Appender.new log10 c).name k) →
      s.fs.content n = fs.content n := by
  have hacc : Accounted (before log10 c fs) s := by
    refine h.invariant ?_ ?_
    · rintro s rfl
      have hopen := (good_before log10 hs hname).openLog ok
      refine ⟨hopen.frame, hopen.good, hopen.kept.trans ?_⟩
      exact List.sublist_append_left ..
    · rintro s a s' hI - hstep
      cases hstep
      exact hI.step a
  exact ⟨hacc.kept, hacc.frame.other⟩

/-- The log file cannot be renamed. -/
def refused : Calls := ⟨true, fun i => i ≠ 1, true⟩

/-- Two records, the second with a roll-over that is refused, and half of a third one. -/
def afterRefused : State :=
  [.append [1, 1, 1] (some 3) true refused, .append [2, 2] (some 2) true refused,
    .close, .reopen true, .append [3, 3] (some 1) false refused].foldl step
    (start (Nat.log 10) small noFiles true)

theorem pieces_kept_refused :
    afterRefused.kept = [[1, 1, 1], [2, 2], [3]] ∧
    afterRefused.kept.Sublist
      ((before (Nat.log 10) small noFiles).kept ++ afterRefused.log.written) :=
  ⟨by decide +kernel, (pieces_kept (Nat.log 10) small noFiles true sound_noFiles (by decide)
    (System.Reach.exec (.init rfl) (fun _ _ _ => trivial) (exec_eq ..))).1⟩

section Faultless

def Calls.AllOk (calls : Calls) : Prop :=
  calls.remove = true ∧ (∀ i, calls.rename i = true) ∧ calls.reopen = true

/-- No system call fails, `write` takes its message whole, the appender is not closed,
and the log file is not truncated by `reopen`. -/
def Faultless (s : State) : Act → Prop
  | .append message count seek calls =>
    (∃ n, count = some n ∧ message.length ≤ n) ∧ seek = true ∧ calls.AllOk
  | .rollOver calls => calls.AllOk
  | .reopen _ => s.this.trunc = false
  | .close => False
  | .setAppend _ => True
  | .setMaximumFileSize _ => True

variable {calls : Calls} {limit longest n : ℕ} {g : ℕ → List (List UInt8)}
  {pieces : List (List UInt8)}

/-- The names and their number are the same before and after a step. -/
lemma kept_eq (h : Frame s s') :
    s'.kept = joined (gens s.this s'.fs) s.this.maxBackupIndex := by
  rw [State.kept, gens, gens, h.names, h.max]

lemma Good.gens_moveFiles (h : Good s) (hmax : 0 < s.this.maxBackupIndex) (hok : calls.AllOk) :
    gens s.this (s.moveFiles calls).fs =
      shiftUp (Function.update (gens s.this s.fs) s.this.maxBackupIndex [])
        s.this.maxBackupIndex := by
  obtain ⟨i, hi⟩ : ∃ i, s.this.maxBackupIndex = i + 1 := ⟨_, (Nat.sub_add_cancel hmax).symm⟩
  have hs := h.sound.remove (s.this.name (i + 1))
  have hgens : gens s.this (s.fs.remove (s.this.name (i + 1))) = _ := gens_remove h.name (i + 1)
  have hmoved := gens_renameEach h.name hs hok.2.1 (by rw [hgens, Function.update_self])
  rw [hgens] at hmoved
  simp only [State.moveFiles, if_pos hmax, hok.1, if_true]
  rw [hi]
  exact hmoved

/-- Opening the log file does not change it, unless there is something to truncate. -/
lemma Good.gens_openLog (h : Good s) (hempty : s.this.trunc = true → gens s.this s.fs 0 = []) :
    gens s.this (s.openLog true).fs = gens s.this s.fs := by
  have hfs : (s.openLog true).fs = (s.fs.openFile (s.this.name 0) s.this.trunc).2 := rfl
  rw [gens, hfs, FileSystem.content_openFile h.sound]
  split_ifs with htrunc
  · have hsame : Function.update (gens s.this s.fs) 0 [] = gens s.this s.fs := by
      rw [← hempty htrunc, Function.update_eq_self]
    rw [gens_update h.name]
    exact hsame
  · rfl

/-- A roll-over shifts the generations. -/
lemma Good.gens_rollOver (h : Good s) (hmax : 0 < s.this.maxBackupIndex) (hok : calls.AllOk) :
    gens s.this (s.rollOver calls).fs =
      shiftUp (Function.update (gens s.this s.fs) s.this.maxBackupIndex [])
        s.this.maxBackupIndex := by
  have hclose := h.close
  have hmove := hclose.good.moveFiles rfl calls
  have hnames : s.close.this.name = s.this.name := hclose.frame.names
  have hgens : gens s.close.this = gens s.this := by
    funext fs
    rw [gens, gens, hnames]
  have hmoved := hclose.good.gens_moveFiles hmax hok
  have hthis : (s.close.moveFiles calls).this = s.close.this := by
    rw [State.moveFiles]
    split_ifs <;> rfl
  rw [hgens] at hmoved
  have hopen := hmove.good.gens_openLog fun _ => by rw [hthis, hgens, hmoved]; rfl
  rw [hthis, hgens, hmoved] at hopen
  rw [State.rollOver, hok.2.2]
  exact hopen

/-- A roll-over that goes well deletes the oldest backup and nothing else. -/
lemma Good.kept_rollOver (h : Good s) (hmax : 0 < s.this.maxBackupIndex) (hok : calls.AllOk) :
    s.kept = gens s.this s.fs s.this.maxBackupIndex ++ (s.rollOver calls).kept := by
  have hshift := joined_shiftUp (Function.update (gens s.this s.fs) s.this.maxBackupIndex [])
    s.this.maxBackupIndex
  rw [Function.update_self, List.nil_append] at hshift
  rw [kept_eq (h.rollOver calls).frame, h.gens_rollOver hmax hok, ← hshift]
  exact joined_clear_last ..

lemma fd_rollOver (hok : calls.AllOk) : (s.rollOver calls).this.fd ≠ none := by
  rw [State.rollOver, hok.2.2]
  exact Option.some_ne_none _

/-- A message that is taken whole. -/
lemma write_whole {i n : ℕ} (hfd : s.this.fd = some i) {message : List UInt8}
    (hn : message.length ≤ n) : s.write message (some n) = { s with
      fs := s.fs.write i message
      log := ⟨s.log.asked ++ [message], s.log.written ++ [message]⟩ } := by
  simp only [State.write, hfd, List.take_of_length_le hn]

/-- What is kept after a run without failures that began in `s₀`. -/
structure Complete (s₀ s : State) : Prop where
  frame : Frame s₀ s
  good : Good s
  fd : s.this.fd ≠ none
  kept : s.kept <:+ s₀.kept ++ s.log.asked

lemma Complete.rollOver (h : Complete s₀ s) (hmax : 0 < s₀.this.maxBackupIndex)
    (hok : calls.AllOk) : Complete s₀ (s.rollOver calls) := by
  have hroll := h.good.rollOver calls
  have hkept := h.good.kept_rollOver (h.frame.max ▸ hmax) hok
  refine ⟨h.frame.trans hroll.frame, hroll.good, fd_rollOver hok, ?_⟩
  have hsuffix : (s.rollOver calls).kept <:+ s.kept := ⟨_, hkept.symm⟩
  rw [hroll.log]
  exact hsuffix.trans h.kept

lemma Complete.write (h : Complete s₀ s) {message : List UInt8} {n : ℕ}
    (hn : message.length ≤ n) : Complete s₀ (s.write message (some n)) := by
  obtain ⟨i, hfd⟩ := Option.ne_none_iff_exists'.mp h.fd
  obtain ⟨hframe, hgood, new, hkept, hlog⟩ := h.good.write message (some n)
  have hwrite := write_whole hfd hn
  have hnew : new = [message] := by
    rw [hwrite] at hlog
    exact (List.append_cancel_left (congrArg Log.written hlog)).symm
  refine ⟨h.frame.trans hframe, hgood, by rw [hwrite]; exact h.fd, ?_⟩
  obtain ⟨lost, hlost⟩ := h.kept
  refine ⟨lost, ?_⟩
  rw [hkept, hlog, hnew, ← List.append_assoc, hlost, List.append_assoc]

lemma Complete.step (h : Complete s₀ s) (hmax : 0 < s₀.this.maxBackupIndex) {a : Act}
    (ha : Faultless s a) : Complete s₀ (step s a) := by
  cases a with
  | append message count seek calls =>
    obtain ⟨⟨n, rfl, hn⟩, rfl, hok⟩ := ha
    have hwrite := h.write hn
    simp only [RollingFile.step, State.append]
    split
    · exact hwrite
    · split_ifs
      · exact hwrite.rollOver hmax hok
      · exact hwrite
  | rollOver calls => exact h.rollOver hmax ha
  | reopen ok =>
    simp only [RollingFile.step, State.reopen]
    split_ifs
    · have hopen := h.good.openLog true
      refine ⟨h.frame.trans hopen.frame, hopen.good, Option.some_ne_none _, ?_⟩
      have hgens := h.good.gens_openLog fun htrunc => by
        rw [Faultless] at ha
        rw [ha] at htrunc
        cases htrunc
      rw [kept_eq hopen.frame, hgens, hopen.log]
      exact h.kept
    · exact h
    · exact h
  | close => exact ha.elim
  | setAppend append =>
    have hset : Keeps s { s with this := s.this.setAppend append } :=
      .of_loses h.good.name (.refl _ h.good.sound) rfl rfl rfl rfl h.good.fd
    refine ⟨h.frame.trans hset.frame, hset.good, h.fd, ?_⟩
    rw [RollingFile.step, kept_eq hset.frame]
    exact h.kept
  | setMaximumFileSize maxFileSize =>
    have hset : Keeps s { s with this := s.this.setMaximumFileSize maxFileSize } :=
      .of_loses h.good.name (.refl _ h.good.sound) rfl rfl rfl rfl h.good.fd
    refine ⟨h.frame.trans hset.frame, hset.good, h.fd, ?_⟩
    rw [RollingFile.step, kept_eq hset.frame]
    exact h.kept

lemma complete_start (log10 : ℕ → ℕ) (hs : fs.Sound) (hname : 0 ∉ c.fileName) :
    Complete (start log10 c fs true) (start log10 c fs true) := by
  have hopen := (good_before log10 hs hname).openLog true
  have hasked : (start log10 c fs true).log.asked = [] := rfl
  have hkept := List.append_nil (start log10 c fs true).kept
  exact ⟨.refl _, hopen.good, Option.some_ne_none _, [], hasked ▸ hkept.symm⟩

/-- Without failures, without closing the log and without reopening it to truncate it: read
from the oldest backup to the log file, the files hold the last records of what was there
after the constructor and of all the messages since, each of them whole. -/
theorem last_records_kept (log10 : ℕ → ℕ) (c : Config)
    (fs : FileSystem (List UInt8) (List UInt8)) (hs : fs.Sound) (hname : 0 ∉ c.fileName)
    {s : State} (h : (system log10 c fs true).Reach Faultless s) :
    s.kept <:+ (start log10 c fs true).kept ++ s.log.asked := by
  have hmax : 0 < (start log10 c fs true).this.maxBackupIndex := by
    change 0 < if c.maxBackupIndex > 0 then c.maxBackupIndex else 1
    split_ifs <;> omega
  have hcomplete : Complete (start log10 c fs true) s := by
    refine h.invariant ?_ ?_
    · rintro s rfl
      exact complete_start log10 hs hname
    · rintro s a s' hI ha hstep
      cases hstep
      exact hI.step hmax ha
  exact hcomplete.kept

/-- Messages of at most `longest` bytes, and no failures. -/
def Appends (longest : ℕ) (s : State) : Act → Prop
  | .append message count seek calls => message.length ≤ longest ∧
    Faultless s (.append message count seek calls)
  | _ => False

lemma Appends.faultless {a : Act} (h : Appends longest s a) : Faultless s a := by
  cases a with
  | append message count seek calls => exact h.2
  | _ => exact h.elim

lemma appends_records : ∀ s, ∀ a ∈ records, Appends 3 s a := by
  intro s a ha
  obtain ⟨b, -, rfl⟩ := List.mem_map.mp ha
  exact ⟨le_rfl, ⟨3, rfl, le_rfl⟩, rfl, ⟨rfl, fun _ => rfl, rfl⟩⟩

/-- Two records fill a file, and the oldest two are gone. -/
theorem last_records_kept_seven :
    afterRecords.kept = [[3, 3, 3], [4, 4, 4], [5, 5, 5], [6, 6, 6], [7, 7, 7]] ∧
    afterRecords.kept <:+
      (start (Nat.log 10) small noFiles true).kept ++ afterRecords.log.asked := by
  refine ⟨by decide +kernel, last_records_kept (Nat.log 10) small noFiles sound_noFiles
    (by decide) (System.Reach.exec (.init rfl) ?_ (exec_eq ..))⟩
  exact fun s a ha => (appends_records s a ha).faultless

/-- A backup was rolled by the record that reached the limit. -/
def Full (limit longest : ℕ) (pieces : List (List UInt8)) : Prop :=
  ∃ init last, pieces = init ++ [last] ∧ size init < limit ∧ limit ≤ size pieces ∧
    last.length ≤ longest

/-- The log file is below the limit, and there are only full backups. -/
def Sized (limit longest : ℕ) (g : ℕ → List (List UInt8)) (n : ℕ) : Prop :=
  size (g 0) < limit ∧ ∀ k, 0 < k → k ≤ n → g k = [] ∨ Full limit longest (g k)

lemma size_append (pieces pieces' : List (List UInt8)) :
    size (pieces ++ pieces') = size pieces + size pieces' := by
  simp [size]

lemma Full.size_lt (h : Full limit longest pieces) : size pieces < limit + longest := by
  obtain ⟨init, last, rfl, hinit, -, hlast⟩ := h
  rw [size_append]
  have hone : size [last] = last.length := by simp [size]
  omega

lemma Sized.size_joined (h : Sized limit longest g n) :
    size (joined g n) < limit + n * (limit + longest) := by
  induction n with
  | zero => simpa [joined] using h.1
  | succ n ih =>
    have hrest := ih ⟨h.1, fun k hk hn => h.2 k hk (Nat.le_succ_of_le hn)⟩
    have htop : size (g (n + 1)) < limit + longest := by
      rcases h.2 (n + 1) (Nat.succ_pos n) le_rfl with hempty | hfull
      · have hlimit := h.1
        rw [hempty]
        simp only [size, List.flatten_nil, List.length_nil]
        omega
      · exact hfull.size_lt
    rw [joined, size_append, Nat.add_mul]
    omega

/-- The log file becomes a backup when a record brings it to the limit. -/
lemma Sized.shiftUp (h : Sized limit longest g n) {last : List UInt8}
    (hlast : last.length ≤ longest) (hfull : limit ≤ size (g 0 ++ [last])) :
    Sized limit longest
      (shiftUp (Function.update (Function.update g 0 (g 0 ++ [last])) n []) n) n := by
  refine ⟨lt_of_le_of_lt (Nat.zero_le _) h.1, fun k hk hkn => ?_⟩
  obtain ⟨k, rfl⟩ : ∃ j, k = j + 1 := ⟨k - 1, by omega⟩
  simp only [Lib.shiftUp, if_pos hkn]
  rw [Function.update_of_ne (by omega)]
  cases k with
  | zero =>
    rw [Function.update_self]
    exact .inr ⟨g 0, last, rfl, h.1, hfull, hlast⟩
  | succ k =>
    rw [Function.update_of_ne (Nat.succ_ne_zero k)]
    exact h.2 (k + 1) (Nat.succ_pos k) (by omega)

/-- What a message that is appended does to the generations. -/
lemma Complete.gens_append (h : Complete s₀ s) (hmax : 0 < s₀.this.maxBackupIndex)
    {message : List UInt8} {n : ℕ} (hn : message.length ≤ n) (hok : calls.AllOk) :
    gens s.this (s.append message (some n) true calls).fs =
      if s.this.maxFileSize ≤ size (gens s.this s.fs 0 ++ [message]) then
        Lib.shiftUp (Function.update (Function.update (gens s.this s.fs) 0
          (gens s.this s.fs 0 ++ [message])) s.this.maxBackupIndex []) s.this.maxBackupIndex
      else Function.update (gens s.this s.fs) 0 (gens s.this s.fs 0 ++ [message]) := by
  obtain ⟨i, hfd⟩ := Option.ne_none_iff_exists'.mp h.fd
  have hwritten := h.write hn
  have hwrite := write_whole hfd hn
  have hcontent := FileSystem.content_write h.good.sound (h.good.fd i hfd) message
  have hgens : gens s.this (s.fs.write i message) =
      Function.update (gens s.this s.fs) 0 (gens s.this s.fs 0 ++ [message]) := by
    rw [gens, hcontent, gens_update h.good.name]
    rfl
  have hdata : size ((s.fs.write i message).data i) =
      size (gens s.this s.fs 0 ++ [message]) := by
    have hbase := FileSystem.content_some (h.good.fd i hfd)
    simp [FileSystem.write, gens, hbase]
  rw [State.append, hwrite]
  dsimp only
  rw [hfd]
  dsimp only
  rw [hdata]
  rw [hwrite] at hwritten
  simp only [ge_iff_le, true_and]
  split_ifs with hroll
  · rw [hwritten.good.gens_rollOver (h.frame.max ▸ hmax) hok]
    dsimp only
    rw [hgens]
  · exact hgens

lemma Complete.sized_append (h : Complete s₀ s) (hmax : 0 < s₀.this.maxBackupIndex)
    (hsized : Sized s.this.maxFileSize longest (gens s.this s.fs) s.this.maxBackupIndex)
    {message : List UInt8} (hlen : message.length ≤ longest) {n : ℕ}
    (hn : message.length ≤ n) (hok : calls.AllOk) :
    Sized s.this.maxFileSize longest
      (gens s.this (s.append message (some n) true calls).fs) s.this.maxBackupIndex := by
  rw [h.gens_append hmax hn hok]
  split_ifs with hroll
  · exact hsized.shiftUp hlen hroll
  · refine ⟨?_, fun k hk hkn => ?_⟩
    · rw [Function.update_self]
      exact not_le.mp hroll
    · rw [Function.update_of_ne (Nat.ne_of_gt hk)]
      exact hsized.2 k hk hkn

lemma maxFileSize_append (s : State) (message : List UInt8) (count : Option ℕ) (seek : Bool)
    (calls : Calls) : (s.append message count seek calls).this.maxFileSize =
      s.this.maxFileSize := by
  have hwrite : (s.write message count).this = s.this := by
    unfold State.write
    split <;> rfl
  have hroll : ∀ s : State, (s.rollOver calls).this.maxFileSize = s.this.maxFileSize := by
    intro s
    rw [State.rollOver, State.openLog]
    split_ifs <;> (rw [State.moveFiles]; split_ifs <;> rfl)
  unfold State.append
  dsimp only
  split
  · rw [hwrite]
  · split_ifs
    · rw [hroll, hwrite]
    · rw [hwrite]

/-- Over files that an appender with the same limits may have left, and with messages of
at most `longest` bytes, the log file stays below the limit, every backup is one that a
record brought to the limit, and all files together stay below a bound that does not
depend on the number of messages. -/
theorem sizes_bounded (log10 : ℕ → ℕ) (c : Config)
    (fs : FileSystem (List UInt8) (List UInt8)) (longest : ℕ) (hs : fs.Sound)
    (hname : 0 ∉ c.fileName)
    (hsized : Sized c.maxFileSize longest
      (gens (start log10 c fs true).this (start log10 c fs true).fs)
      (start log10 c fs true).this.maxBackupIndex) {s : State}
    (h : (system log10 c fs true).Reach (fun s a => Appends longest s a) s) :
    Sized c.maxFileSize longest (gens s.this s.fs) s.this.maxBackupIndex ∧
    size s.kept < c.maxFileSize + s.this.maxBackupIndex * (c.maxFileSize + longest) := by
  have hmax : 0 < (start log10 c fs true).this.maxBackupIndex := by
    change 0 < if c.maxBackupIndex > 0 then c.maxBackupIndex else 1
    split_ifs <;> omega
  have hinv : Complete (start log10 c fs true) s ∧ s.this.maxFileSize = c.maxFileSize ∧
      Sized c.maxFileSize longest (gens s.this s.fs) s.this.maxBackupIndex := by
    refine h.invariant (I := fun s => Complete (start log10 c fs true) s ∧
      s.this.maxFileSize = c.maxFileSize ∧
      Sized c.maxFileSize longest (gens s.this s.fs) s.this.maxBackupIndex) ?_ ?_
    · rintro s rfl
      exact ⟨complete_start log10 hs hname, rfl, hsized⟩
    · rintro s a s' ⟨hI, hlimit, hsz⟩ ha hstep
      cases hstep
      cases a with
      | append message count seek calls =>
        obtain ⟨hlen, hfault⟩ := ha
        have hnext := hI.step hmax hfault
        obtain ⟨⟨n, rfl, hn⟩, rfl, hok⟩ := hfault
        rw [← hlimit] at hsz
        have hsz' := hI.sized_append hmax hsz hlen hn hok
        have hframe := (hI.good.append message (some n) true calls).1
        have hlimit' := (maxFileSize_append s message (some n) true calls).trans hlimit
        refine ⟨hnext, hlimit', ?_⟩
        rw [hlimit] at hsz'
        simp only [step, gens, hframe.names, hframe.max]
        exact hsz'
      | _ => exact ha.elim
  exact ⟨hinv.2.2, hinv.2.2.size_joined⟩

/-- The files of an appender that was created without any. -/
lemma gens_noFiles (k : ℕ) : gens (start (Nat.log 10) small noFiles true).this
    (start (Nat.log 10) small noFiles true).fs k = [] := by
  have hopen : gens (before (Nat.log 10) small noFiles).this
      (start (Nat.log 10) small noFiles true).fs = gens _ noFiles :=
    (good_before (Nat.log 10) sound_noFiles (by decide)).gens_openLog fun _ => rfl
  exact congrFun hopen k

theorem sizes_bounded_seven :
    Sized 4 3 (gens afterRecords.this afterRecords.fs) 2 ∧ size afterRecords.kept < 18 := by
  have hmax : afterRecords.this.maxBackupIndex = 2 := by decide +kernel
  have hbase : size (gens (start (Nat.log 10) small noFiles true).this
      (start (Nat.log 10) small noFiles true).fs 0) < 4 := by
    rw [gens_noFiles]
    decide
  have h := sizes_bounded (Nat.log 10) small noFiles 3 sound_noFiles (by decide)
    ⟨hbase, fun k _ _ => .inl (gens_noFiles k)⟩
    (System.Reach.exec (.init rfl) appends_records (exec_eq ..) :
      (system (Nat.log 10) small noFiles true).Reach (fun s a => Appends 3 s a) afterRecords)
  rw [hmax] at h
  exact h

end Faultless

end ShareBike.RollingFile
