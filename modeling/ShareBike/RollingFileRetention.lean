import ShareBike.RollingFileRuns

/-!
# What the rolling log file retains

Over files in which the backups are full, a record is lost only when there are all of them:
the files then hold as many bytes as that many full backups at least.
-/
namespace ShareBike.RollingFile
open ShareBike.Lib

variable {g : ℕ → List (List UInt8)} {limit n : ℕ} {s s₀ : State} {c : Config} {calls : Calls}
  {fs : FileSystem (List UInt8) (List UInt8)}

section Packed

/-- The backups are full, and a backup has all the newer ones before it. -/
structure Packed (limit : ℕ) (g : ℕ → List (List UInt8)) (n : ℕ) : Prop where
  full : ∀ k, 0 < k → k ≤ n → g k = [] ∨ limit ≤ size (g k)
  newer : ∀ k, 0 < k → k < n → g (k + 1) ≠ [] → g k ≠ []

/-- If there is the oldest backup, there are all of them. -/
lemma Packed.all (h : Packed limit g n) (hn : g n ≠ []) {k : ℕ} (hk : 0 < k) (hkn : k ≤ n) :
    g k ≠ [] := by
  induction hd : n - k generalizing k with
  | zero =>
    have heq : k = n := by omega
    exact heq ▸ hn
  | succ d ih => exact h.newer k hk (by omega) (ih (by omega) (by omega) (by omega))

/-- The log file changes nothing for the backups. -/
lemma Packed.update (h : Packed limit g n) (pieces : List (List UInt8)) :
    Packed limit (Function.update g 0 pieces) n := by
  constructor
  · intro k hk hkn
    rw [Function.update_of_ne (by omega)]
    exact h.full k hk hkn
  · intro k hk hkn
    rw [Function.update_of_ne (by omega), Function.update_of_ne (by omega)]
    exact h.newer k hk hkn

/-- The generations after a roll-over, from the first backup on. -/
lemma shiftUp_clear {k : ℕ} (hk : k + 1 ≤ n) :
    shiftUp (Function.update g n []) n (k + 1) = g k := by
  simp only [shiftUp, if_pos hk]
  exact Function.update_of_ne (by omega) ..

lemma Packed.shiftUp (h : Packed limit g n) (hfull : limit ≤ size (g 0)) (hne : g 0 ≠ []) :
    Packed limit (shiftUp (Function.update g n []) n) n := by
  constructor
  · intro k hk hkn
    obtain ⟨k, rfl⟩ : ∃ j, k = j + 1 := ⟨k - 1, by omega⟩
    rw [shiftUp_clear hkn]
    by_cases hzero : k = 0
    · subst hzero
      exact .inr hfull
    · exact h.full k (by omega) (by omega)
  · intro k hk hkn
    obtain ⟨k, rfl⟩ : ∃ j, k = j + 1 := ⟨k - 1, by omega⟩
    rw [shiftUp_clear (by omega), shiftUp_clear (by omega)]
    by_cases hzero : k = 0
    · subst hzero
      exact fun _ => hne
    · exact h.newer k (by omega) (by omega)

lemma size_joined_ge (h : ∀ k, 0 < k → k ≤ n → limit ≤ size (g k)) :
    n * limit ≤ size (joined g n) := by
  induction n with
  | zero => omega
  | succ n ih =>
    have hrest := ih fun k hk hkn => h k hk (by omega)
    have htop := h (n + 1) (Nat.succ_pos n) le_rfl
    rw [joined, size_append, Nat.succ_mul]
    omega

end Packed

/-- What was kept at first, and every message since, is kept or was lost before all that is
kept; and if something was lost then there are all the backups. -/
structure Retains (s₀ s : State) : Prop where
  packed : Packed s.this.maxFileSize (gens s.this s.fs) s.this.maxBackupIndex
  kept : ∃ lost, lost ++ s.kept = s₀.kept ++ s.log.asked ∧
    (lost ≠ [] → ∀ k, 0 < k → k ≤ s.this.maxBackupIndex → gens s.this s.fs k ≠ [])

lemma asked_append (h : Good s) (message : List UInt8) (count : Option ℕ) (seek : Bool)
    (calls : Calls) : (s.append message count seek calls).log.asked = s.log.asked ++ [message] := by
  have hwrite : (s.write message count).log.asked = s.log.asked ++ [message] := by
    unfold State.write
    split <;> rfl
  have hgood := (h.write message count).2.1
  unfold State.append
  dsimp only
  split
  · exact hwrite
  · split_ifs
    · rw [(hgood.rollOver calls).log]
      exact hwrite
    · exact hwrite

lemma Retains.append (h : Retains s₀ s) (hc : Complete s₀ s) (hmax : 0 < s₀.this.maxBackupIndex)
    {message : List UInt8} (hn : message.length ≤ n) (hok : calls.AllOk) :
    Retains s₀ (s.append message (some n) true calls) := by
  obtain ⟨lost, hlost, hall⟩ := h.kept
  have hframe := (hc.good.append message (some n) true calls).1
  have hlimit := maxFileSize_append s message (some n) true calls
  have hgens := hc.gens_append hmax hn hok
  have hasked := asked_append hc.good message (some n) true calls
  -- the generations with the new record, before any roll-over
  have hpacked := h.packed.update (gens s.this s.fs 0 ++ [message])
  have hjoined := joined_append (gens s.this s.fs) [message] s.this.maxBackupIndex
  have hnames : gens (s.append message (some n) true calls).this = gens s.this := by
    funext fs
    rw [gens, gens, hframe.names]
  have htotal : lost ++ joined (Function.update (gens s.this s.fs) 0
      (gens s.this s.fs 0 ++ [message])) s.this.maxBackupIndex =
      s₀.kept ++ (s.log.asked ++ [message]) := by
    rw [hjoined, ← List.append_assoc, ← List.append_assoc, ← hlost]
    rfl
  split_ifs at hgens with hroll
  · have hself : Function.update (gens s.this s.fs) 0 (gens s.this s.fs 0 ++ [message]) 0 =
        gens s.this s.fs 0 ++ [message] := Function.update_self ..
    have hshifted := hpacked.shiftUp (hself.symm ▸ hroll) (by rw [hself]; simp)
    have hpos : 0 < s.this.maxBackupIndex := hc.frame.max ▸ hmax
    have holdest : Function.update (gens s.this s.fs) 0 (gens s.this s.fs 0 ++ [message])
        s.this.maxBackupIndex = gens s.this s.fs s.this.maxBackupIndex :=
      Function.update_of_ne (by omega) ..
    refine ⟨by rw [hlimit, hnames, hframe.max, hgens]; exact hshifted,
      lost ++ gens s.this s.fs s.this.maxBackupIndex, ?_, ?_⟩
    · have hdropped := joined_shiftUp (Function.update (Function.update (gens s.this s.fs) 0
        (gens s.this s.fs 0 ++ [message])) s.this.maxBackupIndex []) s.this.maxBackupIndex
      rw [Function.update_self, List.nil_append] at hdropped
      rw [State.kept, hnames, hframe.max, hgens, ← hdropped, hasked, ← htotal, List.append_assoc]
      refine congrArg (lost ++ ·) ?_
      rw [← holdest]
      exact (joined_clear_last ..).symm
    · intro hne k hk hkn
      rw [hframe.max] at hkn
      obtain ⟨k, rfl⟩ : ∃ j, k = j + 1 := ⟨k - 1, by omega⟩
      rw [hnames, hgens, shiftUp_clear hkn]
      by_cases hzero : k = 0
      · rw [hzero, hself]
        simp
      · rw [Function.update_of_ne hzero]
        by_cases hempty : lost = []
        · -- the first loss: the oldest backup was there
          rw [hempty, List.nil_append] at hne
          exact h.packed.all hne (by omega) (by omega)
        · exact hall hempty k (by omega) (by omega)
  · refine ⟨by rw [hlimit, hnames, hframe.max, hgens]; exact hpacked, lost, ?_, ?_⟩
    · rw [State.kept, hnames, hframe.max, hgens, hasked, htotal]
    · intro hne k hk hkn
      rw [hframe.max] at hkn
      rw [hnames, hgens, Function.update_of_ne (by omega)]
      exact hall hne k hk hkn

/-- What is lost, if anything is, went when there were all the backups. -/
lemma Retains.lost (h : Retains s₀ s) : ∃ lost, lost ++ s.kept = s₀.kept ++ s.log.asked ∧
    (lost = [] ∨ s.this.maxBackupIndex * s.this.maxFileSize ≤ size s.kept) := by
  obtain ⟨lost, hlost, hall⟩ := h.kept
  refine ⟨lost, hlost, ?_⟩
  by_cases hempty : lost = []
  · exact .inl hempty
  · exact .inr (size_joined_ge fun k hk hkn =>
      (h.packed.full k hk hkn).resolve_left (hall hempty k hk hkn))

/-- What a life of an appender that does not truncate leaves for the next one. -/
structure Leaves (log10 : ℕ → ℕ) (c : Config) (fs fs' : FileSystem (List UInt8) (List UInt8))
    (asked : List (List UInt8)) : Prop where
  sound : fs'.Sound
  packed : Packed c.maxFileSize (gens (.new log10 c) fs') (Appender.new log10 c).maxBackupIndex
  kept : ∃ lost, lost ++ (before log10 c fs').kept = (before log10 c fs).kept ++ asked ∧
    (lost = [] ∨ (Appender.new log10 c).maxBackupIndex * c.maxFileSize ≤
      size (before log10 c fs').kept)
  other : ∀ n, (∀ k ≤ (Appender.new log10 c).maxBackupIndex, n ≠ (Appender.new log10 c).name k) →
    fs'.content n = fs.content n

lemma Leaves.refl (log10 : ℕ → ℕ) (hs : fs.Sound) (hpacked : Packed c.maxFileSize
    (gens (.new log10 c) fs) (Appender.new log10 c).maxBackupIndex) :
    Leaves log10 c fs fs [] :=
  ⟨hs, hpacked, ⟨[], by rw [List.nil_append, List.append_nil], .inl rfl⟩, fun _ _ => rfl⟩

/-- Two lives after each other. -/
lemma Leaves.trans {log10 : ℕ → ℕ} {fs' fs'' : FileSystem (List UInt8) (List UInt8)}
    {asked asked' : List (List UInt8)} (h : Leaves log10 c fs fs' asked)
    (h' : Leaves log10 c fs' fs'' asked') : Leaves log10 c fs fs'' (asked ++ asked') := by
  obtain ⟨lost, hlost, hsize⟩ := h.kept
  obtain ⟨lost', hlost', hsize'⟩ := h'.kept
  refine ⟨h'.sound, h'.packed, ⟨lost ++ lost', ?_, ?_⟩, fun n hn =>
    (h'.other n hn).trans (h.other n hn)⟩
  · rw [List.append_assoc, hlost', ← List.append_assoc, hlost, List.append_assoc]
  · by_cases hempty : lost' = []
    · rcases hsize with hnone | hfull
      · exact .inl (by rw [hnone, hempty, List.append_nil])
      · -- nothing was lost since, so that there is at least as much
        rw [hempty, List.nil_append] at hlost'
        rw [hlost', size_append]
        exact .inr (by omega)
    · exact .inr (hsize'.resolve_left hempty)

end ShareBike.RollingFile
