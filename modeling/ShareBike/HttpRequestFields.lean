import ShareBike.HttpRequest

/-!
# Where the stores of a request land

A commit request stores two runs of its own text, of any length, in fields of 64
bytes. Neither length is checked, so a long run goes on into the fields that follow.
-/
namespace ShareBike.Http
open ShareBike.Lib

/-- In a commit request, the run after `name=` has at most `n` bytes, and the run
after the `age=` that is looked for from there has at most `m`. -/
def Fits (n m : ℕ) (buf : List UInt8) : Prop :=
  isCommit buf = true → ∀ body ∈ strstr buf blankLine,
    (scanField nameWord isAlnum body).2.length ≤ n ∧
    (scanField ageWord isDigit (scanField nameWord isAlnum body).1).2.length ≤ m

instance (n m : ℕ) (buf : List UInt8) : Decidable (Fits n m buf) :=
  inferInstanceAs (Decidable (_ → ∀ _ ∈ _, _ ∧ _))

/-- What `do_http_request` stores for a text. -/
def storesOf (code : Code) (buf : List UInt8) : List (Field × List UInt8) :=
  match parse buf with
  | some r => r.stores code
  | none => []

/-- A store that stays inside its field. -/
def Confined (w : Field × List UInt8) : Prop := w.2.length ≤ w.1.size

instance (w : Field × List UInt8) : Decidable (Confined w) :=
  inferInstanceAs (Decidable (_ ≤ _))

variable {code : Code} {stat : ConnectStat} {buf run : List UInt8} {f g : Field} {n m : ℕ}

lemma startsWithCase_head {b : UInt8} {word : List UInt8} (h : startsWithCase buf (b :: word)) :
    buf.head?.map tolower = some b := by
  cases buf with
  | nil => simp [startsWithCase] at h
  | cons c buf =>
    simp only [startsWithCase, List.length_cons, List.take_succ_cons, List.map_cons,
      decide_eq_true_eq, List.cons.injEq] at h
    simp [h.1]

lemma parse_commit (h : isCommit buf = true) :
    parse buf = (strstr buf blankLine).map parseCommit := by
  have hget : ¬ startsWithCase buf getWord = true := by
    intro hg
    have hp := (Bool.and_eq_true_iff.mp h).1
    have hne := (startsWithCase_head hg).symm.trans (startsWithCase_head hp)
    exact absurd hne (by decide)
  rw [parse, if_neg hget, if_pos h]

lemma parse_of_not_commit (h : ¬ isCommit buf = true) :
    parse buf = some ⟨.welcomeResponseHandler, [], []⟩ := by
  rw [parse, if_neg h]
  split <;> rfl

/-- The runs of a request are bounded exactly if its text fits. -/
lemma fits_iff : Fits n m buf ↔ ∀ r ∈ parse buf, r.name.length ≤ n ∧ r.age.length ≤ m := by
  by_cases hc : isCommit buf = true
  · rw [parse_commit hc]
    constructor
    · intro h r hr
      obtain ⟨body, hbody, rfl⟩ := Option.map_eq_some_iff.mp hr
      exact h hc body hbody
    · intro h _ body hbody
      exact h (parseCommit body) (Option.map_eq_some_iff.mpr ⟨body, hbody, rfl⟩)
  · rw [parse_of_not_commit hc]
    constructor
    · intro _ r hr
      cases hr
      exact ⟨Nat.zero_le n, Nat.zero_le m⟩
    · exact fun _ hcommit => absurd hcommit hc

lemma confined_copyRun (h : 0 < f.size) :
    (∀ w ∈ copyRun f run, Confined w) ↔ run.length + 1 ≤ f.size := by
  rw [copyRun]
  split_ifs with hrun
  · subst hrun
    simp only [List.not_mem_nil, false_imp_iff, implies_true, List.length_nil, true_iff]
    omega
  · simp [Confined]

lemma confined_stores (r : Request) : (∀ w ∈ r.stores code, Confined w) ↔
    r.name.length ≤ 63 ∧ r.age.length ≤ 63 := by
  have hname : (∀ w ∈ copyRun .name r.name, Confined w) ↔ r.name.length + 1 ≤ 64 :=
    confined_copyRun (by decide)
  have hage : (∀ w ∈ copyRun .age r.age, Confined w) ↔ r.age.length + 1 ≤ 64 :=
    confined_copyRun (by decide)
  have htail : ∀ w ∈ [(Field.handler, leBytes Field.handler.size (code.addr r.handler)),
      (Field.events, leBytes Field.events.size EPOLLOUT)], Confined w := by
    simp [Confined]
  simp only [Request.stores, List.forall_mem_append, hname, hage]
  constructor
  · rintro ⟨⟨h₁, h₂⟩, -⟩
    exact ⟨Nat.le_of_succ_le_succ h₁, Nat.le_of_succ_le_succ h₂⟩
  · rintro ⟨h₁, h₂⟩
    exact ⟨⟨Nat.succ_le_succ h₁, Nat.succ_le_succ h₂⟩, htail⟩

/-- A copy leaves the fields alone that lie before it or after its last byte. -/
lemma copyRun_apart (h : g.offset + g.size ≤ f.offset ∨ f.offset + (run.length + 1) ≤ g.offset) :
    ∀ w ∈ copyRun f run,
      g.offset + g.size ≤ w.1.offset ∨ w.1.offset + w.2.length ≤ g.offset := by
  rw [copyRun]
  split_ifs
  · simp
  · intro w hw
    rw [List.mem_singleton] at hw
    subst hw
    rwa [List.length_append]

/-- The copies of a request, and the two assignments that follow them. -/
lemma storeAll_stores (r : Request) : stat.storeAll (r.stores code) =
    ((stat.storeAll (copyRun .name r.name ++ copyRun .age r.age)).set .handler
      (code.addr r.handler)).set .events EPOLLOUT := by
  rw [Request.stores, storeAll_append]
  rfl

@[simp] lemma get_handler_stores (r : Request) :
    (stat.storeAll (r.stores code)).get .handler = code.addr r.handler := by
  rw [storeAll_stores, get_set_of_ne (by decide), get_set_self (code.lt r.handler)]

@[simp] lemma get_events_stores (r : Request) :
    (stat.storeAll (r.stores code)).get .events = EPOLLOUT := by
  rw [storeAll_stores, get_set_self (by decide)]

/-- A field that neither copy reaches keeps its value. -/
lemma get_stores {r : Request} (hh : Field.handler ≠ g) (he : Field.events ≠ g)
    (hname : g.offset + g.size ≤ 4 ∨ 4 + (r.name.length + 1) ≤ g.offset)
    (hage : g.offset + g.size ≤ 68 ∨ 68 + (r.age.length + 1) ≤ g.offset) :
    (stat.storeAll (r.stores code)).get g = stat.get g := by
  rw [storeAll_stores, get_set_of_ne he, get_set_of_ne hh]
  apply get_storeAll_of_apart
  intro w hw
  rcases List.mem_append.mp hw with hw | hw
  · exact copyRun_apart (f := .name) hname w hw
  · exact copyRun_apart (f := .age) hage w hw

lemma get_fd_stores (r : Request) : (stat.storeAll (r.stores code)).get .fd = stat.get .fd :=
  get_stores (by decide) (by decide) (.inl (by decide)) (.inl (by decide))

/-- The pointer in `_ev.data` survives runs that end before it. -/
lemma get_data_stores {r : Request} (hname : r.name.length ≤ 131) (hage : r.age.length ≤ 67) :
    (stat.storeAll (r.stores code)).get .data = stat.get .data := by
  apply get_stores (by decide) (by decide)
  · show _ ∨ 4 + (r.name.length + 1) ≤ 136
    omega
  · show _ ∨ 68 + (r.age.length + 1) ≤ 136
    omega

lemma get_status_stores {r : Request} (hname : r.name.length ≤ 139) (hage : r.age.length ≤ 75) :
    (stat.storeAll (r.stores code)).get .status = stat.get .status := by
  apply get_stores (by decide) (by decide)
  · show _ ∨ 4 + (r.name.length + 1) ≤ 144
    omega
  · show _ ∨ 68 + (r.age.length + 1) ≤ 144
    omega

/-- For every text that is read and every `ConnectStat`, the stores stay inside
their fields and leave `fd`, `status` and `_ev.data` as they were exactly if neither
run of a commit request is longer than 63 bytes. -/
theorem stores_confined_iff (code : Code) (stat : ConnectStat) (bytes : List UInt8) :
    ((∀ w ∈ storesOf code (cstr bytes), Confined w) ∧
      ∀ f ∈ [Field.fd, .status, .data],
        (stat.storeAll (storesOf code (cstr bytes))).get f = stat.get f) ↔
    Fits 63 63 (cstr bytes) := by
  rw [fits_iff, storesOf]
  cases parse (cstr bytes) with
  | none => simp [ConnectStat.storeAll]
  | some r =>
    simp only [Option.mem_some_iff, forall_eq', confined_stores]
    constructor
    · exact fun h => h.1
    · rintro ⟨hname, hage⟩
      refine ⟨⟨hname, hage⟩, ?_⟩
      have hstatus : (stat.storeAll (r.stores code)).get .status = stat.get .status :=
        get_status_stores (by omega) (by omega)
      have hdata : (stat.storeAll (r.stores code)).get .data = stat.get .data :=
        get_data_stores (by omega) (by omega)
      simp [get_fd_stores, hstatus, hdata]

/-- Two functions at fixed addresses. -/
def sampleCode : Code where
  addr
    | .welcomeResponseHandler => 0x401000
    | .commitResponeHandler => 0x402000
  ne_null := by rintro (_ | _) <;> decide
  lt := by rintro (_ | _) <;> decide
  ne := by decide

/-- `Post commit`, a blank line and a name of `n` letters. -/
def longName (n : ℕ) : List UInt8 :=
  [80, 111, 115, 116, 32, 99, 111, 109, 109, 105, 116] ++ blankLine ++ nameWord ++
    List.replicate n 97

/-- A name of 64 letters puts its NUL into `age`, and one of 132 letters into
`_ev.data`. -/
theorem name_overflows :
    (longName 64).length ≤ 4095 ∧
      ¬ (∀ w ∈ storesOf sampleCode (cstr (longName 64)), Confined w) ∧
    (longName 132).length ≤ 4095 ∧
      (((statInit 5).set .data 0x7ff1).storeAll
        (storesOf sampleCode (cstr (longName 132)))).get .data = 0x7f00 := by
  decide +kernel

end ShareBike.Http
