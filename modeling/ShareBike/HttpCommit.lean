import ShareBike.HttpRequestFields

/-!
# Commit requests

What `parse` makes of the requests that the form of the welcome page sends.
-/
namespace ShareBike.Http
open ShareBike.Lib

/-- The parts of a commit request: `POST` and `commit` in any letter case with spaces or
slashes between them, the bytes up to the blank line, and the two fields. -/
structure CommitForm where
  post : List UInt8
  gap : List UInt8
  commit : List UInt8
  header : List UInt8
  name : List UInt8
  age : List UInt8
  post_eq : post.map tolower = postWord
  gap_all : ∀ b ∈ gap, isSpaceOrSlash b = true
  commit_eq : commit.map tolower = commitWord
  header_nul : 0 ∉ header
  header_blank : ¬ blankLine <:+: header
  name_all : ∀ b ∈ name, isAlnum b = true
  name_ne : name ≠ []
  name_le : name.length ≤ 63
  age_all : ∀ b ∈ age, isDigit b = true
  age_ne : age ≠ []
  age_le : age.length ≤ 63

/-- The scan of the gap does not go on into the word. -/
lemma notMem_commitWord_of_isSpaceOrSlash {b : UInt8} (h : isSpaceOrSlash b = true) :
    tolower b ∉ commitWord := by
  rw [isSpaceOrSlash, Bool.or_eq_true, decide_eq_true_eq, decide_eq_true_eq] at h
  rcases h with rfl | rfl
  · decide
  · decide

namespace CommitForm

/-- `name=` N `&age=` A -/
def body (f : CommitForm) : List UInt8 := nameWord ++ (f.name ++ 38 :: (ageWord ++ f.age))

def bytes (f : CommitForm) : List UInt8 :=
  f.post ++ (f.gap ++ (f.commit ++ (f.header ++ (blankLine ++ f.body))))

/-- What is to be taken from the request. -/
def request (f : CommitForm) : Request := ⟨.commitResponeHandler, f.name, f.age⟩

variable (f : CommitForm) {b : UInt8}

lemma tolower_of_mem_post (h : b ∈ f.post) : tolower b ∈ postWord :=
  f.post_eq ▸ List.mem_map_of_mem h

lemma tolower_of_mem_commit (h : b ∈ f.commit) : tolower b ∈ commitWord :=
  f.commit_eq ▸ List.mem_map_of_mem h

lemma nul_notMem_name : 0 ∉ f.name := fun h => absurd (f.name_all 0 h) (by decide)

lemma nul_notMem_age : 0 ∉ f.age := fun h => absurd (f.age_all 0 h) (by decide)

/-- The request has no NUL, so that all of it is the text that is searched. -/
lemma nul_notMem_bytes : 0 ∉ f.bytes := by
  have hpost : 0 ∉ f.post := fun h => absurd (f.tolower_of_mem_post h) (by decide)
  have hgap : 0 ∉ f.gap := fun h => absurd (f.gap_all 0 h) (by decide)
  have hcommit : 0 ∉ f.commit := fun h => absurd (f.tolower_of_mem_commit h) (by decide)
  simp [bytes, body, hpost, hgap, hcommit, f.header_nul, f.nul_notMem_name, f.nul_notMem_age,
    blankLine, nameWord, ageWord]

lemma isCommit_bytes : isCommit f.bytes = true := by
  have hlen : postWord.length = f.post.length := by rw [← f.post_eq, List.length_map]
  have hdrop : f.bytes.drop postWord.length =
      f.gap ++ (f.commit ++ (f.header ++ (blankLine ++ f.body))) := by
    rw [hlen, bytes, List.drop_left]
  have hskip : (f.gap ++ (f.commit ++ (f.header ++ (blankLine ++ f.body)))).dropWhile
      isSpaceOrSlash = f.commit ++ (f.header ++ (blankLine ++ f.body)) := by
    rw [List.dropWhile_append_of_pos f.gap_all]
    have hcommit := f.commit_eq
    cases hc : f.commit with
    | nil =>
      rw [hc] at hcommit
      cases hcommit
    | cons c cs =>
      have hmem : c ∈ f.commit := hc ▸ List.mem_cons_self
      have hstop : isSpaceOrSlash c = false :=
        Bool.eq_false_iff.mpr fun h =>
          notMem_commitWord_of_isSpaceOrSlash h (f.tolower_of_mem_commit hmem)
      rw [List.cons_append, List.dropWhile_cons, hstop]
      rfl
  rw [isCommit, hdrop, hskip, startsWithCase_of_map f.commit_eq, bytes,
    startsWithCase_of_map f.post_eq]
  rfl

/-- The search for the blank line ends in bytes of line ends before the fields. -/
lemma strstr_blankLine : ∃ tail, (∀ b ∈ tail, b ∈ blankLine) ∧
    strstr f.bytes blankLine = some (tail ++ (blankLine ++ f.body)) := by
  have hpost : 13 ∉ f.post := fun h => absurd (f.tolower_of_mem_post h) (by decide)
  have hgap : 13 ∉ f.gap := fun h => absurd (f.gap_all 13 h) (by decide)
  have hcommit : 13 ∉ f.commit := fun h => absurd (f.tolower_of_mem_commit h) (by decide)
  obtain ⟨tail, htail, hfound⟩ := strstr_append_word f.header_blank f.body
  refine ⟨tail, htail, ?_⟩
  rw [bytes, strstr_append_of_head rfl hpost, strstr_append_of_head rfl hgap,
    strstr_append_of_head rfl hcommit, hfound]

/-- The name is found after the blank line, and ends at the `&`. -/
lemma scanField_name {tail : List UInt8} (htail : ∀ b ∈ tail, b ∈ blankLine) :
    scanField nameWord isAlnum (tail ++ (blankLine ++ f.body)) =
      (f.name ++ 38 :: (ageWord ++ f.age), f.name) := by
  have hafter : 110 ∉ tail := fun h => absurd (htail 110 h) (by decide)
  have hblank : 110 ∉ blankLine := by decide
  have hfound : strstr (tail ++ (blankLine ++ f.body)) nameWord = some f.body := by
    rw [strstr_append_of_head rfl hafter, strstr_append_of_head rfl hblank]
    exact strstr_of_starts (List.prefix_append _ _)
  have hrun : (f.name ++ 38 :: (ageWord ++ f.age)).takeWhile isAlnum = f.name := by
    rw [List.takeWhile_append_of_pos f.name_all]
    exact List.append_nil _
  have hdrop : f.body.drop nameWord.length = f.name ++ 38 :: (ageWord ++ f.age) :=
    List.drop_left
  simp only [scanField, hfound, hdrop, hrun]

/-- The name has no `=` in it, so that `age=` is not found in it. -/
lemma scanField_age :
    scanField ageWord isDigit (f.name ++ 38 :: (ageWord ++ f.age)) = (f.age, f.age) := by
  have hname : ¬ ageWord <:+: f.name :=
    fun h => absurd (f.name_all 61 (h.subset (by decide))) (by decide)
  have hfound : strstr (f.name ++ 38 :: (ageWord ++ f.age)) ageWord = some (ageWord ++ f.age) := by
    rw [strstr_append_cons hname (by decide)]
    exact strstr_of_starts (List.prefix_append _ _)
  simp only [scanField, hfound, List.drop_left, List.takeWhile_eq_self_iff.mpr f.age_all]

/-- Look-alikes of the fields in the header do not matter. -/
lemma parseCommit_body {tail : List UInt8} (htail : ∀ b ∈ tail, b ∈ blankLine) :
    parseCommit (tail ++ (blankLine ++ f.body)) = f.request := by
  simp only [parseCommit, request, f.scanField_name htail, f.scanField_age]

lemma parse_bytes : parse f.bytes = some f.request := by
  obtain ⟨tail, htail, hfound⟩ := f.strstr_blankLine
  rw [parse_commit f.isCommit_bytes, hfound, Option.map_some, f.parseCommit_body htail]

end CommitForm

end ShareBike.Http
