import OzoneRust.Lib.Text

/-!
# Byte ranges

`parse_range` of the gateway: what a `Range` header asks of an object whose length is known.
A range that is answered lies in the object (`OzoneRust.parseRange_bounds`), so the slice that a
download takes is never out of bounds, whatever the header.

`OzoneRust.ByteRange` is the syntax of a single byte range, with numbers of any length, and
`OzoneRust.ByteRange.meaning` what it stands for over the naturals. The code reads the numbers into
machine words. If one does not fit, the header is taken for a malformed one, and the whole object
is served, also where the range is past its end. So the two agree exactly if the numbers fit, or
the object is empty (`OzoneRust.parseRange_eq_meaning`).
-/

namespace OzoneRust

open Text

/-! ### The code -/

/-- `RangeSpec`. -/
inductive RangeSpec where
  /-- No usable header: the whole object is served. -/
  | whole
  /-- The first and the last byte to serve. -/
  | satisfiable (start last : ℕ)
  /-- A byte range that this object does not have. -/
  | unsatisfiable
  deriving DecidableEq, Repr

/-- The last check of `parse_range`. -/
def checkRange (total start last : ℕ) : RangeSpec :=
  if start > last ∨ start > total - 1 then .unsatisfiable else .satisfiable start last

/-- `parse_range`, for a `usize` of 64 bits. -/
def parseRange (header : Text) (total : ℕ) : RangeSpec :=
  match stripPrefix "bytes=".toList (trim header) with
  | none => .whole
  | some spec =>
    match splitOnce '-' spec with
    | none => .whole
    | some (s, e) =>
      if total = 0 then .unsatisfiable
      else if s = [] then
        match parseUnsigned (2 ^ 64) (trim e) with
        | none => .whole
        | some n => if n = 0 then .unsatisfiable else checkRange total (total - n) (total - 1)
      else
        match parseUnsigned (2 ^ 64) (trim s) with
        | none => .whole
        | some start =>
          if trim e = [] then checkRange total start (total - 1)
          else
            match parseUnsigned (2 ^ 64) (trim e) with
            | none => .whole
            | some v => checkRange total start (min v (total - 1))

/-- A range that is not empty is answered if it begins in the object. -/
theorem checkRange_eq {total start last : ℕ} (htotal : total ≠ 0)
    (h : start < total → start ≤ last) :
    checkRange total start last =
      if start < total then .satisfiable start last else .unsatisfiable := by
  unfold checkRange
  by_cases hlt : start < total
  · rw [if_pos hlt, if_neg (by have := h hlt; omega)]
  · rw [if_neg hlt, if_pos (by omega)]

theorem checkRange_bounds {total start last s e : ℕ} (htotal : total ≠ 0) (hlast : last ≤ total - 1)
    (h : checkRange total start last = .satisfiable s e) : s ≤ e ∧ e < total := by
  unfold checkRange at h
  split at h
  · cases h
  · cases h
    omega

/-- **A range that is answered lies in the object**, whatever the header. -/
theorem parseRange_bounds {header : Text} {total s e : ℕ}
    (h : parseRange header total = .satisfiable s e) : s ≤ e ∧ e < total := by
  unfold parseRange at h
  split at h
  · cases h
  split at h
  · cases h
  split at h
  · cases h
  rename_i htotal
  split at h
  · -- the last bytes of the object
    split at h
    · cases h
    split at h
    · cases h
    exact checkRange_bounds htotal le_rfl h
  · split at h
    · cases h
    split at h
    · exact checkRange_bounds htotal le_rfl h
    split at h
    · cases h
    exact checkRange_bounds htotal (min_le_right ..) h

/-! ### What a range means -/

/-- **A single byte range**, as it is written. -/
inductive ByteRange where
  /-- From one place to another, which is not before it. -/
  | between (first last : Digits) (le : first.value ≤ last.value)
  /-- From a place on. -/
  | onward (first : Digits)
  /-- The last bytes. -/
  | suffix (length : Digits)

namespace ByteRange

/-- The text before the `-`. -/
def before : ByteRange → Text
  | between first _ _ => first.text
  | onward first => first.text
  | suffix _ => []

/-- The text after the `-`. -/
def after : ByteRange → Text
  | between _ last _ => last.text
  | onward _ => []
  | suffix length => length.text

/-- The header. -/
def header (r : ByteRange) : Text := "bytes=".toList ++ (r.before ++ '-' :: r.after)

/-- The numbers in the header. -/
def numbers : ByteRange → List Digits
  | between first last _ => [first, last]
  | onward first => [first]
  | suffix length => [length]

/-- **The bytes a range stands for**, over the naturals. -/
def meaning (total : ℕ) : ByteRange → RangeSpec
  | between first last _ =>
    if first.value < total then .satisfiable first.value (min last.value (total - 1))
    else .unsatisfiable
  | onward first =>
    if first.value < total then .satisfiable first.value (total - 1) else .unsatisfiable
  | suffix length =>
    if 0 < length.value ∧ 0 < total then
      .satisfiable (total - min length.value total) (total - 1)
    else .unsatisfiable

theorem meaning_ne_whole (total : ℕ) (r : ByteRange) : r.meaning total ≠ .whole := by
  cases r <;> simp only [meaning] <;> split_ifs <;> exact fun h => by cases h

theorem meaning_zero (r : ByteRange) : r.meaning 0 = .unsatisfiable := by
  cases r <;> simp [meaning]

/-! ### The two compared -/

theorem digits_of_mem (r : ByteRange) {c : Char} (hc : c ∈ r.before ∨ c ∈ r.after) :
    c.isDigit = true := by
  cases r with
  | between first last _ => exact hc.elim (first.isDigit c) (last.isDigit c)
  | onward first => exact hc.elim (first.isDigit c) fun h => absurd h List.not_mem_nil
  | suffix length => exact hc.elim (fun h => absurd h List.not_mem_nil) (length.isDigit c)

/-- A header is cut at its `-`. -/
theorem cut_header (r : ByteRange) : stripPrefix "bytes=".toList (trim r.header) =
    some (r.before ++ '-' :: r.after) ∧
    splitOnce '-' (r.before ++ '-' :: r.after) = some (r.before, r.after) := by
  have hdash : '-' ∉ r.before := fun h => absurd (r.digits_of_mem (.inl h)) (by decide)
  have htrim : trim r.header = r.header := by
    refine trim_eq_self fun c hc => ?_
    have hunit : "bytes=".toList.all (fun c => !isWhiteSpace c) = true := by decide +kernel
    rcases List.mem_append.mp hc with hc | hc
    · simpa using List.all_eq_true.mp hunit c hc
    rcases List.mem_append.mp hc with hc | hc
    · exact isWhiteSpace_of_isDigit (r.digits_of_mem (.inl hc))
    rcases List.mem_cons.mp hc with rfl | hc
    · decide
    · exact isWhiteSpace_of_isDigit (r.digits_of_mem (.inr hc))
  rw [htrim]
  exact ⟨stripPrefix_append .., splitOnce_append hdash _⟩

/-- What the code makes of a range, over an object that is not empty. -/
theorem parseRange_header {total : ℕ} (htotal : total ≠ 0) (r : ByteRange) :
    parseRange r.header total =
      if ∀ n ∈ r.numbers, n.value < 2 ^ 64 then r.meaning total else .whole := by
  obtain ⟨hstrip, hsplit⟩ := r.cut_header
  unfold parseRange
  simp only [hstrip, hsplit, if_neg htotal]
  cases r with
  | between first last le =>
    simp only [before, after, if_neg first.ne_nil, first.trim_text, last.trim_text,
      if_neg last.ne_nil, parseUnsigned_digits, numbers, List.forall_mem_cons, meaning]
    by_cases hfirst : first.value < 2 ^ 64
    · by_cases hlast : last.value < 2 ^ 64
      · rw [if_pos hfirst, if_pos hlast, if_pos ⟨hfirst, hlast, by simp⟩]
        exact checkRange_eq htotal (by omega)
      · rw [if_pos hfirst, if_neg hlast, if_neg fun h => hlast h.2.1]
    · simp only [if_neg hfirst]
      exact (if_neg fun h => hfirst h.1).symm
  | onward first =>
    simp only [before, after, if_neg first.ne_nil, first.trim_text, parseUnsigned_digits, numbers,
      List.forall_mem_singleton, meaning]
    by_cases hfirst : first.value < 2 ^ 64
    · rw [if_pos hfirst, if_pos hfirst]
      exact checkRange_eq htotal (by omega)
    · rw [if_neg hfirst, if_neg hfirst]
  | suffix length =>
    simp only [before, after, length.trim_text, parseUnsigned_digits, numbers,
      List.forall_mem_singleton, meaning, if_true]
    by_cases hlength : length.value < 2 ^ 64
    · rw [if_pos hlength, if_pos hlength]
      by_cases hzero : length.value = 0
      · simp [hzero]
      · have hle : total - length.value = total - min length.value total := by omega
        simp only [if_neg hzero]
        rw [checkRange_eq htotal (by omega), if_pos (by omega), if_pos (by omega), hle]
    · rw [if_neg hlength, if_neg hlength]

end ByteRange

/-- **A byte range means what it says exactly if its numbers fit a machine word**, or the object is
empty. If they do not, and only then, the whole object is served. -/
theorem parseRange_eq_meaning (r : ByteRange) (total : ℕ) :
    (parseRange r.header total = r.meaning total ↔
      total = 0 ∨ ∀ n ∈ r.numbers, n.value < 2 ^ 64) ∧
    (parseRange r.header total ≠ .whole ↔ total = 0 ∨ ∀ n ∈ r.numbers, n.value < 2 ^ 64) := by
  have hne := r.meaning_ne_whole total
  by_cases htotal : total = 0
  · subst htotal
    have hzero : parseRange r.header 0 = .unsatisfiable := by
      obtain ⟨hstrip, hsplit⟩ := r.cut_header
      simp only [parseRange, hstrip, hsplit, if_true]
    rw [hzero, r.meaning_zero]
    exact ⟨iff_of_true rfl (.inl rfl), iff_of_true (fun h => by cases h) (.inl rfl)⟩
  · rw [ByteRange.parseRange_header htotal]
    by_cases hfit : ∀ n ∈ r.numbers, n.value < 2 ^ 64
    · rw [if_pos hfit]
      exact ⟨iff_of_true rfl (.inr hfit), iff_of_true hne (.inr hfit)⟩
    · rw [if_neg hfit]
      have hcond : ¬(total = 0 ∨ ∀ n ∈ r.numbers, n.value < 2 ^ 64) := by tauto
      exact ⟨iff_of_false hne.symm hcond, iff_of_false (not_not_intro rfl) hcond⟩

/-- A first byte past the end of any object: ten bytes are served whole, where the range has
none of them. -/
theorem parseRange_pastEnd :
    parseRange "bytes=18446744073709551616-".toList 10 = .whole ∧
      ∃ r : ByteRange, r.header = "bytes=18446744073709551616-".toList ∧
        r.meaning 10 = .unsatisfiable :=
  ⟨by decide +kernel,
    .onward ⟨"18446744073709551616".toList, by decide +kernel,
      List.all_eq_true.mp (by decide +kernel)⟩,
    by decide +kernel, by decide +kernel⟩

end OzoneRust
