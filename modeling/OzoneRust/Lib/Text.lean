import Mathlib.Algebra.Group.Nat.Hom
import OzoneRust.Lib.Rewrite

/-!
# Text

Text is a list of Unicode characters, kept as UTF-8 (`OzoneRust.Text.utf8`). Bytes are read
as text with each ill-formed part replaced by U+FFFD (`OzoneRust.Text.lossy`); well-formed
bytes give the text they stand for (`OzoneRust.Text.lossy_utf8`).

Further down are the operations of the standard library on text: trimming, splitting, and
reading a number.
-/

namespace OzoneRust

/-- Text. -/
abbrev Text := List Char

namespace Text

/-! ### UTF-8 -/

/-- The bytes of a text. -/
def utf8 (s : Text) : List UInt8 := s.flatMap String.utf8EncodeChar

/-- A continuation byte. -/
def isContinuation (b : UInt8) : Bool := 0x80 ≤ b && b ≤ 0xBF

/-- A second byte that can follow a first byte of three or four. -/
def secondOk (b b₂ : UInt8) : Bool :=
  (b == 0xE0 && 0xA0 ≤ b₂ && b₂ ≤ 0xBF) || (0xE1 ≤ b && b ≤ 0xEC && isContinuation b₂) ||
  (b == 0xED && 0x80 ≤ b₂ && b₂ ≤ 0x9F) || (0xEE ≤ b && b ≤ 0xEF && isContinuation b₂) ||
  (b == 0xF0 && 0x90 ≤ b₂ && b₂ ≤ 0xBF) || (0xF1 ≤ b && b ≤ 0xF3 && isContinuation b₂) ||
  (b == 0xF4 && 0x80 ≤ b₂ && b₂ ≤ 0x8F)

/-- How many bytes after the first belong to the ill-formed part at the head of some bytes:
those that could have been the beginning of a character. -/
def illFormed : List UInt8 → ℕ
  | b :: b₂ :: rest =>
    if !secondOk b b₂ then 0
    else if 0xF0 ≤ b && (rest.head?.any isContinuation) then 2 else 1
  | _ => 0

/-- One character of `String::from_utf8_lossy`. -/
def lossyRule (bs : List UInt8) : List Char × ℕ :=
  match bs.toByteArray.utf8DecodeChar? 0 with
  | some c => ([c], c.utf8Size - 1)
  | none => ([Char.ofNat 0xFFFD], illFormed bs)

/-- `String::from_utf8_lossy`. -/
def lossy (bs : List UInt8) : Text := Rewrite.rewrite lossyRule bs

/-- **Well-formed bytes are read as the text they stand for.** -/
theorem lossy_utf8 (s : Text) : lossy (utf8 s) = s := by
  have hchar : ∀ c ∈ s, ∀ rest, Rewrite.rewrite lossyRule (String.utf8EncodeChar c ++ rest) =
      [c] ++ Rewrite.rewrite lossyRule rest := by
    intro c _ rest
    refine Rewrite.rewrite_append String.utf8EncodeChar_ne_nil ?_
    rw [lossyRule, List.toByteArray_append, ByteArray.utf8DecodeChar?_utf8EncodeChar_append,
      String.length_utf8EncodeChar]
  rw [lossy, utf8, Rewrite.rewrite_flatMap hchar, List.flatMap_singleton']

/-- `str::from_utf8`: the text whose bytes these are, if there is one. -/
def ofUtf8 (bs : List UInt8) : Option Text := if utf8 (lossy bs) = bs then some (lossy bs) else none

theorem ofUtf8_utf8 (s : Text) : ofUtf8 (utf8 s) = some s := by
  rw [ofUtf8, lossy_utf8, if_pos rfl]

/-! ### ASCII -/

/-- The character of an ASCII byte. -/
def ofByte (b : UInt8) : Char := Char.ofNat b.toNat

theorem utf8_ofByte {b : UInt8} (hb : b < 128) : String.utf8EncodeChar (ofByte b) = [b] := by
  have hall : ∀ n < 128, String.utf8EncodeChar (Char.ofNat n) = [UInt8.ofNat n] := by decide
  have h := hall b.toNat (UInt8.lt_iff_toNat_lt.mp hb)
  rwa [UInt8.ofNat_toNat] at h

/-- ASCII bytes are their own UTF-8. -/
theorem utf8_map_ofByte {bs : List UInt8} (h : ∀ b ∈ bs, b < 128) : utf8 (bs.map ofByte) = bs := by
  induction bs with
  | nil => rfl
  | cons b bs ih =>
    have htail := ih fun b' hb' => h b' (List.mem_cons_of_mem b hb')
    have hhead := utf8_ofByte (h b List.mem_cons_self)
    rw [utf8] at htail
    rw [utf8, List.map_cons, List.flatMap_cons, htail, hhead, List.singleton_append]

/-! ### Splitting and trimming -/

/-- `char::is_whitespace`. -/
def isWhiteSpace (c : Char) : Bool :=
  (9 ≤ c.toNat && c.toNat ≤ 13) || c.toNat ∈ [0x20, 0x85, 0xA0, 0x1680] ||
    (0x2000 ≤ c.toNat && c.toNat ≤ 0x200A) || c.toNat ∈ [0x2028, 0x2029, 0x202F, 0x205F, 0x3000]

/-- `str::trim`. -/
def trim (s : Text) : Text :=
  ((s.dropWhile isWhiteSpace).reverse.dropWhile isWhiteSpace).reverse

theorem trim_eq_self {s : Text} (h : ∀ c ∈ s, isWhiteSpace c = false) : trim s = s := by
  have hdrop : ∀ {t : Text}, (∀ c ∈ t, isWhiteSpace c = false) → t.dropWhile isWhiteSpace = t := by
    intro t ht
    cases t with
    | nil => rfl
    | cons c t => exact List.dropWhile_cons_of_neg (by simp [ht c List.mem_cons_self])
  rw [trim, hdrop h, hdrop fun c hc => h c (List.mem_reverse.mp hc), List.reverse_reverse]

/-- `str::trim_start_matches` with a character. -/
def trimStartMatches (c : Char) (s : Text) : Text := s.dropWhile (· == c)

/-- `str::split_once` with a character. -/
def splitOnce (c : Char) (s : Text) : Option (Text × Text) := Rewrite.cut [c] s

theorem trimStartMatches_of_head {c : Char} {s : Text} (h : ∀ d ∈ s.head?, d ≠ c) :
    trimStartMatches c s = s := by
  cases s with
  | nil => rfl
  | cons d s =>
    have hd : d ≠ c := h d rfl
    exact List.dropWhile_cons_of_neg (by simpa using hd)

theorem splitOnce_append {c : Char} {s : Text} (h : c ∉ s) (t : Text) :
    splitOnce c (s ++ c :: t) = some (s, t) :=
  Rewrite.cut_append (List.cons_ne_nil c []) (Rewrite.avoids_of_not_mem h) t

/-- `str::strip_prefix`. -/
def stripPrefix (p s : Text) : Option Text := if p <+: s then some (s.drop p.length) else none

theorem stripPrefix_append (p s : Text) : stripPrefix p (p ++ s) = some s := by
  rw [stripPrefix, if_pos (List.prefix_append p s), List.drop_left]

/-- `str::split_whitespace`. -/
def splitWhitespace (s : Text) : List Text := (s.splitOnP isWhiteSpace).filter fun t => !t.isEmpty

theorem splitWhitespace_space (rest : Text) :
    splitWhitespace (' ' :: rest) = splitWhitespace rest := by
  have hsplit : List.splitOnP isWhiteSpace (' ' :: rest) =
      List.splitOnP isWhiteSpace [] ++ List.splitOnP isWhiteSpace rest :=
    List.splitOnP_append_cons [] rest rfl
  rw [splitWhitespace, hsplit]
  rfl

theorem splitWhitespace_word {t : Text} (ht : t ≠ []) (h : ∀ c ∈ t, isWhiteSpace c = false) :
    splitWhitespace t = [t] := by
  rw [splitWhitespace, List.splitOnP_eq_singleton h]
  simpa using ht

theorem splitWhitespace_append {t : Text} (ht : t ≠ []) (h : ∀ c ∈ t, isWhiteSpace c = false)
    (rest : Text) : splitWhitespace (t ++ ' ' :: rest) = t :: splitWhitespace rest := by
  have hword := splitWhitespace_word ht h
  rw [splitWhitespace] at hword
  rw [splitWhitespace, List.splitOnP_append_cons _ _ rfl, List.filter_append, hword]
  rfl

/-! ### Numbers -/

/-- The value of a decimal digit. -/
def digit (c : Char) : Option ℕ := if c.isDigit then some (c.toNat - 48) else none

/-- `str::parse` for an unsigned type with values below `bound`. One leading `+` is allowed. -/
def parseUnsigned (bound : ℕ) (s : Text) : Option ℕ :=
  let digits := match s with
    | '+' :: rest => rest
    | s => s
  if digits = [] then none
  else
    digits.foldl (fun acc c => do
      let n := (← acc) * 10 + (← digit c)
      if n < bound then some n else none) (some 0)

/-- A number as it is written: one decimal digit or more. -/
structure Digits where
  /-- The digits, the highest first. -/
  text : Text
  ne_nil : text ≠ []
  isDigit : ∀ c ∈ text, c.isDigit = true

/-- The number, however many digits it has. -/
def Digits.value (d : Digits) : ℕ := Nat.ofDigitChars 10 d.text 0

theorem toNat_of_isDigit {c : Char} (h : c.isDigit = true) : 48 ≤ c.toNat ∧ c.toNat ≤ 57 := by
  have hval : 48 ≤ c.val ∧ c.val ≤ 57 := by simpa [Char.isDigit] using h
  exact ⟨UInt32.le_iff_toNat_le.mp hval.1, UInt32.le_iff_toNat_le.mp hval.2⟩

theorem isWhiteSpace_of_isDigit {c : Char} (h : c.isDigit = true) : isWhiteSpace c = false := by
  have hc := toNat_of_isDigit h
  simp [isWhiteSpace]
  omega

theorem Digits.trim_text (d : Digits) : trim d.text = d.text :=
  trim_eq_self fun c hc => isWhiteSpace_of_isDigit (d.isDigit c hc)

theorem Digits.not_mem (d : Digits) {c : Char} (h : c.isDigit = false) : c ∉ d.text := by
  intro hc
  rw [d.isDigit c hc] at h
  cases h

theorem le_ofDigitChars : ∀ (s : Text) (n : ℕ), n ≤ Nat.ofDigitChars 10 s n
  | [], _ => Nat.le_refl _
  | c :: s, n => by
    have hrest := le_ofDigitChars s (10 * n + (c.toNat - '0'.toNat))
    rw [Nat.ofDigitChars_cons]
    omega

/-- **A number is read if it is in range.** -/
theorem parseUnsigned_digits (bound : ℕ) (d : Digits) :
    parseUnsigned bound d.text = if d.value < bound then some d.value else none := by
  have hfold : ∀ (s : Text) (n : ℕ), (∀ c ∈ s, c.isDigit = true) → s ≠ [] ∨ n < bound →
      s.foldl (fun acc c => do
        let n := (← acc) * 10 + (← digit c)
        if n < bound then some n else none) (some n) =
        if Nat.ofDigitChars 10 s n < bound then some (Nat.ofDigitChars 10 s n) else none := by
    intro s
    induction s with
    | nil => exact fun n _ hn => (if_pos (hn.resolve_left fun h => h rfl)).symm
    | cons c s ih =>
      intro n hs _
      have hdigit : digit c = some (c.toNat - '0'.toNat) := if_pos (hs c List.mem_cons_self)
      rw [List.foldl_cons, Nat.ofDigitChars_cons, hdigit, Nat.mul_comm 10]
      by_cases hlt : n * 10 + (c.toNat - '0'.toNat) < bound
      · simp only [Option.bind_eq_bind, Option.bind_some, if_pos hlt]
        exact ih _ (fun c hc => hs c (List.mem_cons_of_mem _ hc)) (.inr hlt)
      · -- out of range stays out of range
        have hle := le_ofDigitChars s (n * 10 + (c.toNat - '0'.toNat))
        have hnone : ∀ t : Text, t.foldl (fun acc c => do
            let n := (← acc) * 10 + (← digit c)
            if n < bound then some n else none) none = none := by
          intro t
          induction t with
          | nil => rfl
          | cons c t ih => exact ih
        simp only [Option.bind_eq_bind, Option.bind_some, if_neg hlt]
        rw [if_neg (by omega)]
        exact hnone s
  unfold parseUnsigned
  split
  · next heq => exact absurd (heq ▸ List.mem_cons_self) (d.not_mem (c := '+') rfl)
  · simp only [if_neg d.ne_nil]
    exact hfold d.text 0 d.isDigit (.inl d.ne_nil)

/-- `str::parse` for `i64`. -/
def parseI64 : Text → Option ℤ
  | '-' :: rest =>
    if rest.head? = some '+' then none else (parseUnsigned (2 ^ 63 + 1) rest).map fun n => -(n : ℤ)
  | s => (parseUnsigned (2 ^ 63) s).map fun n => (n : ℤ)

theorem parseI64_digits (d : Digits) (h : d.value < 2 ^ 63) : parseI64 d.text = some d.value := by
  unfold parseI64
  split
  · next heq => exact absurd (heq ▸ List.mem_cons_self) (d.not_mem (c := '-') rfl)
  · rw [parseUnsigned_digits, if_pos h]
    rfl

/-- A number with at least `w` digits. -/
def padded (w n : ℕ) : Digits where
  text := List.replicate (w - (Nat.toDigits 10 n).length) '0' ++ Nat.toDigits 10 n
  ne_nil := by simp [Nat.toDigits_ne_nil]
  isDigit c hc := by
    rcases List.mem_append.mp hc with hc | hc
    · rw [List.eq_of_mem_replicate hc]
      rfl
    · exact Nat.isDigit_of_mem_toDigits (by decide) (by decide) hc

theorem value_padded (w n : ℕ) : (padded w n).value = n := by
  have hzeros : ∀ k, Nat.ofDigitChars 10 (List.replicate k '0') 0 = 0 := by
    intro k
    induction k with
    | zero => rfl
    | succ k ih =>
      rw [List.replicate_succ, Nat.ofDigitChars_cons]
      exact ih
  rw [Digits.value, padded, Nat.ofDigitChars_append, hzeros,
    Nat.ofDigitChars_toDigits (by decide) (by decide)]

/-- A number formatted with leading zeros to width `w`, its sign included. -/
def zeroPadded (w : ℕ) (x : ℤ) : Text :=
  if x < 0 then '-' :: (padded (w - 1) x.natAbs).text else (padded w x.natAbs).text

theorem zeroPadded_natCast (w n : ℕ) : zeroPadded w n = (padded w n).text := by
  rw [zeroPadded, if_neg (by omega)]
  rfl

/-- `str::eq_ignore_ascii_case`. -/
def eqIgnoreAsciiCase (s t : Text) : Bool := s.map Char.toLower = t.map Char.toLower

end Text

end OzoneRust
